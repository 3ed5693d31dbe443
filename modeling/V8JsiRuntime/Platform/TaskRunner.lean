import Mathlib.Algebra.Order.Field.Rat
import V8JsiRuntime.Lib.CondVar
import V8JsiRuntime.Lib.Positions
import V8JsiRuntime.Lib.Run

/-!
# TaskRunner — the threads of `WorkerThreadsTaskRunner`

A worker thread and a timer thread, any number of threads that post tasks, and the one that calls the
destructor.  A step is taken between two points at which another thread can see a difference: a
mutex is taken, a predicate evaluated, a thread put to sleep, a notification given.
-/

namespace V8JsiRuntime
namespace Platform

open Lib

/-- A `v8::Task`, with the deadline it was posted with if it was posted with a delay. -/
structure Task where
  id : Nat
  deadline : Option ℚ
  deriving DecidableEq

/-- `DelayedEntry`. -/
structure DelayedEntry where
  first : ℚ
  second : Task
  deriving DecidableEq

/-- `DelayedEntryCompare`. -/
def delayedEntryCompare (left right : DelayedEntry) : Bool :=
  left.first > right.first

/-- The entry can be `top()` of a priority queue with these entries. -/
def IsTop (queue : List DelayedEntry) (entry : DelayedEntry) : Prop :=
  ∀ other ∈ queue, delayedEntryCompare entry other = false

instance (queue : List DelayedEntry) (entry : DelayedEntry) : Decidable (IsTop queue entry) :=
  inferInstanceAs (Decidable (∀ other ∈ queue, _))

/-- Where the thread of `WorkerFunc` is. -/
inductive WorkerPlace
  /-- In the wait on `tasks_available_cond_`. -/
  | waiting (place : WaitPlace)
  /-- In `nexttask->Run()`. -/
  | running (nexttask : Task)
  /-- Behind the loop. -/
  | stopping
  /-- `worker_stopped_` is set. -/
  | notifying
  | stopped
  deriving DecidableEq

/-- Where the thread of `TimerFunc` is; `new_ready_tasks` is kept with the deadlines. -/
inductive TimerPlace
  /-- In the wait on `delayed_tasks_available_cond_`. -/
  | waiting (place : WaitPlace)
  /-- At the beginning of the loop over `delayed_task_queue_`. -/
  | scan (newReadyTasks : List DelayedEntry)
  /-- Behind it, before `delayed_lock.unlock()`. -/
  | scanned (newReadyTasks : List DelayedEntry)
  /-- Before `queue_access_mutex_` is taken. -/
  | deliver (newReadyTasks : List DelayedEntry)
  /-- The tasks are pushed, and the mutex is still held. -/
  | delivered
  /-- Before `delayed_task_queue_.empty()` is looked at. -/
  | recheck
  | sleeping
  /-- Behind the loop. -/
  | stopping
  /-- `timer_stopped_` is set. -/
  | notifying
  | stopped
  deriving DecidableEq

/-- Where the thread of the destructor is. -/
inductive DestructorPlace
  | alive
  /-- `stop_requested_` is set. -/
  | notifyWorker
  | notifyTimer
  /-- In the wait on `worker_stopped_cond_`. -/
  | waitWorker (place : WaitPlace)
  /-- In the wait on `timer_stopped_cond_`. -/
  | waitTimer (place : WaitPlace)
  | destroyed
  deriving DecidableEq

/-- A call of a thread that posts. -/
inductive PostCall
  /-- `PostTask` has pushed its task. -/
  | notify
  /-- `PostDelayedTask` has read the clock. -/
  | timed (deadline : ℚ)
  deriving DecidableEq

structure Runner where
  /-- The clock, in nanoseconds. -/
  now : Int
  delayedTaskQueue : List DelayedEntry
  tasksQueue : List Task
  stopRequested : Bool
  workerStopped : Bool
  timerStopped : Bool
  worker : WorkerPlace
  timer : TimerPlace
  destructor : DestructorPlace
  calls : List PostCall
  /-- All tasks, in the order in which they were put into a queue. -/
  posted : List Task
  /-- The tasks that entered `tasks_queue_`, and those that left it. -/
  entered : List Task
  left : List Task
  finished : List Task
  /-- What the timer has read from the clock. -/
  readings : List Int

namespace WorkerPlace

/-- `queue_access_mutex_`. -/
def holdsQueue : WorkerPlace → Bool
  | waiting place => place.holds
  | _ => false

def notified : WorkerPlace → WorkerPlace
  | waiting place => waiting place.notifyAll
  | place => place

/-- The task that is in `Run()`. -/
def task : WorkerPlace → List Task
  | running nexttask => [nexttask]
  | _ => []

end WorkerPlace

namespace TimerPlace

def holdsQueue : TimerPlace → Bool
  | delivered => true
  | _ => false

/-- `delayed_queue_access_mutex_`. -/
def holdsDelayed : TimerPlace → Bool
  | waiting place => place.holds
  | scan _ | scanned _ => true
  | _ => false

def notified : TimerPlace → TimerPlace
  | waiting place => waiting place.notifyAll
  | place => place

def newReadyTasks : TimerPlace → List DelayedEntry
  | scan newReadyTasks | scanned newReadyTasks | deliver newReadyTasks => newReadyTasks
  | _ => []

end TimerPlace

/-- The steps of the timer that change nothing but its place. -/
inductive TimerPlace.Moves : TimerPlace → TimerPlace → Prop
  | stop : Moves (.waiting .returned) .stopping
  | retry : Moves (.waiting .returned) (.waiting .lock)
  | scan : Moves (.waiting .returned) (.scan [])
  | nothing : Moves (.scanned []) .recheck
  | deliver (newReadyTasks : List DelayedEntry) :
      Moves (.scanned newReadyTasks) (.deliver newReadyTasks)
  | again : Moves .recheck (.waiting .lock)
  | sleep : Moves .recheck .sleeping
  | slept : Moves .sleeping (.waiting .lock)

namespace DestructorPlace

/-- After a notification on `worker_stopped_cond_`. -/
def notifiedWorker : DestructorPlace → DestructorPlace
  | waitWorker place => waitWorker place.notifyAll
  | place => place

/-- After one on `timer_stopped_cond_`. -/
def notifiedTimer : DestructorPlace → DestructorPlace
  | waitTimer place => waitTimer place.notifyAll
  | place => place

/-- After a wake-up that nobody gave. -/
def notified (place : DestructorPlace) : DestructorPlace :=
  place.notifiedWorker.notifiedTimer

end DestructorPlace

inductive RunnerLabel
  /-- Time goes by. -/
  | tick (n : Nat)
  /-- A thread calls `PostTask`, up to the unlock. -/
  | postTask
  /-- A thread calls `PostDelayedTask`, up to the reading of the clock. -/
  | postDelayedTask (delayInSeconds : ℚ)
  /-- The rest of such a call. -/
  | call (k : Nat)
  | worker
  /-- The entry at `k` is the one at the top, if the step looks there. -/
  | timer (k : Nat)
  | destructor
  /-- Spurious wake-ups. -/
  | wakeWorker
  | wakeTimer
  | wakeDestructor
  deriving DecidableEq

namespace Runner

def init (now : Int) : Runner where
  now := now
  delayedTaskQueue := []
  tasksQueue := []
  stopRequested := false
  workerStopped := false
  timerStopped := false
  worker := .waiting .lock
  timer := .waiting .lock
  destructor := .alive
  calls := []
  posted := []
  entered := []
  left := []
  finished := []
  readings := []

/-- `PostTask`, with the mutex. -/
def postTask (s : Runner) : Option Runner :=
  if s.worker.holdsQueue || s.timer.holdsQueue then
    none
  else
    some { s with
      tasksQueue := s.tasksQueue ++ [⟨s.posted.length, none⟩]
      posted := s.posted ++ [⟨s.posted.length, none⟩]
      entered := s.entered ++ [⟨s.posted.length, none⟩]
      -- `notify_all` comes after the mutex is released
      calls := .notify :: s.calls }

def postDelayedTask (s : Runner) (delayInSeconds : ℚ) : Option Runner :=
  if delayInSeconds = 0 then
    s.postTask
  else
    -- the clock is read before the mutex is taken
    some { s with calls := .timed (s.now + delayInSeconds * 1000000000) :: s.calls }

/-- The rest of a call; in `PostDelayedTask` the notification is given with the mutex. -/
def call (s : Runner) (k : Nat) : Option Runner :=
  match s.calls[k]? with
  | none => none
  | some .notify => some { s with
      worker := s.worker.notified
      calls := s.calls.eraseIdx k }
  | some (.timed deadline) =>
      -- the mutex of the delayed tasks is taken, kept for the notification, and released
      if s.timer.holdsDelayed then
        none
      else
        some { s with
          delayedTaskQueue := s.delayedTaskQueue ++
            [⟨deadline, ⟨s.posted.length, some deadline⟩⟩]
          posted := s.posted ++ [⟨s.posted.length, some deadline⟩]
          timer := s.timer.notified
          calls := s.calls.eraseIdx k }

def workerFunc (s : Runner) : Option Runner :=
  match s.worker with
  | .waiting .returned =>
      if s.stopRequested then
        some { s with worker := .stopping }
      else
        match s.tasksQueue with
        | [] => some { s with worker := .waiting .lock }
        | nexttask :: tasksQueue => some { s with
            tasksQueue := tasksQueue
            left := s.left ++ [nexttask]
            worker := .running nexttask }
  | .waiting place =>
      -- the mutex is free for the worker unless the timer delivers
      (place.step (!s.timer.holdsQueue) (s.tasksQueue ≠ [] || s.stopRequested)).map fun place =>
        { s with worker := .waiting place }
  | .running nexttask => some { s with
      finished := s.finished ++ [nexttask]
      worker := .waiting .lock }
  | .stopping => some { s with
      workerStopped := true
      worker := .notifying }
  | .notifying => some { s with
      destructor := s.destructor.notifiedWorker
      worker := .stopped }
  | .stopped => none

/-- One round of the loop in `TimerFunc`, with the entry that is at the top. -/
def scan (s : Runner) (newReadyTasks : List DelayedEntry) (k : Nat) : Option Runner :=
  match s.delayedTaskQueue[k]? with
  | none => none
  | some delayedEntry =>
      if IsTop s.delayedTaskQueue delayedEntry then
        if delayedEntry.first < s.now then
          -- the loop ends with the last entry
          let rest := s.delayedTaskQueue.eraseIdx k
          some { s with
            delayedTaskQueue := rest
            timer := if rest = [] then .scanned (newReadyTasks ++ [delayedEntry])
              else .scan (newReadyTasks ++ [delayedEntry])
            readings := s.readings ++ [s.now] }
        else
          -- the rest are not ready
          some { s with
            timer := .scanned newReadyTasks
            readings := s.readings ++ [s.now] }
      else
        none

def timerFunc (s : Runner) (k : Nat) : Option Runner :=
  match s.timer with
  | .waiting .returned =>
      if s.stopRequested then
        some { s with timer := .stopping }
      else if s.delayedTaskQueue = [] then
        some { s with timer := .waiting .lock }
      else
        some { s with timer := .scan [] }
  | .waiting place =>
      (place.step true (s.delayedTaskQueue ≠ [] || s.stopRequested)).map fun place =>
        { s with timer := .waiting place }
  | .scan newReadyTasks => s.scan newReadyTasks k
  | .scanned [] => some { s with timer := .recheck }
  | .scanned newReadyTasks => some { s with timer := .deliver newReadyTasks }
  | .deliver newReadyTasks =>
      -- `queue_access_mutex_` is taken and all tasks are pushed
      if s.worker.holdsQueue then
        none
      else
        some { s with
          tasksQueue := s.tasksQueue ++ newReadyTasks.map (·.second)
          entered := s.entered ++ newReadyTasks.map (·.second)
          timer := .delivered }
  -- the notification is given with the mutex
  | .delivered => some { s with
      worker := s.worker.notified
      timer := .recheck }
  | .recheck =>
      -- without the mutex, `delayed_task_queue_` is looked at once more
      if s.delayedTaskQueue = [] then
        some { s with timer := .waiting .lock }
      else
        some { s with timer := .sleeping }
  | .sleeping => some { s with timer := .waiting .lock }
  | .stopping => some { s with
      timerStopped := true
      timer := .notifying }
  | .notifying => some { s with
      destructor := s.destructor.notifiedTimer
      timer := .stopped }
  | .stopped => none

/-- The destructor, which no call that posts may be concurrent with. -/
def destroy (s : Runner) : Option Runner :=
  match s.destructor with
  | .alive =>
      if s.calls = [] then
        some { s with
          stopRequested := true
          destructor := .notifyWorker }
      else
        none
  -- both notifications are given without a mutex
  | .notifyWorker => some { s with
      worker := s.worker.notified
      destructor := .notifyTimer }
  | .notifyTimer => some { s with
      timer := s.timer.notified
      destructor := .waitWorker .lock }
  | .waitWorker .returned => some { s with destructor := .waitTimer .lock }
  | .waitWorker place =>
      -- nobody else takes `worker_stopped_mutex_`
      (place.step true s.workerStopped).map fun place => { s with destructor := .waitWorker place }
  | .waitTimer .returned => some { s with destructor := .destroyed }
  | .waitTimer place =>
      (place.step true s.timerStopped).map fun place => { s with destructor := .waitTimer place }
  | .destroyed => none

def step (s : Runner) : RunnerLabel → Option Runner
  | .tick n => some { s with now := s.now + n }
  | .postTask => if s.destructor = .alive then s.postTask else none
  | .postDelayedTask delayInSeconds =>
      if s.destructor = .alive then s.postDelayedTask delayInSeconds else none
  | .call k => s.call k
  | .worker => s.workerFunc
  | .timer k => s.timerFunc k
  | .destructor => s.destroy
  | .wakeWorker => some { s with worker := s.worker.notified }
  | .wakeTimer => some { s with timer := s.timer.notified }
  | .wakeDestructor => some { s with destructor := s.destructor.notified }

/-! ## What a step can do -/

/-- The task that a call asks for when the clock shows `now`, by its deadline. -/
def request (now : Int) : RunnerLabel → Option (Option ℚ)
  | .postTask => some none
  | .postDelayedTask delayInSeconds =>
      if delayInSeconds = 0 then some none else some (some (now + delayInSeconds * 1000000000))
  | _ => none

/-- The steps, each with what it needs. -/
inductive Transition (s : Runner) : RunnerLabel → Runner → Prop
  | tick (n : Nat) : Transition s (.tick n) { s with now := s.now + n }
  | postTask {label : RunnerLabel} (hrequest : request s.now label = some none) :
      Transition s label { s with
        tasksQueue := s.tasksQueue ++ [⟨s.posted.length, none⟩]
        posted := s.posted ++ [⟨s.posted.length, none⟩]
        entered := s.entered ++ [⟨s.posted.length, none⟩]
        calls := .notify :: s.calls }
  | readClock {label : RunnerLabel} (deadline : ℚ)
      (hrequest : request s.now label = some (some deadline)) :
      Transition s label { s with calls := .timed deadline :: s.calls }
  | notifyTask (k : Nat) (hcall : s.calls[k]? = some .notify) : Transition s (.call k) { s with
      worker := s.worker.notified
      calls := s.calls.eraseIdx k }
  | postDelayedTask (k : Nat) (deadline : ℚ) (hcall : s.calls[k]? = some (.timed deadline))
      (hfree : s.timer.holdsDelayed = false) : Transition s (.call k) { s with
        delayedTaskQueue := s.delayedTaskQueue ++ [⟨deadline, ⟨s.posted.length, some deadline⟩⟩]
        posted := s.posted ++ [⟨s.posted.length, some deadline⟩]
        timer := s.timer.notified
        calls := s.calls.eraseIdx k }
  | workerWait (place place' : WaitPlace) (hworker : s.worker = .waiting place)
      (hstep : place.step (!s.timer.holdsQueue) (s.tasksQueue ≠ [] || s.stopRequested) =
        some place') : Transition s .worker { s with worker := .waiting place' }
  | workerRetry (hworker : s.worker = .waiting .returned) :
      Transition s .worker { s with worker := .waiting .lock }
  | workerStart (nexttask : Task) (tasksQueue : List Task)
      (hworker : s.worker = .waiting .returned) (hqueue : s.tasksQueue = nexttask :: tasksQueue) :
      Transition s .worker { s with
        tasksQueue := tasksQueue
        left := s.left ++ [nexttask]
        worker := .running nexttask }
  | workerFinish (nexttask : Task) (hworker : s.worker = .running nexttask) :
      Transition s .worker { s with
        finished := s.finished ++ [nexttask]
        worker := .waiting .lock }
  | workerBreak (hworker : s.worker = .waiting .returned) :
      Transition s .worker { s with worker := .stopping }
  | workerStopped (hworker : s.worker = .stopping) : Transition s .worker { s with
      workerStopped := true
      worker := .notifying }
  | workerNotify (hworker : s.worker = .notifying) : Transition s .worker { s with
      destructor := s.destructor.notifiedWorker
      worker := .stopped }
  | timerWait (k : Nat) (place place' : WaitPlace) (htimer : s.timer = .waiting place)
      (hstep : place.step true (s.delayedTaskQueue ≠ [] || s.stopRequested) = some place') :
      Transition s (.timer k) { s with timer := .waiting place' }
  /-- The entry at the top is due. -/
  | timerTake (k : Nat) (newReadyTasks before : List DelayedEntry) (entry : DelayedEntry)
      (after : List DelayedEntry) (htimer : s.timer = .scan newReadyTasks)
      (hqueue : s.delayedTaskQueue = before ++ entry :: after)
      (htop : IsTop s.delayedTaskQueue entry) (hdue : entry.first < s.now) :
      Transition s (.timer k) { s with
        delayedTaskQueue := before ++ after
        timer := if before ++ after = [] then .scanned (newReadyTasks ++ [entry])
          else .scan (newReadyTasks ++ [entry])
        readings := s.readings ++ [s.now] }
  /-- It is not. -/
  | timerLook (k : Nat) (newReadyTasks : List DelayedEntry) (entry : DelayedEntry)
      (htimer : s.timer = .scan newReadyTasks) (hmem : entry ∈ s.delayedTaskQueue)
      (htop : IsTop s.delayedTaskQueue entry) (hnot : s.now ≤ entry.first) :
      Transition s (.timer k) { s with
        timer := .scanned newReadyTasks
        readings := s.readings ++ [s.now] }
  | timerDeliver (k : Nat) (newReadyTasks : List DelayedEntry)
      (htimer : s.timer = .deliver newReadyTasks) :
      Transition s (.timer k) { s with
        tasksQueue := s.tasksQueue ++ newReadyTasks.map (·.second)
        entered := s.entered ++ newReadyTasks.map (·.second)
        timer := .delivered }
  | timerDelivered (k : Nat) (htimer : s.timer = .delivered) : Transition s (.timer k) { s with
      worker := s.worker.notified
      timer := .recheck }
  /-- The timer goes on, with the tasks that it has. -/
  | timerMove (k : Nat) (place : TimerPlace) (hmove : s.timer.Moves place) :
      Transition s (.timer k) { s with timer := place }
  | timerStopped (k : Nat) (htimer : s.timer = .stopping) : Transition s (.timer k) { s with
      timerStopped := true
      timer := .notifying }
  | timerNotify (k : Nat) (htimer : s.timer = .notifying) : Transition s (.timer k) { s with
      destructor := s.destructor.notifiedTimer
      timer := .stopped }
  | destroy (hdestructor : s.destructor = .alive) : Transition s .destructor { s with
      stopRequested := true
      destructor := .notifyWorker }
  | notifyWorker (hdestructor : s.destructor = .notifyWorker) : Transition s .destructor { s with
      worker := s.worker.notified
      destructor := .notifyTimer }
  | notifyTimer (hdestructor : s.destructor = .notifyTimer) : Transition s .destructor { s with
      timer := s.timer.notified
      destructor := .waitWorker .lock }
  | waitWorker (place place' : WaitPlace) (hdestructor : s.destructor = .waitWorker place)
      (hstep : place.step true s.workerStopped = some place') :
      Transition s .destructor { s with destructor := .waitWorker place' }
  | waitedWorker (hdestructor : s.destructor = .waitWorker .returned) :
      Transition s .destructor { s with destructor := .waitTimer .lock }
  | waitTimer (place place' : WaitPlace) (hdestructor : s.destructor = .waitTimer place)
      (hstep : place.step true s.timerStopped = some place') :
      Transition s .destructor { s with destructor := .waitTimer place' }
  | waitedTimer (hdestructor : s.destructor = .waitTimer .returned) :
      Transition s .destructor { s with destructor := .destroyed }
  | wakeWorker : Transition s .wakeWorker { s with worker := s.worker.notified }
  | wakeTimer : Transition s .wakeTimer { s with timer := s.timer.notified }
  | wakeDestructor : Transition s .wakeDestructor { s with destructor := s.destructor.notified }

variable {s t : Runner}

theorem transition_postTask {label : RunnerLabel} (hrequest : request s.now label = some none)
    (h : s.postTask = some t) : s.Transition label t := by
  unfold Runner.postTask at h
  split at h
  · cases h
  · obtain rfl := Option.some.inj h
    exact .postTask hrequest

theorem transition_call {k : Nat} (h : s.call k = some t) : s.Transition (.call k) t := by
  unfold Runner.call at h
  split at h
  · cases h
  · rename_i hcall
    obtain rfl := Option.some.inj h
    exact .notifyTask k hcall
  · rename_i hcall
    split at h
    · cases h
    · rename_i hfree
      obtain rfl := Option.some.inj h
      exact .postDelayedTask k _ hcall (Bool.eq_false_iff.2 hfree)

theorem transition_workerFunc (h : s.workerFunc = some t) : s.Transition .worker t := by
  unfold workerFunc at h
  split at h
  · rename_i hworker
    split at h
    · obtain rfl := Option.some.inj h
      exact .workerBreak hworker
    · split at h
      · obtain rfl := Option.some.inj h
        exact .workerRetry hworker
      · rename_i hqueue
        obtain rfl := Option.some.inj h
        exact .workerStart _ _ hworker hqueue
  · rename_i hworker
    obtain ⟨place', hstep, rfl⟩ := Option.map_eq_some_iff.1 h
    exact .workerWait _ place' hworker hstep
  · rename_i hworker
    obtain rfl := Option.some.inj h
    exact .workerFinish _ hworker
  · rename_i hworker
    obtain rfl := Option.some.inj h
    exact .workerStopped hworker
  · rename_i hworker
    obtain rfl := Option.some.inj h
    exact .workerNotify hworker
  · cases h

theorem transition_scan {newReadyTasks : List DelayedEntry} {k : Nat}
    (htimer : s.timer = .scan newReadyTasks) (h : s.scan newReadyTasks k = some t) :
    s.Transition (.timer k) t := by
  unfold scan at h
  split at h
  · cases h
  · rename_i entry hentry
    obtain ⟨before, after, hsplit, herase, _⟩ := exists_split hentry
    split at h
    · rename_i htop
      split at h
      · rename_i hdue
        obtain rfl := Option.some.inj h
        rw [herase]
        exact .timerTake k newReadyTasks before entry after htimer hsplit htop hdue
      · rename_i hdue
        obtain rfl := Option.some.inj h
        exact .timerLook k newReadyTasks entry htimer (List.mem_of_getElem? hentry) htop
          (not_lt.1 hdue)
    · cases h

theorem transition_timerFunc {k : Nat} (h : s.timerFunc k = some t) :
    s.Transition (.timer k) t := by
  unfold timerFunc at h
  split at h
  · rename_i htimer
    split at h
    · obtain rfl := Option.some.inj h
      exact .timerMove k _ (htimer ▸ .stop)
    · split at h
      · obtain rfl := Option.some.inj h
        exact .timerMove k _ (htimer ▸ .retry)
      · obtain rfl := Option.some.inj h
        exact .timerMove k _ (htimer ▸ .scan)
  · rename_i htimer
    obtain ⟨place', hstep, rfl⟩ := Option.map_eq_some_iff.1 h
    exact .timerWait k _ place' htimer hstep
  · rename_i htimer
    exact transition_scan htimer h
  · rename_i htimer
    obtain rfl := Option.some.inj h
    exact .timerMove k _ (htimer ▸ .nothing)
  · rename_i htimer
    obtain rfl := Option.some.inj h
    exact .timerMove k _ (htimer ▸ .deliver _)
  · rename_i htimer
    split at h
    · cases h
    · obtain rfl := Option.some.inj h
      exact .timerDeliver k _ htimer
  · rename_i htimer
    obtain rfl := Option.some.inj h
    exact .timerDelivered k htimer
  · rename_i htimer
    split at h
    · obtain rfl := Option.some.inj h
      exact .timerMove k _ (htimer ▸ .again)
    · obtain rfl := Option.some.inj h
      exact .timerMove k _ (htimer ▸ .sleep)
  · rename_i htimer
    obtain rfl := Option.some.inj h
    exact .timerMove k _ (htimer ▸ .slept)
  · rename_i htimer
    obtain rfl := Option.some.inj h
    exact .timerStopped k htimer
  · rename_i htimer
    obtain rfl := Option.some.inj h
    exact .timerNotify k htimer
  · cases h

theorem transition_destroy (h : s.destroy = some t) : s.Transition .destructor t := by
  unfold Runner.destroy at h
  split at h
  · rename_i hdestructor
    split at h
    · obtain rfl := Option.some.inj h
      exact .destroy hdestructor
    · cases h
  · rename_i hdestructor
    obtain rfl := Option.some.inj h
    exact .notifyWorker hdestructor
  · rename_i hdestructor
    obtain rfl := Option.some.inj h
    exact .notifyTimer hdestructor
  · rename_i hdestructor
    obtain rfl := Option.some.inj h
    exact .waitedWorker hdestructor
  · rename_i hdestructor
    obtain ⟨place', hstep, rfl⟩ := Option.map_eq_some_iff.1 h
    exact .waitWorker _ place' hdestructor hstep
  · rename_i hdestructor
    obtain rfl := Option.some.inj h
    exact .waitedTimer hdestructor
  · rename_i hdestructor
    obtain ⟨place', hstep, rfl⟩ := Option.map_eq_some_iff.1 h
    exact .waitTimer _ place' hdestructor hstep
  · cases h

theorem transition_of_step {label : RunnerLabel} (h : s.step label = some t) :
    s.Transition label t := by
  cases label with
  | tick n =>
      obtain rfl := Option.some.inj h
      exact .tick n
  | postTask =>
      rw [step] at h
      split at h
      · exact transition_postTask rfl h
      · cases h
  | postDelayedTask delayInSeconds =>
      rw [step] at h
      split at h
      · rw [Runner.postDelayedTask] at h
        split at h
        · rename_i hdelay
          exact transition_postTask (if_pos hdelay) h
        · rename_i hdelay
          obtain rfl := Option.some.inj h
          exact .readClock _ (if_neg hdelay)
      · cases h
  | call k => exact transition_call h
  | worker => exact transition_workerFunc h
  | timer k => exact transition_timerFunc h
  | destructor => exact transition_destroy h
  | wakeWorker =>
      obtain rfl := Option.some.inj h
      exact .wakeWorker
  | wakeTimer =>
      obtain rfl := Option.some.inj h
      exact .wakeTimer
  | wakeDestructor =>
      obtain rfl := Option.some.inj h
      exact .wakeDestructor

end Runner

end Platform
end V8JsiRuntime
