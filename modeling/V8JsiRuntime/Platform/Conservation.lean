import Mathlib.Data.List.Nodup
import V8JsiRuntime.Platform.TaskRunner

/-!
# Conservation — every task is somewhere, and runs at most once

The tasks of a runner are moved between a few lists; a `Ledger` keeps these and nothing else.  Every
step of the threads is one of the moves of the ledger, and the moves keep its account.
-/

namespace V8JsiRuntime
namespace Platform

open Lib

/-- Where the tasks are, and what has happened to them. -/
structure Ledger where
  delayed : List DelayedEntry
  ready : List DelayedEntry
  queue : List Task
  running : List Task
  finished : List Task
  posted : List Task
  entered : List Task
  left : List Task
  readings : List Int

namespace Ledger

/-- The task that is posted next. -/
def fresh (l : Ledger) (deadline : Option ℚ) : Task :=
  ⟨l.posted.length, deadline⟩

/-- What may happen to the tasks. -/
inductive Move (l : Ledger) : Ledger → Prop
  | stay : Move l l
  | post : Move l { l with
      queue := l.queue ++ [l.fresh none]
      posted := l.posted ++ [l.fresh none]
      entered := l.entered ++ [l.fresh none] }
  | postDelayed (deadline : ℚ) : Move l { l with
      delayed := l.delayed ++ [⟨deadline, l.fresh (some deadline)⟩]
      posted := l.posted ++ [l.fresh (some deadline)] }
  /-- A look at the clock. -/
  | read (reading : Int) : Move l { l with readings := l.readings ++ [reading] }
  /-- An entry whose deadline is before the reading becomes ready. -/
  | take (before after : List DelayedEntry) (entry : DelayedEntry) (reading : Int)
      (hdelayed : l.delayed = before ++ entry :: after) (hdue : entry.first < reading) :
      Move l { l with
        delayed := before ++ after
        ready := l.ready ++ [entry]
        readings := l.readings ++ [reading] }
  | deliver : Move l { l with
      ready := []
      queue := l.queue ++ l.ready.map (·.second)
      entered := l.entered ++ l.ready.map (·.second) }
  | start (task : Task) (queue : List Task) (hqueue : l.queue = task :: queue)
      (hrunning : l.running = []) : Move l { l with
        queue := queue
        running := [task]
        left := l.left ++ [task] }
  | finish (task : Task) (hrunning : l.running = [task]) : Move l { l with
      running := []
      finished := l.finished ++ [task] }

/-- All tasks that are somewhere. -/
def tasks (l : Ledger) : List Task :=
  l.delayed.map (·.second) ++ l.ready.map (·.second) ++ l.queue ++ l.running ++ l.finished

/-- The clock showed a time behind the deadline. -/
def Passed (l : Ledger) (deadline : ℚ) : Prop :=
  ∃ reading ∈ l.readings, deadline < reading

structure Balanced (l : Ledger) : Prop where
  tasks : l.tasks.Perm l.posted
  ids : l.posted.map Task.id = List.range l.posted.length
  entered : l.entered = l.left ++ l.queue
  left : l.left = l.finished ++ l.running
  /-- The entries carry the deadlines of their tasks. -/
  deadline : ∀ entry ∈ l.delayed ++ l.ready, entry.second.deadline = some entry.first
  ready : ∀ entry ∈ l.ready, l.Passed entry.first
  passed : ∀ task ∈ l.entered, ∀ deadline ∈ task.deadline, l.Passed deadline

theorem Passed.mono {l l' : Ledger} {deadline : ℚ} (h : l.Passed deadline)
    (hreadings : ∀ reading ∈ l.readings, reading ∈ l'.readings) : l'.Passed deadline := by
  obtain ⟨reading, hmem, hdue⟩ := h
  exact ⟨reading, hreadings reading hmem, hdue⟩

theorem ids_concat {tasks : List Task} {task : Task}
    (h : tasks.map Task.id = List.range tasks.length) (hid : task.id = tasks.length) :
    (tasks ++ [task]).map Task.id = List.range (tasks ++ [task]).length := by
  rw [List.map_append, h, List.map_singleton, hid, List.length_append, List.length_singleton,
    List.range_succ]

/-- Moving tasks around keeps the account of them, whatever the order of the lists. -/
theorem perm_of_count {l l' : Ledger} (h : l.tasks.Perm l.posted)
    (hmove : ∀ task, l'.tasks.count task + l.posted.count task =
      l.tasks.count task + l'.posted.count task) : l'.tasks.Perm l'.posted := by
  refine List.perm_iff_count.2 fun task => ?_
  have hbefore := h.count_eq task
  have hafter := hmove task
  omega

theorem Move.balanced {l l' : Ledger} (hmove : Move l l') (h : l.Balanced) : l'.Balanced := by
  cases hmove with
  | stay => exact h
  | post =>
      refine ⟨perm_of_count h.tasks ?_, ids_concat h.ids rfl, ?_, h.left, h.deadline, h.ready, ?_⟩
      -- the new task is counted once on either side
      · intro task
        simp only [Ledger.tasks, List.count_append]
        omega
      · rw [h.entered, List.append_assoc]
      -- a task of `PostTask` has no deadline that could pass
      · intro task htask deadline hdeadline
        rcases List.mem_append.1 htask with hold | hnew
        · exact h.passed task hold deadline hdeadline
        · rw [List.mem_singleton.1 hnew] at hdeadline
          cases hdeadline
  | postDelayed deadline =>
      refine ⟨perm_of_count h.tasks ?_, ids_concat h.ids rfl, h.entered, h.left, ?_, h.ready,
        h.passed⟩
      · intro task
        simp only [Ledger.tasks, List.count_append, List.map_append, List.map_singleton]
        omega
      · intro entry hentry
        simp only [List.mem_append, List.mem_singleton] at hentry
        -- the entry that is new was built with the deadline of its task
        rcases hentry with (hold | rfl) | hready
        · exact h.deadline entry (List.mem_append_left _ hold)
        · rfl
        · exact h.deadline entry (List.mem_append_right _ hready)
  | read reading =>
      -- what has passed has passed at any later reading too
      have hmono := fun r (hr : r ∈ l.readings) => List.mem_append_left [reading] hr
      exact ⟨h.tasks, h.ids, h.entered, h.left, h.deadline,
        fun entry hentry => (h.ready entry hentry).mono hmono,
        fun task htask deadline hdeadline => (h.passed task htask deadline hdeadline).mono hmono⟩
  | take before after entry reading hdelayed hdue =>
      have hmono := fun r (hr : r ∈ l.readings) => List.mem_append_left [reading] hr
      refine ⟨perm_of_count h.tasks ?_, h.ids, h.entered, h.left, ?_, ?_, ?_⟩
      · intro task
        simp only [Ledger.tasks, hdelayed, List.count_append, List.map_append, List.map_cons,
          List.map_nil, List.count_cons, List.count_nil]
        omega
      · intro other hother
        refine h.deadline other ?_
        rw [hdelayed]
        simp only [List.mem_append, List.mem_cons, List.not_mem_nil, or_false] at hother ⊢
        tauto
      · intro other hother
        rcases List.mem_append.1 hother with hold | hnew
        · exact (h.ready other hold).mono hmono
        -- the reading that the entry was compared with
        · rw [List.mem_singleton.1 hnew]
          exact ⟨reading, List.mem_append_right _ (List.mem_singleton_self _), hdue⟩
      · exact fun task htask deadline hdeadline =>
          (h.passed task htask deadline hdeadline).mono hmono
  | deliver =>
      refine ⟨perm_of_count h.tasks ?_, h.ids, ?_, h.left, ?_, ?_, ?_⟩
      · intro task
        simp only [Ledger.tasks, List.count_append, List.map_nil, List.count_nil]
        omega
      · rw [h.entered, List.append_assoc]
      · exact fun entry hentry =>
          h.deadline entry (List.mem_append_left _ (by rwa [List.append_nil] at hentry))
      · exact fun entry hentry => absurd hentry List.not_mem_nil
      · intro task htask deadline hdeadline
        rcases List.mem_append.1 htask with hold | hnew
        · exact h.passed task hold deadline hdeadline
        -- ready entries have passed, and carry the deadlines of their tasks
        · obtain ⟨entry, hentry, rfl⟩ := List.mem_map.1 hnew
          rw [h.deadline entry (List.mem_append_right _ hentry)] at hdeadline
          obtain rfl := Option.mem_some_iff.1 hdeadline
          exact h.ready entry hentry
  | start task queue hqueue hrunning =>
      refine ⟨perm_of_count h.tasks ?_, h.ids, ?_, ?_, h.deadline, h.ready, h.passed⟩
      · intro other
        simp only [Ledger.tasks, hqueue, hrunning, List.count_append, List.count_cons,
          List.count_nil]
        omega
      · rw [h.entered, hqueue, List.append_assoc]
        rfl
      · rw [h.left, hrunning, List.append_nil]
  | finish task hrunning =>
      refine ⟨perm_of_count h.tasks ?_, h.ids, h.entered, ?_, h.deadline, h.ready, h.passed⟩
      · intro other
        simp only [Ledger.tasks, hrunning, List.count_append, List.count_nil]
        omega
      · rw [h.left, hrunning, List.append_nil]

theorem Balanced.nodup {l : Ledger} (h : l.Balanced) : l.posted.Nodup :=
  List.Nodup.of_map Task.id (h.ids ▸ List.nodup_range)

/-- No task leaves the queue twice. -/
theorem Balanced.left_nodup {l : Ledger} (h : l.Balanced) : l.left.Nodup := by
  -- what left the queue is a part of all tasks
  have hall : l.tasks.Nodup := h.tasks.nodup_iff.2 h.nodup
  rw [Ledger.tasks, List.append_assoc] at hall
  rw [h.left]
  exact (List.perm_append_comm.nodup_iff).1 hall.of_append_right

end Ledger

/-! ## The runner keeps its account -/

namespace Runner

def ledger (s : Runner) : Ledger where
  delayed := s.delayedTaskQueue
  ready := s.timer.newReadyTasks
  queue := s.tasksQueue
  running := s.worker.task
  finished := s.finished
  posted := s.posted
  entered := s.entered
  left := s.left
  readings := s.readings

@[simp] theorem task_notified (place : WorkerPlace) : place.notified.task = place.task := by
  cases place <;> rfl

@[simp] theorem newReadyTasks_notified (place : TimerPlace) :
    place.notified.newReadyTasks = place.newReadyTasks := by
  cases place <;> rfl

variable {s t : Runner} {label : RunnerLabel}

/-- Nothing happens to the tasks. -/
theorem move_of_ledger_eq (h : t.ledger = s.ledger) : s.ledger.Move t.ledger := by
  rw [h]
  exact .stay

theorem newReadyTasks_of_moves {place place' : TimerPlace} (h : place.Moves place') :
    place'.newReadyTasks = place.newReadyTasks := by
  cases h <;> rfl

/-- Whatever a thread does is a move of the ledger. -/
theorem Transition.move (h : s.Transition label t) : s.ledger.Move t.ledger := by
  cases h with
  | postTask => exact .post
  | postDelayedTask k deadline hcall hfree =>
      -- the step also wakes the timer, which has no ready tasks while it waits
      have hmove : s.ledger.Move { s.ledger with
          delayed := s.delayedTaskQueue ++ [⟨deadline, ⟨s.posted.length, some deadline⟩⟩]
          posted := s.posted ++ [⟨s.posted.length, some deadline⟩] } := .postDelayed deadline
      simpa [ledger] using hmove
  | workerStart nexttask tasksQueue hworker hqueue =>
      exact .start nexttask tasksQueue hqueue (congrArg WorkerPlace.task hworker)
  | workerFinish nexttask hworker => exact .finish nexttask (congrArg WorkerPlace.task hworker)
  | timerTake k newReadyTasks before entry after htimer hqueue htop hdue =>
      have hready : newReadyTasks = s.ledger.ready :=
        (congrArg TimerPlace.newReadyTasks htimer).symm
      have hmove : s.ledger.Move { s.ledger with
          delayed := before ++ after
          ready := newReadyTasks ++ [entry]
          readings := s.readings ++ [s.now] } :=
        hready ▸ .take before after entry s.now hqueue hdue
      -- the timer keeps its batch whether or not the loop goes on
      by_cases hempty : before ++ after = []
      · simpa [ledger, hempty, TimerPlace.newReadyTasks] using hmove
      · simpa [ledger, hempty, TimerPlace.newReadyTasks] using hmove
  | timerLook k newReadyTasks entry htimer hmem htop hnot =>
      have hmove : s.ledger.Move { s.ledger with readings := s.readings ++ [s.now] } := .read s.now
      simpa [ledger, htimer, TimerPlace.newReadyTasks] using hmove
  | timerDeliver k newReadyTasks htimer =>
      have hready : newReadyTasks = s.ledger.ready :=
        (congrArg TimerPlace.newReadyTasks htimer).symm
      rw [hready]
      exact .deliver
  | timerMove k place hmove =>
      exact move_of_ledger_eq (by simp [ledger, newReadyTasks_of_moves hmove])
  | workerWait place place' hplace hstep =>
      exact move_of_ledger_eq (by simp [ledger, hplace, WorkerPlace.task])
  | timerWait k place place' hplace hstep =>
      exact move_of_ledger_eq (by simp [ledger, hplace, TimerPlace.newReadyTasks])
  | workerRetry hplace | workerBreak hplace | workerStopped hplace | workerNotify hplace =>
      exact move_of_ledger_eq (by simp [ledger, hplace, WorkerPlace.task])
  | timerDelivered k hplace | timerStopped k hplace | timerNotify k hplace =>
      exact move_of_ledger_eq (by simp [ledger, hplace, TimerPlace.newReadyTasks])
  | tick | readClock | destroy | waitWorker | waitedWorker | waitTimer | waitedTimer
      | wakeDestructor => exact .stay
  | notifyTask | notifyWorker | notifyTimer | wakeWorker | wakeTimer =>
      exact move_of_ledger_eq (by simp [ledger])

/-! ## The scan of the timer -/

/-- The scan takes the entries by their deadlines, and leaves what was not due when it last looked at
the clock. -/
structure Ordered (s : Runner) : Prop where
  ready : s.timer.newReadyTasks.Pairwise (·.first ≤ ·.first)
  scan : ∀ newReadyTasks, s.timer = .scan newReadyTasks →
    ∀ entry ∈ newReadyTasks, ∀ other ∈ s.delayedTaskQueue, entry.first ≤ other.first
  scanned : ∀ newReadyTasks, s.timer = .scanned newReadyTasks →
    ∀ other ∈ s.delayedTaskQueue, ∀ reading ∈ s.readings.getLast?, reading ≤ other.first

theorem le_of_isTop {queue : List DelayedEntry} {entry other : DelayedEntry}
    (htop : IsTop queue entry) (hother : other ∈ queue) : entry.first ≤ other.first :=
  not_lt.1 (of_decide_eq_false (htop other hother))

theorem Ordered.of_eq (h : s.Ordered) (htimer : t.timer = s.timer)
    (hqueue : t.delayedTaskQueue = s.delayedTaskQueue) (hreadings : t.readings = s.readings) :
    t.Ordered := by
  constructor
  · rw [htimer]
    exact h.ready
  · rw [htimer, hqueue]
    exact h.scan
  · rw [htimer, hqueue, hreadings]
    exact h.scanned

/-- The timer is in the loop over the queue, or just behind it. -/
def scanning : TimerPlace → Bool
  | .scan _ | .scanned _ => true
  | _ => false

theorem Ordered.of_outside (hready : t.timer.newReadyTasks.Pairwise (·.first ≤ ·.first))
    (hscanning : scanning t.timer = false) : t.Ordered := by
  refine ⟨hready, ?_, ?_⟩
  · intro newReadyTasks htimer
    rw [htimer] at hscanning
    cases hscanning
  · intro newReadyTasks htimer
    rw [htimer] at hscanning
    cases hscanning

/-- The timer has nothing to deliver either. -/
theorem Ordered.of_idle (hready : t.timer.newReadyTasks = [])
    (hscanning : scanning t.timer = false) : t.Ordered :=
  .of_outside (hready ▸ .nil) hscanning

/-- Taking the entry at the top keeps the order. -/
theorem Ordered.take {newReadyTasks before after : List DelayedEntry} {entry : DelayedEntry}
    (h : s.Ordered) (htimer : s.timer = .scan newReadyTasks)
    (hqueue : s.delayedTaskQueue = before ++ entry :: after)
    (htop : IsTop s.delayedTaskQueue entry) :
    { s with
      delayedTaskQueue := before ++ after
      timer := if before ++ after = [] then .scanned (newReadyTasks ++ [entry])
        else .scan (newReadyTasks ++ [entry])
      readings := s.readings ++ [s.now] }.Ordered := by
  have hready : newReadyTasks.Pairwise (·.first ≤ ·.first) := by
    have hpairwise := h.ready
    rwa [htimer] at hpairwise
  have hrest : ∀ other ∈ before ++ after, other ∈ s.delayedTaskQueue := by
    intro other hother
    rw [hqueue]
    simp only [List.mem_append, List.mem_cons] at hother ⊢
    tauto
  have hentry : entry ∈ s.delayedTaskQueue := by
    rw [hqueue]
    exact List.mem_append_right _ List.mem_cons_self
  -- the entries before were not behind this one, as it was still in the queue
  have hpairwise : (newReadyTasks ++ [entry]).Pairwise (·.first ≤ ·.first) := by
    refine List.pairwise_append.2 ⟨hready, List.pairwise_singleton _ _, ?_⟩
    intro earlier hearlier last hlast
    rw [List.mem_singleton.1 hlast]
    exact h.scan newReadyTasks htimer earlier hearlier entry hentry
  by_cases hempty : before ++ after = []
  · rw [if_pos hempty]
    refine ⟨hpairwise, fun _ hplace => (by cases hplace), ?_⟩
    -- nothing is left that could have been due
    intro _ _ other hother
    rw [hempty] at hother
    cases hother
  · rw [if_neg hempty]
    refine ⟨hpairwise, ?_, fun _ hplace => (by cases hplace)⟩
    intro ready hplace earlier hearlier other hother
    obtain rfl := TimerPlace.scan.inj hplace
    rcases List.mem_append.1 hearlier with hold | hnew
    -- the entry was at the top, so nothing that is left comes before it
    · exact h.scan newReadyTasks htimer earlier hold other (hrest other hother)
    · rw [List.mem_singleton.1 hnew]
      exact le_of_isTop htop (hrest other hother)

/-- What is left when the scan ends is not before the reading that ended it. -/
theorem Ordered.look {newReadyTasks : List DelayedEntry} {entry : DelayedEntry}
    (h : s.Ordered) (htimer : s.timer = .scan newReadyTasks)
    (htop : IsTop s.delayedTaskQueue entry) (hnot : s.now ≤ entry.first) :
    { s with
      timer := .scanned newReadyTasks
      readings := s.readings ++ [s.now] }.Ordered := by
  have hready := h.ready
  rw [htimer] at hready
  refine ⟨hready, fun _ hplace => (by cases hplace), ?_⟩
  intro _ _ other hother reading hreading
  rw [List.getLast?_concat] at hreading
  obtain rfl := Option.mem_some_iff.1 hreading
  exact hnot.trans (le_of_isTop htop hother)

theorem Ordered.notified (h : s.Ordered) : { s with timer := s.timer.notified }.Ordered := by
  cases htimer : s.timer with
  | waiting place => exact .of_idle rfl rfl
  | _ =>
      refine h.of_eq ?_ rfl rfl
      dsimp only
      rw [htimer]
      rfl

theorem Ordered.moves {place : TimerPlace} (h : s.Ordered) (hmove : s.timer.Moves place) :
    { s with timer := place }.Ordered := by
  have hready := h.ready
  rw [← newReadyTasks_of_moves hmove] at hready
  generalize s.timer = timer at hmove
  cases hmove with
  -- a scan begins with an empty batch
  | scan =>
      refine ⟨.nil, ?_, fun _ hplace => (by cases hplace)⟩
      intro ready hplace entry hentry
      obtain rfl := TimerPlace.scan.inj hplace
      cases hentry
  | _ => exact .of_outside hready rfl

theorem scanning_of_free (h : s.timer.holdsDelayed = false) :
    scanning s.timer.notified = false := by
  cases htimer : s.timer with
  | scan newReadyTasks => simp [htimer, TimerPlace.holdsDelayed] at h
  | scanned newReadyTasks => simp [htimer, TimerPlace.holdsDelayed] at h
  | _ => rfl

/-- No step disturbs the scan, as nobody else puts an entry into the queue meanwhile. -/
theorem Transition.ordered (hstep : s.Transition label t) (h : s.Ordered) : t.Ordered := by
  cases hstep with
  | timerTake k newReadyTasks before entry after htimer hqueue htop hdue =>
      exact h.take htimer hqueue htop
  | timerLook k newReadyTasks entry htimer hmem htop hnot => exact h.look htimer htop hnot
  | timerMove k place hmove => exact h.moves hmove
  | postDelayedTask k deadline hcall hfree =>
      refine .of_outside ?_ (scanning_of_free hfree)
      dsimp only
      rw [newReadyTasks_notified]
      exact h.ready
  | notifyTimer | wakeTimer => exact h.notified.of_eq rfl rfl rfl
  | timerWait | timerDeliver | timerDelivered | timerStopped | timerNotify => exact .of_idle rfl rfl
  | _ => exact h.of_eq rfl rfl rfl

/-! ## What the calls ask for -/

/-- The task of a call that has not put it into a queue yet, by its deadline. -/
def pendingDeadline : PostCall → Option (Option ℚ)
  | .notify => none
  | .timed deadline => some (some deadline)

/-- The tasks that the calls made so far have asked for. -/
def requested (s : Runner) : List (Option ℚ) :=
  s.posted.map Task.deadline ++ s.calls.filterMap pendingDeadline

def elapsed : RunnerLabel → Int
  | .tick n => n
  | _ => 0

/-- What a run asks for that begins when the clock shows `now`. -/
def requests (now : Int) : List RunnerLabel → List (Option ℚ)
  | [] => []
  | label :: labels => (request now label).toList ++ requests (now + elapsed label) labels

/-- A call goes on with what it asks for, whatever the order of the calls. -/
theorem deadlines_eraseIdx {calls : List PostCall} {k : Nat} {call : PostCall}
    (hcall : calls[k]? = some call) :
    ((pendingDeadline call).toList ++ (calls.eraseIdx k).filterMap pendingDeadline).Perm
      (calls.filterMap pendingDeadline) := by
  obtain ⟨hk, rfl⟩ := List.getElem?_eq_some_iff.1 hcall
  have hperm := (List.getElem_cons_eraseIdx_perm hk).filterMap pendingDeadline
  cases hdeadline : pendingDeadline calls[k] with
  | none => rwa [List.filterMap_cons_none hdeadline] at hperm
  | some deadline => rwa [List.filterMap_cons_some hdeadline] at hperm

theorem elapsed_of_request {now : Int} {deadline : Option ℚ}
    (h : request now label = some deadline) : elapsed label = 0 := by
  cases label with
  | tick n => cases h
  | _ => rfl

/-- A step asks for what its label says. -/
theorem Transition.requested (h : s.Transition label t) :
    t.requested.Perm (s.requested ++ (request s.now label).toList) ∧
      t.now = s.now + elapsed label := by
  cases h with
  | tick n => exact ⟨by simp [request, Runner.requested], rfl⟩
  | postTask hrequest =>
      refine ⟨?_, by rw [elapsed_of_request hrequest, add_zero]⟩
      rw [hrequest]
      simp only [Runner.requested, List.map_append, List.append_assoc]
      exact List.perm_append_comm.append_left _
  | readClock deadline hrequest =>
      refine ⟨?_, by rw [elapsed_of_request hrequest, add_zero]⟩
      rw [hrequest]
      simp only [Runner.requested, List.append_assoc]
      exact (List.perm_append_singleton _ _).symm.append_left _
  | notifyTask k hcall =>
      refine ⟨?_, (add_zero _).symm⟩
      rw [show request s.now (.call k) = none from rfl, Option.toList_none, List.append_nil]
      exact (deadlines_eraseIdx hcall).append_left _
  | postDelayedTask k deadline hcall =>
      refine ⟨?_, (add_zero _).symm⟩
      rw [show request s.now (.call k) = none from rfl, Option.toList_none, List.append_nil]
      simp only [Runner.requested, List.map_append, List.append_assoc]
      exact (deadlines_eraseIdx hcall).append_left _
  | _ => exact ⟨by simp [request, Runner.requested], (add_zero _).symm⟩

theorem requested_of_run {labels : List RunnerLabel} (hrun : Run step s labels t) :
    t.requested.Perm (s.requested ++ requests s.now labels) := by
  induction labels generalizing s with
  | nil =>
      obtain rfl := Run.nil_iff.1 hrun
      rw [requests, List.append_nil]
  | cons label labels ih =>
      obtain ⟨u, hstep, hrest⟩ := Run.cons_iff.1 hrun
      obtain ⟨hperm, hnow⟩ := (transition_of_step hstep).requested
      rw [requests, ← List.append_assoc, ← hnow]
      exact (ih hrest).trans (hperm.append_right _)

/-! ## Runs -/

/-- The tasks in the queues, in the timer's batch, in the worker and behind it. -/
def tasks (s : Runner) : List Task :=
  s.delayedTaskQueue.map (·.second) ++ s.timer.newReadyTasks.map (·.second) ++ s.tasksQueue ++
    s.worker.task ++ s.finished

/-- The tasks that `requests` asks for are where they should be. -/
structure Conserved (requests : List (Option ℚ)) (s : Runner) : Prop where
  /-- Every task asked for is posted, once, unless its call has not come to the queue yet. -/
  requested : (s.posted.map Task.deadline ++ s.calls.filterMap pendingDeadline).Perm requests
  /-- Every task that was posted is in exactly one place. -/
  tasks : s.tasks.Perm s.posted
  posted : s.posted.Nodup
  /-- No task runs twice, and they leave the queue as they entered it. -/
  left : s.left.Nodup
  order : s.entered = s.left ++ s.tasksQueue
  /-- A delayed task was not early. -/
  due : ∀ task ∈ s.entered, ∀ deadline ∈ task.deadline,
    ∃ reading ∈ s.readings, deadline < reading
  scan : s.Ordered

/-- What holds at every point of every run. -/
theorem conserved (now : Int) (labels : List RunnerLabel) (s : Runner)
    (hrun : Run step (init now) labels s) : s.Conserved (requests now labels) := by
  -- the account is kept by every move of the ledger
  have hbalanced : s.ledger.Balanced := by
    refine hrun.invariant (P := fun s => s.ledger.Balanced) ?_ ?_
    · exact ⟨.refl _, rfl, rfl, rfl, by simp [ledger, init, TimerPlace.newReadyTasks],
        by simp [ledger, init, TimerPlace.newReadyTasks], by simp [ledger, init]⟩
    · exact fun t label u ht hstep => (transition_of_step hstep).move.balanced ht
  -- the order is an invariant of the threads, not of the ledger
  have hordered : s.Ordered := by
    refine hrun.invariant (P := Ordered) (.of_idle rfl rfl) ?_
    exact fun t label u ht hstep => (transition_of_step hstep).ordered ht
  exact ⟨requested_of_run hrun, hbalanced.tasks, hbalanced.nodup, hbalanced.left_nodup,
    hbalanced.entered, hbalanced.passed, hordered⟩

/-- Three threads post: a task with a delay of two seconds, one with a delay of one, and one without.
The timer takes both delayed tasks in one scan, the later one last. -/
def threePosted : List RunnerLabel :=
  [.postDelayedTask 2, .tick 5, .postDelayedTask 1, .postTask, .call 0, .call 1, .call 0] ++
    List.replicate 4 .worker ++ [.tick 3000000000] ++ List.replicate 3 (.timer 0) ++ [.timer 1] ++
    List.replicate 4 (.timer 0) ++ List.replicate 8 .worker

theorem conserved_threePosted :
    ∃ s, Run step (init 0) threePosted s ∧
      requests 0 threePosted = [some 2000000000, some 1000000005, none] ∧
        s.finished = [⟨0, none⟩, ⟨2, some 1000000005⟩, ⟨1, some 2000000000⟩] ∧
          s.Conserved (requests 0 threePosted) := by
  have hend : ∃ s ∈ threePosted.foldlM step (init 0),
      s.finished = [⟨0, none⟩, ⟨2, some 1000000005⟩, ⟨1, some 2000000000⟩] := by
    decide +kernel
  obtain ⟨s, hrun, hfinished⟩ := hend
  exact ⟨s, hrun, by decide +kernel, hfinished, conserved 0 threePosted s hrun⟩

end Runner

end Platform
end V8JsiRuntime
