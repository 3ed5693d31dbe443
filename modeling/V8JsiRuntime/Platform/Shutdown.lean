import V8JsiRuntime.Platform.TaskRunner

/-!
# Shutdown — the notifications around the destructor of `WorkerThreadsTaskRunner`

Four condition variables are notified without the mutex of their waiters.  Each of them keeps its
waiter informed as long as no notification falls between the evaluation of the predicate and the
sleep; then no run gets stuck.
-/

namespace V8JsiRuntime
namespace Platform

open Lib

/-! ## The waiters -/

def WorkerPlace.wait : WorkerPlace → WaitPlace
  | waiting place => place
  | _ => .returned

def TimerPlace.wait : TimerPlace → WaitPlace
  | waiting place => place
  | _ => .returned

def DestructorPlace.waitOnWorker : DestructorPlace → WaitPlace
  | waitWorker place => place
  | _ => .returned

def DestructorPlace.waitOnTimer : DestructorPlace → WaitPlace
  | waitTimer place => place
  | _ => .returned

theorem WorkerPlace.wait_notified (place : WorkerPlace) :
    place.notified.wait = place.wait.notifyAll := by
  cases place <;> rfl

theorem TimerPlace.wait_notified (place : TimerPlace) :
    place.notified.wait = place.wait.notifyAll := by
  cases place <;> rfl

theorem DestructorPlace.waitOnWorker_notifiedWorker (place : DestructorPlace) :
    place.notifiedWorker.waitOnWorker = place.waitOnWorker.notifyAll := by
  cases place <;> rfl

theorem DestructorPlace.waitOnTimer_notifiedTimer (place : DestructorPlace) :
    place.notifiedTimer.waitOnTimer = place.waitOnTimer.notifyAll := by
  cases place <;> rfl

theorem DestructorPlace.waitOnWorker_notifiedTimer (place : DestructorPlace) :
    place.notifiedTimer.waitOnWorker = place.waitOnWorker := by
  cases place <;> rfl

theorem DestructorPlace.waitOnTimer_notifiedWorker (place : DestructorPlace) :
    place.notifiedWorker.waitOnTimer = place.waitOnTimer := by
  cases place <;> rfl

/-- The destructor waits on the worker or on the timer. -/
def DestructorPlace.waits : DestructorPlace → Bool
  | waitWorker _ | waitTimer _ => true
  | _ => false

/-- A wake-up leaves a destructor that does not wait where it is. -/
theorem DestructorPlace.notifiedWorker_eq_iff {place other : DestructorPlace}
    (h : other.waits = false) : place.notifiedWorker = other ↔ place = other := by
  cases place <;> cases other <;> simp_all [notifiedWorker, waits]

theorem DestructorPlace.notifiedTimer_eq_iff {place other : DestructorPlace}
    (h : other.waits = false) : place.notifiedTimer = other ↔ place = other := by
  cases place <;> cases other <;> simp_all [notifiedTimer, waits]

theorem DestructorPlace.notified_eq_iff {place other : DestructorPlace}
    (h : other.waits = false) : place.notified = other ↔ place = other := by
  rw [notified, notifiedTimer_eq_iff h, notifiedWorker_eq_iff h]

namespace Runner

/-! ## The condition variables -/

def tasksAvailableCond : CondVar Runner where
  place s := s.worker.wait
  ready s := s.stopRequested = true
  pending s := s.destructor = .notifyWorker

def delayedTasksAvailableCond : CondVar Runner where
  place s := s.timer.wait
  ready s := s.stopRequested = true
  pending s := s.destructor = .notifyWorker ∨ s.destructor = .notifyTimer

def workerStoppedCond : CondVar Runner where
  place s := s.destructor.waitOnWorker
  ready s := s.workerStopped = true
  pending s := s.worker = .notifying

def timerStoppedCond : CondVar Runner where
  place s := s.destructor.waitOnTimer
  ready s := s.timerStopped = true
  pending s := s.timer = .notifying

/-- The step is no notification whose waiter has found its predicate false and does not sleep yet. -/
def Timely (s : Runner) : RunnerLabel → Prop
  | .worker => s.worker = .notifying → s.destructor ≠ .waitWorker .block
  | .timer _ => s.timer = .notifying → s.destructor ≠ .waitTimer .block
  | .destructor => (s.destructor = .notifyWorker → s.worker ≠ .waiting .block) ∧
      (s.destructor = .notifyTimer → s.timer ≠ .waiting .block)
  | _ => True

instance (s : Runner) : DecidablePred s.Timely
  | .worker | .timer _ => inferInstanceAs (Decidable (_ → _))
  | .destructor => inferInstanceAs (Decidable (_ ∧ _))
  | .tick _ | .postTask | .postDelayedTask _ | .call _ | .wakeWorker | .wakeTimer
  | .wakeDestructor => isTrue trivial

theorem wait_eq_block {place : WorkerPlace} (h : place.wait = .block) : place = .waiting .block := by
  cases place with
  | waiting place => exact congrArg _ h
  | _ => cases h

variable {s t : Runner} {label : RunnerLabel}

theorem timer_wait_eq_block {place : TimerPlace} (h : place.wait = .block) :
    place = .waiting .block := by
  cases place with
  | waiting place => exact congrArg _ h
  | _ => cases h

theorem waitOnWorker_eq_block {place : DestructorPlace} (h : place.waitOnWorker = .block) :
    place = .waitWorker .block := by
  cases place with
  | waitWorker place => exact congrArg _ h
  | _ => cases h

theorem waitOnTimer_eq_block {place : DestructorPlace} (h : place.waitOnTimer = .block) :
    place = .waitTimer .block := by
  cases place with
  | waitTimer place => exact congrArg _ h
  | _ => cases h

/-- The predicate of the worker is false only if no stop is requested. -/
theorem Transition.keeps_tasksAvailable (hstep : s.Transition label t) (htimely : s.Timely label) :
    tasksAvailableCond.Keeps s t := by
  cases hstep with
  | workerWait place place' hworker hstep =>
      have hwait : s.worker.wait = place := congrArg WorkerPlace.wait hworker
      -- the predicate asks for tasks as well, but without a stop it is enough that it was false
      refine .of_step (hwait ▸ hstep) (fun hfalse => ?_) Iff.rfl Iff.rfl
      exact Bool.eq_false_iff.1 (Bool.or_eq_false_iff.1 hfalse).2
  | workerRetry | workerFinish => exact .of_away WaitPlace.not_committed_lock id
  | workerStart | workerBreak | workerStopped | workerNotify =>
      exact .of_away WaitPlace.not_committed_returned id
  -- notifications about tasks wake the worker, and are none of the destructor's
  | notifyTask | timerDelivered | wakeWorker =>
      exact .of_wake (WorkerPlace.wait_notified _) Iff.rfl Iff.rfl
  -- the request comes with two notifications that are still to be given
  | destroy => exact .of_announce rfl rfl
  | notifyWorker hdestructor =>
      refine .of_notify (WorkerPlace.wait_notified _) Iff.rfl fun hblock => ?_
      exact htimely.1 hdestructor (wait_eq_block hblock)
  | timerNotify => exact .of_eq rfl Iff.rfl (DestructorPlace.notifiedTimer_eq_iff rfl)
  | wakeDestructor => exact .of_eq rfl Iff.rfl (DestructorPlace.notified_eq_iff rfl)
  | _ => exact .of_eq rfl Iff.rfl (by simp_all [tasksAvailableCond])

theorem Transition.keeps_delayedTasksAvailable (hstep : s.Transition label t)
    (htimely : s.Timely label) : delayedTasksAvailableCond.Keeps s t := by
  cases hstep with
  | timerWait k place place' htimer hstep =>
      have hwait : s.timer.wait = place := congrArg TimerPlace.wait htimer
      refine .of_step (hwait ▸ hstep) (fun hfalse => ?_) Iff.rfl Iff.rfl
      exact Bool.eq_false_iff.1 (Bool.or_eq_false_iff.1 hfalse).2
  | timerTake k newReadyTasks before entry after =>
      refine .of_away ?_ id
      -- in the loop or behind it, the timer does not wait
      show ¬ (TimerPlace.wait (if before ++ after = [] then _ else _)).Committed
      split
      · exact WaitPlace.not_committed_returned
      · exact WaitPlace.not_committed_returned
  | timerMove k place hmove =>
      refine .of_away ?_ id
      -- every move ends before the next evaluation of the predicate
      generalize s.timer = timer at hmove
      cases hmove with
      | retry | again | slept => exact WaitPlace.not_committed_lock
      | _ => exact WaitPlace.not_committed_returned
  | timerLook | timerDeliver | timerDelivered | timerStopped | timerNotify =>
      exact .of_away WaitPlace.not_committed_returned id
  | postDelayedTask | wakeTimer => exact .of_wake (TimerPlace.wait_notified _) Iff.rfl Iff.rfl
  | destroy => exact .of_announce rfl (Or.inl rfl)
  -- the one for the worker leaves that for the timer to come
  | notifyWorker hdestructor =>
      exact .of_eq rfl Iff.rfl (iff_of_true (Or.inr rfl) (Or.inl hdestructor))
  | notifyTimer hdestructor =>
      refine .of_notify (TimerPlace.wait_notified _) Iff.rfl fun hblock => ?_
      exact htimely.2 hdestructor (timer_wait_eq_block hblock)
  | workerNotify =>
      exact .of_eq rfl Iff.rfl (or_congr (DestructorPlace.notifiedWorker_eq_iff rfl)
        (DestructorPlace.notifiedWorker_eq_iff rfl))
  | wakeDestructor =>
      exact .of_eq rfl Iff.rfl (or_congr (DestructorPlace.notified_eq_iff rfl)
        (DestructorPlace.notified_eq_iff rfl))
  | _ => exact .of_eq rfl Iff.rfl (by simp_all [delayedTasksAvailableCond])

theorem notified_eq_notifying_iff {place : WorkerPlace} :
    place.notified = .notifying ↔ place = .notifying := by
  cases place <;> simp [WorkerPlace.notified]

theorem timer_notified_eq_notifying_iff {place : TimerPlace} :
    place.notified = .notifying ↔ place = .notifying := by
  cases place <;> simp [TimerPlace.notified]

theorem Transition.keeps_workerStopped (hstep : s.Transition label t) (htimely : s.Timely label) :
    workerStoppedCond.Keeps s t := by
  cases hstep with
  | waitWorker place place' hdestructor hstep =>
      have hwait : s.destructor.waitOnWorker = place :=
        congrArg DestructorPlace.waitOnWorker hdestructor
      exact .of_step (hwait ▸ hstep) (fun hfalse => Bool.eq_false_iff.1 hfalse) Iff.rfl Iff.rfl
  | destroy | notifyWorker | waitedWorker | waitTimer | waitedTimer =>
      exact .of_away WaitPlace.not_committed_returned id
  | notifyTimer => exact .of_away WaitPlace.not_committed_lock id
  | workerStopped => exact .of_announce rfl rfl
  | workerNotify hworker =>
      refine .of_notify (DestructorPlace.waitOnWorker_notifiedWorker _) Iff.rfl fun hblock => ?_
      exact htimely hworker (waitOnWorker_eq_block hblock)
  -- the two waits of the destructor do not touch each other
  | timerNotify =>
      exact .of_eq (DestructorPlace.waitOnWorker_notifiedTimer _) Iff.rfl Iff.rfl
  | wakeDestructor =>
      refine .of_wake ?_ Iff.rfl Iff.rfl
      exact (DestructorPlace.waitOnWorker_notifiedTimer _).trans
        (DestructorPlace.waitOnWorker_notifiedWorker _)
  | notifyTask | timerDelivered | wakeWorker =>
      exact .of_eq rfl Iff.rfl notified_eq_notifying_iff
  | _ => exact .of_eq rfl Iff.rfl (by simp_all [workerStoppedCond])

theorem Transition.keeps_timerStopped (hstep : s.Transition label t) (htimely : s.Timely label) :
    timerStoppedCond.Keeps s t := by
  cases hstep with
  | waitTimer place place' hdestructor hstep =>
      have hwait : s.destructor.waitOnTimer = place :=
        congrArg DestructorPlace.waitOnTimer hdestructor
      exact .of_step (hwait ▸ hstep) (fun hfalse => Bool.eq_false_iff.1 hfalse) Iff.rfl Iff.rfl
  | destroy | notifyWorker | notifyTimer | waitWorker | waitedTimer =>
      exact .of_away WaitPlace.not_committed_returned id
  | waitedWorker => exact .of_away WaitPlace.not_committed_lock id
  | timerStopped => exact .of_announce rfl rfl
  | timerNotify k htimer =>
      refine .of_notify (DestructorPlace.waitOnTimer_notifiedTimer _) Iff.rfl fun hblock => ?_
      exact htimely htimer (waitOnTimer_eq_block hblock)
  | workerNotify =>
      exact .of_eq (DestructorPlace.waitOnTimer_notifiedWorker _) Iff.rfl Iff.rfl
  | wakeDestructor =>
      refine .of_wake ?_ Iff.rfl Iff.rfl
      refine (DestructorPlace.waitOnTimer_notifiedTimer _).trans ?_
      rw [DestructorPlace.waitOnTimer_notifiedWorker]
      rfl
  | postDelayedTask | wakeTimer => exact .of_eq rfl Iff.rfl timer_notified_eq_notifying_iff
  | timerTake k newReadyTasks before entry after htimer =>
      refine .of_eq rfl Iff.rfl (iff_of_false ?_ (by simp [timerStoppedCond, htimer]))
      show ¬ (if before ++ after = [] then _ else _) = TimerPlace.notifying
      split <;> simp
  | timerMove k place hmove =>
      refine .of_eq rfl Iff.rfl ?_
      show place = .notifying ↔ s.timer = .notifying
      generalize s.timer = timer at hmove
      cases hmove <;> simp
  | _ => exact .of_eq rfl Iff.rfl (by simp_all [timerStoppedCond])

/-! ## Runs -/

/-- The destructor has given its notifications. -/
def pastNotifications (s : Runner) : Bool :=
  match s.destructor with
  | .alive | .notifyWorker | .notifyTimer => false
  | .waitWorker _ | .waitTimer _ | .destroyed => true

/-- Somebody may still notify `tasks_available_cond_`. -/
def taskNotificationToCome (s : Runner) : Bool :=
  s.calls.contains .notify ||
    match s.timer with
    | .scan _ | .deliver _ | .delivered => true
    | .scanned newReadyTasks => newReadyTasks ≠ []
    | _ => false

/-- Somebody sleeps whom nobody will wake. -/
inductive Stuck (s : Runner) : Prop
  | worker (hpast : s.pastNotifications = true) (hblocked : s.worker = .waiting .blocked)
      (hstop : s.stopRequested = true) (hnone : s.taskNotificationToCome = false)
  | timer (hpast : s.pastNotifications = true) (hblocked : s.timer = .waiting .blocked)
      (hstop : s.stopRequested = true)
  | waitWorker (hblocked : s.destructor = .waitWorker .blocked) (hset : s.workerStopped = true)
      (hgiven : s.worker = .stopped)
  | waitTimer (hblocked : s.destructor = .waitTimer .blocked) (hset : s.timerStopped = true)
      (hgiven : s.timer = .stopped)

/-- All four waiters are told what they wait for. -/
structure Informed (s : Runner) : Prop where
  worker : tasksAvailableCond.Announced s
  timer : delayedTasksAvailableCond.Announced s
  waitWorker : workerStoppedCond.Announced s
  waitTimer : timerStoppedCond.Announced s

theorem informed_init (now : Int) : (init now).Informed where
  worker h := absurd h WaitPlace.not_committed_lock
  timer h := absurd h WaitPlace.not_committed_lock
  waitWorker h := absurd h WaitPlace.not_committed_returned
  waitTimer h := absurd h WaitPlace.not_committed_returned

theorem Informed.step (h : s.Informed) (htimely : s.Timely label) (hstep : s.step label = some t) :
    t.Informed :=
  have htransition := transition_of_step hstep
  ⟨(htransition.keeps_tasksAvailable htimely).announced h.worker,
    (htransition.keeps_delayedTasksAvailable htimely).announced h.timer,
    (htransition.keeps_workerStopped htimely).announced h.waitWorker,
    (htransition.keeps_timerStopped htimely).announced h.waitTimer⟩

theorem Informed.not_stuck (h : s.Informed) : ¬ s.Stuck := by
  intro hstuck
  cases hstuck with
  | worker hpast hblocked hstop =>
      -- the notification for the worker was given before the destructor went on
      refine h.worker.not_lost ⟨congrArg WorkerPlace.wait hblocked, hstop, fun hpending => ?_⟩
      rw [pastNotifications, show s.destructor = .notifyWorker from hpending] at hpast
      cases hpast
  | timer hpast hblocked hstop =>
      refine h.timer.not_lost ⟨congrArg TimerPlace.wait hblocked, hstop, fun hpending => ?_⟩
      rcases hpending with hpending | hpending
      · rw [pastNotifications, hpending] at hpast
        cases hpast
      · rw [pastNotifications, hpending] at hpast
        cases hpast
  | waitWorker hblocked hset hgiven =>
      refine h.waitWorker.not_lost ⟨congrArg DestructorPlace.waitOnWorker hblocked, hset, ?_⟩
      intro hpending
      cases hgiven.symm.trans hpending
  | waitTimer hblocked hset hgiven =>
      refine h.waitTimer.not_lost ⟨congrArg DestructorPlace.waitOnTimer hblocked, hset, ?_⟩
      intro hpending
      cases hgiven.symm.trans hpending

/-- A run whose notifications are all timely never gets stuck. -/
theorem neverStuck (now : Int) (labels : List RunnerLabel)
    (htimely : Along step Timely (init now) labels) :
    Throughout step (fun s => ¬ s.Stuck) (init now) labels := by
  intro visited s hprefix hrun
  -- `Informed` is the invariant, and it holds as long as the steps are timely
  refine (hrun.invariant_along (I := Informed) (informed_init now) ?_
    (htimely.of_prefix hprefix)).not_stuck
  exact fun t label u ht hlabel hstep => ht.step hlabel hstep

/-- Both threads find nothing to do and go to sleep. -/
def asleep : List RunnerLabel :=
  .replicate 3 .worker ++ .replicate 3 (.timer 0)

/-- The destructor wakes them, and sleeps until each of them has stopped. -/
def shutdown : List RunnerLabel :=
  asleep ++ .replicate 6 .destructor ++ .replicate 5 .worker ++ .replicate 6 .destructor ++
    .replicate 5 (.timer 0) ++ .replicate 3 .destructor

theorem neverStuck_shutdown :
    (∃ s ∈ asleep.foldlM step (init 0),
      s.worker = .waiting .blocked ∧ s.timer = .waiting .blocked) ∧
      (∃ s ∈ shutdown.foldlM step (init 0), s.destructor = .destroyed) ∧
        Throughout step (fun s => ¬ s.Stuck) (init 0) shutdown :=
  ⟨by decide +kernel, by decide +kernel, neverStuck 0 shutdown (by decide +kernel)⟩

/-- The worker finds no task and no request to stop; then the destructor requests it and notifies,
and then the worker goes to sleep. -/
theorem not_neverStuck_workerBlocks :
    ¬ ∀ now labels s, Run step (init now) labels s → ¬ s.Stuck := by
  intro h
  have hend : ∃ s ∈ ([.worker, .worker, .destructor, .destructor, .destructor, .worker] :
      List RunnerLabel).foldlM step (init 0),
      s.pastNotifications = true ∧ s.worker = .waiting .blocked ∧ s.stopRequested = true ∧
        s.taskNotificationToCome = false := by
    decide +kernel
  obtain ⟨s, hrun, hpast, hblocked, hstop, hnone⟩ := hend
  exact h 0 _ s hrun (.worker hpast hblocked hstop hnone)

end Runner

end Platform
end V8JsiRuntime
