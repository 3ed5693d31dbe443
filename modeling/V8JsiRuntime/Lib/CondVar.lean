import Mathlib.Init

/-!
# CondVar — waiting for a predicate on a condition variable

One thread waits until a predicate holds, and others make it true and notify.  `CondVar` is what the
waiter and the notifiers have in common.  A wake-up is lost when the waiter sleeps, the predicate
holds and no notification is to come; this can only happen when a notification is given between the
evaluation of the predicate and the sleep.
-/

namespace V8JsiRuntime
namespace Lib

/-- Where a thread is in `wait(lock, predicate)`. -/
inductive WaitPlace
  /-- It needs the mutex, at first or after a wake-up. -/
  | lock
  /-- It holds the mutex and evaluates the predicate. -/
  | check
  /-- The predicate was false; it still holds the mutex. -/
  | block
  /-- It sleeps, without the mutex. -/
  | blocked
  /-- The predicate was true; it holds the mutex. -/
  | returned
  deriving DecidableEq, Repr

namespace WaitPlace

def holds : WaitPlace → Bool
  | lock | blocked => false
  | check | block | returned => true

/-- The next step of the waiter, given whether the mutex is free and the predicate true. -/
def step (free ready : Bool) : WaitPlace → Option WaitPlace
  | lock => if free then some check else none
  | check => if ready then some returned else some block
  | block => some blocked
  | blocked => none
  | returned => none

/-- What `notify_all` does to the waiter; it may also happen by itself. -/
def notifyAll : WaitPlace → WaitPlace
  | blocked => lock
  | place => place

/-- The waiter has found the predicate false and was not woken since. -/
def Committed (place : WaitPlace) : Prop :=
  place = block ∨ place = blocked

instance (place : WaitPlace) : Decidable place.Committed :=
  inferInstanceAs (Decidable (_ ∨ _))

theorem not_committed_lock : ¬ lock.Committed := by
  decide

theorem not_committed_returned : ¬ returned.Committed := by
  decide

theorem committed_notifyAll {place : WaitPlace} (h : place.notifyAll.Committed) :
    place = block := by
  cases place with
  | block => rfl
  | blocked => simp [notifyAll, Committed] at h
  | lock => simp [notifyAll, Committed] at h
  | check => simp [notifyAll, Committed] at h
  | returned => simp [notifyAll, Committed] at h

/-- The waiter commits itself only to a predicate that is false. -/
theorem committed_step {free ready : Bool} {place place' : WaitPlace}
    (hstep : place.step free ready = some place') (h : place'.Committed) :
    place.Committed ∨ ready = false := by
  cases place with
  | lock => grind [step, Committed]
  | check => grind [step, Committed]
  | block => exact Or.inl (Or.inl rfl)
  | blocked => cases hstep
  | returned => cases hstep

end WaitPlace

/-- A condition variable with one waiter, in the states of a system: where the waiter is, what it
waits for, and whether a notification is still to come. -/
structure CondVar (State : Type) where
  place : State → WaitPlace
  ready : State → Prop
  pending : State → Prop

namespace CondVar

variable {State : Type} {c : CondVar State} {s t : State}

/-- The waiter sleeps, and nothing will wake it though its predicate holds. -/
def Lost (c : CondVar State) (s : State) : Prop :=
  c.place s = .blocked ∧ c.ready s ∧ ¬ c.pending s

/-- A waiter that found the predicate false will be told when it holds. -/
def Announced (c : CondVar State) (s : State) : Prop :=
  (c.place s).Committed → c.ready s → c.pending s

theorem Announced.not_lost (h : c.Announced s) : ¬ c.Lost s :=
  fun ⟨hplace, hready, hpending⟩ => hpending (h (Or.inr hplace) hready)

/-- What the steps of the waiter, of the notifiers and of everyone else have in common. -/
structure Keeps (c : CondVar State) (s t : State) : Prop where
  /-- The waiter commits itself only when the predicate is false. -/
  commit : (c.place t).Committed → (c.place s).Committed ∨ ¬ c.ready t
  /-- Who makes the predicate true has a notification to give. -/
  announce : c.ready t → c.ready s ∨ c.pending t
  /-- A notification that is given wakes the waiter. -/
  notify : c.pending s → c.pending t ∨ ¬ (c.place t).Committed

theorem Keeps.announced (hkeeps : c.Keeps s t) (h : c.Announced s) : c.Announced t := by
  intro hcommitted hready
  -- the waiter did not commit itself just now, as the predicate holds
  have hbefore : (c.place s).Committed :=
    (hkeeps.commit hcommitted).resolve_right (not_not_intro hready)
  rcases hkeeps.announce hready with hold | hpending
  · exact (hkeeps.notify (h hbefore hold)).resolve_right (not_not_intro hcommitted)
  · exact hpending

/-! ## The kinds of steps -/

/-- A step that concerns neither the waiter nor what it waits for. -/
theorem Keeps.of_eq (hplace : c.place t = c.place s) (hready : c.ready t ↔ c.ready s)
    (hpending : c.pending t ↔ c.pending s) : c.Keeps s t where
  commit h := Or.inl (hplace ▸ h)
  announce h := Or.inl (hready.1 h)
  notify h := Or.inl (hpending.2 h)

/-- A step of the waiter. -/
theorem Keeps.of_step {free ready : Bool} (hstep : (c.place s).step free ready = some (c.place t))
    (hfalse : ready = false → ¬ c.ready t) (hready : c.ready t ↔ c.ready s)
    (hpending : c.pending t ↔ c.pending s) : c.Keeps s t where
  commit h := (WaitPlace.committed_step hstep h).imp_right hfalse
  announce h := Or.inl (hready.1 h)
  notify h := Or.inl (hpending.2 h)

/-- A step after which the waiter is not in the wait, or is about to look again. -/
theorem Keeps.of_away (haway : ¬ (c.place t).Committed) (hready : c.ready t → c.ready s) :
    c.Keeps s t where
  commit h := absurd h haway
  announce h := Or.inl (hready h)
  notify _ := Or.inr haway

/-- A wake-up that is no notification of this kind. -/
theorem Keeps.of_wake (hplace : c.place t = (c.place s).notifyAll) (hready : c.ready t ↔ c.ready s)
    (hpending : c.pending t ↔ c.pending s) : c.Keeps s t where
  commit h := Or.inl (Or.inl (WaitPlace.committed_notifyAll (hplace ▸ h)))
  announce h := Or.inl (hready.1 h)
  notify h := Or.inl (hpending.2 h)

/-- A notification, unless it falls between the evaluation of the predicate and the sleep. -/
theorem Keeps.of_notify (hplace : c.place t = (c.place s).notifyAll)
    (hready : c.ready t ↔ c.ready s) (hblock : c.place s ≠ .block) : c.Keeps s t :=
  .of_away (fun h => hblock (WaitPlace.committed_notifyAll (hplace ▸ h))) hready.1

/-- The predicate becomes true, and a notification is to come. -/
theorem Keeps.of_announce (hplace : c.place t = c.place s) (hpending : c.pending t) :
    c.Keeps s t where
  commit h := Or.inl (hplace ▸ h)
  announce _ := Or.inr hpending
  notify _ := Or.inl hpending

end CondVar

end Lib
end V8JsiRuntime
