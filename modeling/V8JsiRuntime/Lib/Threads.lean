import Mathlib.Logic.Function.Basic

/-!
# Threads — where the threads of a system are

The threads of a system are a function to places.  `P` is a set of places at which a thread does not
hold what the threads compete for; mutual exclusion is that at most one of them is elsewhere.
-/

namespace V8JsiRuntime
namespace Lib

variable {Place : Type}

/-- Every thread is at a place in `P`. -/
def AllAt (P : Place → Prop) (threads : Nat → Place) : Prop :=
  ∀ thread, P (threads thread)

/-- The thread is at that place, and every other one is at a place in `P`. -/
def OnlyAt (P : Place → Prop) (threads : Nat → Place) (thread : Nat) (place : Place) : Prop :=
  threads thread = place ∧ ∀ other, other ≠ thread → P (threads other)

variable {P : Place → Prop} {threads : Nat → Place} {thread other : Nat} {place place' : Place}

theorem AllAt.update (h : AllAt P threads) (hplace : P place) :
    AllAt P (Function.update threads thread place) := by
  intro other
  by_cases heq : other = thread
  · subst heq
    rwa [Function.update_self]
  · rw [Function.update_of_ne heq]
    exact h other

/-- The first thread to leave `P` is the only one outside. -/
theorem AllAt.enter (h : AllAt P threads) :
    OnlyAt P (Function.update threads thread place) thread place := by
  refine ⟨Function.update_self _ _ _, fun other hne => ?_⟩
  rw [Function.update_of_ne hne]
  exact h other

namespace OnlyAt

theorem move (h : OnlyAt P threads thread place) :
    OnlyAt P (Function.update threads thread place') thread place' := by
  refine ⟨Function.update_self _ _ _, fun other hne => ?_⟩
  rw [Function.update_of_ne hne]
  exact h.2 other hne

theorem leave (h : OnlyAt P threads thread place) (hplace : P place') :
    AllAt P (Function.update threads thread place') := by
  intro other
  by_cases heq : other = thread
  · subst heq
    rwa [Function.update_self]
  · rw [Function.update_of_ne heq]
    exact h.2 other heq

theorem update_other (h : OnlyAt P threads thread place) (hne : other ≠ thread)
    (hplace : P place') : OnlyAt P (Function.update threads other place') thread place := by
  refine ⟨?_, fun third hthird => ?_⟩
  · rw [Function.update_of_ne hne.symm]
    exact h.1
  · by_cases heq : third = other
    · subst heq
      rwa [Function.update_self]
    · rw [Function.update_of_ne heq]
      exact h.2 third hthird

/-- A thread at another place is another thread. -/
theorem ne_of_place (h : OnlyAt P threads thread place) (hother : threads other = place')
    (hne : place' ≠ place) : other ≠ thread := by
  rintro rfl
  exact hne (hother.symm.trans h.1)

/-- A thread outside of `P` is the one. -/
theorem eq_of_not (h : OnlyAt P threads thread place) (hother : ¬ P (threads other)) :
    other = thread := by
  by_contra hne
  exact hother (h.2 other hne)

end OnlyAt

end Lib
end V8JsiRuntime
