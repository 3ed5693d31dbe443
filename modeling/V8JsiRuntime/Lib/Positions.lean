import Mathlib.Algebra.Order.BigOperators.Group.List
import Mathlib.Algebra.Order.Group.Nat
import Mathlib.Data.List.Forall2

/-!
# Positions — an entry of a list and what is around it
-/

namespace V8JsiRuntime
namespace Lib

variable {α : Type}

/-- Taking out or replacing the entry at a position leaves what is before and behind it. -/
theorem exists_split {xs : List α} {k : Nat} {x : α} (h : xs[k]? = some x) :
    ∃ before after, xs = before ++ x :: after ∧ xs.eraseIdx k = before ++ after ∧
      ∀ y, xs.set k y = before ++ y :: after := by
  obtain ⟨hk, hget⟩ := List.getElem?_eq_some_iff.1 h
  refine ⟨xs.take k, xs.drop (k + 1), ?_, List.eraseIdx_eq_take_drop_succ xs k, fun y => ?_⟩
  · rw [← hget, ← List.drop_eq_getElem_cons hk, List.take_append_drop]
  · rw [List.set_eq_take_append_cons_drop, if_pos hk]

/-- A piece without a certain entry lies on one side of it. -/
theorem infix_of_append_cons {part xs ys : List α} {x : α} (h : part <:+: xs ++ x :: ys)
    (hx : x ∉ part) : part <:+: xs ∨ part <:+: ys := by
  obtain ⟨before, after, heq⟩ := h
  rcases List.append_eq_append_iff.1 heq with ⟨rest, rfl, _⟩ | ⟨rest, hfront, hback⟩
  · exact Or.inl ⟨before, rest, rfl⟩
  · cases rest with
    | nil => exact Or.inl ⟨before, [], by simp [hfront]⟩
    | cons first rest =>
        -- the entry is in front of the end of the piece, so it is in front of its beginning
        obtain ⟨rfl, rfl⟩ := List.cons.inj hback
        rcases List.append_eq_append_iff.1 hfront with ⟨inner, _, hpart⟩ | ⟨inner, _, hpart⟩
        · exact absurd (by rw [hpart]; simp) hx
        · cases inner with
          | nil => exact absurd (by rw [← List.nil_append part, ← hpart]; simp) hx
          | cons first inner =>
              obtain ⟨_, rfl⟩ := List.cons.inj hpart
              exact Or.inr ⟨inner, after, rfl⟩

/-- A piece without the brackets lies between them. -/
theorem infix_of_bracketed {part xs : List α} {x y : α} (h : part <:+: x :: (xs ++ [y]))
    (hx : x ∉ part) (hy : y ∉ part) : part <:+: xs := by
  have hnil : part <:+: [] → part <:+: xs :=
    fun h => List.infix_nil.1 h ▸ List.nil_infix
  have hfirst : part <:+: [] ++ x :: (xs ++ [y]) := h
  rcases infix_of_append_cons hfirst hx with h | h
  · exact hnil h
  · rcases infix_of_append_cons h hy with h | h
    · exact h
    · exact hnil h

section Forall₂

variable {β : Type} {R : α → β → Prop} {xs : List α} {ys : List β}

theorem exists_of_mem_left {x : α} (h : List.Forall₂ R xs ys) (hx : x ∈ xs) : ∃ y ∈ ys, R x y := by
  induction h with
  | nil => cases hx
  | @cons x' y' xs ys hfirst hrest ih =>
      rcases List.mem_cons.1 hx with rfl | hx
      · exact ⟨y', List.mem_cons_self, hfirst⟩
      · obtain ⟨y, hy, hrel⟩ := ih hx
        exact ⟨y, List.mem_cons_of_mem y' hy, hrel⟩

theorem exists_of_mem_right {y : β} (h : List.Forall₂ R xs ys) (hy : y ∈ ys) : ∃ x ∈ xs, R x y :=
  exists_of_mem_left h.flip hy

end Forall₂

/-- If each entry with a property comes with a larger one, there is none. -/
theorem forall_not_of_larger {xs : List α} {P : α → Prop} (size : α → Nat)
    (h : ∀ x ∈ xs, P x → ∃ y ∈ xs, P y ∧ size x < size y) : ∀ x ∈ xs, ¬ P x := by
  intro x hx hpx
  have hlarge : ∀ n, ∃ y ∈ xs, P y ∧ n ≤ size y := by
    intro n
    induction n with
    | zero => exact ⟨x, hx, hpx, Nat.zero_le _⟩
    | succ n ih =>
        obtain ⟨y, hy, hpy, hn⟩ := ih
        obtain ⟨z, hz, hpz, hlt⟩ := h y hy hpy
        exact ⟨z, hz, hpz, Nat.lt_of_le_of_lt hn hlt⟩
  obtain ⟨y, hy, _, hn⟩ := hlarge ((xs.map size).sum + 1)
  have hsum := List.single_le_sum (fun _ _ => Nat.zero_le _) (size y) (List.mem_map_of_mem hy)
  omega

end Lib
end V8JsiRuntime
