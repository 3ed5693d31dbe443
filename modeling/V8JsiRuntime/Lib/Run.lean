import Mathlib.Data.List.Induction
import Mathlib.Data.List.Infix

/-!
# Run — runs of a partial step function

A system is given by what a label does to a state, if the label can be taken there.  A run is the
list of its labels, so that a run can be computed, and facts about all runs are proved by induction
on the last label.
-/

namespace V8JsiRuntime
namespace Lib

variable {State Label : Type}

/-- The labels can be taken one after the other from `s`, and lead to `t`. -/
def Run (step : State → Label → Option State) (s : State) (labels : List Label) (t : State) : Prop :=
  labels.foldlM step s = some t

instance [DecidableEq State] (step : State → Label → Option State) (s : State)
    (labels : List Label) (t : State) : Decidable (Run step s labels t) :=
  inferInstanceAs (Decidable (_ = _))

namespace Run

variable {step : State → Label → Option State} {s t u : State} {labels labels' : List Label}

@[simp] theorem nil_iff : Run step s [] t ↔ s = t := by
  simp [Run]

theorem append_iff :
    Run step s (labels ++ labels') u ↔ ∃ t, Run step s labels t ∧ Run step t labels' u := by
  simp [Run, List.foldlM_append, Option.bind_eq_some_iff]

theorem concat_iff {label : Label} :
    Run step s (labels ++ [label]) u ↔ ∃ t, Run step s labels t ∧ step t label = some u := by
  simp [Run, List.foldlM_append, Option.bind_eq_some_iff]

theorem cons_iff {label : Label} :
    Run step s (label :: labels) u ↔ ∃ t, step s label = some t ∧ Run step t labels u := by
  simp [Run, Option.bind_eq_some_iff]

theorem concat {label : Label} (h : Run step s labels t) (hstep : step t label = some u) :
    Run step s (labels ++ [label]) u :=
  concat_iff.2 ⟨t, h, hstep⟩

/-- A run ends in one state only. -/
theorem functional (h : Run step s labels t) (h' : Run step s labels u) : t = u :=
  Option.some.inj (h.symm.trans h')

/-- Induction along a run, on its last label. -/
theorem induction {motive : List Label → State → Prop} (nil : motive [] s)
    (concat : ∀ labels t label u, Run step s labels t → step t label = some u →
      motive labels t → motive (labels ++ [label]) u)
    (h : Run step s labels t) : motive labels t := by
  induction labels using List.reverseRecOn generalizing t with
  | nil =>
      obtain rfl := nil_iff.1 h
      exact nil
  | append_singleton labels label ih =>
      obtain ⟨u, hrun, hstep⟩ := concat_iff.1 h
      exact concat labels u label t hrun hstep (ih hrun)

/-- What holds at first and is kept by every step holds after every run. -/
theorem invariant {P : State → Prop} (hinit : P s)
    (hstep : ∀ t label u, P t → step t label = some u → P u) (h : Run step s labels t) : P t :=
  h.induction hinit fun _ t label u _ hlast ih => hstep t label u ih hlast

end Run

/-- All states visited by the labels from `s` on satisfy `P`. -/
def Throughout (step : State → Label → Option State) (P : State → Prop) (s : State)
    (labels : List Label) : Prop :=
  ∀ visited u, visited <+: labels → Run step s visited u → P u

namespace Throughout

variable {step : State → Label → Option State} {P : State → Prop} {s t u : State}
  {labels labels' : List Label}

theorem of_append (h : Throughout step P s (labels ++ labels')) : Throughout step P s labels :=
  fun visited u hinitial hrun => h visited u (hinitial.trans (List.prefix_append _ _)) hrun

theorem last (h : Throughout step P s labels) (hrun : Run step s labels t) : P t :=
  h labels t List.prefix_rfl hrun

theorem nil_iff : Throughout step P s [] ↔ P s := by
  constructor
  · exact fun h => h.last (Run.nil_iff.2 rfl)
  · intro h visited u hinitial hrun
    obtain rfl := List.prefix_nil.1 hinitial
    rwa [← Run.nil_iff.1 hrun]

theorem cons_iff {label : Label} : Throughout step P s (label :: labels) ↔
    P s ∧ ∀ t, step s label = some t → Throughout step P t labels := by
  constructor
  · intro h
    refine ⟨h [] s List.nil_prefix (Run.nil_iff.2 rfl), ?_⟩
    intro t hstep visited u hinitial hrun
    exact h (label :: visited) u (List.cons_prefix_cons.2 ⟨rfl, hinitial⟩)
      (Run.cons_iff.2 ⟨t, hstep, hrun⟩)
  · intro ⟨hfirst, hrest⟩ visited u hinitial hrun
    cases visited with
    | nil => rwa [← Run.nil_iff.1 hrun]
    | cons label' visited =>
        obtain ⟨rfl, hvisited⟩ := List.cons_prefix_cons.1 hinitial
        obtain ⟨t, hstep, hrun⟩ := Run.cons_iff.1 hrun
        exact hrest t hstep visited u hvisited hrun

theorem concat_iff {label : Label} (hrun : Run step s labels t) (hstep : step t label = some u) :
    Throughout step P s (labels ++ [label]) ↔ Throughout step P s labels ∧ P u := by
  constructor
  · exact fun h => ⟨h.of_append, h.last (hrun.concat hstep)⟩
  · intro ⟨hbefore, hlast⟩ visited v hinitial hvisited
    rcases List.prefix_concat_iff.1 hinitial with rfl | hinitial
    · rwa [← (hrun.concat hstep).functional hvisited]
    · exact hbefore visited v hinitial hvisited

/-- A condition that can be decided can be decided along a run. -/
instance decidable [DecidablePred P] :
    (labels : List Label) → (s : State) → Decidable (Throughout step P s labels)
  | [], _ => decidable_of_iff _ nil_iff.symm
  | label :: labels, s =>
      match hstep : step s label with
      | none => decidable_of_iff (P s) (by simp [cons_iff, hstep])
      | some t =>
          have := decidable labels t
          decidable_of_iff (P s ∧ Throughout step P t labels) (by simp [cons_iff, hstep])

end Throughout

/-- As `Run.invariant`, for steps between states that satisfy a condition on the run. -/
theorem Run.invariant_throughout {step : State → Label → Option State} {P Q : State → Prop}
    {s t : State} {labels : List Label} (hinit : P s)
    (hstep : ∀ t label u, Q t → Q u → P t → step t label = some u → P u)
    (hrun : Run step s labels t) (hall : Throughout step Q s labels) : P t := by
  refine Run.induction (motive := fun labels t => Throughout step Q s labels → P t)
    (fun _ => hinit) ?_ hrun hall
  intro labels t label u hrun hlast ih hall
  have hbefore := hall.of_append
  exact hstep t label u (hbefore.last hrun) (hall.last (hrun.concat hlast)) (ih hbefore) hlast

theorem forall_prefix_concat {α : Type} {P : List α → α → Prop} {xs : List α} {x : α} :
    (∀ before y, before ++ [y] <+: xs ++ [x] → P before y) ↔
      (∀ before y, before ++ [y] <+: xs → P before y) ∧ P xs x := by
  constructor
  · exact fun h => ⟨fun before y hinitial => h before y (hinitial.trans (List.prefix_append _ _)),
      h xs x List.prefix_rfl⟩
  · intro ⟨hbefore, hlast⟩ before y hprefix
    rcases List.prefix_concat_iff.1 hprefix with heq | hprefix
    · obtain ⟨rfl, hy⟩ := List.append_inj' heq rfl
      rwa [List.singleton_inj.1 hy]
    · exact hbefore before y hprefix

/-- Every step taken along the labels from `s` on satisfies `P`. -/
def Along (step : State → Label → Option State) (P : State → Label → Prop) (s : State)
    (labels : List Label) : Prop :=
  ∀ visited label u, visited ++ [label] <+: labels → Run step s visited u → P u label

namespace Along

variable {step : State → Label → Option State} {P : State → Label → Prop} {s t : State}
  {labels : List Label} {label : Label}

theorem nil : Along step P s [] := by
  intro visited label u hinitial
  have hlength := hinitial.length_le
  simp at hlength

theorem of_prefix {visited : List Label} (h : Along step P s labels) (hinitial : visited <+: labels) :
    Along step P s visited :=
  fun before label u hbefore hrun => h before label u (hbefore.trans hinitial) hrun

theorem concat_iff (hrun : Run step s labels t) :
    Along step P s (labels ++ [label]) ↔ Along step P s labels ∧ P t label := by
  constructor
  · intro h
    exact ⟨h.of_prefix (List.prefix_append _ _), h labels label t List.prefix_rfl hrun⟩
  · intro ⟨hbefore, hlast⟩ visited label' u hinitial hvisited
    -- either this is the last step, taken where the run ends, or an earlier one
    rcases List.prefix_concat_iff.1 hinitial with heq | hinitial
    · obtain ⟨rfl, hlabel⟩ := List.append_inj' heq rfl
      obtain rfl := List.singleton_inj.1 hlabel
      rwa [← hrun.functional hvisited]
    · exact hbefore visited label' u hinitial hvisited

theorem cons_iff : Along step P s (label :: labels) ↔
    P s label ∧ ∀ t, step s label = some t → Along step P t labels := by
  constructor
  · intro h
    refine ⟨h [] label s (List.cons_prefix_cons.2 ⟨rfl, List.nil_prefix⟩) (Run.nil_iff.2 rfl), ?_⟩
    intro t hstep visited label' u hinitial hrun
    exact h (label :: visited) label' u (List.cons_prefix_cons.2 ⟨rfl, hinitial⟩)
      (Run.cons_iff.2 ⟨t, hstep, hrun⟩)
  · intro ⟨hfirst, hrest⟩ visited label' u hinitial hrun
    cases visited with
    | nil =>
        obtain ⟨rfl, _⟩ := List.cons_prefix_cons.1 hinitial
        rwa [← Run.nil_iff.1 hrun]
    | cons first visited =>
        obtain ⟨rfl, hvisited⟩ := List.cons_prefix_cons.1 hinitial
        obtain ⟨t, hstep, hrun⟩ := Run.cons_iff.1 hrun
        exact hrest t hstep visited label' u hvisited hrun

/-- A condition that can be decided can be decided for the steps of a run. -/
instance decidable [∀ s, DecidablePred (P s)] :
    (labels : List Label) → (s : State) → Decidable (Along step P s labels)
  | [], _ => isTrue nil
  | label :: labels, s =>
      match hstep : step s label with
      | none => decidable_of_iff (P s label) (by simp [cons_iff, hstep])
      | some t =>
          have := decidable labels t
          decidable_of_iff (P s label ∧ Along step P t labels) (by simp [cons_iff, hstep])

end Along

/-- As `Run.invariant`, for steps that satisfy a condition. -/
theorem Run.invariant_along {step : State → Label → Option State} {I : State → Prop}
    {Q : State → Label → Prop} {s t : State} {labels : List Label} (hinit : I s)
    (hkeep : ∀ t label u, I t → Q t label → step t label = some u → I u)
    (hrun : Run step s labels t) (halong : Along step Q s labels) : I t := by
  refine Run.induction (motive := fun labels t => Along step Q s labels → I t)
    (fun _ => hinit) ?_ hrun halong
  intro labels t label u hrun hlast ih halong
  obtain ⟨hbefore, hq⟩ := (Along.concat_iff hrun).1 halong
  exact hkeep t label u (ih hbefore) hq hlast

/-- When the steps that satisfy `Q` are the ones that keep an invariant, and the others lead out of
`P`, a run stays in `P` exactly if all its steps satisfy `Q`. -/
theorem Run.throughout_iff_along {step : State → Label → Option State} {P : State → Prop}
    {Q : State → Label → Prop} {s t : State} {labels : List Label} (I : State → Prop) (hinit : I s)
    (hholds : ∀ t, I t → P t)
    (hkeep : ∀ t label u, I t → Q t label → step t label = some u → I u)
    (hbreak : ∀ t label u, I t → ¬ Q t label → step t label = some u → ¬ P u)
    (hrun : Run step s labels t) : Throughout step P s labels ↔ Along step Q s labels := by
  refine Run.induction (motive := fun labels _ =>
    Throughout step P s labels ↔ Along step Q s labels) ?_ ?_ hrun
  · exact iff_of_true (Throughout.nil_iff.2 (hholds s hinit)) Along.nil
  · intro labels t label u hrun hlast ih
    rw [Throughout.concat_iff hrun hlast, Along.concat_iff hrun, ih]
    refine and_congr_right fun halong => ?_
    -- so far the steps satisfied the condition, and the invariant holds where the last one starts
    have ht := hrun.invariant_along hinit hkeep halong
    constructor
    · intro hu
      by_contra hnot
      exact hbreak t label u ht hnot hlast hu
    · exact fun hq => hholds u (hkeep t label u ht hq hlast)

end Lib
end V8JsiRuntime
