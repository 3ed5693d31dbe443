import Mathlib.Data.List.FinRange
import Mathlib.Data.List.Pairwise
import V8JsiRuntime.Lib.Run

/-!
# Counters — the counters of the process

V8 asks for its counters by name.  `GetCounter` finds them in a map, or takes the next one of the
collection in use.  The map, both collections and the pointer to the one in use are static, and
belong to all runtimes of the process; but `CreateNewIsolate` starts a new map.
-/

namespace V8JsiRuntime
namespace Runtime

open Lib

/-! ## Data -/

def kMaxNameSize : Nat := 64

def kMaxCounters : Nat := 512

abbrev Name := List UInt8

/-- What `Bind` stores in a counter. -/
structure Counter where
  isHistogram : Bool
  name : Name
  deriving DecidableEq, Repr

structure CounterCollection where
  countersInUse : Nat
  counters : Vector Counter kMaxCounters
  countersInUse_le : countersInUse ≤ kMaxCounters

/-- `local_counters_` or `counters_file_`. -/
inductive Collection
  | localCounters
  | countersFile
  deriving DecidableEq, Repr

/-- A `Counter*`. -/
structure CounterPointer where
  collection : Collection
  index : Fin kMaxCounters
  deriving DecidableEq, Repr

abbrev CounterMap := List (Name × CounterPointer)

/-- A call of `GetCounter` that has returned. -/
structure Lookup where
  name : Name
  /-- The collection in use. -/
  collection : Collection
  counter : Option CounterPointer
  deriving DecidableEq, Repr

/-- The static members, and what has become of them. -/
structure CounterTable where
  /-- `counter_map_`; it is null at first. -/
  counterMap : Option CounterMap
  localCounters : CounterCollection
  countersFile : CounterCollection
  /-- `counters_` -/
  counters : Collection
  /-- History: the maps that `counter_map_` has pointed to before. -/
  replaced : List CounterMap
  /-- History: the calls of `GetCounter`, the latest one last. -/
  lookups : List Lookup

namespace CounterCollection

/-- The contents at the start of the process. -/
def zero : CounterCollection :=
  ⟨0, Vector.replicate kMaxCounters ⟨false, []⟩, Nat.zero_le _⟩

/-- `GetNextCounter`: the index of the counter, if there is one, and the collection after that. -/
def getNextCounter (c : CounterCollection) : Option (Fin kMaxCounters × CounterCollection) :=
  if h : c.countersInUse = kMaxCounters then
    none
  else
    have hlt : c.countersInUse < kMaxCounters := Nat.lt_of_le_of_ne c.countersInUse_le h
    some (⟨c.countersInUse, hlt⟩, ⟨c.countersInUse + 1, c.counters, hlt⟩)

/-- `Counter::Bind`; a long name is cut off. -/
def bind (c : CounterCollection) (index : Fin kMaxCounters) (name : Name) (isHistogram : Bool) :
    CounterCollection :=
  { c with counters := c.counters.set index ⟨isHistogram, name.take (kMaxNameSize - 1)⟩ }

end CounterCollection

namespace CounterTable

def init : CounterTable :=
  ⟨none, .zero, .zero, .localCounters, [], []⟩

def collection (s : CounterTable) : Collection → CounterCollection
  | .localCounters => s.localCounters
  | .countersFile => s.countersFile

def setCollection (s : CounterTable) (which : Collection) (c : CounterCollection) : CounterTable :=
  match which with
  | .localCounters => { s with localCounters := c }
  | .countersFile => { s with countersFile := c }

/-! ## Calls -/

/-- The part of `CreateNewIsolate` that concerns the counters, up to the initialization of the
isolate; `MapCounters` follows after that if `trackGCObjectStats` is set. -/
def createNewIsolate (s : CounterTable) : CounterTable :=
  { s with
    counterMap := some []
    replaced := s.replaced ++ s.counterMap.toList }

def mapCounters (s : CounterTable) : CounterTable :=
  { s with counters := .countersFile }

def returned (s : CounterTable) (name : Name) (counter : Option CounterPointer) : CounterTable :=
  { s with lookups := s.lookups ++ [⟨name, s.counters, counter⟩] }

/-- `GetCounter` in the given map; the assertion on the kind of counter is not compiled in. -/
def getCounter (s : CounterTable) (counterMap : CounterMap) (name : Name) (isHistogram : Bool) :
    CounterTable :=
  match counterMap.lookup name with
  | some counter => s.returned name (some counter)
  | none =>
      match (s.collection s.counters).getNextCounter with
      | some (index, c) =>
          let counter : CounterPointer := ⟨s.counters, index⟩
          { s.setCollection s.counters (c.bind index name isHistogram) with
            counterMap := some ((name, counter) :: counterMap) }.returned name (some counter)
      | none => s.returned name none

end CounterTable

inductive CounterCall
  | createNewIsolate
  | mapCounters
  | lookupCounter (name : Name)
  | createHistogram (name : Name)
  deriving DecidableEq, Repr

namespace CounterTable

/-- V8 is given the callbacks when there is a map. -/
def step (s : CounterTable) : CounterCall → Option CounterTable
  | .createNewIsolate => some s.createNewIsolate
  | .mapCounters => some s.mapCounters
  | .lookupCounter name => s.counterMap.map fun counterMap => s.getCounter counterMap name false
  | .createHistogram name => s.counterMap.map fun counterMap => s.getCounter counterMap name true

/-! ## Vocabulary -/

/-- What is wanted of the counters: a counter has one name, a name keeps the counter that it was
given, and there is none left only if all of the collection have names. -/
structure Consistent (s : CounterTable) : Prop where
  distinct : ∀ l ∈ s.lookups, ∀ l' ∈ s.lookups, ∀ counter, l.counter = some counter →
    l'.counter = some counter → l.name = l'.name
  stable : s.lookups.Pairwise fun l l' =>
    l.name = l'.name → ∀ counter, l.counter = some counter → l'.counter = some counter
  exhausted : ∀ before l, before ++ [l] <+: s.lookups → l.counter = none →
    ∃ names : List Name, names.Nodup ∧ names.length = kMaxCounters ∧
      ∀ name ∈ names, ∃ l' ∈ before, l'.name = name ∧
        ∃ counter, l'.counter = some counter ∧ counter.collection = l.collection

/-- The name is in a map that has been replaced, and not in the one there is. -/
def Forgotten (s : CounterTable) (name : Name) : Prop :=
  (∃ counterMap ∈ s.replaced, (counterMap.lookup name).isSome) ∧
    ∀ counterMap, s.counterMap = some counterMap → counterMap.lookup name = none

end CounterTable

def CounterCall.name? : CounterCall → Option Name
  | .lookupCounter name => some name
  | .createHistogram name => some name
  | _ => none

namespace CounterTable

/-- The call does not ask for a name that is forgotten. -/
def Remembered (s : CounterTable) (call : CounterCall) : Prop :=
  ∀ name, call.name? = some name → ¬ s.Forgotten name

/-! ## Transitions -/

/-- What a call can do, with what it has found. -/
inductive Transition (s : CounterTable) : CounterCall → CounterTable → Prop
  | createNewIsolate : Transition s .createNewIsolate s.createNewIsolate
  | mapCounters : Transition s .mapCounters s.mapCounters
  | found {call : CounterCall} {name : Name} {counterMap : CounterMap} {counter : CounterPointer}
      (hname : call.name? = some name) (hmap : s.counterMap = some counterMap)
      (hfind : counterMap.lookup name = some counter) :
      Transition s call (s.returned name (some counter))
  | created {call : CounterCall} {name : Name} {counterMap : CounterMap}
      {index : Fin kMaxCounters} {c : CounterCollection} (isHistogram : Bool)
      (hname : call.name? = some name) (hmap : s.counterMap = some counterMap)
      (hfind : counterMap.lookup name = none)
      (hnext : (s.collection s.counters).getNextCounter = some (index, c)) :
      Transition s call ({ s.setCollection s.counters (c.bind index name isHistogram) with
        counterMap := some ((name, ⟨s.counters, index⟩) :: counterMap) }.returned name
          (some ⟨s.counters, index⟩))
  | full {call : CounterCall} {name : Name} {counterMap : CounterMap}
      (hname : call.name? = some name) (hmap : s.counterMap = some counterMap)
      (hfind : counterMap.lookup name = none)
      (hnext : (s.collection s.counters).getNextCounter = none) :
      Transition s call (s.returned name none)

variable {s s' : CounterTable} {call : CounterCall}

theorem transition_getCounter {name : Name} {counterMap : CounterMap} (isHistogram : Bool)
    (hname : call.name? = some name) (hmap : s.counterMap = some counterMap) :
    s.Transition call (s.getCounter counterMap name isHistogram) := by
  unfold getCounter
  split
  · rename_i counter hfind
    exact .found hname hmap hfind
  · rename_i hfind
    split
    · rename_i index c hnext
      exact .created isHistogram hname hmap hfind hnext
    · rename_i hnext
      exact .full hname hmap hfind hnext

theorem transition_of_step (hstep : s.step call = some s') : s.Transition call s' := by
  cases call with
  | createNewIsolate =>
      obtain rfl := Option.some.inj hstep
      exact .createNewIsolate
  | mapCounters =>
      obtain rfl := Option.some.inj hstep
      exact .mapCounters
  | lookupCounter name =>
      obtain ⟨counterMap, hmap, rfl⟩ := Option.map_eq_some_iff.1 hstep
      exact transition_getCounter false rfl hmap
  | createHistogram name =>
      obtain ⟨counterMap, hmap, rfl⟩ := Option.map_eq_some_iff.1 hstep
      exact transition_getCounter true rfl hmap

/-! ## The invariant of all runs -/

def inUse (s : CounterTable) (which : Collection) : Nat :=
  (s.collection which).countersInUse

/-- All maps there have been. -/
def maps (s : CounterTable) : List CounterMap :=
  s.replaced ++ s.counterMap.toList

/-- Exactly the counters in use have been given to somebody, each under one name, and the maps say
who got them. -/
structure CounterInv (s : CounterTable) : Prop where
  used : ∀ l ∈ s.lookups, ∀ counter, l.counter = some counter →
    counter.index.val < s.inUse counter.collection
  filled : ∀ which (index : Fin kMaxCounters), index.val < s.inUse which →
    ∃ l ∈ s.lookups, l.counter = some ⟨which, index⟩
  distinct : ∀ l ∈ s.lookups, ∀ l' ∈ s.lookups, ∀ counter, l.counter = some counter →
    l'.counter = some counter → l.name = l'.name
  asked : ∀ counterMap ∈ s.maps, ∀ name counter, counterMap.lookup name = some counter →
    ∃ l ∈ s.lookups, l.name = name ∧ l.counter = some counter
  recorded : ∀ l ∈ s.lookups, ∀ counter, l.counter = some counter →
    ∃ counterMap ∈ s.maps, (counterMap.lookup l.name).isSome

theorem getNextCounter_some {c c' : CounterCollection} {index : Fin kMaxCounters}
    (h : c.getNextCounter = some (index, c')) :
    index.val = c.countersInUse ∧ c'.countersInUse = c.countersInUse + 1 := by
  unfold CounterCollection.getNextCounter at h
  split at h
  · cases h
  · obtain ⟨rfl, rfl⟩ := Prod.mk.inj (Option.some.inj h)
    exact ⟨rfl, rfl⟩

theorem getNextCounter_none {c : CounterCollection} (h : c.getNextCounter = none) :
    c.countersInUse = kMaxCounters := by
  unfold CounterCollection.getNextCounter at h
  split at h
  · assumption
  · cases h

@[simp] theorem setCollection_lookups (which : Collection) (c : CounterCollection) :
    (s.setCollection which c).lookups = s.lookups := by
  cases which <;> rfl

@[simp] theorem setCollection_replaced (which : Collection) (c : CounterCollection) :
    (s.setCollection which c).replaced = s.replaced := by
  cases which <;> rfl

@[simp] theorem setCollection_counters (which : Collection) (c : CounterCollection) :
    (s.setCollection which c).counters = s.counters := by
  cases which <;> rfl

theorem inUse_setCollection (which which' : Collection) (c : CounterCollection) :
    (s.setCollection which c).inUse which' =
      if which' = which then c.countersInUse else s.inUse which' := by
  cases which <;> cases which' <;> rfl

/-- The state after a counter has been created. -/
structure Created (s : CounterTable) (name : Name) (counterMap : CounterMap)
    (counter : CounterPointer) (s' : CounterTable) : Prop where
  collection : counter.collection = s.counters
  index : counter.index.val = s.inUse s.counters
  inUse : ∀ which, s'.inUse which = if which = s.counters then s.inUse which + 1 else s.inUse which
  lookups : s'.lookups = s.lookups ++ [⟨name, s.counters, some counter⟩]
  maps : s'.maps = s.replaced ++ [(name, counter) :: counterMap]

theorem created_of_next {name : Name} {counterMap : CounterMap} {index : Fin kMaxCounters}
    {c : CounterCollection} (isHistogram : Bool)
    (hnext : (s.collection s.counters).getNextCounter = some (index, c)) :
    s.Created name counterMap ⟨s.counters, index⟩
      ({ s.setCollection s.counters (c.bind index name isHistogram) with
        counterMap := some ((name, ⟨s.counters, index⟩) :: counterMap) }.returned name
          (some ⟨s.counters, index⟩)) := by
  obtain ⟨hindex, hinUse⟩ := getNextCounter_some hnext
  refine ⟨rfl, hindex, ?_, by simp [returned], by simp [CounterTable.maps, returned]⟩
  intro which
  refine (inUse_setCollection (s := s) s.counters which (c.bind index name isHistogram)).trans ?_
  by_cases hwhich : which = s.counters
  · rw [if_pos hwhich, if_pos hwhich, hwhich]
    exact hinUse
  · rw [if_neg hwhich, if_neg hwhich]

theorem CounterInv.init : CounterInv init where
  used := nofun
  filled := fun which _ hindex => by cases which <;> cases hindex
  distinct := nofun
  asked := nofun
  recorded := nofun

theorem CounterInv.createNewIsolate (inv : CounterInv s) : CounterInv s.createNewIsolate where
  used := inv.used
  filled := inv.filled
  distinct := inv.distinct
  asked := by
    intro counterMap hmem name counter hfind
    rcases List.mem_append.1 hmem with hmem | hmem
    · exact inv.asked counterMap hmem name counter hfind
    · obtain rfl := List.mem_singleton.1 hmem
      cases hfind
  recorded := by
    intro l hl counter hcounter
    obtain ⟨counterMap, hmem, hfind⟩ := inv.recorded l hl counter hcounter
    exact ⟨counterMap, List.mem_append_left _ hmem, hfind⟩

/-- A call more, under a name that its counter has already. -/
theorem distinct_concat {lookups : List Lookup} {last : Lookup}
    (hdistinct : ∀ l ∈ lookups, ∀ l' ∈ lookups, ∀ counter, l.counter = some counter →
      l'.counter = some counter → l.name = l'.name)
    (hlast : ∀ l ∈ lookups, ∀ counter, l.counter = some counter → last.counter = some counter →
      l.name = last.name) :
    ∀ l ∈ lookups ++ [last], ∀ l' ∈ lookups ++ [last], ∀ counter, l.counter = some counter →
      l'.counter = some counter → l.name = l'.name := by
  intro l hl l' hl' counter hcounter hcounter'
  rcases List.mem_append.1 hl with hold | hnew <;> rcases List.mem_append.1 hl' with hold' | hnew'
  · exact hdistinct l hold l' hold' counter hcounter hcounter'
  · obtain rfl := List.mem_singleton.1 hnew'
    exact hlast l hold counter hcounter hcounter'
  · obtain rfl := List.mem_singleton.1 hnew
    exact (hlast l' hold' counter hcounter' hcounter).symm
  · rw [List.mem_singleton.1 hnew, List.mem_singleton.1 hnew']

/-- Nothing but a counter that has the name already, or none, is returned. -/
theorem CounterInv.returned (inv : CounterInv s) {name : Name} {counter : Option CounterPointer}
    (hasked : ∀ c, counter = some c → ∃ l ∈ s.lookups, l.name = name ∧ l.counter = some c) :
    CounterInv (s.returned name counter) where
  used := by
    intro l hl c hc
    rcases List.mem_append.1 hl with hl | hl
    · exact inv.used l hl c hc
    · obtain rfl := List.mem_singleton.1 hl
      obtain ⟨l, hl, _, hcounter⟩ := hasked c hc
      exact inv.used l hl c hcounter
  filled := by
    intro which index hindex
    obtain ⟨l, hl, hcounter⟩ := inv.filled which index hindex
    exact ⟨l, List.mem_append_left _ hl, hcounter⟩
  distinct := by
    refine distinct_concat inv.distinct ?_
    intro l hl c hc hcounter
    obtain ⟨l', hl', rfl, hc'⟩ := hasked c hcounter
    exact inv.distinct l hl l' hl' c hc hc'
  asked := by
    intro counterMap hmem name' c hfind
    obtain ⟨l, hl, hname⟩ := inv.asked counterMap hmem name' c hfind
    exact ⟨l, List.mem_append_left _ hl, hname⟩
  recorded := by
    intro l hl c hc
    rcases List.mem_append.1 hl with hl | hl
    · exact inv.recorded l hl c hc
    · obtain rfl := List.mem_singleton.1 hl
      obtain ⟨l, hl, hname, hcounter⟩ := hasked c hc
      rw [← show l.name = name from hname]
      exact inv.recorded l hl c hcounter

theorem lookup_entry (counterMap : CounterMap) (name name' : Name) (counter : CounterPointer) :
    List.lookup name' ((name, counter) :: counterMap) =
      if name' = name then some counter else counterMap.lookup name' := by
  rw [List.lookup_cons]
  by_cases hname : name' = name
  · rw [if_pos hname, beq_iff_eq.2 hname]
  · rw [if_neg hname, beq_eq_false_iff_ne.2 hname]

section Created

variable {name : Name} {counterMap : CounterMap} {counter : CounterPointer}

/-- A counter that has been created is the next one, and nobody's before. -/
theorem Created.fresh (h : s.Created name counterMap counter s') (inv : CounterInv s) {l : Lookup}
    (hl : l ∈ s.lookups) : l.counter ≠ some counter := by
  intro hcounter
  have hused := inv.used l hl counter hcounter
  rw [h.collection, ← h.index] at hused
  exact Nat.lt_irrefl _ hused

theorem Created.used (h : s.Created name counterMap counter s') (inv : CounterInv s) :
    ∀ l ∈ s'.lookups, ∀ c, l.counter = some c → c.index.val < s'.inUse c.collection := by
  intro l hl c hc
  rw [h.lookups] at hl
  rw [h.inUse]
  rcases List.mem_append.1 hl with hl | hl
  · have hused := inv.used l hl c hc
    split <;> omega
  · obtain rfl := List.mem_singleton.1 hl
    obtain rfl := Option.some.inj hc
    rw [if_pos h.collection, h.collection, h.index]
    exact Nat.lt_succ_self _

/-- An index in use is an old one, or that of the new counter. -/
theorem Created.index_cases (h : s.Created name counterMap counter s') {which : Collection}
    {index : Fin kMaxCounters} (hindex : index.val < s'.inUse which) :
    index.val < s.inUse which ∨ counter = ⟨which, index⟩ := by
  rw [h.inUse] at hindex
  by_cases hwhich : which = s.counters
  · subst hwhich
    rw [if_pos rfl] at hindex
    rcases Nat.lt_succ_iff_lt_or_eq.1 hindex with hold | hlast
    · exact Or.inl hold
    · have hsame : counter.index = index := Fin.ext (h.index.trans hlast.symm)
      exact Or.inr (by rw [← h.collection, ← hsame])
  · rw [if_neg hwhich] at hindex
    exact Or.inl hindex

theorem Created.filled (h : s.Created name counterMap counter s') (inv : CounterInv s) :
    ∀ which (index : Fin kMaxCounters), index.val < s'.inUse which →
      ∃ l ∈ s'.lookups, l.counter = some ⟨which, index⟩ := by
  intro which index hindex
  rw [h.lookups]
  rcases h.index_cases hindex with hold | hlast
  · obtain ⟨l, hl, hcounter⟩ := inv.filled which index hold
    exact ⟨l, List.mem_append_left _ hl, hcounter⟩
  · exact ⟨_, List.mem_append_right _ (List.mem_singleton_self _), congrArg some hlast⟩

theorem maps_of_map (hmap : s.counterMap = some counterMap) :
    s.maps = s.replaced ++ [counterMap] := by
  rw [CounterTable.maps, hmap]
  rfl

/-- What is found afterwards was found before, or is the new counter. -/
theorem Created.lookup_cases (h : s.Created name counterMap counter s')
    (hmap : s.counterMap = some counterMap) {current : CounterMap} (hcurrent : current ∈ s'.maps)
    {name' : Name} {c : CounterPointer} (hfind : current.lookup name' = some c) :
    (∃ old ∈ s.maps, old.lookup name' = some c) ∨ name = name' ∧ counter = c := by
  rw [h.maps] at hcurrent
  rw [maps_of_map hmap]
  rcases List.mem_append.1 hcurrent with hold | hlast
  · exact Or.inl ⟨current, List.mem_append_left _ hold, hfind⟩
  · obtain rfl := List.mem_singleton.1 hlast
    rw [lookup_entry] at hfind
    split at hfind
    · rename_i hname
      exact Or.inr ⟨hname.symm, Option.some.inj hfind⟩
    · exact Or.inl ⟨counterMap, List.mem_append_right _ (List.mem_singleton_self _), hfind⟩

/-- What was found before is still found in some map. -/
theorem Created.isSome_lookup (h : s.Created name counterMap counter s')
    (hmap : s.counterMap = some counterMap) {old : CounterMap} (hold : old ∈ s.maps) {name' : Name}
    (hfind : (old.lookup name').isSome) : ∃ current ∈ s'.maps, (current.lookup name').isSome := by
  rw [maps_of_map hmap] at hold
  rw [h.maps]
  rcases List.mem_append.1 hold with hold | hlast
  · exact ⟨old, List.mem_append_left _ hold, hfind⟩
  · obtain rfl := List.mem_singleton.1 hlast
    refine ⟨_, List.mem_append_right _ (List.mem_singleton_self _), ?_⟩
    rw [lookup_entry]
    split
    · rfl
    · exact hfind

theorem Created.counterInv (h : s.Created name counterMap counter s')
    (hmap : s.counterMap = some counterMap) (inv : CounterInv s) : CounterInv s' where
  used := h.used inv
  filled := h.filled inv
  distinct := by
    rw [h.lookups]
    exact distinct_concat inv.distinct fun l hl c hc hlast =>
      absurd (hc.trans hlast.symm) (h.fresh inv hl)
  asked := by
    intro current hcurrent name' c hfind
    rw [h.lookups]
    rcases h.lookup_cases hmap hcurrent hfind with ⟨old, hold, hfind⟩ | ⟨rfl, rfl⟩
    · obtain ⟨l, hl, hname⟩ := inv.asked old hold name' c hfind
      exact ⟨l, List.mem_append_left _ hl, hname⟩
    · exact ⟨_, List.mem_append_right _ (List.mem_singleton_self _), rfl, rfl⟩
  recorded := by
    intro l hl c hc
    rw [h.lookups] at hl
    rcases List.mem_append.1 hl with hl | hl
    · obtain ⟨old, hold, hfind⟩ := inv.recorded l hl c hc
      exact h.isSome_lookup hmap hold hfind
    · obtain rfl := List.mem_singleton.1 hl
      refine ⟨(name, counter) :: counterMap, ?_, ?_⟩
      · rw [h.maps]
        exact List.mem_append_right _ (List.mem_singleton_self _)
      · rw [lookup_entry, if_pos rfl]
        rfl

end Created

theorem CounterInv.step (inv : CounterInv s) (hstep : s.step call = some s') : CounterInv s' := by
  cases transition_of_step hstep with
  | createNewIsolate => exact inv.createNewIsolate
  | mapCounters => exact ⟨inv.used, inv.filled, inv.distinct, inv.asked, inv.recorded⟩
  | @found _ name counterMap counter _ hmap hfind =>
      refine inv.returned fun c hc => ?_
      obtain rfl := Option.some.inj hc
      exact inv.asked counterMap (by simp [maps, hmap]) name counter hfind
  | created isHistogram _ hmap _ hnext =>
      exact (created_of_next isHistogram hnext).counterInv hmap inv
  | full => exact inv.returned nofun

/-! ## Names that keep their counters -/

/-- Calls for one name have not returned two counters. -/
def Agree (l l' : Lookup) : Prop :=
  l.name = l'.name → ∀ c c', l.counter = some c → l'.counter = some c' → c = c'

theorem Agree.symm {l l' : Lookup} (h : Agree l l') : Agree l' l :=
  fun hname c c' hc hc' => (h hname.symm c' c hc' hc).symm

instance : Std.Symm Agree :=
  ⟨fun _ _ h => h.symm⟩

theorem Consistent.same (h : Consistent s) {l l' : Lookup} (hl : l ∈ s.lookups)
    (hl' : l' ∈ s.lookups) (hname : l.name = l'.name) {c c' : CounterPointer}
    (hc : l.counter = some c) (hc' : l'.counter = some c') : c = c' := by
  have hself (l : Lookup) : Agree l l := fun _ c c' hc hc' => Option.some.inj (hc.symm.trans hc')
  have hpairs : s.lookups.Pairwise Agree := h.stable.imp fun hstable hname c c' hc hc' =>
    Option.some.inj ((hstable hname c hc).symm.trans hc')
  exact hpairs.forall_of_forall (fun l _ => hself l) hl hl' hname c c' hc hc'

/-- One more call keeps the tables consistent, if it returns what earlier ones did. -/
theorem Consistent.concat (h : Consistent s) (inv : CounterInv s') {name : Name}
    {counter : Option CounterPointer}
    (hlookups : s'.lookups = s.lookups ++ [⟨name, s.counters, counter⟩])
    (hstable : ∀ l ∈ s.lookups, l.name = name → ∀ c, l.counter = some c → counter = some c)
    (hexhausted : counter = none → ∃ names : List Name, names.Nodup ∧
      names.length = kMaxCounters ∧ ∀ name ∈ names, ∃ l ∈ s.lookups, l.name = name ∧
        ∃ c, l.counter = some c ∧ c.collection = s.counters) : Consistent s' where
  distinct := inv.distinct
  stable := by
    rw [hlookups, List.pairwise_append]
    refine ⟨h.stable, List.pairwise_singleton _ _, ?_⟩
    intro l hl l' hl'
    obtain rfl := List.mem_singleton.1 hl'
    exact hstable l hl
  exhausted := by
    rw [hlookups, forall_prefix_concat]
    exact ⟨h.exhausted, hexhausted⟩

/-- A collection without a counter left has as many names. -/
theorem names_of_full (inv : CounterInv s) (h : Consistent s) {which : Collection}
    (hfull : s.inUse which = kMaxCounters) :
    ∃ names : List Name, names.Nodup ∧ names.length = kMaxCounters ∧
      ∀ name ∈ names, ∃ l ∈ s.lookups, l.name = name ∧
        ∃ c, l.counter = some c ∧ c.collection = which := by
  choose holder hholder using fun index : Fin kMaxCounters =>
    inv.filled which index (by rw [hfull]; exact index.isLt)
  refine ⟨(List.finRange kMaxCounters).map fun index => (holder index).name, ?_, by simp, ?_⟩
  · refine List.Nodup.map ?_ (List.nodup_finRange kMaxCounters)
    intro index index' hname
    have hsame := h.same (hholder index).1 (hholder index').1 hname (hholder index).2
      (hholder index').2
    exact congrArg CounterPointer.index hsame
  · intro name hname
    obtain ⟨index, _, rfl⟩ := List.mem_map.1 hname
    exact ⟨holder index, (hholder index).1, rfl, _, (hholder index).2, rfl⟩

/-- A name that is in no map has not been given a counter. -/
theorem CounterInv.unasked (inv : CounterInv s) {name : Name} {counterMap : CounterMap}
    (hmap : s.counterMap = some counterMap) (hfind : counterMap.lookup name = none)
    (hremembered : ¬ s.Forgotten name) {l : Lookup} (hl : l ∈ s.lookups) (hname : l.name = name)
    (c : CounterPointer) : l.counter ≠ some c := by
  intro hc
  obtain ⟨counterMap', hmem, hsome⟩ := inv.recorded l hl c hc
  rw [hname] at hsome
  rcases List.mem_append.1 hmem with hmem | hmem
  · refine hremembered ⟨⟨counterMap', hmem, hsome⟩, fun current hcurrent => ?_⟩
    obtain rfl := Option.some.inj (hmap.symm.trans hcurrent)
    exact hfind
  · rw [hmap] at hmem
    obtain rfl := List.mem_singleton.1 hmem
    rw [hfind] at hsome
    cases hsome

/-- The tables stay consistent while nobody asks for a name that is forgotten. -/
theorem Consistent.step (inv : CounterInv s) (h : Consistent s) (hcall : s.Remembered call)
    (hstep : s.step call = some s') : Consistent s' := by
  have inv' := inv.step hstep
  cases transition_of_step hstep with
  | createNewIsolate => exact ⟨h.distinct, h.stable, h.exhausted⟩
  | mapCounters => exact ⟨h.distinct, h.stable, h.exhausted⟩
  | @found _ name counterMap counter _ hmap hfind =>
      refine h.concat inv' rfl ?_ nofun
      intro l hl hname c hc
      obtain ⟨l', hl', hname', hc'⟩ := inv.asked counterMap (by simp [maps, hmap]) name counter hfind
      exact congrArg some (h.same hl' hl (hname'.trans hname.symm) hc' hc)
  | created isHistogram hname hmap hfind hnext =>
      refine h.concat inv' (created_of_next isHistogram hnext).lookups ?_ nofun
      intro l hl hlname c hc
      exact absurd hc (inv.unasked hmap hfind (hcall _ hname) hl hlname c)
  | full hname hmap hfind hnext =>
      refine h.concat inv' rfl ?_ fun _ => names_of_full inv h (getNextCounter_none hnext)
      intro l hl hlname c hc
      exact absurd hc (inv.unasked hmap hfind (hcall _ hname) hl hlname c)

/-- The latest call has to return what any other for the same name did. -/
theorem Consistent.last (h : Consistent s') {last : Lookup}
    (hlookups : s'.lookups = s.lookups ++ [last]) {l : Lookup} (hl : l ∈ s.lookups)
    (hname : l.name = last.name) {c : CounterPointer} (hc : l.counter = some c) :
    last.counter = some c := by
  have hstable := h.stable
  rw [hlookups, List.pairwise_append] at hstable
  exact hstable.2.2 l hl last (List.mem_singleton_self last) hname c hc

/-- A name that is forgotten gets another counter, or none. -/
theorem not_consistent_step (inv : CounterInv s) (hcall : ¬ s.Remembered call)
    (hstep : s.step call = some s') : ¬ Consistent s' := by
  intro h
  simp only [Remembered, not_forall, not_not] at hcall
  obtain ⟨name, hname, ⟨forgotten, hforgotten, hsome⟩, hnone⟩ := hcall
  obtain ⟨counter, hcounter⟩ := Option.isSome_iff_exists.1 hsome
  obtain ⟨l, hl, hlname, hc⟩ := inv.asked forgotten (List.mem_append_left _ hforgotten) name counter
    hcounter
  cases transition_of_step hstep with
  | createNewIsolate => cases hname
  | mapCounters => cases hname
  | found hname' hmap hfind =>
      obtain rfl := Option.some.inj (hname.symm.trans hname')
      rw [hnone _ hmap] at hfind
      cases hfind
  | @created _ name' counterMap _ _ isHistogram hname' _ _ hnext =>
      obtain rfl := Option.some.inj (hname.symm.trans hname')
      have hcreated := @created_of_next s name counterMap _ _ isHistogram hnext
      have hlast := h.last hcreated.lookups hl hlname hc
      exact hcreated.fresh inv hl (hc.trans hlast.symm)
  | full hname' =>
      obtain rfl := Option.some.inj (hname.symm.trans hname')
      have hlast := h.last rfl hl hlname hc
      cases hlast

theorem Consistent.init : Consistent init where
  distinct := nofun
  stable := List.Pairwise.nil
  exhausted := fun before l hinitial => absurd (hinitial.length_le) (by simp [CounterTable.init])

/-! ## Runs -/

/-- In every run a counter is given under one name only. -/
theorem distinct_of_run {calls : List CounterCall} (hrun : Run step init calls s) :
    ∀ l ∈ s.lookups, ∀ l' ∈ s.lookups, ∀ counter, l.counter = some counter →
      l'.counter = some counter → l.name = l'.name :=
  (hrun.invariant CounterInv.init fun _ _ _ inv hstep => inv.step hstep).distinct

/-- In a run of calls the tables stay consistent exactly if none of them asks for a name that is in
a replaced map, and not in the current one. -/
theorem consistent_iff (calls : List CounterCall) (s : CounterTable)
    (hrun : Run step init calls s) :
    Throughout step Consistent init calls ↔ Along step Remembered init calls :=
  Run.throughout_iff_along (fun s => CounterInv s ∧ Consistent s)
    ⟨CounterInv.init, Consistent.init⟩ (fun _ h => h.2)
    (fun _ _ _ h hcall hstep => ⟨h.1.step hstep, h.2.step h.1 hcall hstep⟩)
    (fun _ _ _ h hcall hstep => not_consistent_step h.1 hcall hstep) hrun

/-- One name for each of two isolates. -/
theorem consistent_twoIsolates :
    ∃ s, Run step init [.createNewIsolate, .lookupCounter [97], .mapCounters, .createNewIsolate,
        .createHistogram [98], .mapCounters] s ∧
      (Throughout step Consistent init [.createNewIsolate, .lookupCounter [97], .mapCounters,
          .createNewIsolate, .createHistogram [98], .mapCounters] ↔
        Along step Remembered init [.createNewIsolate, .lookupCounter [97], .mapCounters,
          .createNewIsolate, .createHistogram [98], .mapCounters]) :=
  ⟨_, rfl, consistent_iff _ _ rfl⟩

/-- The second isolate asks for a name that the first one has asked for. -/
theorem not_consistent_secondIsolate :
    ¬ ∀ (calls : List CounterCall) (s : CounterTable), Run step init calls s → s.Consistent := by
  intro h
  have hconsistent := h [.createNewIsolate, .lookupCounter [97], .mapCounters, .createNewIsolate,
    .lookupCounter [97]] _ rfl
  have hpos : 0 < kMaxCounters := by decide
  have hstable : List.Pairwise _ [(⟨[97], .localCounters, some ⟨.localCounters, ⟨0, hpos⟩⟩⟩ : Lookup),
      ⟨[97], .countersFile, some ⟨.countersFile, ⟨0, hpos⟩⟩⟩] := hconsistent.stable
  have hlast := (List.pairwise_cons.1 hstable).1 _ (List.mem_singleton_self _) rfl
    ⟨.localCounters, ⟨0, hpos⟩⟩ rfl
  cases hlast

end CounterTable

end Runtime
end V8JsiRuntime
