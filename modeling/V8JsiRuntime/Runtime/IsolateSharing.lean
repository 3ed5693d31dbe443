import Mathlib.Data.List.Nodup
import Mathlib.Data.List.Range
import V8JsiRuntime.Lib.Run

/-!
# IsolateSharing — the runtimes of a thread and their isolate

The first `V8Runtime` of a thread creates an isolate and enters it; those constructed while it lives
use it too, counted by a thread-local counter, and the last one to go disposes it.  What belongs to
the isolate, its task runner and its allocator, is held by the runtime that created it.
`shared_iff` says for which orders of destruction that is right.
-/

namespace V8JsiRuntime
namespace Runtime

open Lib

/-! ## Data -/

/-- An isolate that is not disposed. -/
structure Isolate where
  id : Nat
  /-- The runtime whose `foreground_task_runner_` the data in `ISOLATE_DATA_SLOT` points to. -/
  dataSlot : Option Nat
  deriving DecidableEq, Repr

/-- The members of a runtime that its lifetime concerns; allocators go by the isolate they were
created for. -/
structure V8Runtime where
  id : Nat
  isolate : Option Nat
  /-- `create_params_.array_buffer_allocator`, which is null unless `CreateNewIsolate` set it. -/
  arrayBufferAllocator : Option Nat
  deriving DecidableEq, Repr

inductive Effect
  | disposed (isolate : Nat)
  | deletedAllocator (isolate : Nat)
  deriving DecidableEq, Repr

structure Thread where
  /-- `tls_isolate_usage_counter_` -/
  isolateUsageCounter : UInt16
  /-- The isolates entered and not disposed, the current one first. -/
  isolates : List Isolate
  /-- The runtimes alive. -/
  runtimes : List V8Runtime
  /-- How many runtimes and isolates were created so far. -/
  nextRuntime : Nat
  nextIsolate : Nat
  /-- History: what was released. -/
  effects : List Effect
  deriving DecidableEq, Repr

namespace Thread

def init : Thread :=
  ⟨0, [], [], 0, 0, []⟩

/-- `v8::Isolate::GetCurrent` -/
def getCurrent (t : Thread) : Option Nat :=
  t.isolates.head?.map Isolate.id

/-! ## Construction and destruction -/

/-- `CreateNewIsolate` for the runtime that is constructed. -/
def createNewIsolate (t : Thread) : Thread :=
  { t with
    isolates := ⟨t.nextIsolate, some t.nextRuntime⟩ :: t.isolates
    runtimes := ⟨t.nextRuntime, some t.nextIsolate, some t.nextIsolate⟩ :: t.runtimes
    nextRuntime := t.nextRuntime + 1
    nextIsolate := t.nextIsolate + 1 }

/-- `V8Runtime::V8Runtime` -/
def construct (t : Thread) : Thread :=
  let counter := t.isolateUsageCounter
  let t := { t with isolateUsageCounter := counter + 1 }
  if counter > 0 then
    { t with
      runtimes := ⟨t.nextRuntime, t.getCurrent, none⟩ :: t.runtimes
      nextRuntime := t.nextRuntime + 1 }
  else
    t.createNewIsolate

/-- `V8Runtime::~V8Runtime` -/
def destroy (t : Thread) (runtime : V8Runtime) : Thread :=
  let t := { t with
    isolateUsageCounter := t.isolateUsageCounter - 1
    runtimes := t.runtimes.filter (·.id ≠ runtime.id) }
  if t.isolateUsageCounter = 0 then
    { t with
      isolates := t.isolates.filter (some ·.id ≠ runtime.isolate)
      -- deleting a null pointer does nothing
      effects := t.effects ++ (runtime.isolate.toList.map .disposed ++
        runtime.arrayBufferAllocator.toList.map .deletedAllocator) }
  else
    t

end Thread

inductive Lifetime
  | construct
  | destroy (id : Nat)
  deriving DecidableEq, Repr

namespace Thread

/-- Fewer than 65536 runtimes are alive at a time, and only a runtime that is alive is destroyed. -/
def step (t : Thread) : Lifetime → Option Thread
  | .construct => if t.runtimes.length + 1 < 65536 then some t.construct else none
  | .destroy id => (t.runtimes.find? (·.id = id)).map t.destroy

/-! ## Vocabulary -/

/-- The isolate was disposed, and its allocator deleted after that, both once. -/
def Released (t : Thread) (isolate : Nat) : Prop :=
  t.effects.count (.disposed isolate) = 1 ∧ t.effects.count (.deletedAllocator isolate) = 1 ∧
    List.Sublist [.disposed isolate, .deletedAllocator isolate] t.effects

/-- Neither of the two has happened. -/
def Kept (t : Thread) (isolate : Nat) : Prop :=
  .disposed isolate ∉ t.effects ∧ .deletedAllocator isolate ∉ t.effects

/-- How the runtimes of a thread are to share their isolate. -/
structure Shared (t : Thread) : Prop where
  /-- The slot of an isolate that is not disposed points to a runtime that is alive. -/
  slot : ∀ isolate ∈ t.isolates, ∃ runtime ∈ t.runtimes, isolate.dataSlot = some runtime.id
  /-- There is an isolate exactly as long as a runtime is alive. -/
  disposal : t.isolates = [] ↔ t.runtimes = []
  released : ∀ isolate < t.nextIsolate,
    if isolate ∈ t.isolates.map Isolate.id then t.Kept isolate else t.Released isolate

/-- The runtime that created the isolate is only destroyed as the last one alive. -/
def CreatorLast (t : Thread) : Lifetime → Prop
  | .construct => True
  | .destroy id => ∀ runtime ∈ t.runtimes, runtime.id = id →
      runtime.arrayBufferAllocator ≠ none → t.runtimes.length = 1

/-! ## The invariant -/

/-- What is released when the first `n` isolates are gone. -/
def releases (n : Nat) : List Effect :=
  (List.range n).flatMap fun isolate => [.disposed isolate, .deletedAllocator isolate]

/-- No runtime is alive, or one that is created the isolate for all of them. -/
inductive Phase (t : Thread) : Prop
  | empty : t.runtimes = [] → t.isolates = [] → t.effects = releases t.nextIsolate → Phase t
  | shared {creator : V8Runtime} {isolate : Nat} : creator ∈ t.runtimes →
      t.isolates = [⟨isolate, some creator.id⟩] → t.nextIsolate = isolate + 1 →
      t.effects = releases isolate →
      (∀ runtime ∈ t.runtimes, runtime.isolate = some isolate ∧
        runtime.arrayBufferAllocator = if runtime.id = creator.id then some isolate else none) →
      Phase t

/-- The part that does not depend on the order of destruction. -/
structure Counted (t : Thread) : Prop where
  counter : t.isolateUsageCounter.toNat = t.runtimes.length
  fresh : ∀ runtime ∈ t.runtimes, runtime.id < t.nextRuntime
  distinct : (t.runtimes.map V8Runtime.id).Nodup

structure SharingInv (t : Thread) : Prop extends Counted t where
  phase : t.Phase

theorem SharingInv.init : init.SharingInv where
  counter := rfl
  fresh := nofun
  distinct := List.nodup_nil
  phase := .empty rfl rfl rfl

/-! ### The history -/

theorem releases_succ (n : Nat) :
    releases (n + 1) = releases n ++ [.disposed n, .deletedAllocator n] := by
  rw [releases, List.range_succ, List.flatMap_append]
  rfl

theorem disposed_notMem_releases {isolate n : Nat} (h : n ≤ isolate) :
    .disposed isolate ∉ releases n := by
  simpa [releases] using h

theorem deletedAllocator_notMem_releases {isolate n : Nat} (h : n ≤ isolate) :
    .deletedAllocator isolate ∉ releases n := by
  simpa [releases] using h

theorem released_of_releases {t : Thread} {n isolate : Nat} (ht : t.effects = releases n)
    (h : isolate < n) : t.Released isolate := by
  unfold Released
  rw [ht]
  clear ht
  induction n with
  | zero => cases h
  | succ n ih =>
      rw [releases_succ, List.count_append, List.count_append]
      rcases Nat.lt_succ_iff_lt_or_eq.1 h with hlt | rfl
      · -- an earlier isolate
        obtain ⟨hdisposed, hdeleted, horder⟩ := ih hlt
        have hne : ¬ n = isolate := Nat.ne_of_gt hlt
        refine ⟨?_, ?_, horder.trans (List.sublist_append_left _ _)⟩
        · simp [hdisposed, hne]
        · simp [hdeleted, hne]
      · rw [List.count_eq_zero.2 (disposed_notMem_releases (Nat.le_refl isolate)),
          List.count_eq_zero.2 (deletedAllocator_notMem_releases (Nat.le_refl isolate))]
        exact ⟨by simp, by simp, List.sublist_append_right _ _⟩

theorem SharingInv.shared {t : Thread} (h : t.SharingInv) : t.Shared := by
  cases h.phase with
  | empty hruntimes hisolates heffects =>
      refine ⟨?_, iff_of_true hisolates hruntimes, ?_⟩
      · simp [hisolates]
      · intro isolate hlt
        rw [if_neg (by simp [hisolates])]
        exact released_of_releases heffects hlt
  | @shared creator current hcreator hisolates hnext heffects hall =>
      refine ⟨?_, ?_, ?_⟩
      · intro isolate hisolate
        rw [hisolates, List.mem_singleton] at hisolate
        exact ⟨creator, hcreator, by rw [hisolate]⟩
      · exact iff_of_false (by simp [hisolates]) (List.ne_nil_of_mem hcreator)
      · intro isolate hlt
        rw [hisolates]
        split
        · rename_i hcurrent
          obtain rfl : isolate = current := by simpa using hcurrent
          unfold Kept
          rw [heffects]
          exact ⟨disposed_notMem_releases (Nat.le_refl _),
            deletedAllocator_notMem_releases (Nat.le_refl _)⟩
        · rename_i hcurrent
          have hne : isolate ≠ current := by simpa using hcurrent
          exact released_of_releases heffects (by omega)

/-! ### One step -/

/-- The counter is positive when a runtime is alive. -/
theorem Counted.counter_pos_iff {t : Thread} (h : t.Counted) :
    t.isolateUsageCounter > 0 ↔ t.runtimes ≠ [] := by
  rw [gt_iff_lt, UInt16.lt_iff_toNat_lt, h.counter]
  exact List.length_pos_iff

theorem construct_of_pos {t : Thread} (h : t.isolateUsageCounter > 0) :
    t.construct = { t with
      isolateUsageCounter := t.isolateUsageCounter + 1
      runtimes := ⟨t.nextRuntime, t.getCurrent, none⟩ :: t.runtimes
      nextRuntime := t.nextRuntime + 1 } := by
  rw [Thread.construct, if_pos h]
  rfl

theorem construct_of_zero {t : Thread} (h : ¬ t.isolateUsageCounter > 0) :
    t.construct =
      { t with isolateUsageCounter := t.isolateUsageCounter + 1 }.createNewIsolate := by
  rw [Thread.construct, if_neg h]

/-- A new runtime is counted, whether it creates an isolate or not. -/
theorem Counted.construct {t : Thread} (h : t.Counted) (hbound : t.runtimes.length + 1 < 65536) :
    t.construct.Counted := by
  have hnew : t.nextRuntime ∉ t.runtimes.map V8Runtime.id := by
    intro hmem
    obtain ⟨runtime, hruntime, hid⟩ := List.mem_map.1 hmem
    have hlt := h.fresh runtime hruntime
    omega
  have hcounter : (t.isolateUsageCounter + 1).toNat = t.runtimes.length + 1 := by
    rw [UInt16.toNat_add, h.counter]
    exact Nat.mod_eq_of_lt hbound
  have hfresh : ∀ runtime ∈ t.runtimes, runtime.id < t.nextRuntime + 1 :=
    fun runtime hruntime => Nat.lt_succ_of_lt (h.fresh runtime hruntime)
  have hdistinct := List.nodup_cons.2 ⟨hnew, h.distinct⟩
  by_cases hpos : t.isolateUsageCounter > 0
  · rw [construct_of_pos hpos]
    exact ⟨hcounter, List.forall_mem_cons.2 ⟨Nat.lt_succ_self _, hfresh⟩, hdistinct⟩
  · rw [construct_of_zero hpos]
    exact ⟨hcounter, List.forall_mem_cons.2 ⟨Nat.lt_succ_self _, hfresh⟩, hdistinct⟩

theorem SharingInv.construct {t : Thread} (h : t.SharingInv) (hbound : t.runtimes.length + 1 < 65536) :
    t.construct.SharingInv := by
  refine ⟨h.toCounted.construct hbound, ?_⟩
  cases h.phase with
  | empty hruntimes hisolates heffects =>
      rw [construct_of_zero fun hpos => h.toCounted.counter_pos_iff.1 hpos hruntimes]
      refine .shared List.mem_cons_self ?_ rfl heffects ?_
      · simp [createNewIsolate, hisolates]
      · intro runtime hruntime
        obtain rfl : runtime = ⟨t.nextRuntime, some t.nextIsolate, some t.nextIsolate⟩ := by
          simpa [createNewIsolate, hruntimes] using hruntime
        exact ⟨rfl, (if_pos rfl).symm⟩
  | @shared creator current hcreator hisolates hnext heffects hall =>
      rw [construct_of_pos (h.toCounted.counter_pos_iff.2 (List.ne_nil_of_mem hcreator))]
      refine .shared (List.mem_cons_of_mem _ hcreator) hisolates hnext heffects ?_
      intro runtime hruntime
      rcases List.mem_cons.1 hruntime with rfl | hold
      · -- a runtime that joins holds neither of the two
        have hid : t.nextRuntime ≠ creator.id := Nat.ne_of_gt (h.fresh creator hcreator)
        exact ⟨by simp [getCurrent, hisolates], (if_neg hid).symm⟩
      · exact hall runtime hold

/-- With distinct ids, destroying a runtime takes away just that one. -/
theorem length_others {t : Thread} (h : (t.runtimes.map V8Runtime.id).Nodup) {runtime : V8Runtime}
    (hruntime : runtime ∈ t.runtimes) :
    (t.runtimes.filter (·.id ≠ runtime.id)).length + 1 = t.runtimes.length := by
  obtain ⟨before, after, hsplit⟩ := List.append_of_mem hruntime
  rw [hsplit] at h ⊢
  rw [List.map_append, List.map_cons, List.nodup_middle, List.nodup_cons, List.mem_append,
    not_or] at h
  obtain ⟨⟨hbefore, hafter⟩, _⟩ := h
  have hall : ∀ part : List V8Runtime, runtime.id ∉ part.map V8Runtime.id →
      part.filter (·.id ≠ runtime.id) = part := by
    intro part hpart
    refine List.filter_eq_self.2 fun other hother => ?_
    simp only [ne_eq, decide_eq_true_eq]
    exact fun heq => hpart (heq ▸ List.mem_map_of_mem hother)
  rw [List.filter_append, List.filter_cons_of_neg (by simp), hall before hbefore,
    hall after hafter]
  simp only [List.length_append, List.length_cons]
  omega

theorem Counted.counter_pred {t : Thread} (h : t.Counted) {runtime : V8Runtime}
    (hruntime : runtime ∈ t.runtimes) : (t.isolateUsageCounter - 1).toNat =
      (t.runtimes.filter (·.id ≠ runtime.id)).length := by
  have hlength := length_others h.distinct hruntime
  have hcounter := h.counter
  rw [UInt16.toNat_sub_of_le _ _ (by
    rw [UInt16.le_iff_toNat_le, hcounter, ← hlength]
    exact Nat.le_add_left 1 _), hcounter, ← hlength]
  rfl

/-- The counter reaches zero when the last runtime goes. -/
theorem Counted.counter_eq_zero_iff {t : Thread} (h : t.Counted) {runtime : V8Runtime}
    (hruntime : runtime ∈ t.runtimes) :
    t.isolateUsageCounter - 1 = 0 ↔ t.runtimes.filter (·.id ≠ runtime.id) = [] := by
  rw [← UInt16.toNat_inj, h.counter_pred hruntime]
  exact List.length_eq_zero_iff

theorem mem_others {t : Thread} {runtime other : V8Runtime} :
    other ∈ t.runtimes.filter (·.id ≠ runtime.id) ↔ other ∈ t.runtimes ∧ other.id ≠ runtime.id := by
  simp

theorem Counted.destroy {t : Thread} (h : t.Counted) {runtime : V8Runtime}
    (hruntime : runtime ∈ t.runtimes) : (t.destroy runtime).Counted := by
  have hcounter := h.counter_pred hruntime
  have hfresh : ∀ other ∈ t.runtimes.filter (·.id ≠ runtime.id), other.id < t.nextRuntime :=
    fun other hother => h.fresh other (mem_others.1 hother).1
  have hdistinct : ((t.runtimes.filter (·.id ≠ runtime.id)).map V8Runtime.id).Nodup :=
    h.distinct.sublist (List.filter_sublist.map V8Runtime.id)
  rw [Thread.destroy]
  dsimp only
  split
  · exact ⟨hcounter, hfresh, hdistinct⟩
  · exact ⟨hcounter, hfresh, hdistinct⟩

theorem SharingInv.destroy {t : Thread} (h : t.SharingInv) {runtime : V8Runtime}
    (hruntime : runtime ∈ t.runtimes)
    (hlast : runtime.arrayBufferAllocator ≠ none → t.runtimes.length = 1) :
    (t.destroy runtime).SharingInv := by
  have hlength := length_others h.distinct hruntime
  have hzero := h.toCounted.counter_eq_zero_iff hruntime
  refine ⟨h.toCounted.destroy hruntime, ?_⟩
  cases h.phase with
  | empty hruntimes => exact absurd (hruntimes ▸ hruntime) List.not_mem_nil
  | @shared creator current hcreator hisolates hnext heffects hall =>
      obtain ⟨hisolate, hallocator⟩ := hall runtime hruntime
      by_cases hself : runtime.id = creator.id
      · -- the creator goes as the last one
        rw [if_pos hself] at hallocator
        have hnone : t.runtimes.filter (·.id ≠ runtime.id) = [] := by
          have hone := hlast (by simp [hallocator])
          exact List.length_eq_zero_iff.1 (by omega)
        rw [Thread.destroy, if_pos (hzero.2 hnone)]
        refine .empty hnone ?_ ?_
        · simp [hisolates, hisolate]
        · show t.effects ++ _ = releases t.nextIsolate
          rw [hnext, releases_succ, heffects, hisolate, hallocator]
          rfl
      · have hstays : creator ∈ t.runtimes.filter (·.id ≠ runtime.id) :=
          mem_others.2 ⟨hcreator, fun heq => hself heq.symm⟩
        rw [Thread.destroy, if_neg (fun hz => List.ne_nil_of_mem hstays (hzero.1 hz))]
        exact .shared hstays hisolates hnext heffects fun other hother =>
          hall other (mem_others.1 hother).1

/-- Without its creator the isolate is left with a dangling slot. -/
theorem SharingInv.not_shared_destroy {t : Thread} (h : t.SharingInv) {runtime : V8Runtime}
    (hruntime : runtime ∈ t.runtimes) (hcreated : runtime.arrayBufferAllocator ≠ none)
    (hothers : t.runtimes.length ≠ 1) : ¬ (t.destroy runtime).Shared := by
  have hlength := length_others h.distinct hruntime
  have hzero := h.toCounted.counter_eq_zero_iff hruntime
  cases h.phase with
  | empty hruntimes => exact absurd (hruntimes ▸ hruntime) List.not_mem_nil
  | @shared creator current hcreator hisolates hnext heffects hall =>
      have hself : runtime.id = creator.id := by
        by_contra hself
        rw [(hall runtime hruntime).2, if_neg hself] at hcreated
        exact hcreated rfl
      have hsome : t.runtimes.filter (·.id ≠ runtime.id) ≠ [] := by
        intro hnone
        rw [hnone, List.length_nil] at hlength
        omega
      rw [Thread.destroy, if_neg (fun hz => hsome (hzero.1 hz))]
      intro hshared
      obtain ⟨other, hother, hslot⟩ := hshared.slot ⟨current, some creator.id⟩ (by simp [hisolates])
      have hid : creator.id = other.id := Option.some.inj hslot
      exact (mem_others.1 hother).2 (hid.symm.trans hself.symm)

theorem step_destroy {t t' : Thread} {id : Nat} (hstep : t.step (.destroy id) = some t') :
    ∃ runtime ∈ t.runtimes, runtime.id = id ∧ t' = t.destroy runtime := by
  obtain ⟨runtime, hfind, ht'⟩ := Option.map_eq_some_iff.1 hstep
  refine ⟨runtime, List.mem_of_find?_eq_some hfind, ?_, ht'.symm⟩
  simpa using List.find?_some hfind

theorem SharingInv.step {t t' : Thread} {label : Lifetime} (h : t.SharingInv)
    (hlabel : t.CreatorLast label) (hstep : t.step label = some t') : t'.SharingInv := by
  cases label with
  | construct =>
      rw [Thread.step] at hstep
      split at hstep
      · rename_i hbound
        obtain rfl := Option.some.inj hstep
        exact h.construct hbound
      · cases hstep
  | destroy id =>
      obtain ⟨runtime, hruntime, hid, rfl⟩ := step_destroy hstep
      exact h.destroy hruntime (hlabel runtime hruntime hid)

theorem SharingInv.not_shared_step {t t' : Thread} {label : Lifetime} (h : t.SharingInv)
    (hlabel : ¬ t.CreatorLast label) (hstep : t.step label = some t') : ¬ t'.Shared := by
  cases label with
  | construct => exact absurd trivial hlabel
  | destroy id =>
      obtain ⟨runtime, hruntime, hid, rfl⟩ := step_destroy hstep
      -- it is the runtime that the condition is about
      by_cases hcreated : runtime.arrayBufferAllocator = none
      · refine absurd ?_ hlabel
        intro other hother hother' hcreated'
        obtain rfl : other = runtime :=
          List.inj_on_of_nodup_map h.distinct hother hruntime (hother'.trans hid.symm)
        exact absurd hcreated hcreated'
      · refine h.not_shared_destroy hruntime hcreated fun hone => hlabel ?_
        exact fun _ _ _ _ => hone

/-! ## All runs -/

/-- In a run of constructions and destructions, every state shares its isolate as it should exactly
if the runtime that created an isolate is never destroyed before another one that uses it. -/
theorem shared_iff (labels : List Lifetime) (t : Thread) (hrun : Run step init labels t) :
    Throughout step Shared init labels ↔ Along step CreatorLast init labels :=
  Run.throughout_iff_along SharingInv SharingInv.init (fun _ h => h.shared)
    (fun _ _ _ h hlabel hstep => h.step hlabel hstep)
    (fun _ _ _ h hlabel hstep => h.not_shared_step hlabel hstep) hrun

/-- The last runtime created goes first. -/
theorem shared_lastFirst :
    ∃ t, Run step init [.construct, .construct, .destroy 1, .destroy 0] t ∧
      (Throughout step Shared init [.construct, .construct, .destroy 1, .destroy 0] ↔
        Along step CreatorLast init [.construct, .construct, .destroy 1, .destroy 0]) :=
  ⟨_, rfl, shared_iff _ _ rfl⟩

/-- The first runtime created goes first: the slot dangles. -/
theorem not_shared_firstFirst :
    ¬ ∀ (labels : List Lifetime) (t : Thread), Run step init labels t → t.Shared := by
  intro h
  have hshared := h [.construct, .construct, .destroy 0] _ rfl
  obtain ⟨runtime, hruntime, hslot⟩ := hshared.slot ⟨0, some 0⟩ (by decide)
  have hid : runtime.id = 1 := by
    have hall : ∀ runtime ∈ [(⟨1, some 0, none⟩ : V8Runtime)], runtime.id = 1 := by decide
    exact hall runtime hruntime
  rw [hid] at hslot
  cases hslot

end Thread

end Runtime
end V8JsiRuntime
