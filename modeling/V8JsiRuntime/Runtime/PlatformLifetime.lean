import V8JsiRuntime.Lib.Positions
import V8JsiRuntime.Runtime.IsolateSharing

/-!
# PlatformLifetime — the platform of a process and the runtimes on its threads

A runtime has a `V8PlatformHolder` as a member: it is constructed before the body of the runtime's
constructor runs and destroyed after the body of its destructor.  The holders of all threads are
counted in `use_count_s_`, and the runtimes of each thread in its own counter.
-/

namespace V8JsiRuntime
namespace Runtime

open Lib

/-! ## Data -/

/-- How far the runtime is that a holder is a member of. -/
inductive HolderPhase
  /-- The body of its constructor has not run. -/
  | constructing
  | alive (runtime : Nat)
  /-- The body of its destructor has run. -/
  | destroying
  deriving DecidableEq, Repr

/-- A holder that is alive, with the thread of its runtime. -/
structure V8PlatformHolder where
  thread : Nat
  phase : HolderPhase
  deriving DecidableEq, Repr

/-- What V8 is asked for. -/
inductive PlatformCall
  | initializePlatform
  | shutdownPlatform
  | newIsolate (thread : Nat)
  | disposeIsolate (thread : Nat)
  deriving DecidableEq, Repr

structure Process where
  /-- `use_count_s_` -/
  useCount : UInt32
  /-- `platform_s_` is not null. -/
  platform : Bool
  holders : List V8PlatformHolder
  threads : Nat → Thread
  /-- History -/
  calls : List PlatformCall

inductive Lifecycle
  /-- `V8PlatformHolder::V8PlatformHolder` on a thread -/
  | constructHolder (thread : Nat)
  /-- the body of the constructor of the runtime with the holder at `k` -/
  | constructBody (k : Nat)
  /-- the body of its destructor -/
  | destroyBody (k : Nat)
  /-- `V8PlatformHolder::~V8PlatformHolder` -/
  | destroyHolder (k : Nat)
  deriving DecidableEq, Repr

namespace Process

def init : Process :=
  ⟨0, false, [], fun _ => .init, []⟩

/-! ## Steps -/

def constructHolder (p : Process) (thread : Nat) : Process :=
  let useCount := p.useCount
  let p := { p with
    useCount := useCount + 1
    holders := ⟨thread, .constructing⟩ :: p.holders }
  -- `use_count_s_++ == 0`
  if useCount = 0 then
    { p with platform := true, calls := p.calls ++ [.initializePlatform] }
  else
    p

def destroyHolder (p : Process) (k : Nat) : Process :=
  let p := { p with
    useCount := p.useCount - 1
    holders := p.holders.eraseIdx k }
  -- `--use_count_s_ == 0`
  if p.useCount = 0 then
    { p with platform := false, calls := p.calls ++ [.shutdownPlatform] }
  else
    p

/-- The body of `V8Runtime::V8Runtime`. -/
def constructBody (p : Process) (k thread : Nat) : Process :=
  let t := p.threads thread
  { p with
    threads := Function.update p.threads thread t.construct
    -- the first runtime of a thread creates its isolate
    holders := p.holders.set k ⟨thread, .alive t.nextRuntime⟩
    calls := p.calls ++ if t.isolateUsageCounter > 0 then [] else [.newIsolate thread] }

/-- The body of `V8Runtime::~V8Runtime`. -/
def destroyBody (p : Process) (k thread : Nat) (runtime : V8Runtime) : Process :=
  let t := p.threads thread
  { p with
    threads := Function.update p.threads thread (t.destroy runtime)
    -- the last one disposes it
    holders := p.holders.set k ⟨thread, .destroying⟩
    calls := p.calls ++ if t.isolateUsageCounter - 1 = 0 then [.disposeIsolate thread] else [] }

def step (p : Process) : Lifecycle → Option Process
  | .constructHolder thread => some (p.constructHolder thread)
  | .constructBody k =>
      match p.holders[k]? with
      | some ⟨thread, .constructing⟩ => some (p.constructBody k thread)
      | _ => none
  -- a runtime is destroyed on the thread that created it
  | .destroyBody k =>
      match p.holders[k]? with
      | some ⟨thread, .alive id⟩ =>
          ((p.threads thread).runtimes.find? (·.id = id)).map (p.destroyBody k thread)
      | _ => none
  | .destroyHolder k =>
      match p.holders[k]? with
      | some ⟨_, .destroying⟩ => some (p.destroyHolder k)
      | _ => none

/-! ## Vocabulary -/

/-- Fewer than 65536 runtimes are alive on each thread. -/
def FewOnThread (p : Process) : Lifecycle → Prop
  | .constructBody k => ∀ holder ∈ p.holders[k]?,
      (p.threads holder.thread).runtimes.length + 1 < 65536
  | _ => True

/-- At most 2^32 holders are alive, as many as `use_count_s_` has values. -/
def FewHolders (p : Process) : Lifecycle → Prop
  | .constructHolder _ => p.holders.length < 2 ^ 32
  | _ => True

instance (p : Process) : DecidablePred p.FewOnThread
  | .constructBody k =>
      inferInstanceAs (Decidable (∀ holder ∈ p.holders[k]?,
        (p.threads holder.thread).runtimes.length + 1 < 65536))
  | .constructHolder _ | .destroyBody _ | .destroyHolder _ => inferInstanceAs (Decidable True)

instance (p : Process) : DecidablePred p.FewHolders
  | .constructHolder _ => inferInstanceAs (Decidable (_ < _))
  | .constructBody _ | .destroyBody _ | .destroyHolder _ => inferInstanceAs (Decidable True)

end Process

/-- The calls that a platform is initialised and shut down with, one after the other in turns, and
those that need it in between. -/
def PlatformCall.step (up : Bool) : PlatformCall → Option Bool
  | initializePlatform => if up then none else some true
  | shutdownPlatform => if up then some false else none
  | newIsolate _ | disposeIsolate _ => if up then some true else none

/-- The platform outlives the isolates and is there as long as a holder is. -/
structure Process.PlatformOutlives (p : Process) : Prop where
  isolates : ∀ thread, (p.threads thread).isolates ≠ [] → p.platform = true
  calls : Run PlatformCall.step false p.calls p.platform
  holders : p.platform = false ↔ p.holders = []

/-! ## The invariant of a thread -/

/-- In whatever order its runtimes go, a thread has one isolate for all of them, or none of both. -/
structure Thread.Entered (t : Thread) : Prop where
  counted : t.Counted
  isolates : (t.runtimes = [] ∧ t.isolates = []) ∨
    ∃ isolate, t.isolates = [isolate] ∧ t.runtimes ≠ [] ∧
      ∀ runtime ∈ t.runtimes, runtime.isolate = some isolate.id

namespace Thread

variable {t : Thread} {runtime : V8Runtime}

theorem entered_init : init.Entered :=
  ⟨SharingInv.init.toCounted, Or.inl ⟨rfl, rfl⟩⟩

theorem Entered.runtimes_of_isolates (h : t.Entered) (hisolates : t.isolates ≠ []) :
    t.runtimes ≠ [] := by
  rcases h.isolates with ⟨_, hnone⟩ | ⟨_, _, hsome, _⟩
  · exact absurd hnone hisolates
  · exact hsome

theorem Entered.construct (h : t.Entered) (hbound : t.runtimes.length + 1 < 65536) :
    t.construct.Entered := by
  refine ⟨h.counted.construct hbound, Or.inr ?_⟩
  rcases h.isolates with ⟨hruntimes, hisolates⟩ | ⟨isolate, hisolates, hsome, hall⟩
  · rw [construct_of_zero fun hpos => h.counted.counter_pos_iff.1 hpos hruntimes]
    refine ⟨⟨t.nextIsolate, some t.nextRuntime⟩, ?_, List.cons_ne_nil _ _, ?_⟩
    · simp [createNewIsolate, hisolates]
    · simp [createNewIsolate, hruntimes]
  · rw [construct_of_pos (h.counted.counter_pos_iff.2 hsome)]
    refine ⟨isolate, hisolates, List.cons_ne_nil _ _, List.forall_mem_cons.2 ⟨?_, hall⟩⟩
    -- a further runtime takes the isolate that is current on the thread
    simp [getCurrent, hisolates]

theorem length_construct (t : Thread) : t.construct.runtimes.length = t.runtimes.length + 1 := by
  by_cases hpos : t.isolateUsageCounter > 0
  · rw [construct_of_pos hpos]
    rfl
  · rw [construct_of_zero hpos]
    rfl

theorem runtimes_destroy (t : Thread) (runtime : V8Runtime) :
    (t.destroy runtime).runtimes = t.runtimes.filter (·.id ≠ runtime.id) := by
  rw [Thread.destroy]
  dsimp only
  split
  · rfl
  · rfl

theorem Entered.destroy (h : t.Entered) (hruntime : runtime ∈ t.runtimes) :
    (t.destroy runtime).Entered := by
  refine ⟨h.counted.destroy hruntime, ?_⟩
  have hzero := h.counted.counter_eq_zero_iff hruntime
  rcases h.isolates with ⟨hnone, _⟩ | ⟨isolate, hisolates, _, hall⟩
  · exact absurd (hnone ▸ hruntime) List.not_mem_nil
  · by_cases hlast : t.runtimes.filter (·.id ≠ runtime.id) = []
    · -- the last one disposes the isolate that all of them use
      rw [Thread.destroy, if_pos (hzero.2 hlast)]
      exact Or.inl ⟨hlast, by simp [hisolates, hall runtime hruntime]⟩
    · rw [Thread.destroy, if_neg fun hz => hlast (hzero.1 hz)]
      exact Or.inr ⟨isolate, hisolates, hlast,
        fun other hother => hall other (mem_others.1 hother).1⟩

end Thread

/-! ## The invariant of the process -/

/-- The runtime of the holder is alive on the thread. -/
def V8PlatformHolder.aliveOn (thread : Nat) (holder : V8PlatformHolder) : Bool :=
  holder.thread = thread && match holder.phase with
    | .alive _ => true
    | _ => false

namespace Process

structure LifetimeInv (p : Process) : Prop where
  useCount : p.useCount.toNat = p.holders.length % 2 ^ 32
  few : p.holders.length ≤ 2 ^ 32
  platform : p.platform = false ↔ p.holders = []
  entered : ∀ thread, (p.threads thread).Entered
  alive : ∀ thread, (p.threads thread).runtimes.length =
    p.holders.countP (V8PlatformHolder.aliveOn thread)
  calls : Run PlatformCall.step false p.calls p.platform

theorem lifetimeInv_init : init.LifetimeInv where
  useCount := rfl
  few := Nat.zero_le _
  platform := iff_of_true rfl rfl
  entered _ := Thread.entered_init
  alive _ := rfl
  calls := rfl

variable {p p' : Process} {thread k : Nat} {label : Lifecycle}

theorem LifetimeInv.outlives (h : p.LifetimeInv) : p.PlatformOutlives where
  isolates thread hisolates := by
    have hruntimes := (h.entered thread).runtimes_of_isolates hisolates
    -- without a platform there is no holder, and so no runtime on the thread
    refine (Bool.not_eq_false _).mp fun hdown => hruntimes (List.length_eq_zero_iff.1 ?_)
    rw [h.alive, h.platform.1 hdown]
    rfl
  calls := h.calls
  holders := h.platform

theorem LifetimeInv.platform_up (h : p.LifetimeInv) (hholders : p.holders ≠ []) :
    p.platform = true :=
  (Bool.not_eq_false _).mp fun hdown => hholders (h.platform.1 hdown)

theorem LifetimeInv.constructHolder (h : p.LifetimeInv) (hfew : p.holders.length < 2 ^ 32) :
    (p.constructHolder thread).LifetimeInv := by
  have hcount : (p.useCount + 1).toNat = (p.holders.length + 1) % 2 ^ 32 := by
    rw [UInt32.toNat_add, h.useCount]
    exact Nat.mod_add_mod _ _ _
  -- here the count has not wrapped around
  have hzero : p.useCount = 0 ↔ p.holders = [] := by
    rw [← UInt32.toNat_inj, h.useCount, Nat.mod_eq_of_lt hfew]
    exact List.length_eq_zero_iff
  have halive : ∀ other, (p.threads other).runtimes.length =
      (⟨thread, .constructing⟩ :: p.holders).countP (V8PlatformHolder.aliveOn other) := by
    intro other
    rw [List.countP_cons_of_neg (by simp [V8PlatformHolder.aliveOn])]
    exact h.alive other
  rw [Process.constructHolder]
  dsimp only
  split
  · rename_i hfirst
    -- nobody has used the platform, so the calls may go on with an initialisation
    have hdown := h.platform.2 (hzero.1 hfirst)
    refine ⟨hcount, hfew, by simp, h.entered, halive, ?_⟩
    exact h.calls.concat (by rw [hdown]; rfl)
  · rename_i hfirst
    have hup := h.platform_up fun hnil => hfirst (hzero.2 hnil)
    exact ⟨hcount, hfew, by simp [hup], h.entered, halive, h.calls⟩

theorem LifetimeInv.destroyHolder (h : p.LifetimeInv)
    (hk : p.holders[k]? = some ⟨thread, .destroying⟩) : (p.destroyHolder k).LifetimeInv := by
  obtain ⟨before, after, hsplit, herase, _⟩ := exists_split hk
  have hlength : p.holders.length = (before ++ after).length + 1 := by
    rw [hsplit]
    simp only [List.length_append, List.length_cons]
    omega
  -- one holder less than the most there may be
  have hfew : (before ++ after).length < 2 ^ 32 := by
    have := h.few
    omega
  have hcount : (p.useCount - 1).toNat = (before ++ after).length := by
    rw [UInt32.toNat_sub, h.useCount, hlength]
    show (2 ^ 32 - 1 + _) % 2 ^ 32 = _
    omega
  have hzero : p.useCount - 1 = 0 ↔ before ++ after = [] := by
    rw [← UInt32.toNat_inj, hcount]
    exact List.length_eq_zero_iff
  replace hcount := hcount.trans (Nat.mod_eq_of_lt hfew).symm
  have hup : p.platform = true := h.platform_up (by rw [hsplit]; simp)
  have halive : ∀ other, (p.threads other).runtimes.length =
      (before ++ after).countP (V8PlatformHolder.aliveOn other) := by
    intro other
    rw [h.alive other, hsplit, List.countP_append, List.countP_append,
      List.countP_cons_of_neg (by simp [V8PlatformHolder.aliveOn])]
  rw [Process.destroyHolder, herase]
  dsimp only
  split
  · rename_i hlast
    refine ⟨hcount, hfew.le, iff_of_true rfl (hzero.1 hlast), h.entered, halive, ?_⟩
    exact h.calls.concat (by rw [hup]; rfl)
  · rename_i hlast
    exact ⟨hcount, hfew.le, iff_of_false (by simp [hup]) (fun hnil => hlast (hzero.2 hnil)),
      h.entered, halive, h.calls⟩

/-- Changing the phase of a holder, and with it the thread of its runtime. -/
theorem LifetimeInv.setHolder {holder holder' : V8PlatformHolder} {t : Thread}
    {calls : List PlatformCall} (h : p.LifetimeInv) (hk : p.holders[k]? = some holder)
    (hentered : t.Entered) (hholder : holder.thread = thread) (hholder' : holder'.thread = thread)
    (hlength : t.runtimes.length + (if holder.aliveOn thread then 1 else 0) =
      (p.threads thread).runtimes.length + (if holder'.aliveOn thread then 1 else 0))
    (hcalls : Run PlatformCall.step true calls true) :
    { p with
      threads := Function.update p.threads thread t
      holders := p.holders.set k holder'
      calls := p.calls ++ calls }.LifetimeInv := by
  obtain ⟨before, after, hsplit, _, hset⟩ := exists_split hk
  have hup : p.platform = true := h.platform_up (by rw [hsplit]; simp)
  have hsame : (before ++ holder' :: after).length = p.holders.length := by
    rw [hsplit, List.length_append, List.length_append]
    rfl
  rw [hset holder']
  refine ⟨?_, hsame.trans_le h.few, ?_, ?_, ?_, ?_⟩
  · exact h.useCount.trans (congrArg (· % 2 ^ 32) hsame.symm)
  · exact iff_of_false (by simp [hup]) (by simp)
  · intro other
    dsimp only
    by_cases hother : other = thread
    · rwa [hother, Function.update_self]
    · rw [Function.update_of_ne hother]
      exact h.entered other
  · intro other
    have halive := h.alive other
    rw [hsplit, List.countP_append, List.countP_cons] at halive
    dsimp only
    rw [List.countP_append, List.countP_cons]
    -- only the runtimes of the thread of the holder are counted differently
    by_cases hother : other = thread
    · subst hother
      rw [Function.update_self]
      omega
    · rw [Function.update_of_ne hother, halive]
      have hnot : ∀ holder : V8PlatformHolder, holder.thread = thread →
          holder.aliveOn other = false := by
        intro holder hthread
        simp [V8PlatformHolder.aliveOn, hthread, Ne.symm hother]
      rw [hnot holder hholder, hnot holder' hholder']
  · refine Run.append_iff.2 ⟨true, ?_, by rw [hup]; exact hcalls⟩
    rw [← hup]
    exact h.calls

theorem aliveOn_alive (thread id : Nat) :
    (⟨thread, .alive id⟩ : V8PlatformHolder).aliveOn thread = true := by
  simp [V8PlatformHolder.aliveOn]

theorem aliveOn_constructing (other thread : Nat) :
    (⟨thread, .constructing⟩ : V8PlatformHolder).aliveOn other = false := by
  simp [V8PlatformHolder.aliveOn]

theorem aliveOn_destroying (other thread : Nat) :
    (⟨thread, .destroying⟩ : V8PlatformHolder).aliveOn other = false := by
  simp [V8PlatformHolder.aliveOn]

theorem LifetimeInv.constructBody (h : p.LifetimeInv)
    (hk : p.holders[k]? = some ⟨thread, .constructing⟩)
    (hfew : (p.threads thread).runtimes.length + 1 < 65536) :
    (p.constructBody k thread).LifetimeInv := by
  refine h.setHolder hk ((h.entered thread).construct hfew) rfl rfl ?_ ?_
  · rw [Thread.length_construct, aliveOn_constructing, aliveOn_alive]
    rfl
  · split
    · rfl
    · rfl

theorem LifetimeInv.destroyBody {id : Nat} {runtime : V8Runtime} (h : p.LifetimeInv)
    (hk : p.holders[k]? = some ⟨thread, .alive id⟩)
    (hruntime : runtime ∈ (p.threads thread).runtimes) :
    (p.destroyBody k thread runtime).LifetimeInv := by
  have hentered := h.entered thread
  refine h.setHolder hk (hentered.destroy hruntime) rfl rfl ?_ ?_
  · rw [Thread.runtimes_destroy, aliveOn_alive, aliveOn_destroying]
    exact Thread.length_others hentered.counted.distinct hruntime
  · split
    · rfl
    · rfl

/-! ## Inversion of the steps -/

theorem step_constructBody (hstep : p.step (.constructBody k) = some p') :
    ∃ thread, p.holders[k]? = some ⟨thread, .constructing⟩ ∧ p' = p.constructBody k thread := by
  rw [Process.step] at hstep
  split at hstep
  · rename_i thread hk
    exact ⟨thread, hk, (Option.some.inj hstep).symm⟩
  · cases hstep

theorem step_destroyBody (hstep : p.step (.destroyBody k) = some p') :
    ∃ thread id, ∃ runtime ∈ (p.threads thread).runtimes,
      p.holders[k]? = some ⟨thread, .alive id⟩ ∧ p' = p.destroyBody k thread runtime := by
  rw [Process.step] at hstep
  split at hstep
  · rename_i thread id hk
    obtain ⟨runtime, hfind, hp'⟩ := Option.map_eq_some_iff.1 hstep
    exact ⟨thread, id, runtime, List.mem_of_find?_eq_some hfind, hk, hp'.symm⟩
  · cases hstep

theorem step_destroyHolder (hstep : p.step (.destroyHolder k) = some p') :
    ∃ thread, p.holders[k]? = some ⟨thread, .destroying⟩ ∧ p' = p.destroyHolder k := by
  rw [Process.step] at hstep
  split at hstep
  · rename_i thread hk
    exact ⟨thread, hk, (Option.some.inj hstep).symm⟩
  · cases hstep

theorem LifetimeInv.step (h : p.LifetimeInv) (hthread : p.FewOnThread label)
    (hholders : p.FewHolders label) (hstep : p.step label = some p') : p'.LifetimeInv := by
  cases label with
  | constructHolder thread =>
      obtain rfl := Option.some.inj hstep
      exact h.constructHolder hholders
  | constructBody k =>
      obtain ⟨thread, hk, rfl⟩ := step_constructBody hstep
      exact h.constructBody hk (hthread _ hk)
  | destroyBody k =>
      obtain ⟨thread, id, runtime, hruntime, hk, rfl⟩ := step_destroyBody hstep
      exact h.destroyBody hk hruntime
  | destroyHolder k =>
      obtain ⟨thread, hk, rfl⟩ := step_destroyHolder hstep
      exact h.destroyHolder hk

/-! ## All runs -/

/-- In whatever order the runtimes of all threads are constructed and destroyed, the platform
outlives their isolates. -/
theorem platformOutlives (labels : List Lifecycle) (p : Process) (hrun : Run step init labels p)
    (hthread : Along step FewOnThread init labels)
    (hholders : Along step FewHolders init labels) : p.PlatformOutlives := by
  have hboth : Along step (fun p label => p.FewOnThread label ∧ p.FewHolders label) init labels :=
    fun visited label u hinitial hvisited =>
      ⟨hthread visited label u hinitial hvisited, hholders visited label u hinitial hvisited⟩
  have hinv := Run.invariant_along lifetimeInv_init
    (fun _ _ _ h hlabel hstep => h.step hlabel.1 hlabel.2 hstep) hrun hboth
  exact hinv.outlives

/-- Two threads with a runtime each, and the platform once more after the last of the two. -/
def twoThreads : List Lifecycle :=
  [.constructHolder 1, .constructBody 0, .constructHolder 2, .constructBody 0, .destroyBody 1,
    .destroyHolder 1, .destroyBody 0, .destroyHolder 0, .constructHolder 1]

theorem platformOutlives_twoThreads :
    ∃ p ∈ twoThreads.foldlM step init, p.PlatformOutlives ∧
      p.calls = [.initializePlatform, .newIsolate 1, .newIsolate 2, .disposeIsolate 1,
        .disposeIsolate 2, .shutdownPlatform, .initializePlatform] := by
  refine ⟨_, rfl, platformOutlives twoThreads _ rfl ?_ ?_, rfl⟩
  · decide +kernel
  · decide +kernel

/-! ## One holder more -/

/-- With 2^32 holders `use_count_s_` is zero again. -/
theorem LifetimeInv.not_platformOutlives (h : p.LifetimeInv) (hfull : p.holders.length = 2 ^ 32) :
    ¬ (p.constructHolder thread).PlatformOutlives := by
  intro houtlives
  have hzero : p.useCount = 0 := by
    rw [← UInt32.toNat_inj, h.useCount, hfull]
    rfl
  -- the platform is there already, and is initialised again
  have hup := h.platform_up fun hnil => by
    rw [hnil] at hfull
    cases hfull
  have hcalls := houtlives.calls
  rw [Process.constructHolder] at hcalls
  simp only [hzero, if_true] at hcalls
  obtain ⟨up, hbefore, hlast⟩ := Run.concat_iff.1 hcalls
  obtain rfl := hbefore.functional h.calls
  rw [hup] at hlast
  cases hlast

theorem exists_constructed {n : Nat} (hn : n ≤ 2 ^ 32) :
    ∃ p, Run step init ((List.range n).map .constructHolder) p ∧ p.LifetimeInv ∧
      p.holders.length = n := by
  -- one thread after the other; no run of this length is evaluated
  induction n with
  | zero => exact ⟨init, Run.nil_iff.2 rfl, lifetimeInv_init, rfl⟩
  | succ n ih =>
      obtain ⟨p, hrun, hinv, hlength⟩ := ih (Nat.le_of_succ_le hn)
      have hlength' : (p.constructHolder n).holders.length = n + 1 := by
        rw [Process.constructHolder]
        dsimp only
        split
        · exact congrArg Nat.succ hlength
        · exact congrArg Nat.succ hlength
      refine ⟨p.constructHolder n, ?_, hinv.constructHolder (hlength.trans_lt hn), hlength'⟩
      rw [List.range_succ, List.map_append]
      exact hrun.concat rfl

/-- A platform is initialised again while 2^32 threads construct a runtime on the first one. -/
theorem not_platformOutlives_manyThreads :
    ∃ p, Run step init ((List.range (2 ^ 32 + 1)).map .constructHolder) p ∧
      Along step FewOnThread init ((List.range (2 ^ 32 + 1)).map .constructHolder) ∧
      ¬ p.PlatformOutlives := by
  obtain ⟨p, hrun, hinv, hfull⟩ := exists_constructed (le_refl (2 ^ 32))
  refine ⟨p.constructHolder (2 ^ 32), ?_, ?_, hinv.not_platformOutlives hfull⟩
  · rw [List.range_succ, List.map_append]
    exact hrun.concat rfl
  · intro visited label u hinitial _
    have hlabel := hinitial.subset (List.mem_append_right visited (List.mem_singleton_self label))
    obtain ⟨thread, _, rfl⟩ := List.mem_map.1 hlabel
    exact trivial

end Process

end Runtime
end V8JsiRuntime
