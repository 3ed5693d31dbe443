import V8JsiRuntime.Lib.Run
import V8JsiRuntime.Runtime.SourceText

/-!
# CodeCache — what `ExecuteString` takes from the `PreparedScriptStore`

The store is asked under the url of the script, and V8 takes what it gives when the build and the
length of the source are right.  `ran_eq_iff` says which sequences of evaluations run the same
scripts as without a store.
-/

namespace V8JsiRuntime
namespace Runtime

open Lib
open Inspector

/-- `jsi::ScriptSignature`. -/
structure ScriptSignature where
  url : Bytes
  version : Nat
  deriving DecidableEq

/-- `jsi::JSRuntimeSignature`. -/
structure JSRuntimeSignature where
  runtimeName : Bytes
  version : Nat
  deriving DecidableEq

structure PreparedScriptKey where
  scriptSignature : ScriptSignature
  runtimeSignature : JSRuntimeSignature
  prepareTag : Option Bytes
  deriving DecidableEq

/-- The version of V8 and the hash of its flags. -/
structure V8Build where
  version : Nat
  flags : Nat
  deriving DecidableEq

/-- A compiled script, named by the source it was compiled from; `compiles` says which sources have
no syntax error. -/
structure Script (compiles : V8String → Bool) where
  source : V8String
  compiled : compiles source = true
  deriving DecidableEq

/-- `v8::ScriptCompiler::CachedData`, as `CreateCodeCache` makes it. -/
structure CachedData (compiles : V8String → Bool) where
  build : V8Build
  script : Script compiles

/-- A store that is a faithful map. -/
def PreparedScriptStore (compiles : V8String → Bool) :=
  PreparedScriptKey → Option (CachedData compiles)

variable {compiles : V8String → Bool}

namespace PreparedScriptStore

def empty : PreparedScriptStore compiles := fun _ => none

def tryGetPreparedScript (store : PreparedScriptStore compiles) (scriptSignature : ScriptSignature)
    (runtimeSignature : JSRuntimeSignature) (prepareTag : Option Bytes) :
    Option (CachedData compiles) :=
  store ⟨scriptSignature, runtimeSignature, prepareTag⟩

def persistPreparedScript (store : PreparedScriptStore compiles)
    (preparedScript : CachedData compiles) (scriptMetadata : ScriptSignature)
    (runtimeMetadata : JSRuntimeSignature) (prepareTag : Option Bytes) :
    PreparedScriptStore compiles :=
  Function.update store ⟨scriptMetadata, runtimeMetadata, prepareTag⟩ (some preparedScript)

end PreparedScriptStore

/-- V8 checks the build and the length of the source. -/
def CachedData.accepts (cached : CachedData compiles) (build : V8Build) (source : V8String) : Bool :=
  cached.build = build && cached.script.source.length = source.length

def Script.ofSource (source : V8String) : Option (Script compiles) :=
  if h : compiles source = true then some ⟨source, h⟩ else none

/-- `v8::ScriptCompiler::Compile`; with cached data the option is `kConsumeCodeCache`. -/
def compile (build : V8Build) (source : V8String) (cachedData : Option (CachedData compiles)) :
    Option (Script compiles) :=
  match cachedData with
  | some cached => if cached.accepts build source then some cached.script else Script.ofSource source
  | none => Script.ofSource source

/-- A call of `evaluateJavaScript` on a runtime. -/
structure Evaluation (compiles : V8String → Bool) where
  build : V8Build
  buffer : Bytes
  /-- V8 takes the buffer as an external string. -/
  external : Bool
  sourceURL : Bytes
  /-- The scripts that would run to their end now. -/
  completes : Script compiles → Bool

def scriptSignature (sourceURL : Bytes) : ScriptSignature :=
  ⟨sourceURL, 1⟩

def runtimeSignature : JSRuntimeSignature :=
  ⟨ascii "V8", 76⟩

/-- What the store gives for a url. -/
def cachedScript (preparedScriptStore : Option (PreparedScriptStore compiles)) (sourceURL : Bytes) :
    Option (CachedData compiles) :=
  preparedScriptStore.bind fun store =>
    store.tryGetPreparedScript (scriptSignature sourceURL) runtimeSignature (some (ascii "perf"))

/-- The script that runs, `none` when there is none, and the store afterwards. -/
def executeString (preparedScriptStore : Option (PreparedScriptStore compiles)) (build : V8Build)
    (completes : Script compiles → Bool) (source : V8String) (sourceURL : Bytes) :
    Option (Script compiles) × Option (PreparedScriptStore compiles) :=
  let cache := cachedScript preparedScriptStore sourceURL
  match compile build source cache with
  | none => (none, preparedScriptStore)
  | some script =>
      -- `CreateCodeCache` comes behind the run, which an exception ends; only a script that was
      -- compiled without a cache is persisted
      if completes script && cache.isNone then
        (some script, preparedScriptStore.map fun store =>
          store.persistPreparedScript ⟨build, script⟩ (scriptSignature sourceURL) runtimeSignature
            (some (ascii "perf")))
      else
        (some script, preparedScriptStore)

/-- The runtimes that share a store. -/
structure Runtimes (compiles : V8String → Bool) where
  preparedScriptStore : Option (PreparedScriptStore compiles)
  /-- What the calls so far have run. -/
  ran : List (Option (Script compiles))

namespace Runtimes

def withStore : Runtimes compiles := ⟨some .empty, []⟩

def withoutStore : Runtimes compiles := ⟨none, []⟩

/-- `none` is `std::abort()`. -/
def evaluateJavaScript (newFromUtf8 : NewFromUtf8) (runtimes : Runtimes compiles)
    (call : Evaluation compiles) : Option (Runtimes compiles) :=
  match sourceString newFromUtf8 call.external call.buffer with
  | none => none
  | some source =>
      let executed := executeString runtimes.preparedScriptStore call.build call.completes source
        call.sourceURL
      some ⟨executed.2, runtimes.ran ++ [executed.1]⟩

end Runtimes

/-! ## What one call runs and what it leaves in the store -/

theorem Script.ofSource_eq_some_iff {source : V8String} {script : Script compiles} :
    Script.ofSource source = some script ↔ script.source = source := by
  constructor
  · intro h
    unfold Script.ofSource at h
    split at h
    · rw [← Option.some.inj h]
    · cases h
  · rintro rfl
    exact dif_pos script.compiled

/-- The cached script is used for a source, and is not its own, only when build and length agree. -/
theorem compile_eq_ofSource_iff {build : V8Build} {source : V8String}
    {cache : Option (CachedData compiles)} :
    compile build source cache = Script.ofSource source ↔
      ∀ cached, cache = some cached → cached.build = build →
        cached.script.source.length = source.length → cached.script.source = source := by
  cases cache with
  | none => exact iff_of_true rfl (by intro cached h; cases h)
  | some cached =>
      -- what V8 rejects is compiled from its own source
      by_cases haccepts : cached.build = build ∧ cached.script.source.length = source.length
      · have hcompile : compile build source (some cached) = some cached.script :=
          if_pos (by simpa [CachedData.accepts] using haccepts)
        rw [hcompile, eq_comm, Script.ofSource_eq_some_iff]
        constructor
        · intro hsource other hother _ _
          rwa [← Option.some.inj hother]
        · exact fun h => h cached rfl haccepts.1 haccepts.2
      · have hcompile : compile build source (some cached) = Script.ofSource source :=
          if_neg (by simpa [CachedData.accepts] using haccepts)
        refine iff_of_true hcompile ?_
        intro other hother hbuild hlength
        obtain rfl := Option.some.inj hother
        exact absurd ⟨hbuild, hlength⟩ haccepts

/-- What a call persists when it finds nothing. -/
def fresh (build : V8Build) (completes : Script compiles → Bool) (source : V8String) :
    Option (CachedData compiles) :=
  (Script.ofSource source).bind fun script =>
    if completes script then some ⟨build, script⟩ else none

theorem executeString_fst (preparedScriptStore : Option (PreparedScriptStore compiles))
    (build : V8Build) (completes : Script compiles → Bool) (source : V8String) (sourceURL : Bytes) :
    (executeString preparedScriptStore build completes source sourceURL).1 =
      compile build source (cachedScript preparedScriptStore sourceURL) := by
  unfold executeString
  dsimp only
  split
  · rename_i hcompile
    exact hcompile.symm
  · rename_i script hcompile
    rw [hcompile]
    split <;> rfl

theorem executeString_none (build : V8Build) (completes : Script compiles → Bool)
    (source : V8String) (sourceURL : Bytes) :
    (executeString none build completes source sourceURL).2 = none := by
  unfold executeString
  dsimp only
  split
  · rfl
  · split <;> rfl

theorem cachedScript_persist (store : PreparedScriptStore compiles)
    (preparedScript : CachedData compiles) (sourceURL other : Bytes) :
    cachedScript (some (store.persistPreparedScript preparedScript (scriptSignature sourceURL)
      runtimeSignature (some (ascii "perf")))) other =
      if sourceURL = other then some preparedScript else cachedScript (some store) other := by
  by_cases hurl : sourceURL = other
  · subst hurl
    rw [if_pos rfl]
    exact Function.update_self _ _ _
  · rw [if_neg hurl]
    refine Function.update_of_ne ?_ _ _
    intro hkey
    exact hurl (congrArg (·.scriptSignature.url) hkey).symm

/-- A store keeps what it has, and takes what a call persists otherwise. -/
theorem cachedScript_executeString (store : PreparedScriptStore compiles) (build : V8Build)
    (completes : Script compiles → Bool) (source : V8String) (sourceURL : Bytes) :
    ∃ store', (executeString (some store) build completes source sourceURL).2 = some store' ∧
      ∀ other, cachedScript (some store') other = (cachedScript (some store) other).or
        (if sourceURL = other then fresh build completes source else none) := by
  cases hcache : cachedScript (some store) sourceURL with
  | some cached =>
      -- nothing is persisted over what was found, whether or not it was rejected
      have hkept : (executeString (some store) build completes source sourceURL).2 =
          some store := by
        unfold executeString
        rw [hcache]
        dsimp only
        split
        · rfl
        · rw [if_neg (by simp)]
      refine ⟨store, hkept, fun other => ?_⟩
      split
      · rename_i hurl
        rw [← hurl, hcache, Option.some_or]
      · rw [Option.or_none]
  | none =>
      have hcompile : compile build source (cachedScript (some store) sourceURL) =
          Script.ofSource source := by rw [hcache]; rfl
      unfold executeString fresh
      dsimp only
      rw [hcompile, hcache]
      cases Script.ofSource source with
      | none => exact ⟨store, rfl, fun other => by simp⟩
      | some script =>
          cases hcompletes : completes script with
          | false => exact ⟨store, by simp [hcompletes], fun other => by simp [hcompletes]⟩
          | true =>
              refine ⟨store.persistPreparedScript ⟨build, script⟩ (scriptSignature sourceURL)
                runtimeSignature (some (ascii "perf")), by simp [hcompletes], fun other => ?_⟩
              rw [cachedScript_persist]
              split
              -- nothing was there before
              · rename_i hurl
                rw [← hurl, hcache, Option.none_or]
                simp [hcompletes]
              · rw [Option.or_none]

/-! ## Sequences of calls -/

namespace Evaluation

variable (newFromUtf8 : NewFromUtf8)

def source (call : Evaluation compiles) : Option V8String :=
  sourceString newFromUtf8 call.external call.buffer

/-- The script of the call's own source. -/
def own (call : Evaluation compiles) : Option (Script compiles) :=
  (call.source newFromUtf8).bind Script.ofSource

/-- What the call persists under a url when it finds nothing there. -/
def persists (sourceURL : Bytes) (call : Evaluation compiles) : Option (CachedData compiles) :=
  if call.sourceURL = sourceURL then
    (call.source newFromUtf8).bind (fresh call.build call.completes)
  else
    none

/-- The first of the earlier calls that compiled and ran to its end under the url of this one had
the same source, unless build or length tell them apart. -/
def OneSource (before : List (Evaluation compiles)) (call : Evaluation compiles) : Prop :=
  ∀ cached source, before.findSome? (persists newFromUtf8 call.sourceURL) = some cached →
    call.source newFromUtf8 = some source → cached.build = call.build →
      cached.script.source.length = source.length → cached.script.source = source

end Evaluation

namespace Runtimes

variable {newFromUtf8 : NewFromUtf8} {runtimes runtimes' : Runtimes compiles}
  {call : Evaluation compiles} {calls : List (Evaluation compiles)}

theorem evaluateJavaScript_cases
    (h : runtimes.evaluateJavaScript newFromUtf8 call = some runtimes') :
    ∃ source, call.source newFromUtf8 = some source ∧
      runtimes'.preparedScriptStore = (executeString runtimes.preparedScriptStore call.build
        call.completes source call.sourceURL).2 ∧
      runtimes'.ran = runtimes.ran ++ [compile call.build source
        (cachedScript runtimes.preparedScriptStore call.sourceURL)] := by
  unfold evaluateJavaScript at h
  split at h
  · cases h
  · rename_i source hsource
    have hruntimes := (Option.some.inj h).symm
    refine ⟨source, hsource, congrArg preparedScriptStore hruntimes, ?_⟩
    rw [← executeString_fst _ _ call.completes]
    exact congrArg ran hruntimes

/-- The store holds, for each url, what the first call persisted that had something to persist. -/
def Stored (newFromUtf8 : NewFromUtf8) (calls : List (Evaluation compiles))
    (runtimes : Runtimes compiles) : Prop :=
  ∃ store, runtimes.preparedScriptStore = some store ∧
    ∀ url, cachedScript (some store) url = calls.findSome? (Evaluation.persists newFromUtf8 url)

theorem stored_withStore : Stored newFromUtf8 [] (withStore : Runtimes compiles) :=
  ⟨.empty, rfl, fun _ => rfl⟩

theorem Stored.step (hstored : Stored newFromUtf8 calls runtimes)
    (h : runtimes.evaluateJavaScript newFromUtf8 call = some runtimes') :
    Stored newFromUtf8 (calls ++ [call]) runtimes' := by
  obtain ⟨store, hstore, hcached⟩ := hstored
  obtain ⟨source, hsource, hafter, _⟩ := evaluateJavaScript_cases h
  obtain ⟨store', hstore', hcached'⟩ := cachedScript_executeString store call.build call.completes
    source call.sourceURL
  refine ⟨store', by rw [hafter, hstore, hstore'], fun url => ?_⟩
  -- the call is the last that could have persisted something first
  rw [hcached' url, hcached url, List.findSome?_append]
  simp [Evaluation.persists, hsource]

/-- With what the store holds, a call runs the script of its own source under the condition only. -/
theorem Stored.ran_iff (hstored : Stored newFromUtf8 calls runtimes)
    (h : runtimes.evaluateJavaScript newFromUtf8 call = some runtimes') :
    runtimes'.ran = runtimes.ran ++ [call.own newFromUtf8] ↔ call.OneSource newFromUtf8 calls := by
  obtain ⟨store, hstore, hcached⟩ := hstored
  obtain ⟨source, hsource, _, hran⟩ := evaluateJavaScript_cases h
  have hown : call.own newFromUtf8 = Script.ofSource source := by
    rw [Evaluation.own, hsource, Option.bind_some]
  -- what is found is what the first of the earlier calls persisted
  rw [hran, hown, List.append_cancel_left_eq, List.singleton_inj, compile_eq_ofSource_iff, hstore,
    hcached call.sourceURL]
  constructor
  · intro hsame cached source' hfound hsource' hbuild hlength
    obtain rfl := Option.some.inj (hsource.symm.trans hsource')
    exact hsame cached hfound hbuild hlength
  · exact fun hone cached hfound hbuild hlength =>
      hone cached source hfound hsource hbuild hlength

/-- Without a store each call runs its own script. -/
theorem ran_withoutStore
    (h : Run (evaluateJavaScript newFromUtf8) withoutStore calls runtimes) :
    runtimes.preparedScriptStore = none ∧
      runtimes.ran = calls.map (Evaluation.own newFromUtf8) := by
  refine h.induction (motive := fun calls runtimes => runtimes.preparedScriptStore = none ∧
    runtimes.ran = calls.map (Evaluation.own newFromUtf8)) ⟨rfl, rfl⟩ ?_
  intro calls runtimes call runtimes' _ hstep ⟨hstore, hran⟩
  obtain ⟨source, hsource, hafter, hran'⟩ := evaluateJavaScript_cases hstep
  rw [hstore] at hafter hran'
  constructor
  · rw [hafter]
    exact executeString_none call.build call.completes source call.sourceURL
  · rw [hran', hran, List.map_append, List.map_singleton, Evaluation.own, hsource]
    rfl

/-- The scripts that run are those that run without a store exactly when no call finds the script of
another source of its length. -/
theorem ran_eq_iff (h : Run (evaluateJavaScript newFromUtf8) withStore calls runtimes)
    (h' : Run (evaluateJavaScript newFromUtf8) withoutStore calls runtimes') :
    runtimes.ran = runtimes'.ran ↔
      ∀ before call, before ++ [call] <+: calls → call.OneSource newFromUtf8 before := by
  rw [(ran_withoutStore h').2]
  refine (h.induction (motive := fun calls runtimes => Stored newFromUtf8 calls runtimes ∧
    (runtimes.ran = calls.map (Evaluation.own newFromUtf8) ↔ ∀ before call,
      before ++ [call] <+: calls → call.OneSource newFromUtf8 before)) ?_ ?_).2
  · exact ⟨stored_withStore, iff_of_true rfl fun before call hprefix => by simp at hprefix⟩
  · intro calls runtimes call runtimes' _ hstep ⟨hstored, hran⟩
    refine ⟨hstored.step hstep, ?_⟩
    rw [forall_prefix_concat, ← hran, ← hstored.ran_iff hstep, List.map_append, List.map_singleton]
    -- what ran before this call is the same list on both sides
    obtain ⟨source, hsource, _, hran'⟩ := evaluateJavaScript_cases hstep
    rw [hran']
    constructor
    · intro heq
      obtain ⟨hbefore, hlast⟩ := List.append_inj' heq rfl
      exact ⟨hbefore, by rw [hlast]⟩
    · intro ⟨hbefore, hlast⟩
      rw [hlast, hbefore]

/-- An evaluation on some runtime, which runs to its end. -/
def evaluation (url text : String) : Evaluation fun _ => true :=
  ⟨⟨76, 0⟩, ascii text, true, ascii url, fun _ => true⟩

/-- A script is found again, then one of another length and one of another build of V8 are asked for
under its url, and there is a second url. -/
def rejectedHistory : List (Evaluation fun _ => true) :=
  [evaluation "a" "1+1", evaluation "b" "2+2", evaluation "a" "1+1", evaluation "a" "1+10",
    { evaluation "a" "3+3" with build := ⟨76, 1⟩ }, evaluation "b" "2+2"]

theorem ran_eq_iff_rejected :
    ∃ runtimes runtimes', Run (evaluateJavaScript .decoding) withStore rejectedHistory runtimes ∧
      Run (evaluateJavaScript .decoding) withoutStore rejectedHistory runtimes' ∧
        runtimes.ran = runtimes'.ran ∧ ∀ before call, before ++ [call] <+: rejectedHistory →
          call.OneSource .decoding before := by
  have hends : ∃ runtimes ∈ rejectedHistory.foldlM (evaluateJavaScript .decoding) withStore,
      ∃ runtimes' ∈ rejectedHistory.foldlM (evaluateJavaScript .decoding) withoutStore,
        runtimes.ran = runtimes'.ran := by
    decide +kernel
  obtain ⟨runtimes, hrun, runtimes', hrun', hran⟩ := hends
  exact ⟨runtimes, runtimes', hrun, hrun', hran, (ran_eq_iff hrun hrun').1 hran⟩

/-- A bundle that was changed without a change of its length. -/
theorem not_ran_eq_changedSource :
    ¬ ∀ (newFromUtf8 : NewFromUtf8) (compiles : V8String → Bool)
      (calls : List (Evaluation compiles)) (runtimes runtimes' : Runtimes compiles),
      Run (evaluateJavaScript newFromUtf8) withStore calls runtimes →
        Run (evaluateJavaScript newFromUtf8) withoutStore calls runtimes' →
          runtimes.ran = runtimes'.ran := by
  intro h
  have hran := h .decoding (fun _ => true) [evaluation "a" "1+1", evaluation "a" "2+2"] _ _ rfl rfl
  exact absurd hran (by decide +kernel)

end Runtimes

end Runtime
end V8JsiRuntime
