import Mathlib.Logic.Basic

/-!
# ExceptionBoundary — exceptions between JS and C++

A JSI operation runs JS code, which may call back into host functions and host objects, whose code
may use JSI operations again.  An exception raised inside has to be translated at every boundary it
crosses: an empty result of V8 into a C++ exception, and a C++ exception into one of JS.
`propagated_iff` says for which nestings it arrives outside.

The constructor of `JSError` gets `Error` from the global object and calls it.  It is taken to be
intact, so that the constructor comes to its end; a script that has replaced it is not modelled.
-/

namespace V8JsiRuntime
namespace Runtime

/-! ## Data -/

/-- What the host code can throw, with the length of `what()`. -/
inductive CppException
  | jsError
  | stdException (what : Nat)
  | other
  deriving DecidableEq, Repr

/-- What V8 does, where the code depends on it. -/
structure V8 where
  /-- An exception that an operation swallowed inside a host callback is thrown when that returns. -/
  rethrows : Bool
  /-- `v8::String::kMaxLength` -/
  maxLength : Nat
  deriving DecidableEq, Repr

/-- How JS code ends, as seen by the code that V8 returns to. -/
inductive JsOutcome
  | returned
  /-- An empty `MaybeLocal` or `Maybe`. -/
  | threw
  /-- A C++ exception unwinds through the frames of V8. -/
  | unwinds
  /-- The process ends. -/
  | aborts
  deriving DecidableEq, Repr

/-- How C++ code of the host ends. -/
inductive HostOutcome
  /-- With or without an exception of JS that nobody looked at. -/
  | returned (pending : Bool)
  | throws (exception : CppException)
  | unwinds
  | aborts
  deriving DecidableEq, Repr

/-- An operation that looks at the result of V8, given what it does if that is empty. -/
def JsOutcome.ifEmpty (outcome : HostOutcome) : JsOutcome → HostOutcome
  | returned => .returned false
  | threw => outcome
  | unwinds => .unwinds
  | aborts => .aborts

/-! ## The operations -/

namespace V8Runtime

/-- An empty result is returned as `undefined`. -/
def call : JsOutcome → HostOutcome :=
  JsOutcome.ifEmpty (.returned true)

/-- The `JSError` is allocated and not thrown, and `createValue` uses the empty handle. -/
def callAsConstructor : JsOutcome → HostOutcome :=
  JsOutcome.ifEmpty .aborts

/-- `ToLocalChecked`; the code behind it is not reached. -/
def getPropertyByString : JsOutcome → HostOutcome :=
  JsOutcome.ifEmpty .aborts

def getPropertyByPropNameID : JsOutcome → HostOutcome :=
  JsOutcome.ifEmpty (.throws .jsError)

def setPropertyValueByPropNameID : JsOutcome → HostOutcome :=
  JsOutcome.ifEmpty (.throws .jsError)

def setPropertyValueByString : JsOutcome → HostOutcome :=
  JsOutcome.ifEmpty (.throws .jsError)

/-- `ToLocalChecked` -/
def getValueAtIndex : JsOutcome → HostOutcome :=
  JsOutcome.ifEmpty .aborts

/-- The result of `Set` is ignored. -/
def setValueAtIndexImpl : JsOutcome → HostOutcome :=
  JsOutcome.ifEmpty (.returned true)

end V8Runtime

inductive Operation
  | call
  | callAsConstructor
  | getPropertyByString
  | getPropertyByPropNameID
  | setPropertyValueByPropNameID
  | setPropertyValueByString
  | getValueAtIndex
  | setValueAtIndexImpl
  deriving DecidableEq, Repr

/-- The operation, given how the JS code that it runs ends. -/
def Operation.perform : Operation → JsOutcome → HostOutcome
  | call => V8Runtime.call
  | callAsConstructor => V8Runtime.callAsConstructor
  | getPropertyByString => V8Runtime.getPropertyByString
  | getPropertyByPropNameID => V8Runtime.getPropertyByPropNameID
  | setPropertyValueByPropNameID => V8Runtime.setPropertyValueByPropNameID
  | setPropertyValueByString => V8Runtime.setPropertyValueByString
  | getValueAtIndex => V8Runtime.getValueAtIndex
  | setValueAtIndexImpl => V8Runtime.setValueAtIndexImpl

/-! ## The callbacks -/

/-- V8 is back from a callback that returned. -/
def V8.afterCallback (v8 : V8) (pending : Bool) : JsOutcome :=
  if pending && v8.rethrows then .threw else .returned

/-- `HostFunctionProxy::call`: everything the function throws is caught and thrown in JS.  The
message of a `std::exception` is made a string of V8 first, which must succeed. -/
def HostFunctionProxy.call (v8 : V8) : HostOutcome → JsOutcome
  | .returned pending => v8.afterCallback pending
  | .throws .jsError => .threw
  | .throws (.stdException what) => if what ≤ v8.maxLength then .threw else .aborts
  | .throws .other => .threw
  | .unwinds => .unwinds
  | .aborts => .aborts

namespace HostObjectProxy

/-- The callbacks of a host object have no `try`. -/
def callback (v8 : V8) : HostOutcome → JsOutcome
  | .returned pending => v8.afterCallback pending
  | .throws _ => .unwinds
  | .unwinds => .unwinds
  | .aborts => .aborts

def get (v8 : V8) : HostOutcome → JsOutcome :=
  callback v8

def set (v8 : V8) : HostOutcome → JsOutcome :=
  callback v8

def enumerator (v8 : V8) : HostOutcome → JsOutcome :=
  callback v8

end HostObjectProxy

inductive Callback
  | hostFunction
  | hostObjectGet
  | hostObjectSet
  | hostObjectEnumerator
  deriving DecidableEq, Repr

/-- The callback, given how the host's code in it ends. -/
def Callback.run (v8 : V8) : Callback → HostOutcome → JsOutcome
  | hostFunction => HostFunctionProxy.call v8
  | hostObjectGet => HostObjectProxy.get v8
  | hostObjectSet => HostObjectProxy.set v8
  | hostObjectEnumerator => HostObjectProxy.enumerator v8

/-! ## Nestings -/

/-- JS code in which an exception is raised at the innermost level and caught by nobody. -/
inductive JsNest
  | throws
  /-- A JS function calls another one. -/
  | calls (inner : JsNest)
  /-- JS code calls back into the host, which throws. -/
  | hostThrows (callback : Callback) (exception : CppException)
  /-- JS code calls back into the host, which performs an operation. -/
  | hostPerforms (callback : Callback) (operation : Operation) (inner : JsNest)
  deriving DecidableEq, Repr

def JsNest.run (v8 : V8) : JsNest → JsOutcome
  | throws => .threw
  | calls inner => inner.run v8
  | hostThrows callback exception => callback.run v8 (.throws exception)
  | hostPerforms callback operation inner => callback.run v8 (operation.perform (inner.run v8))

/-- The outermost operation throws a `JSError`. -/
def Propagated (v8 : V8) (operation : Operation) (nest : JsNest) : Prop :=
  operation.perform (nest.run v8) = .throws .jsError

instance (v8 : V8) (operation : Operation) (nest : JsNest) :
    Decidable (Propagated v8 operation nest) :=
  inferInstanceAs (Decidable (_ = _))

/-! ## Which boundaries translate -/

/-- The operation throws a `JSError` for an empty result. -/
def Operation.Translates (operation : Operation) : Prop :=
  operation ∈ [getPropertyByPropNameID, setPropertyValueByPropNameID, setPropertyValueByString]

/-- The operation returns in spite of an empty result. -/
def Operation.Swallows (operation : Operation) : Prop :=
  operation ∈ [call, setValueAtIndexImpl]

instance (operation : Operation) : Decidable operation.Translates :=
  inferInstanceAs (Decidable (_ ∈ _))

instance (operation : Operation) : Decidable operation.Swallows :=
  inferInstanceAs (Decidable (_ ∈ _))

/-- The message fits in a string of V8. -/
def CppException.Fits (v8 : V8) : CppException → Prop
  | stdException what => what ≤ v8.maxLength
  | _ => True

/-- The exception gets through every level of the nesting: in a host function through an operation
that translates it, and in any callback through one that swallows it if V8 throws it again. -/
def JsNest.GetsThrough (v8 : V8) : JsNest → Prop
  | throws => True
  | calls inner => inner.GetsThrough v8
  | hostThrows callback exception => callback = .hostFunction ∧ exception.Fits v8
  | hostPerforms callback operation inner => inner.GetsThrough v8 ∧
      (callback = .hostFunction ∧ operation.Translates ∨ v8.rethrows = true ∧ operation.Swallows)

/-! ### Operations -/

namespace Operation

theorem perform_eq (operation : Operation) :
    operation.perform = JsOutcome.ifEmpty (operation.perform .threw) := by
  cases operation <;> rfl

/-- For an empty result an operation throws a `JSError`, returns, or ends the process. -/
theorem perform_threw (operation : Operation) :
    operation.Translates ∧ ¬ operation.Swallows ∧
        operation.perform .threw = .throws .jsError ∨
      ¬ operation.Translates ∧ operation.Swallows ∧
        operation.perform .threw = .returned true ∨
      ¬ operation.Translates ∧ ¬ operation.Swallows ∧ operation.perform .threw = .aborts := by
  cases operation <;> decide

theorem perform_eq_throws_iff (operation : Operation) (outcome : JsOutcome) :
    operation.perform outcome = .throws .jsError ↔ outcome = .threw ∧ operation.Translates := by
  cases outcome with
  | returned => simp [perform_eq, JsOutcome.ifEmpty]
  | unwinds => simp [perform_eq, JsOutcome.ifEmpty]
  | aborts => simp [perform_eq, JsOutcome.ifEmpty]
  | threw =>
      -- only a translated empty result is a `JSError`; the other two kinds return or abort
      rcases operation.perform_threw with
        ⟨htranslates, _, heq⟩ | ⟨hnot, _, heq⟩ | ⟨hnot, _, heq⟩
      · simp [heq, htranslates]
      · simp [heq, hnot]
      · simp [heq, hnot]

end Operation

/-! ### Callbacks -/

namespace Callback

variable (v8 : V8) (callback : Callback)

theorem run_returned (pending : Bool) :
    callback.run v8 (.returned pending) = v8.afterCallback pending := by
  cases callback <;> rfl

theorem run_unwinds : callback.run v8 .unwinds = .unwinds := by
  cases callback <;> rfl

theorem run_aborts : callback.run v8 .aborts = .aborts := by
  cases callback <;> rfl

theorem run_throws_eq_threw_iff (exception : CppException) :
    callback.run v8 (.throws exception) = .threw ↔
      callback = .hostFunction ∧ exception.Fits v8 := by
  cases callback with
  | hostFunction =>
      rw [run]
      cases exception with
      | jsError => exact iff_of_true rfl ⟨rfl, trivial⟩
      | other => exact iff_of_true rfl ⟨rfl, trivial⟩
      | stdException what =>
          rw [HostFunctionProxy.call]
          -- `ToLocalChecked` on the message of the exception
          by_cases hfits : what ≤ v8.maxLength
          · simp [CppException.Fits, hfits]
          · simp [CppException.Fits, hfits]
  | hostObjectGet => exact iff_of_false nofun nofun
  | hostObjectSet => exact iff_of_false nofun nofun
  | hostObjectEnumerator => exact iff_of_false nofun nofun

/-- What a callback that performs an operation lets through. -/
theorem run_perform_eq_threw_iff (operation : Operation) (outcome : JsOutcome) :
    callback.run v8 (operation.perform outcome) = .threw ↔ outcome = .threw ∧
      (callback = .hostFunction ∧ operation.Translates ∨
        v8.rethrows = true ∧ operation.Swallows) := by
  rw [operation.perform_eq]
  cases outcome with
  | returned => simp [JsOutcome.ifEmpty, run_returned, V8.afterCallback]
  | unwinds => simp [JsOutcome.ifEmpty, run_unwinds]
  | aborts => simp [JsOutcome.ifEmpty, run_aborts]
  | threw =>
      rw [JsOutcome.ifEmpty]
      -- a translated exception meets the callback's `catch`, a swallowed one is pending in V8
      rcases operation.perform_threw with
        ⟨htranslates, hnot, heq⟩ | ⟨hnot, hswallows, heq⟩ | ⟨hnot, hnot', heq⟩
      · rw [heq, run_throws_eq_threw_iff]
        simp [htranslates, hnot, CppException.Fits]
      · rw [heq, run_returned]
        simp [hnot, hswallows, V8.afterCallback]
      · rw [heq, run_aborts]
        simp [hnot, hnot']

end Callback

/-! ## All nestings -/

/-- By induction over the nesting: JS code ends with the exception exactly if that got through. -/
theorem JsNest.run_eq_threw_iff (v8 : V8) (nest : JsNest) :
    nest.run v8 = .threw ↔ nest.GetsThrough v8 := by
  induction nest with
  | throws => exact iff_of_true rfl trivial
  | calls inner ih => exact ih
  | hostThrows callback exception => exact callback.run_throws_eq_threw_iff v8 exception
  | hostPerforms callback operation inner ih =>
      rw [JsNest.run, Callback.run_perform_eq_threw_iff, ih, JsNest.GetsThrough]

/-- The outermost operation throws a `JSError` exactly if it is one that translates an empty result
and the exception gets through the nesting. -/
theorem propagated_iff (v8 : V8) (operation : Operation) (nest : JsNest) :
    Propagated v8 operation nest ↔ operation.Translates ∧ nest.GetsThrough v8 := by
  rw [Propagated, Operation.perform_eq_throws_iff, JsNest.run_eq_threw_iff, and_comm]

/-- `call` of a function that throws returns `undefined`. -/
theorem not_propagated_call :
    ¬ ∀ (v8 : V8) (operation : Operation) (nest : JsNest), Propagated v8 operation nest := by
  intro h
  have hcall := h ⟨true, 536870888⟩ .call .throws
  exact absurd hcall (by decide)

end Runtime
end V8JsiRuntime
