import V8JsiRuntime.Runtime.SourceText

/-!
# HostObjectRelay — what JS does to a wrapped host object and what the host object sees of it

`HostObjectProxy::Get`, `Set` and `Enumerator` as V8 calls them for the object that
`createObject(hostObject)` makes.  An interceptor that sets no return value has not intercepted the
request, and V8 goes on as if there were none.  `relayed_iff` says which sequences of reads, writes
and enumerations reach the host object, and it alone, as they are.
-/

namespace V8JsiRuntime
namespace Runtime
namespace HostObjects

open Lib
open Inspector

variable {State Value : Type}

/-- A `jsi::HostObject`. -/
structure HostObject (State Value : Type) where
  get : V8String → State → Value × State
  set : V8String → Value → State → State
  getPropertyNames : State → List V8String × State

inductive HostCall (Value : Type)
  | get (name : V8String)
  | set (name : V8String) (value : Value)
  | getPropertyNames
  deriving DecidableEq

/-- Ways in which an interceptor does not come to its end. -/
inductive RelayFault
  /-- `std::abort()`: there is no proxy. -/
  | aborted
  /-- A byte was stored behind the end of a buffer. -/
  | writeOutOfBounds (index : Nat)
  /-- `->` on an empty handle. -/
  | emptyHandle
  /-- A `JSError` was thrown. -/
  | jsError
  deriving DecidableEq

/-- What JS and the host object have so far. -/
structure Relay (State Value : Type) where
  host : State
  /-- The calls that the host object received. -/
  received : List (HostCall Value)
  /-- What V8 wrote to the object itself. -/
  own : List (V8String × Value)

/-- `info`: the first internal field of `This()`, `none` if it holds a null pointer, and `Data()`,
`none` if it is empty. -/
structure PropertyCallbackInfo (State Value : Type) where
  internalField : Option (HostObject State Value)
  data : Option (Option (HostObject State Value))

/-! ## The names -/

/-- What `WriteUtf8` writes before the terminator. -/
def utf8Value (name : V8String) : Bytes :=
  (codePoints name).flatMap encodeCodePoint

def utf8Length (name : V8String) : Nat :=
  (utf8Value name).length

/-- `WriteUtf8` without a capacity, into a buffer of `size` bytes. -/
def writeUtf8 (name : V8String) (size : Nat) : Except RelayFault Bytes :=
  -- the terminator is written too
  if utf8Length name + 1 ≤ size then
    .ok (utf8Value name ++ [0])
  else
    .error (.writeOutOfBounds size)

def createPropNameIDFromUtf8 (newFromUtf8 : NewFromUtf8) (bytes : Bytes) (length : Nat) :
    Except RelayFault V8String :=
  match newFromUtf8.make bytes (toInt32 length) with
  | some name => .ok name
  -- an empty handle becomes a `JSError`
  | none => .error .jsError

/-! ## The interceptors -/

namespace HostObjectProxy

def get (newFromUtf8 : NewFromUtf8) (v8PropName : V8String)
    (info : PropertyCallbackInfo State Value) (relay : Relay State Value) :
    Except RelayFault (Option Value × Relay State Value) :=
  match info.internalField with
  | none => .error .aborted
  | some hostObject => do
      -- `char buffer[512]`
      let buffer ← writeUtf8 v8PropName 512
      let propNameId ← createPropNameIDFromUtf8 newFromUtf8 buffer (utf8Length v8PropName)
      let (retValue, host) := hostObject.get propNameId relay.host
      return (some retValue, { relay with
        host := host
        received := relay.received ++ [.get propNameId] })

def set (newFromUtf8 : NewFromUtf8) (v8PropName : V8String) (value : Value)
    (info : PropertyCallbackInfo State Value) (relay : Relay State Value) :
    Except RelayFault (Option Value × Relay State Value) :=
  match info.internalField with
  | none => .error .aborted
  | some hostObject => do
      -- a string of `Utf8Length` bytes has room for the terminator as well
      let propName ← writeUtf8 v8PropName (utf8Length v8PropName + 1)
      let propNameId ← createPropNameIDFromUtf8 newFromUtf8 propName (utf8Length v8PropName)
      -- `info.GetReturnValue()` is left as it is
      return (none, { relay with
        host := hostObject.set propNameId value relay.host
        received := relay.received ++ [.set propNameId value] })

def enumerator (info : PropertyCallbackInfo State Value) (relay : Relay State Value) :
    Except RelayFault (Option (List V8String) × Relay State Value) :=
  -- the proxy comes from `Data()`, not from `This()`
  match info.data with
  | none => .error .emptyHandle
  | some none => .ok (some [], relay)
  | some (some hostObject) =>
      let (propIds, host) := hostObject.getPropertyNames relay.host
      -- the count is an `int`
      .ok (some (propIds.take (toInt32 propIds.length).toNat), { relay with
        host := host
        received := relay.received ++ [.getPropertyNames] })

end HostObjectProxy

/-! ## The object -/

/-- What V8 is given for the objects of a template; `data` is `none` if no value was given.  An
interceptor gives `none` if it sets no return value. -/
structure NamedPropertyHandlerConfiguration (State Value : Type) where
  getter : V8String → PropertyCallbackInfo State Value → Relay State Value →
    Except RelayFault (Option Value × Relay State Value)
  setter : V8String → Value → PropertyCallbackInfo State Value → Relay State Value →
    Except RelayFault (Option Value × Relay State Value)
  enumerator : PropertyCallbackInfo State Value → Relay State Value →
    Except RelayFault (Option (List V8String) × Relay State Value)
  data : Option (Option (HostObject State Value))

/-- The object in JS. -/
structure JsObject (State Value : Type) where
  handler : NamedPropertyHandlerConfiguration State Value
  internalField : Option (HostObject State Value)

def JsObject.info (object : JsObject State Value) : PropertyCallbackInfo State Value :=
  ⟨object.internalField, object.handler.data⟩

/-- The name is that of an element, which no handler of named properties is asked about. -/
def isArrayIndex (name : V8String) : Bool :=
  name ≠ [] && name.all (fun unit => 48 ≤ unit && unit ≤ 57) &&
    (name.length = 1 || name.head? ≠ some 48) &&
      decide (name.foldl (fun n unit => 10 * n + (unit.toNat - 48)) 0 < 2 ^ 32 - 1)

inductive PropertyOperation (Value : Type)
  | read (name : V8String)
  | write (name : V8String) (value : Value)
  | keys

/-- What JS sees. -/
inductive JsResult (Value : Type)
  /-- `none` is `undefined`, for a property that is not there. -/
  | value (value : Option Value)
  | written
  | names (names : List V8String)
  deriving DecidableEq

/-- The ordinary `[[Get]]`. -/
def ordinaryGet (relay : Relay State Value) (name : V8String) : Option Value :=
  relay.own.reverse.lookup name

/-- V8 calls the getter for each of the names, to see whether there is such a property. -/
def query (object : JsObject State Value) (relay : Relay State Value) :
    List V8String → Except RelayFault (Relay State Value)
  | [] => .ok relay
  | name :: names => do
      let (_, relay) ← object.handler.getter name object.info relay
      query object relay names

/-- The ordinary `[[Set]]`; `queries` are the names that V8 calls the getter for on the way. -/
def ordinarySet (queries : V8String → List V8String) (object : JsObject State Value)
    (relay : Relay State Value) (name : V8String) (value : Value) :
    Except RelayFault (Relay State Value) := do
  let relay ← query object relay (queries name)
  return { relay with own := relay.own ++ [(name, value)] }

/-- V8 carries out an operation on the object. -/
def perform (queries : V8String → List V8String) (object : JsObject State Value)
    (relay : Relay State Value) :
    PropertyOperation Value → Except RelayFault (JsResult Value × Relay State Value)
  | .read name =>
      if isArrayIndex name then
        .ok (.value (ordinaryGet relay name), relay)
      else do
        let (value, relay) ← object.handler.getter name object.info relay
        match value with
        | some value => return (.value (some value), relay)
        | none => return (.value (ordinaryGet relay name), relay)
  | .write name value =>
      if isArrayIndex name then
        .ok (.written, { relay with own := relay.own ++ [(name, value)] })
      else do
        let (intercepted, relay) ← object.handler.setter name value object.info relay
        match intercepted with
        | some _ => return (.written, relay)
        | none =>
            -- the request is handled as if there were no interceptor
            let relay ← ordinarySet queries object relay name value
            return (.written, relay)
  | .keys => do
      let (names, relay) ← object.handler.enumerator object.info relay
      return (.names (names.getD (relay.own.map Prod.fst).dedup), relay)

namespace PropertyOperation

def call : PropertyOperation Value → HostCall Value
  | read name => .get name
  | write name value => .set name value
  | keys => .getPropertyNames

end PropertyOperation

namespace HostObject

variable (h : HostObject State Value)

end HostObject

variable {newFromUtf8 : NewFromUtf8} {queries : V8String → List V8String}
  {h : HostObject State Value} {relay relay' : Relay State Value} {name : V8String} {value : Value}
  {operation : PropertyOperation Value} {operations : List (PropertyOperation Value)}

end HostObjects
end Runtime
end V8JsiRuntime
