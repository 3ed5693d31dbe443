import Mathlib.Data.List.AList
import V8JsiRuntime.Lib.Run
import V8JsiRuntime.Inspector.Utils

/-!
# SocketServer — the sessions of the inspector server

`InspectorSocketServer` keeps a map from session ids to sessions, next to the target id that a
session was upgraded with.  The events are the calls that the connections make on their
`SocketSession::Delegate`; the effects are what the server does to its delegate and to the sockets.
-/

namespace V8JsiRuntime
namespace Inspector

open Lib

/-! ## Routing of GET requests -/

/-- `MatchPathSegment`; a pointer into the path is what follows it. -/
def matchPathSegment (path expected : Bytes) : Except Fault (Option Bytes) := do
  let len := expected.length
  if ← stringEqualNoCaseN path expected len then
    -- the segment ends with a slash or with the path
    let c ← charAt path len
    if c = 47 then
      return some (path.drop (len + 1))
    else if c = 0 then
      return some (path.drop len)
    else
      return none
  else
    return none

/-- The answer to a GET request that is routed. -/
inductive HttpResponse
  | list
  | protocol
  | version
  deriving DecidableEq, Repr

/-- The routing in `HandleGetRequest`; `none` is its result `false`. -/
def routeGetRequest (path : Bytes) : Except Fault (Option HttpResponse) := do
  match ← matchPathSegment path (ascii "/json") with
  | none => return none
  | some command =>
      let list ← matchPathSegment command (ascii "list")
      -- `/json` alone asks for the list as well
      let first ← charAt command 0
      if list.isSome ∨ first = 0 then
        return some .list
      else if (← matchPathSegment command (ascii "protocol")).isSome then
        return some .protocol
      else if (← matchPathSegment command (ascii "version")).isSome then
        return some .version
      else
        return none

/-! ## The server -/

inductive ServerState
  | kNew
  | kRunning
  | kStopping
  | kStopped
  deriving DecidableEq, Repr

/-- The protocol handler that a socket has. -/
inductive Protocol
  | http
  | ws
  deriving DecidableEq, Repr

structure SocketSession where
  id : Nat
  serverPort : Nat
  protocol : Protocol
  deriving DecidableEq, Repr

/-- Calls on the server's delegate and on the socket of a session. -/
inductive ServerEffect
  | startSession (sessionId : Nat) (targetId : Bytes)
  | endSession (sessionId : Nat)
  | messageReceived (sessionId : Nat) (message : Bytes)
  | acceptUpgrade (sessionId : Nat) (wsKey : Bytes)
  | sendResponse (sessionId : Nat) (host : Bytes) (response : HttpResponse)
  | cancelHandshake (sessionId : Nat)
  deriving DecidableEq, Repr

/-- How an execution of the server can go wrong. -/
inductive ServerFault
  | checkFailed
  /-- A call on the delegate after it was reset. -/
  | nullDelegate
  /-- A call on a session that is not in the map. -/
  | nullSession
  | memory (fault : Fault)
  deriving DecidableEq, Repr

structure InspectorSocketServer where
  /-- `delegate_` is not null. -/
  hasDelegate : Bool
  port : Nat
  nextSessionId : Nat
  state : ServerState
  /-- The target id is empty until the session is upgraded. -/
  connectedSessions : AList fun _ : Nat => Bytes × SocketSession
  /-- History: what the server did so far. -/
  effects : List ServerEffect
  fault : Option ServerFault

namespace InspectorSocketServer

/-- The server when `Start` enters its loop. -/
def started (port : Nat) : InspectorSocketServer where
  hasDelegate := true
  port := port
  nextSessionId := 0
  state := .kRunning
  connectedSessions := ∅
  effects := []
  fault := none

/-- `Session`: the session with that id, if it is still connected. -/
def session (server : InspectorSocketServer) (sessionId : Nat) : Option SocketSession :=
  (server.connectedSessions.lookup sessionId).map Prod.snd

def act (server : InspectorSocketServer) (effect : ServerEffect) : InspectorSocketServer :=
  { server with effects := server.effects ++ [effect] }

/-- A call through `delegate_`. -/
def callDelegate (server : InspectorSocketServer) (effect : ServerEffect) :
    Except ServerFault InspectorSocketServer :=
  if server.hasDelegate then
    .ok (server.act effect)
  else
    .error .nullDelegate

def accept (server : InspectorSocketServer) (serverPort : Nat) : InspectorSocketServer :=
  let session : SocketSession := ⟨server.nextSessionId, serverPort, .http⟩
  { server with
    nextSessionId := server.nextSessionId + 1
    connectedSessions := server.connectedSessions.insert session.id ([], session) }

/-- `SessionStarted`: the handler of the socket becomes a `WsHandler` whatever the target id is. -/
def sessionStarted (server : InspectorSocketServer) (sessionId : Nat) (id wsKey : Bytes) :
    Except ServerFault InspectorSocketServer :=
  match server.session sessionId with
  | none => .error .nullSession
  | some session =>
      let entry := (id, { session with protocol := .ws })
      let server := { server with
        connectedSessions := server.connectedSessions.insert sessionId entry }
      (server.act (.acceptUpgrade sessionId wsKey)).callDelegate (.startSession sessionId id)

def sessionTerminated (server : InspectorSocketServer) (sessionId : Nat) :
    Except ServerFault InspectorSocketServer :=
  match server.connectedSessions.lookup sessionId with
  | none => .ok server
  | some (targetId, _) => do
      -- an empty target id counts as no target
      let wasAttached := targetId ≠ []
      let server ← if wasAttached then server.callDelegate (.endSession sessionId) else .ok server
      let server := { server with connectedSessions := server.connectedSessions.erase sessionId }
      -- `Stop` has left the delegate to the last session
      if server.connectedSessions.entries = [] ∧ server.state = .kStopped then
        return { server with hasDelegate := false }
      else
        return server

/-- `SocketSession::Delegate::OnHttpGet` with `HandleGetRequest`. -/
def onHttpGet (server : InspectorSocketServer) (sessionId : Nat) (host path : Bytes) :
    Except ServerFault InspectorSocketServer :=
  match server.session sessionId with
  | none => .error .nullSession
  | some _ =>
      match routeGetRequest path with
      | .error fault => .error (.memory fault)
      | .ok none => .ok (server.act (.cancelHandshake sessionId))
      -- the list of targets is asked of the delegate
      | .ok (some .list) => server.callDelegate (.sendResponse sessionId host .list)
      | .ok (some response) => .ok (server.act (.sendResponse sessionId host response))

/-- `SocketSession::Delegate::OnSocketUpgrade`. -/
def onSocketUpgrade (server : InspectorSocketServer) (sessionId : Nat) (path wsKey : Bytes) :
    Except ServerFault InspectorSocketServer :=
  -- the target id is the path without its slash
  let id := if path.isEmpty then path else path.drop 1
  server.sessionStarted sessionId id wsKey

def stop (server : InspectorSocketServer) : Except ServerFault InspectorSocketServer :=
  if server.state = .kStopped then
    .ok server
  else if server.state = .kRunning then
    -- the delegate is reset whether or not a session is connected
    .ok { server with state := .kStopped, hasDelegate := false }
  else
    .error .checkFailed

end InspectorSocketServer

/-! ## Runs of the server -/

/-- A new connection, a call on the delegate of a session, its destruction, or `Stop`. -/
inductive ServerEvent
  | accept
  | onHttpGet (sessionId : Nat) (host path : Bytes)
  | onSocketUpgrade (sessionId : Nat) (host path wsKey : Bytes)
  | onWsFrame (sessionId : Nat) (data : Bytes)
  | delegateDestroyed (sessionId : Nat)
  | stop
  deriving DecidableEq, Repr

namespace InspectorSocketServer

/-- Requests come from the `HttpHandler` of a connected session, frames from its `WsHandler`; a
delegate is destroyed only if its connection was accepted. -/
def CanOccur (server : InspectorSocketServer) : ServerEvent → Prop
  | .accept => True
  | .onHttpGet sessionId _ _ => (server.session sessionId).map SocketSession.protocol = some .http
  | .onSocketUpgrade sessionId _ _ _ =>
      (server.session sessionId).map SocketSession.protocol = some .http
  | .onWsFrame sessionId _ => (server.session sessionId).map SocketSession.protocol = some .ws
  | .delegateDestroyed sessionId => sessionId < server.nextSessionId
  | .stop => True

instance (server : InspectorSocketServer) (event : ServerEvent) :
    Decidable (server.CanOccur event) :=
  match event with
  | .accept => inferInstanceAs (Decidable True)
  | .onHttpGet _ _ _ => inferInstanceAs (Decidable (_ = _))
  | .onSocketUpgrade _ _ _ _ => inferInstanceAs (Decidable (_ = _))
  | .onWsFrame _ _ => inferInstanceAs (Decidable (_ = _))
  | .delegateDestroyed _ => inferInstanceAs (Decidable (_ < _))
  | .stop => inferInstanceAs (Decidable True)

def handle (server : InspectorSocketServer) :
    ServerEvent → Except ServerFault InspectorSocketServer
  | .accept => .ok (server.accept server.port)
  | .onHttpGet sessionId host path => server.onHttpGet sessionId host path
  | .onSocketUpgrade sessionId _ path wsKey => server.onSocketUpgrade sessionId path wsKey
  | .onWsFrame sessionId data => server.callDelegate (.messageReceived sessionId data)
  | .delegateDestroyed sessionId => server.sessionTerminated sessionId
  | .stop => server.stop

/-- One event; nothing happens after a fault. -/
def step (server : InspectorSocketServer) (event : ServerEvent) : Option InspectorSocketServer :=
  if server.fault = none ∧ server.CanOccur event then
    match server.handle event with
    | .ok server' => some server'
    | .error fault => some { server with fault := some fault }
  else
    none

end InspectorSocketServer

end Inspector
end V8JsiRuntime
