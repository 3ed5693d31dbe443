import V8JsiRuntime.Inspector.AgentInvariant
import V8JsiRuntime.Inspector.SocketServer

/-!
# Incoming — a frame of the client on its way into the agent's queue

`OnWsFrame` passes the payload to the server's delegate, and that to the agent, which converts it to
UTF-16.  The conversion throws on what is not UTF-8, and nothing between it and the thread function
of the server catches.  `handled_iff` says which payloads are handled.
-/

namespace V8JsiRuntime
namespace Inspector

open Lib

/-- The process with its inspector: the server on its thread, and the agent that it serves. -/
structure Host where
  server : InspectorSocketServer
  system : System

namespace Host

/-- `SocketSession::Delegate::OnWsFrame`: the delegate of the server is the agent's, unless it was
reset. -/
def onWsFrame (multiByteToWideChar : MultiByteToWideChar) (host : Host) (sessionId : Nat)
    (data : Bytes) : Option Host := do
  let server ← host.server.step (.onWsFrame sessionId data)
  if server.fault.isSome then
    return { host with server := server }
  else
    let system ← host.system.step multiByteToWideChar (.session (.messageReceived sessionId data))
    return ⟨server, system⟩

/-- The session is upgraded, nothing went wrong so far, and the server thread is back from the last
event. -/
structure Serves (host : Host) (sessionId : Nat) : Prop where
  serverFault : host.server.fault = none
  systemFault : host.system.fault = none
  idle : host.system.poster = .idle
  started : (host.server.session sessionId).map SocketSession.protocol = some .ws

/-- The messages of a session that wait to be dispatched. -/
def pending (host : Host) (sessionId : Nat) : List QueuedMessage :=
  host.system.agent.incomingMessageQueue.filter fun m => m.event.sessionId = sessionId

end Host

/-- How a payload is to be handled on the way from `host` to `host'`. -/
structure Handled (host host' : Host) (sessionId : Nat) (data : Bytes) : Prop where
  noEscape : host'.server.fault = none ∧ host'.system.fault = none
  /-- The message is appended, and it is this one, or the session is over. -/
  appendedOrEnded :
    (∃ m : QueuedMessage, m.event = .messageReceived sessionId data ∧
      stringViewToUtf8 m.message = .ok data ∧
      host'.system.agent.incomingMessageQueue =
        host.system.agent.incomingMessageQueue ++ [m]) ∨
    host'.server.session sessionId = none
  others : ∀ id, id ≠ sessionId →
    host'.server.session id = host.server.session id ∧ host'.pending id = host.pending id

namespace Host

theorem step_onWsFrame {server : InspectorSocketServer} {sessionId : Nat} (data : Bytes)
    (hfault : server.fault = none)
    (hstarted : (server.session sessionId).map SocketSession.protocol = some .ws) :
    server.step (.onWsFrame sessionId data) =
      if server.hasDelegate then
        some (server.act (.messageReceived sessionId data))
      else
        some { server with fault := some .nullDelegate } := by
  rw [InspectorSocketServer.step, if_pos ⟨hfault, hstarted⟩, InspectorSocketServer.handle,
    InspectorSocketServer.callDelegate]
  cases server.hasDelegate with
  | false => rfl
  | true => rfl

theorem onWsFrame_nullDelegate (multiByteToWideChar : MultiByteToWideChar) {host : Host}
    {sessionId : Nat} (data : Bytes) (h : host.Serves sessionId)
    (hnull : host.server.hasDelegate = false) :
    host.onWsFrame multiByteToWideChar sessionId data =
      some { host with server := { host.server with fault := some .nullDelegate } } := by
  rw [onWsFrame, step_onWsFrame data h.serverFault h.started, if_neg (by simp [hnull])]
  rfl

theorem onWsFrame_delegate (multiByteToWideChar : MultiByteToWideChar) {host : Host}
    {sessionId : Nat} (data : Bytes) (h : host.Serves sessionId)
    (hdelegate : host.server.hasDelegate = true) :
    host.onWsFrame multiByteToWideChar sessionId data =
      some ⟨host.server.act (.messageReceived sessionId data),
        host.system.postIncomingMessage multiByteToWideChar (.messageReceived sessionId data)⟩ := by
  have hact : (host.server.act (.messageReceived sessionId data)).fault = none := h.serverFault
  -- the server thread is free to post
  have hstep : host.system.step multiByteToWideChar (.session (.messageReceived sessionId data)) =
      some (host.system.postIncomingMessage multiByteToWideChar
        (.messageReceived sessionId data)) := by
    rw [System.step, h.systemFault]
    simp [h.idle]
  rw [onWsFrame, step_onWsFrame data h.serverFault h.started, hdelegate]
  simp [hact, hstep]

end Host

/-! ## The conversion -/

/-- If the conversion throws, the exception reaches the thread function. -/
theorem postIncomingMessage_error {multiByteToWideChar : MultiByteToWideChar} (s : System)
    (event : SessionEvent) {error : ConversionError}
    (h : utf8ToStringView multiByteToWideChar event.text = .error error) :
    (s.postIncomingMessage multiByteToWideChar event).fault = some (.uncaught error) := by
  rw [System.postIncomingMessage, h]
  rfl

theorem notifyDelegate_agent (s : System) (event : SessionEvent) :
    (s.notifyDelegate event).agent = s.agent ∧ (s.notifyDelegate event).fault = s.fault := by
  cases event with
  | startSession sessionId => exact ⟨rfl, rfl⟩
  | endSession sessionId => exact ⟨rfl, rfl⟩
  | messageReceived sessionId message =>
      rw [System.notifyDelegate]
      split
      · exact ⟨rfl, rfl⟩
      · exact ⟨rfl, rfl⟩

theorem postIncomingMessage_ok {multiByteToWideChar : MultiByteToWideChar} (s : System)
    (event : SessionEvent) {view : StringView}
    (h : utf8ToStringView multiByteToWideChar event.text = .ok view) :
    (s.postIncomingMessage multiByteToWideChar event).fault = s.fault ∧
      (s.postIncomingMessage multiByteToWideChar event).agent.incomingMessageQueue =
        s.agent.incomingMessageQueue ++ [⟨event, view⟩] := by
  obtain ⟨hagent, hfault⟩ := notifyDelegate_agent s event
  rw [System.postIncomingMessage, h]
  simp only [System.appendMessage, hagent, hfault, and_self]

/-! ## The frame -/

/-- A frame for a started session is handled exactly if the server still has its delegate and the
payload is valid UTF-8 of at most `INT_MAX` bytes. -/
theorem handled_iff (multiByteToWideChar : MultiByteToWideChar) (host : Host) (sessionId : Nat)
    (data : Bytes) (h : host.Serves sessionId) :
    ∃ host', host.onWsFrame multiByteToWideChar sessionId data = some host' ∧
      (Handled host host' sessionId data ↔
        host.server.hasDelegate = true ∧ data.length ≤ intMax ∧ ∃ text, utf8 text = data) := by
  cases hdelegate : host.server.hasDelegate with
  | false =>
      refine ⟨_, host.onWsFrame_nullDelegate multiByteToWideChar data h hdelegate, ?_⟩
      constructor
      · intro hhandled
        cases hhandled.noEscape.1
      · rintro ⟨hfalse, _⟩
        cases hfalse
  | true =>
      refine ⟨_, host.onWsFrame_delegate multiByteToWideChar data h hdelegate, ?_⟩
      cases hview : utf8ToStringView multiByteToWideChar data with
      | error error =>
          have hfault := postIncomingMessage_error host.system
            (.messageReceived sessionId data) hview
          constructor
          · intro hhandled
            exact absurd (hfault.symm.trans hhandled.noEscape.2) (by simp)
          -- valid UTF-8 of that length is always converted
          · rintro ⟨_, hlength, text, rfl⟩
            rw [utf8ToStringView_utf8 multiByteToWideChar hlength] at hview
            cases hview
      | ok view =>
          obtain ⟨hfault, hqueue⟩ := postIncomingMessage_ok host.system
            (.messageReceived sessionId data) hview
          obtain ⟨hlength, text, htext, _⟩ := utf8ToStringView_cases hview
          refine iff_of_true ?_ ⟨rfl, hlength, text, htext⟩
          refine ⟨⟨h.serverFault, hfault.trans h.systemFault⟩, Or.inl ?_, fun id hid => ⟨rfl, ?_⟩⟩
          · exact ⟨_, rfl, stringViewToUtf8_utf8ToStringView hview, hqueue⟩
          -- the message that was appended is none of another session
          · have hother : ¬ sessionId = id := fun heq => hid heq.symm
            simp [Host.pending, hqueue, SessionEvent.sessionId, hother]

/-- A process with one started session that has sent nothing yet. -/
def hostOfOneSession : Host where
  server := { InspectorSocketServer.started 9223 with
    nextSessionId := 1
    connectedSessions := AList.singleton 0 (ascii "a", ⟨0, 9223, .ws⟩) }
  system := System.init

theorem hostOfOneSession_serves : hostOfOneSession.Serves 0 :=
  ⟨rfl, rfl, rfl, rfl⟩

/-- An ASCII message is handled. -/
theorem handled_ascii : ∃ host',
    hostOfOneSession.onWsFrame .decoding 0 (ascii "m") = some host' ∧
      Handled hostOfOneSession host' 0 (ascii "m") := by
  obtain ⟨host', hhost', hiff⟩ := handled_iff .decoding hostOfOneSession 0 (ascii "m")
    hostOfOneSession_serves
  exact ⟨host', hhost', hiff.2 ⟨rfl, by decide, ['m'], by decide⟩⟩

/-- A payload of the single byte 0xFF ends the process. -/
theorem not_handled_0xFF :
    ¬ ∀ (multiByteToWideChar : MultiByteToWideChar) (host host' : Host) (sessionId : Nat)
      (data : Bytes), host.Serves sessionId →
        host.onWsFrame multiByteToWideChar sessionId data = some host' →
          Handled host host' sessionId data := by
  intro h
  -- no text is encoded as this byte
  have hview : utf8ToStringView .decoding [0xFF] = .error .runtimeError := by
    have hinvalid := MultiByteToWideChar.decoding.convert_invalid [0xFF]
      (utf8_ne_singleton (by decide))
    rw [utf8ToStringView, utf8ToUtf16, if_neg (by decide), if_neg (by decide), hinvalid]
    rfl
  have hframe := hostOfOneSession.onWsFrame_delegate .decoding [0xFF] hostOfOneSession_serves rfl
  have hhandled := h .decoding hostOfOneSession _ 0 [0xFF] hostOfOneSession_serves hframe
  have hfault := postIncomingMessage_error System.init
    (.messageReceived 0 [0xFF]) hview
  exact absurd (hfault.symm.trans hhandled.noEscape.2) (by simp)

end Inspector
end V8JsiRuntime
