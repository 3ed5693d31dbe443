import V8JsiRuntime.Inspector.WsHandler
import V8JsiRuntime.Lib.Run

/-!
# CloseHandshake — the closing handshake of a WebSocket

A `WsHandler` follows the handshake with two member function pointers, which a Close frame from the
peer and the completion of its own Close frame are to advance.  `WriteRaw` takes no callback, so that
nothing happens when a write completes.
-/

namespace V8JsiRuntime
namespace Inspector

open Lib

/-! ## Data -/

/-- What `OnCloseSent` and `OnCloseRecieved` point to. -/
inductive CloseCallback
  | waitForCloseReply
  | closeFrameReceived
  | onEof
  deriving DecidableEq, Repr

structure WsHandler where
  /-- `tcp_` is set. -/
  hasTcp : Bool
  onCloseSent : CloseCallback
  onCloseRecieved : CloseCallback
  dispose : Bool
  /-- `delete this` -/
  deleted : Bool
  /-- The messages given to `WriteRaw`. -/
  written : List Bytes
  /-- How many of them have been written by the connection. -/
  completed : Nat
  /-- History: a Close frame was received. -/
  closeReceived : Bool
  /-- History: `Shutdown` was called. -/
  shutDown : Bool
  deriving DecidableEq, Repr

/-- `CLOSE_FRAME` -/
def closeFrame : Bytes := [0x88, 0x00]

namespace WsHandler

/-- After the constructor. -/
def init : WsHandler where
  hasTcp := true
  onCloseSent := .waitForCloseReply
  onCloseRecieved := .closeFrameReceived
  dispose := false
  deleted := false
  written := []
  completed := 0
  closeReceived := false
  shutDown := false

/-! ## The code -/

def writeRaw (h : WsHandler) (message : Bytes) : WsHandler :=
  { h with written := h.written ++ [message] }

def sendClose (h : WsHandler) : WsHandler :=
  h.writeRaw closeFrame

/-- `tcp_.reset(); if (dispose_) delete this;` -/
def onEof (h : WsHandler) : WsHandler :=
  { h with
    hasTcp := false
    deleted := h.dispose }

def waitForCloseReply (h : WsHandler) : WsHandler :=
  { h with onCloseRecieved := .onEof }

def closeFrameReceived (h : WsHandler) : WsHandler :=
  { h with onCloseSent := .onEof }.sendClose

def invoke (h : WsHandler) : CloseCallback → WsHandler
  | .waitForCloseReply => h.waitForCloseReply
  | .closeFrameReceived => h.closeFrameReceived
  | .onEof => h.onEof

/-- A call of `ParseWsFrames`; a frame for the delegate does not change the handler. -/
def handleEvent (h : WsHandler) : WsEvent → WsHandler
  | .onWsFrame _ => h
  | .onEof => h.onEof
  | .onCloseRecieved => { h with closeReceived := true }.invoke h.onCloseRecieved

def onData (h : WsHandler) (data : Bytes) : Except Fault WsHandler := do
  let result ← Inspector.onData data
  return result.events.foldl handleEvent h

def write (h : WsHandler) (data : Bytes) : Except Fault WsHandler := do
  let output ← encodeFrameHybi17 data
  return h.writeRaw output

def shutdown (h : WsHandler) : WsHandler :=
  if h.hasTcp then
    { h with dispose := true }.sendClose
  else
    { h with deleted := true }

end WsHandler

inductive WsLabel
  | onData (data : Bytes)
  /-- The peer closes the TCP connection. -/
  | onEof
  | write (data : Bytes)
  | shutdown
  /-- The oldest write completes; `OnCloseFrameWritten` is not called. -/
  | writeCompletes
  deriving DecidableEq, Repr

namespace WsHandler

/-- One step.  The connection works while `tcp_` is set, the socket calls `Shutdown` once. -/
def step (h : WsHandler) (label : WsLabel) : Option WsHandler :=
  if h.deleted then
    none
  else
    match label with
    | .onData data => if h.hasTcp then (h.onData data).toOption else none
    | .onEof => if h.hasTcp then some h.onEof else none
    | .write data => if h.hasTcp then (h.write data).toOption else none
    | .shutdown => if h.shutDown then none else some { h.shutdown with shutDown := true }
    | .writeCompletes =>
        if h.hasTcp ∧ h.completed < h.written.length then
          some { h with completed := h.completed + 1 }
        else
          none

/-! ## Properties -/

/-- A Close frame has been written, completely. -/
def CloseSent (h : WsHandler) : Prop :=
  closeFrame ∈ h.written.take h.completed

/-- The closing handshake: one Close frame at most, and `OnEof` as soon as one has been written and
one received. -/
structure Handshake (h : WsHandler) : Prop where
  once : h.written.count closeFrame ≤ 1
  ends : h.CloseSent → h.closeReceived = true → h.hasTcp = false

instance (h : WsHandler) : Decidable h.CloseSent :=
  inferInstanceAs (Decidable (_ ∈ _))

instance (h : WsHandler) : Decidable h.Handshake :=
  decidable_of_iff
    (h.written.count closeFrame ≤ 1 ∧ (h.CloseSent → h.closeReceived = true → h.hasTcp = false))
    ⟨fun ⟨once, ends⟩ => ⟨once, ends⟩, fun ⟨once, ends⟩ => ⟨once, ends⟩⟩

end WsHandler

/-- The frame loop comes to a Close frame. -/
def ReceivesClose (data : Bytes) : Prop :=
  ∃ result, onData data = .ok result ∧ .onCloseRecieved ∈ result.events

namespace WsHandler

/-- The steps with which the handshake stays in order: no Close frame is received and `Shutdown` is
not called after a Close frame was written, and after one was received no Close frame gets through. -/
def InOrder (h : WsHandler) : WsLabel → Prop
  | .onData data => ReceivesClose data → closeFrame ∉ h.written
  | .onEof => True
  | .write _ => True
  | .shutdown => h.hasTcp = true → closeFrame ∉ h.written
  | .writeCompletes => h.written[h.completed]? = some closeFrame → h.closeReceived = false

end WsHandler

/-! ## The calls of one read -/

/-- What a round of the loop calls, and whether another round can follow. -/
theorem parseWsFrames_calls {data : Bytes} {processed : Int} {events : List WsEvent}
    (h : parseWsFrames data = .ok (processed, events)) :
    processed = 0 ∧ (events = [.onEof] ∨ events = [.onCloseRecieved]) ∨
      events = [] ∨ ∃ output, events = [.onWsFrame output] := by
  obtain ⟨d, _, hbranch⟩ := parseWsFrames_branches h
  rcases hbranch with ⟨_, hzero, hevents⟩ | ⟨_, hzero, hevents⟩ | ⟨_, _, _, hevents⟩ |
    ⟨_, _, hevents⟩
  · exact Or.inl ⟨hzero, Or.inl hevents⟩
  · exact Or.inl ⟨hzero, Or.inr hevents⟩
  · exact Or.inr (Or.inr ⟨_, hevents⟩)
  · exact Or.inr (Or.inl hevents)

/-- Calls of one read: frames for the delegate, and then at most one call that ends the loop. -/
def ReadCalls (events : List WsEvent) : Prop :=
  ∃ frames last, events = frames ++ last ∧ (∀ event ∈ frames, ∃ output, event = .onWsFrame output) ∧
    (last = [] ∨ last = [.onEof] ∨ last = [.onCloseRecieved])

theorem ReadCalls.of_round {data : Bytes} {processed : Int} {events : List WsEvent}
    (h : parseWsFrames data = .ok (processed, events)) : ReadCalls events := by
  rcases parseWsFrames_calls h with ⟨_, rfl | rfl⟩ | rfl | ⟨output, rfl⟩
  · exact ⟨[], _, rfl, nofun, Or.inr (Or.inl rfl)⟩
  · exact ⟨[], _, rfl, nofun, Or.inr (Or.inr rfl)⟩
  · exact ⟨[], [], rfl, nofun, Or.inl rfl⟩
  · exact ⟨_, [], rfl, fun event hevent => ⟨output, List.mem_singleton.1 hevent⟩, Or.inl rfl⟩

/-- A round after which another one follows has called the delegate at most. -/
theorem ReadCalls.after_round {data : Bytes} {processed : Int} {events rest : List WsEvent}
    (h : parseWsFrames data = .ok (processed, events)) (hpositive : processed > 0)
    (hrest : ReadCalls rest) : ReadCalls (events ++ rest) := by
  obtain ⟨frames, last, rfl, hframes, hlast⟩ := hrest
  rcases parseWsFrames_calls h with ⟨hzero, _⟩ | rfl | ⟨output, rfl⟩
  -- a call that ends the loop consumes nothing
  · omega
  · exact ⟨frames, last, rfl, hframes, hlast⟩
  · refine ⟨.onWsFrame output :: frames, last, rfl, ?_, hlast⟩
    intro event hevent
    rcases List.mem_cons.1 hevent with rfl | hevent
    · exact ⟨output, rfl⟩
    · exact hframes event hevent

theorem readCalls_onData {data : Bytes} {result : OnDataResult} (h : onData data = .ok result) :
    ReadCalls result.events := by
  refine onData_induction (motive := fun _ result => ReadCalls result.events) ?_ ?_ ?_ h
  · exact fun _ _ _ hparse _ => .of_round hparse
  · exact fun _ _ _ hparse _ _ => .of_round hparse
  · exact fun _ _ _ _ _ hparse hpositive _ hrest => .after_round hparse hpositive hrest

namespace WsHandler

variable {h h' : WsHandler} {data : Bytes}

/-! ## Steps -/

theorem foldl_onWsFrame {frames : List WsEvent}
    (hframes : ∀ event ∈ frames, ∃ output, event = .onWsFrame output) :
    frames.foldl handleEvent h = h := by
  induction frames with
  | nil => rfl
  | cons event frames ih =>
      obtain ⟨output, rfl⟩ := hframes event List.mem_cons_self
      exact ih fun other hother => hframes other (List.mem_cons_of_mem _ hother)

/-- A read leaves the handler as it is, runs `OnEof`, or comes to a Close frame. -/
theorem onData_cases (hdata : h.onData data = .ok h') :
    ¬ ReceivesClose data ∧ (h' = h ∨ h' = h.onEof) ∨
      ReceivesClose data ∧ h' = h.handleEvent .onCloseRecieved := by
  unfold WsHandler.onData at hdata
  cases hresult : Inspector.onData data with
  | error fault =>
      rw [hresult] at hdata
      cases hdata
  | ok result =>
      rw [hresult] at hdata
      obtain rfl := Except.ok.inj hdata
      obtain ⟨frames, last, hevents, hframes, hlast⟩ := readCalls_onData hresult
      -- the frames come first and change nothing; the last call decides
      have hnot : .onCloseRecieved ∉ frames := fun hmem => nomatch hframes _ hmem
      have hreceives : ReceivesClose data ↔ .onCloseRecieved ∈ last := by
        simp [ReceivesClose, hresult, hevents, hnot]
      rw [hreceives, hevents, List.foldl_append, foldl_onWsFrame hframes]
      rcases hlast with rfl | rfl | rfl
      · exact Or.inl ⟨nofun, Or.inl rfl⟩
      · exact Or.inl ⟨by simp, Or.inr rfl⟩
      · exact Or.inr ⟨List.mem_singleton.2 rfl, rfl⟩

/-- The encoder makes text frames. -/
theorem encodeHeader_cons {dataLength : UInt64} {header : Bytes}
    (hheader : encodeHeader dataLength = .ok header) :
    ∃ rest, header = (kFinalBit ||| kOpCodeText) :: rest := by
  unfold encodeHeader at hheader
  split at hheader
  · exact ⟨_, (Except.ok.inj hheader).symm⟩
  · split at hheader
    · exact ⟨_, (Except.ok.inj hheader).symm⟩
    · dsimp only at hheader
      split at hheader
      · exact ⟨_, (Except.ok.inj hheader).symm⟩
      · cases hheader

theorem write_eq (hwrite : h.write data = .ok h') :
    ∃ output, output ≠ closeFrame ∧ h' = h.writeRaw output := by
  unfold WsHandler.write encodeFrameHybi17 at hwrite
  cases hheader : encodeHeader (size data) with
  | error fault =>
      rw [hheader] at hwrite
      cases hwrite
  | ok header =>
      rw [hheader] at hwrite
      obtain rfl := Except.ok.inj hwrite
      obtain ⟨rest, rfl⟩ := encodeHeader_cons hheader
      refine ⟨_, ?_, rfl⟩
      intro heq
      -- the first byte of a text frame is not that of a Close frame
      exact absurd (List.cons.inj heq).1 (by decide)

/-- What a step can do. -/
inductive Transition (h : WsHandler) : WsLabel → WsHandler → Prop
  | read {data : Bytes} : ¬ ReceivesClose data → Transition h (.onData data) h
  /-- A frame was rejected. -/
  | readEof {data : Bytes} : ¬ ReceivesClose data → Transition h (.onData data) h.onEof
  | readClose {data : Bytes} : ReceivesClose data →
      Transition h (.onData data) (h.handleEvent .onCloseRecieved)
  | onEof : Transition h .onEof h.onEof
  | write {data output : Bytes} : output ≠ closeFrame →
      Transition h (.write data) (h.writeRaw output)
  | shutdown : Transition h .shutdown { h.shutdown with shutDown := true }
  | writeCompletes : h.hasTcp = true → h.completed < h.written.length →
      Transition h .writeCompletes { h with completed := h.completed + 1 }

theorem step_transition {label : WsLabel} (hstep : h.step label = some h') :
    Transition h label h' := by
  unfold WsHandler.step at hstep
  split at hstep
  · cases hstep
  · cases label with
    | onData data =>
        dsimp only at hstep
        split at hstep
        · cases hdata : h.onData data with
          | error fault =>
              rw [hdata] at hstep
              cases hstep
          | ok next =>
              rw [hdata] at hstep
              obtain rfl := Option.some.inj hstep
              rcases onData_cases hdata with ⟨hnot, rfl | rfl⟩ | ⟨hreceives, rfl⟩
              · exact .read hnot
              · exact .readEof hnot
              · exact .readClose hreceives
        · cases hstep
    | onEof =>
        dsimp only at hstep
        split at hstep
        · obtain rfl := Option.some.inj hstep
          exact .onEof
        · cases hstep
    | write data =>
        dsimp only at hstep
        split at hstep
        · cases hwrite : h.write data with
          | error fault =>
              rw [hwrite] at hstep
              cases hstep
          | ok next =>
              rw [hwrite] at hstep
              obtain rfl := Option.some.inj hstep
              obtain ⟨output, hother, rfl⟩ := write_eq hwrite
              exact .write hother
        · cases hstep
    | shutdown =>
        dsimp only at hstep
        split at hstep
        · cases hstep
        · obtain rfl := Option.some.inj hstep
          exact .shutdown
    | writeCompletes =>
        dsimp only at hstep
        split at hstep
        · rename_i hcan
          obtain rfl := Option.some.inj hstep
          exact .writeCompletes hcan.1 hcan.2
        · cases hstep

/-- A received Close frame, as long as the pointer has not been changed. -/
theorem handleEvent_onCloseRecieved (hpointer : h.onCloseRecieved = .closeFrameReceived) :
    h.handleEvent .onCloseRecieved =
      { h with closeReceived := true, onCloseSent := .onEof }.sendClose := by
  rw [handleEvent, hpointer]
  rfl

/-- `WaitForCloseReply` is never called: a Close frame of the peer is always answered, and never runs
`OnEof`. -/
theorem onCloseRecieved_of_run {labels : List WsLabel} (hrun : Run step init labels h) :
    h.onCloseRecieved = .closeFrameReceived := by
  refine hrun.invariant (P := fun h => h.onCloseRecieved = .closeFrameReceived) rfl ?_
  intro h label h' hpointer hstep
  cases step_transition hstep with
  | readClose _ => rwa [handleEvent_onCloseRecieved hpointer]
  | shutdown =>
      unfold WsHandler.shutdown
      split
      · exact hpointer
      · exact hpointer
  | read _ => exact hpointer
  | readEof _ => exact hpointer
  | onEof => exact hpointer
  | write _ => exact hpointer
  | writeCompletes _ _ => exact hpointer

/-! ## The handshake in order -/

/-- What holds as long as the handshake is in order. -/
structure HandshakeInv (h : WsHandler) : Prop where
  pointer : h.onCloseRecieved = .closeFrameReceived
  bound : h.completed ≤ h.written.length
  /-- A Close frame that is received is answered at once. -/
  answered : h.closeReceived = true → closeFrame ∈ h.written
  handshake : h.Handshake

theorem HandshakeInv.init : HandshakeInv init where
  pointer := rfl
  bound := le_rfl
  answered := nofun
  handshake := by decide

theorem HandshakeInv.onEof (inv : h.HandshakeInv) : h.onEof.HandshakeInv where
  pointer := inv.pointer
  bound := inv.bound
  answered := inv.answered
  handshake := ⟨inv.handshake.once, fun _ _ => rfl⟩

/-- The first Close frame that is written. -/
theorem HandshakeInv.sendClose (hpointer : h.onCloseRecieved = .closeFrameReceived)
    (hbound : h.completed ≤ h.written.length) (hnone : closeFrame ∉ h.written) :
    h.sendClose.HandshakeInv where
  pointer := hpointer
  bound := by simpa [WsHandler.sendClose, writeRaw] using Nat.le_succ_of_le hbound
  answered := fun _ => by simp [WsHandler.sendClose, writeRaw]
  handshake := by
    refine ⟨by simp [WsHandler.sendClose, writeRaw, List.count_eq_zero.2 hnone], ?_⟩
    intro hsent
    -- the new frame stands behind those that have been written completely
    rw [CloseSent, WsHandler.sendClose, writeRaw, List.take_append_of_le_length hbound] at hsent
    exact absurd (List.mem_of_mem_take hsent) hnone

theorem HandshakeInv.writeRaw (inv : h.HandshakeInv) {message : Bytes}
    (hother : message ≠ closeFrame) : (h.writeRaw message).HandshakeInv where
  pointer := inv.pointer
  bound := by simpa [WsHandler.writeRaw] using Nat.le_succ_of_le inv.bound
  answered := fun hreceived => List.mem_append_left _ (inv.answered hreceived)
  handshake := by
    refine ⟨?_, ?_⟩
    · have honce := inv.handshake.once
      rwa [WsHandler.writeRaw, List.count_append, List.count_singleton, beq_false_of_ne hother]
    · intro hsent
      -- a frame that is only queued has not been written
      rw [CloseSent, WsHandler.writeRaw, List.take_append_of_le_length inv.bound] at hsent
      exact inv.handshake.ends hsent

theorem HandshakeInv.shutdown (inv : h.HandshakeInv)
    (horder : h.hasTcp = true → closeFrame ∉ h.written) :
    HandshakeInv { h.shutdown with shutDown := true } := by
  unfold WsHandler.shutdown
  split
  · rename_i htcp
    have hclose := HandshakeInv.sendClose (h := { h with dispose := true }) inv.pointer inv.bound
      (horder htcp)
    exact ⟨hclose.pointer, hclose.bound, hclose.answered, hclose.handshake.once,
      hclose.handshake.ends⟩
  · exact ⟨inv.pointer, inv.bound, inv.answered, inv.handshake.once, inv.handshake.ends⟩

theorem HandshakeInv.writeCompletes (inv : h.HandshakeInv)
    (hless : h.completed < h.written.length)
    (horder : h.written[h.completed]? = some closeFrame → h.closeReceived = false) :
    HandshakeInv { h with completed := h.completed + 1 } where
  pointer := inv.pointer
  bound := hless
  answered := inv.answered
  handshake := by
    refine ⟨inv.handshake.once, ?_⟩
    intro hsent hreceived
    -- the Close frame was out before, or it is the one that gets through now
    rw [CloseSent, List.take_add_one, List.mem_append] at hsent
    rcases hsent with hbefore | hnow
    · exact inv.handshake.ends hbefore hreceived
    · have hnone := horder (Option.mem_toList.1 hnow)
      cases hnone.symm.trans hreceived

theorem HandshakeInv.step (inv : h.HandshakeInv) {label : WsLabel} (horder : h.InOrder label)
    (hstep : h.step label = some h') : h'.HandshakeInv := by
  cases step_transition hstep with
  | read _ => exact inv
  | readEof _ => exact inv.onEof
  | readClose hreceives =>
      rw [handleEvent_onCloseRecieved inv.pointer]
      exact .sendClose inv.pointer inv.bound (horder hreceives)
  | onEof => exact inv.onEof
  | write hother => exact inv.writeRaw hother
  | shutdown => exact inv.shutdown horder
  | writeCompletes _ hless => exact inv.writeCompletes hless horder

theorem not_handshake_sendClose (hwritten : closeFrame ∈ h.written) : ¬ h.sendClose.Handshake := by
  intro hhandshake
  have honce := hhandshake.once
  rw [WsHandler.sendClose, WsHandler.writeRaw, List.count_append, List.count_singleton_self] at honce
  -- one was written before, and now a second one
  have hcount := List.count_pos_iff.2 hwritten
  omega

/-- A step that is out of order: a second Close frame is written, or the Close frame of a handler
gets through that has received one, and `OnEof` is not run. -/
theorem HandshakeInv.not_handshake (inv : h.HandshakeInv) {label : WsLabel}
    (horder : ¬ h.InOrder label) (hstep : h.step label = some h') : ¬ h'.Handshake := by
  cases step_transition hstep with
  | read hnot => exact absurd (fun hreceives => absurd hreceives hnot) horder
  | readEof hnot => exact absurd (fun hreceives => absurd hreceives hnot) horder
  | onEof => exact absurd trivial horder
  | write _ => exact absurd trivial horder
  | readClose _ =>
      rw [InOrder, Classical.not_imp, not_not] at horder
      rw [handleEvent_onCloseRecieved inv.pointer]
      exact not_handshake_sendClose horder.2
  | shutdown =>
      rw [InOrder, Classical.not_imp, not_not] at horder
      obtain ⟨htcp, hwritten⟩ := horder
      rw [WsHandler.shutdown, if_pos htcp]
      have hnot := not_handshake_sendClose (h := { h with dispose := true }) hwritten
      exact fun hhandshake => hnot ⟨hhandshake.once, hhandshake.ends⟩
  | writeCompletes htcp _ =>
      rw [InOrder, Classical.not_imp] at horder
      obtain ⟨hnext, hreceived⟩ := horder
      intro hhandshake
      have hsent : CloseSent { h with completed := h.completed + 1 } := by
        rw [CloseSent, List.take_add_one, hnext]
        exact List.mem_append_right _ (List.mem_singleton.2 rfl)
      have hgone := hhandshake.ends hsent (Bool.eq_true_of_not_eq_false hreceived)
      cases htcp.symm.trans hgone

/-- In a run of a handler, every state meets the closing handshake exactly if every step is in
order. -/
theorem handshake_iff (labels : List WsLabel) (h : WsHandler)
    (hrun : Run step init labels h) :
    Throughout step Handshake init labels ↔ Along step InOrder init labels :=
  Run.throughout_iff_along HandshakeInv HandshakeInv.init (fun _ inv => inv.handshake)
    (fun _ _ _ inv horder hstep => inv.step horder hstep)
    (fun _ _ _ inv horder hstep => inv.not_handshake horder hstep) hrun

/-- A Close frame of the peer. -/
def peerClose : Bytes := [0x88, 0x80, 1, 2, 3, 4]

/-- The peer sends a Close frame and closes the connection before the answer gets through. -/
theorem handshake_peerCloses :
    ∃ h, Run step init [.onData peerClose, .onEof] h ∧
      Along step InOrder init [.onData peerClose, .onEof] :=
  ⟨_, rfl, (handshake_iff [.onData peerClose, .onEof] _ rfl).1 (by decide)⟩

/-- The answer to a Close frame gets through, and the handler keeps the connection. -/
theorem not_handshake_peerClose :
    ¬ ∀ labels h, Run step init labels h → h.Handshake := by
  intro hall
  have hhandshake := hall [.onData peerClose, .writeCompletes] _ rfl
  exact absurd hhandshake (by decide)

end WsHandler

end Inspector
end V8JsiRuntime
