import V8JsiRuntime.Inspector.BreakOnStart

/-!
# SessionUse — the calls through `session_`

`dispatchMessageFromFrontend` and the end of `waitForDebugger` call through `session_`, which the
events of the frontend set and reset.  The events are drained in batches, and the program that waits
for a debugger looks up only between two batches.
-/

namespace V8JsiRuntime
namespace Inspector

open Lib

/-! ## One frontend -/

/-- A frontend connects, sends messages and disconnects, and can do so again; the state is the
session that is open. -/
def Frontend.step : Option Nat → SessionEvent → Option (Option Nat)
  | none, .startSession sessionId => some (some sessionId)
  | some current, .messageReceived sessionId _ =>
      if sessionId = current then some (some current) else none
  | some current, .endSession sessionId => if sessionId = current then some none else none
  | _, _ => none

/-- The last message of a history that is taken for a control event. -/
def lastControl (messages : List QueuedMessage) : Option QueuedMessage :=
  (messages.filter fun m => m.event.control.isSome).getLast?

theorem lastControl_concat_control {messages : List QueuedMessage} {m : QueuedMessage}
    {control : Control} (h : m.event.control = some control) :
    lastControl (messages ++ [m]) = some m := by
  simp [lastControl, h]

theorem lastControl_concat_text {messages : List QueuedMessage} {m : QueuedMessage}
    (h : m.event.control = none) : lastControl (messages ++ [m]) = lastControl messages := by
  simp [lastControl, h]

theorem control_of_lastControl {messages : List QueuedMessage} {last : QueuedMessage}
    (h : last ∈ lastControl messages) : ∃ control, last.event.control = some control := by
  have hmem := (List.mem_filter.1 (List.mem_of_getLast? h)).2
  exact Option.isSome_iff_exists.1 hmem

/-- A text that is no control event is sent on a session. -/
theorem SessionEvent.sent_of_control {event : SessionEvent} (h : event.control = none) :
    ∃ sessionId text, event = .messageReceived sessionId text := by
  cases event with
  | startSession sessionId =>
      have hcontrol : (startSession sessionId).control = some .connect := control_connect.2 rfl
      cases h.symm.trans hcontrol
  | messageReceived sessionId text => exact ⟨sessionId, text, rfl⟩
  | endSession sessionId =>
      have hcontrol : (endSession sessionId).control = some .disconnect := control_disconnect.2 rfl
      cases h.symm.trans hcontrol

namespace Frontend

variable {messages : List QueuedMessage} {connection connection' : Option Nat} {sessionId : Nat}
  {text : Bytes}

theorem step_messageReceived
    (h : step connection (.messageReceived sessionId text) = some connection') :
    connection = some sessionId ∧ connection' = some sessionId := by
  cases connection with
  | none => cases h
  | some current =>
      rw [step] at h
      split at h
      · rename_i hsame
        subst hsame
        exact ⟨rfl, (Option.some.inj h).symm⟩
      · cases h

/-- While a session is open, the last control event is its start or a text that was sent on it. -/
theorem lastControl_of_open
    (h : Run step none (messages.map QueuedMessage.event) (some sessionId)) :
    ∃ last ∈ lastControl messages, last.event = .startSession sessionId ∨
      ∃ text, last.event = .messageReceived sessionId text := by
  induction messages using List.reverseRecOn generalizing sessionId with
  | nil => cases h
  | append_singleton messages m ih =>
      rw [List.map_append] at h
      obtain ⟨connection, hrun, hstep⟩ := Run.concat_iff.1 h
      -- the last event of the history decides, unless it is a text that is no control event
      cases hevent : m.event with
      | startSession started =>
          rw [hevent] at hstep
          have hcontrol : m.event.control = some .connect :=
            SessionEvent.control_connect.2 (by rw [hevent]; rfl)
          refine ⟨m, lastControl_concat_control hcontrol, Or.inl ?_⟩
          cases connection with
          | none => rw [hevent, Option.some.inj (Option.some.inj hstep)]
          | some current => cases hstep
      | messageReceived sent text =>
          rw [hevent] at hstep
          obtain ⟨rfl, hsame⟩ := step_messageReceived hstep
          obtain rfl := Option.some.inj hsame
          cases hcontrol : m.event.control with
          | none =>
              -- the session was open before, and is the same one
              rw [lastControl_concat_text hcontrol]
              exact ih hrun
          -- a text of the client is taken for a tag
          | some control =>
              exact ⟨m, lastControl_concat_control hcontrol, Or.inr ⟨text, hevent⟩⟩
      | endSession ended =>
          rw [hevent] at hstep
          cases connection with
          | none => cases hstep
          | some current =>
              rw [step] at hstep
              split at hstep
              · cases hstep
              · cases hstep

/-- The first event of a frontend is a connect. -/
theorem exists_lastControl (h : Run step none (messages.map QueuedMessage.event) connection)
    (hsome : messages ≠ []) : ∃ last, last ∈ lastControl messages := by
  induction messages using List.reverseRecOn with
  | nil => exact absurd rfl hsome
  | append_singleton messages m =>
      cases hcontrol : m.event.control with
      | some control => exact ⟨m, lastControl_concat_control hcontrol⟩
      | none =>
          obtain ⟨sessionId, text, hevent⟩ := SessionEvent.sent_of_control hcontrol
          rw [List.map_append] at h
          obtain ⟨before, hrun, hstep⟩ := Run.concat_iff.1 h
          -- a message is sent on an open session only
          rw [hevent] at hstep
          obtain ⟨rfl, _⟩ := step_messageReceived hstep
          obtain ⟨last, hlast, _⟩ := lastControl_of_open hrun
          exact ⟨last, (lastControl_concat_text hcontrol).trans hlast⟩

end Frontend

namespace System

variable {multiByteToWideChar : MultiByteToWideChar} {s s' : System} {label : Label}

/-- All events posted so far are those of one frontend. -/
def OneFrontend (s : System) : Prop :=
  ∃ connection, Run Frontend.step none (s.posted.map QueuedMessage.event) connection

theorem OneFrontend.of_step (h : s'.OneFrontend)
    (hstep : System.step multiByteToWideChar s label = some s') : s.OneFrontend := by
  obtain ⟨hnone, ht⟩ := step_transition hstep
  obtain ⟨rest, hrest⟩ := ht.posted_prefix hnone
  obtain ⟨connection, hrun⟩ := h
  rw [← hrest, List.map_append] at hrun
  obtain ⟨before, hbefore, _⟩ := Run.append_iff.1 hrun
  exact ⟨before, hbefore⟩

/-! ## What the step before the next one leaves -/

/-- The session is there exactly if the last control event was a connect. -/
def SessionTracks (s : System) : Prop :=
  s.fault = none → (s.agent.inspector.hasSession = true ↔
    ∃ last ∈ lastControl s.dispatched, last.event.control = some .connect)

theorem SessionTracks.outcome {m : QueuedMessage}
    (hview : utf8ToStringView multiByteToWideChar m.event.text = .ok m.message)
    (houtcome : Outcome s m s') (hnone : s.fault = none) (h : s.SessionTracks) :
    s'.SessionTracks := by
  intro hfault
  cases houtcome with
  | unreadable => cases hfault
  | connected htag =>
      have hcontrol := SessionEvent.control_connect.2 ((messageTag_view hview (Or.inl rfl)).1 htag)
      exact iff_of_true rfl ⟨m, lastControl_concat_control hcontrol, hcontrol⟩
  | connectFails => cases hfault
  | disconnected htag =>
      have hcontrol :=
        SessionEvent.control_disconnect.2 ((messageTag_view hview (Or.inr rfl)).1 htag)
      refine iff_of_false Bool.false_ne_true ?_
      rintro ⟨last, hlast, hconnect⟩
      obtain rfl := Option.some.inj ((lastControl_concat_control hcontrol).symm.trans hlast)
      cases hcontrol.symm.trans hconnect
  | disconnectFails => cases hfault
  | handed hconnect hdisconnect =>
      have hcontrol : m.event.control = none := control_of_tags hview hconnect hdisconnect
      show _ ↔ ∃ last ∈ lastControl (s.dispatched ++ [m]), _
      rw [lastControl_concat_text hcontrol]
      exact h hnone

theorem SessionTracks.step (hstep : System.step multiByteToWideChar s label = some s')
    (hwell : s.WellFormed multiByteToWideChar) (h : s.SessionTracks) : s'.SessionTracks := by
  obtain ⟨hnone, ht⟩ := step_transition hstep
  -- only a message of a batch touches the session or the history
  rcases ht.quiet hnone with hquiet | ⟨stack, _, rfl⟩ | ⟨m, tasks, stack, hstack, rfl, _⟩
  · intro _
    rw [hquiet.hasSession, hquiet.dispatched]
    exact h hnone
  · exact h
  · obtain ⟨_, _, _, hview, houtcome⟩ :=
      next_outcome hwell (next_eq_some.2 ⟨tasks, stack, hstack⟩) hstep
    exact SessionTracks.outcome hview houtcome hnone h

theorem sessionTracks_of_run {labels : List Label}
    (hrun : Run (System.step multiByteToWideChar) init labels s) : s.SessionTracks := by
  have hall : s.SessionTracks ∧ s.WellFormed multiByteToWideChar := by
    refine Run.invariant (P := fun s => s.SessionTracks ∧ s.WellFormed multiByteToWideChar)
      ⟨fun _ => iff_of_false Bool.false_ne_true nofun, .init⟩ ?_ hrun
    intro t label u ht hstep
    exact ⟨ht.1.step hstep ht.2, ht.2.step hstep⟩
  exact hall.1

/-! ## Where `session_` is used -/

/-- The next statement of the JS thread is a call through `session_`. -/
def UsesSession (s : System) : Prop :=
  (∃ stack, s.stack = .waitForDebuggerLoop :: stack ∧ s.agent.waitingForFrontend = false) ∨
    ∃ m, s.next = some m ∧ m.event.control = none

theorem callDispatchMessages_fault (s : System) : s.callDispatchMessages.fault = s.fault := by
  unfold System.callDispatchMessages
  split <;> rfl

theorem runMessageLoopOnPause_fault (s : System) : s.runMessageLoopOnPause.fault = s.fault := by
  unfold System.runMessageLoopOnPause
  split <;> rfl

theorem write_fault (hnone : s.fault = none) (sessionId : Nat) (message : StringView) :
    (s.write sessionId message).fault ≠ some .nullSession := by
  unfold System.write
  split
  · simp [hnone]
  · split
    · nofun
    · simp [hnone]

theorem v8Step_fault {action : V8Action} (hnone : s.fault = none)
    (h : s.v8Step action = some s') : s'.fault ≠ some .nullSession := by
  unfold v8Step at h
  split at h
  · cases action with
    | pause =>
        obtain rfl := Option.some.inj h
        simp [runMessageLoopOnPause_fault, hnone]
    | quit =>
        obtain rfl := Option.some.inj h
        simp [quitMessageLoopOnPause, hnone]
    | returns =>
        dsimp only at h
        split at h
        · obtain rfl := Option.some.inj h
          simp [hnone]
        · cases h
    | interrupt =>
        dsimp only at h
        split at h
        · cases h
        · obtain rfl := Option.some.inj h
          simp [callDispatchMessages_fault, hnone]
    | task =>
        dsimp only at h
        split at h
        · cases h
        · obtain rfl := Option.some.inj h
          simp [callDispatchMessages_fault, hnone]
    | waitForDisconnect =>
        obtain rfl := Option.some.inj h
        unfold System.waitForDisconnect
        split
        · rw [runMessageLoopOnPause_fault]
          exact write_fault (s := { s with agent.shuttingDown := true }) hnone 0 (.view8 [])
        · simp [hnone]
    | send message =>
        obtain rfl := Option.some.inj h
        exact write_fault hnone s.agent.sessionId message
  · cases h

/-- A message is handed to the session unless it is read as a tag. -/
theorem dispatchOne_fault {m : QueuedMessage} (hnone : s.fault = none)
    (hview : utf8ToStringView multiByteToWideChar m.event.text = .ok m.message) :
    (s.dispatchOne m).fault = some .nullSession ↔
      m.event.control = none ∧ s.agent.inspector.hasSession = false := by
  have hread := stringViewToUtf8_utf8ToStringView hview
  unfold dispatchOne
  cases htag : messageTag m.message with
  | error fault => exact absurd hread (unreadable_of_messageTag htag _)
  | ok tag =>
      dsimp only
      split
      · rename_i hconnect
        have hcontrol := SessionEvent.control_connect.2
          ((messageTag_view hview (Or.inl rfl)).1 (hconnect ▸ htag))
        refine iff_of_false ?_ fun h => by cases hcontrol.symm.trans h.1
        unfold connect
        split
        · simp [hnone]
        · nofun
      · split
        · rename_i hdisconnect
          have hcontrol := SessionEvent.control_disconnect.2
            ((messageTag_view hview (Or.inr rfl)).1 (hdisconnect ▸ htag))
          refine iff_of_false ?_ fun h => by cases hcontrol.symm.trans h.1
          unfold disconnect
          split
          · simp [hnone]
          · nofun
        · rename_i hconnect hdisconnect
          have hcontrol : m.event.control = none := control_of_tags hview
            (fun heq => hconnect (Except.ok.inj (htag.symm.trans heq)))
            (fun heq => hdisconnect (Except.ok.inj (htag.symm.trans heq)))
          unfold dispatchMessageFromFrontend
          rw [hread]
          dsimp only
          split
          · rename_i hsession
            exact iff_of_false (by simp [hnone]) fun h => by cases hsession.symm.trans h.2
          · rename_i hsession
            exact iff_of_true rfl ⟨hcontrol, Bool.not_eq_true _ ▸ hsession⟩

/-- In a batch, the session is used by the messages that are no tags. -/
theorem jsStep_fault_of_next {m : QueuedMessage} (hnone : s.fault = none)
    (hwell : s.WellFormed multiByteToWideChar) (hnext : s.next = some m) (h : s.jsStep = some s') :
    s'.fault = some .nullSession ↔
      m.event.control = none ∧ s.agent.inspector.hasSession = false := by
  obtain ⟨tasks, stack, hstack⟩ := next_eq_some.1 hnext
  unfold jsStep at h
  rw [hstack] at h
  obtain rfl := Option.some.inj h
  -- the message is taken off the batch before it is dispatched
  exact dispatchOne_fault (s := { s with stack := .dispatchTasks tasks :: stack }) hnone
    (hwell.head hstack).1

/-- At the test of the loop of `waitForDebugger`, the session is used when the loop is left. -/
theorem jsStep_fault_of_loop {stack : List Frame} (hnone : s.fault = none)
    (hstack : s.stack = .waitForDebuggerLoop :: stack) (h : s.jsStep = some s') :
    s'.fault = some .nullSession ↔
      s.agent.waitingForFrontend = false ∧ s.agent.inspector.hasSession = false := by
  unfold jsStep at h
  rw [hstack] at h
  dsimp only at h
  split at h
  · rename_i hwaiting
    obtain rfl := Option.some.inj h
    refine iff_of_false (by simp [callDispatchMessages_fault, hnone]) ?_
    exact fun h => by cases hwaiting.symm.trans h.1
  · rename_i hwaiting
    split at h
    · rename_i hsession
      obtain rfl := Option.some.inj h
      exact iff_of_false (by simp [hnone]) fun h => by cases hsession.symm.trans h.2
    · rename_i hsession
      obtain rfl := Option.some.inj h
      exact iff_of_true rfl ⟨Bool.not_eq_true _ ▸ hwaiting, Bool.not_eq_true _ ▸ hsession⟩

/-- No other function touches the session. -/
theorem jsStep_fault_of_other (hnone : s.fault = none) (hnext : s.next = none)
    (hloop : ∀ stack, s.stack ≠ .waitForDebuggerLoop :: stack) (h : s.jsStep = some s') :
    s'.fault ≠ some .nullSession := by
  unfold jsStep at h
  cases hstack : s.stack with
  | nil =>
      rw [hstack] at h
      cases h
  | cons frame stack =>
      rw [hstack] at h
      cases frame with
      | waitForDebuggerLoop => exact absurd hstack (hloop stack)
      | waitForDebugger =>
          dsimp only at h
          split at h
          · obtain rfl := Option.some.inj h
            nofun
          · obtain rfl := Option.some.inj h
            simp [hnone]
      | waitCheck | waitPredicate | pauseLoop =>
          dsimp only at h
          split at h
          · obtain rfl := Option.some.inj h
            simp [hnone]
          · obtain rfl := Option.some.inj h
            simp [hnone]
      | waitBlock | dispatchSwap | dispatchFinish =>
          obtain rfl := Option.some.inj h
          simp [hnone]
      | pauseDispatch =>
          obtain rfl := Option.some.inj h
          simp [callDispatchMessages_fault, hnone]
      | dispatchTasks tasks =>
          cases tasks with
          | nil =>
              obtain rfl := Option.some.inj h
              simp [hnone]
          | cons m tasks => cases hnext.symm.trans (next_eq_some.2 ⟨tasks, stack, hstack⟩)
      | waitBlocked | dispatchProtocolMessage => cases h

theorem jsStep_fault (hnone : s.fault = none) (hwell : s.WellFormed multiByteToWideChar)
    (h : s.jsStep = some s') :
    s'.fault = some .nullSession ↔ s.UsesSession ∧ s.agent.inspector.hasSession = false := by
  cases hnext : s.next with
  | some m =>
      rw [jsStep_fault_of_next hnone hwell hnext h]
      refine and_congr_left fun _ => ⟨fun hcontrol => Or.inr ⟨m, hnext, hcontrol⟩, ?_⟩
      obtain ⟨tasks, stack, hstack⟩ := next_eq_some.1 hnext
      rintro (⟨_, hloop, _⟩ | ⟨other, hother, hcontrol⟩)
      · cases hstack.symm.trans hloop
      · rwa [Option.some.inj (hnext.symm.trans hother)]
  | none =>
      by_cases hloop : ∃ stack, s.stack = .waitForDebuggerLoop :: stack
      · obtain ⟨stack, hstack⟩ := hloop
        rw [jsStep_fault_of_loop hnone hstack h]
        refine and_congr_left fun _ => ⟨fun hreleased => Or.inl ⟨stack, hstack, hreleased⟩, ?_⟩
        rintro (⟨_, _, hreleased⟩ | ⟨m, hm, _⟩)
        · exact hreleased
        · cases hnext.symm.trans hm
      · have hfault := jsStep_fault_of_other hnone hnext (not_exists.1 hloop) h
        refine iff_of_false hfault ?_
        rintro ⟨⟨stack, hstack, _⟩ | ⟨m, hm, _⟩, _⟩
        · exact hloop ⟨stack, hstack⟩
        · cases hnext.symm.trans hm

/-- A call through a null `session_` is made exactly where the JS thread uses it and it is not
there. -/
theorem step_fault (hstep : System.step multiByteToWideChar s label = some s')
    (hwell : s.WellFormed multiByteToWideChar) : s'.fault = some .nullSession ↔
      label = .js ∧ s.UsesSession ∧ s.agent.inspector.hasSession = false := by
  obtain ⟨hnone, _⟩ := step_transition hstep
  unfold System.step at hstep
  rw [if_neg (by simp [hnone])] at hstep
  cases label with
  | js => simpa using jsStep_fault hnone hwell hstep
  | v8 action => exact iff_of_false (v8Step_fault hnone hstep) nofun
  | session event =>
      refine iff_of_false ?_ nofun
      dsimp only at hstep
      split at hstep
      · obtain rfl := Option.some.inj hstep
        obtain ⟨delegate, hdelegate⟩ := notifyDelegate_eq s event
        unfold postIncomingMessage
        rw [hdelegate]
        cases utf8ToStringView multiByteToWideChar event.text with
        | error error => nofun
        | ok view => simp [appendMessage, hnone]
      · cases hstep
  | poster =>
      refine iff_of_false ?_ nofun
      dsimp only [posterStep] at hstep
      split at hstep
      · cases hstep
      all_goals
        obtain rfl := Option.some.inj hstep
        simp [hnone]
  | wakeUp =>
      refine iff_of_false ?_ nofun
      dsimp only at hstep
      split at hstep
      · cases hstep
      · obtain rfl := Option.some.inj hstep
        simp [hnone]

/-! ## When the session is there -/

/-- Neither does a message come next after a text `#disconnect` that the client has sent itself, nor
is the loop of `waitForDebugger` left, after a message that does not name the command, with a
disconnect as the last control event of its batches. -/
def KeepsSession (s : System) : Label → Prop
  | .js =>
      (∀ m ∈ s.next, m.event.control = none → ∀ last ∈ lastControl s.dispatched,
        last.event ≠ .messageReceived last.event.sessionId tagDisconnect) ∧
      (s.stack.head? = some .waitForDebuggerLoop →
        (∃ text ∈ frontendTexts s.dispatched, ¬ Mentions text) →
          ∀ last ∈ lastControl s.dispatched, last.event.control ≠ some .disconnect)
  | _ => True

theorem SessionTracks.not_of_disconnect {last : QueuedMessage} (h : s.SessionTracks)
    (hnone : s.fault = none) (hlast : last ∈ lastControl s.dispatched)
    (hcontrol : last.event.control = some .disconnect) : s.agent.inspector.hasSession = false := by
  refine (Bool.not_eq_true _).mp fun hsession => ?_
  obtain ⟨other, hother, hconnect⟩ := (h hnone).1 hsession
  obtain rfl := Option.some.inj (hlast.symm.trans hother)
  cases hcontrol.symm.trans hconnect

theorem SessionTracks.disconnect_of_not {last : QueuedMessage} (h : s.SessionTracks)
    (hnone : s.fault = none) (hsession : s.agent.inspector.hasSession = false)
    (hlast : last ∈ lastControl s.dispatched) : last.event.control = some .disconnect := by
  obtain ⟨control, hcontrol⟩ := control_of_lastControl hlast
  cases control with
  | connect => cases hsession.symm.trans ((h hnone).2 ⟨last, hlast, hcontrol⟩)
  | disconnect => exact hcontrol

/-- The first event of a frontend is a connect. -/
theorem OneFrontend.exists_lastControl (h : s.OneFrontend)
    (hwell : s.WellFormed multiByteToWideChar) (hsome : s.dispatched ≠ []) :
    ∃ last, lastControl s.dispatched = some last := by
  obtain ⟨connection, hposted⟩ := h
  -- what is dispatched came first
  have hdispatched : s.posted = s.dispatched ++ _ := hwell.fifo
  rw [hdispatched, List.map_append] at hposted
  obtain ⟨before, hrun, _⟩ := Run.append_iff.1 hposted
  exact Frontend.exists_lastControl hrun hsome

/-- A message is sent on a session, which only a text of that session can have closed before. -/
theorem OneFrontend.lastControl_of_next {m : QueuedMessage} (h : s.OneFrontend)
    (hwell : s.WellFormed multiByteToWideChar) (hnext : s.next = some m)
    (hcontrol : m.event.control = none) : ∃ sessionId, ∃ last ∈ lastControl s.dispatched,
      last.event = .startSession sessionId ∨ ∃ text, last.event = .messageReceived sessionId text := by
  obtain ⟨connection, hposted⟩ := h
  obtain ⟨tasks, stack, hstack⟩ := next_eq_some.1 hnext
  obtain ⟨rest, hrest⟩ := (hwell.head hstack).2.2
  rw [← hrest, List.map_append, List.map_append] at hposted
  obtain ⟨after, hrun, _⟩ := Run.append_iff.1 hposted
  obtain ⟨before, hrun, hturn⟩ := Run.concat_iff.1 hrun
  obtain ⟨sessionId, text, hevent⟩ := SessionEvent.sent_of_control hcontrol
  rw [hevent] at hturn
  obtain ⟨rfl, _⟩ := Frontend.step_messageReceived hturn
  exact ⟨sessionId, Frontend.lastControl_of_open hrun⟩

/-- With one frontend, a step calls through a null `session_` exactly if the condition fails. -/
theorem step_fault_iff (hstep : System.step multiByteToWideChar s label = some s')
    (hwell : s.WellFormed multiByteToWideChar) (htracks : s.SessionTracks) (hflag : s.FlagTracks)
    (hfrontend : s.OneFrontend) :
    s'.fault ≠ some .nullSession ↔ s.KeepsSession label := by
  obtain ⟨hnone, _⟩ := step_transition hstep
  have hwaiting : s.agent.waitingForFrontend = false ↔
      ∃ text ∈ frontendTexts s.dispatched, ¬ Mentions text := by
    rw [hflag]
    simp
  rw [Ne, step_fault hstep hwell]
  constructor
  · intro hpresent
    cases label with
    | js =>
        constructor
        · intro m hnext hcontrol last hlast hevent
          have hdisconnect : last.event.control = some .disconnect :=
            SessionEvent.control_disconnect.2 (by rw [hevent]; rfl)
          exact hpresent ⟨rfl, Or.inr ⟨m, hnext, hcontrol⟩,
            htracks.not_of_disconnect hnone hlast hdisconnect⟩
        · intro hhead htexts last hlast hdisconnect
          obtain ⟨stack, hstack⟩ := List.head?_eq_some_iff.1 hhead
          exact hpresent ⟨rfl, Or.inl ⟨stack, hstack, hwaiting.2 htexts⟩,
            htracks.not_of_disconnect hnone hlast hdisconnect⟩
    | _ => trivial
  · rintro hkept ⟨rfl, huses, hsession⟩
    rcases huses with ⟨stack, hstack, hreleased⟩ | ⟨m, hnext, hcontrol⟩
    · -- a message was dispatched, so a connect was before it
      obtain ⟨text, htext, hother⟩ := hwaiting.1 hreleased
      have hsome : s.dispatched ≠ [] := by
        rintro hnil
        rw [hnil] at htext
        cases htext
      -- with a control event before it, which was a disconnect if the session is gone
      obtain ⟨last, hlast⟩ := hfrontend.exists_lastControl hwell hsome
      exact hkept.2 (by rw [hstack]; rfl) ⟨text, htext, hother⟩ last hlast
        (htracks.disconnect_of_not hnone hsession hlast)
    · -- no session is set, so the text was read as a disconnect
      obtain ⟨sessionId, last, hlast, hstart | ⟨sent, hsent⟩⟩ :=
        hfrontend.lastControl_of_next hwell hnext hcontrol
      · have hconnect : last.event.control = some .connect :=
          SessionEvent.control_connect.2 (by rw [hstart]; rfl)
        cases hconnect.symm.trans (htracks.disconnect_of_not hnone hsession hlast)
      · have hdisconnect := SessionEvent.control_disconnect.1
          (htracks.disconnect_of_not hnone hsession hlast)
        rw [hsent] at hdisconnect
        refine hkept.1 m hnext hcontrol last hlast ?_
        rw [hsent]
        exact congrArg (SessionEvent.messageReceived sessionId) hdisconnect

/-! ## All runs -/

/-- With one frontend, no run calls through a null `session_` if and only if all its steps meet the
condition. -/
theorem sessionPresent_iff {labels : List Label}
    (hrun : Run (System.step multiByteToWideChar) init labels s) (hfrontend : s.OneFrontend) :
    s.fault ≠ some .nullSession ↔
      Along (System.step multiByteToWideChar) KeepsSession init labels := by
  refine Run.induction (motive := fun labels s => s.OneFrontend → (s.fault ≠ some .nullSession ↔
    Along (System.step multiByteToWideChar) KeepsSession init labels)) ?_ ?_ hrun hfrontend
  · exact fun _ => iff_of_true nofun Along.nil
  · intro labels t label u hrun hstep ih hfrontend
    obtain ⟨hnone, _⟩ := step_transition hstep
    have hbefore := hfrontend.of_step hstep
    rw [Along.concat_iff hrun, step_fault_iff hstep (wellFormed_of_run hrun .init)
      (sessionTracks_of_run hrun) (flagTracks_of_run hrun) hbefore]
    exact (and_iff_right ((ih hbefore).1 (by simp [hnone]))).symm

/-- A frontend connects and sends a message that does not name the command. -/
def connectAndSend : List Label :=
  [.session (.startSession 1), .poster, .poster, .poster,
    .session (.messageReceived 1 (ascii "{}")), .poster]

/-- The JS thread starts and dispatches the two. -/
def dispatchBoth : List Label :=
  .replicate 6 .js ++ [.v8 .returns]

/-- The frontend disconnects when the program is running. -/
def disconnectLater : List Label :=
  connectAndSend ++ dispatchBoth ++ .replicate 4 .js ++
    [.session (.endSession 1), .poster, .poster, .poster, .v8 .task, .js, .js]

theorem sessionPresent_disconnectLater :
    ∃ s, Run (System.step .decoding) init disconnectLater s ∧
      s.agent.inspector.hasSession = false ∧
        Along (System.step .decoding) KeepsSession init disconnectLater := by
  have hend : ∃ s ∈ disconnectLater.foldlM (System.step .decoding) init,
      s.posted.map QueuedMessage.event =
        [.startSession 1, .messageReceived 1 (ascii "{}"), .endSession 1] ∧
          s.agent.inspector.hasSession = false ∧ s.fault = none := by
    decide +kernel
  obtain ⟨s, hrun, hposted, hsession, hnone⟩ := hend
  have hfrontend : s.OneFrontend := ⟨none, by rw [hposted]; rfl⟩
  exact ⟨s, hrun, hsession, (sessionPresent_iff hrun hfrontend).1 (by simp [hnone])⟩

/-- The frontend disconnects before the JS thread looks at the queue. -/
def disconnectInBatch : List Label :=
  connectAndSend ++ [.session (.endSession 1), .poster] ++ dispatchBoth ++ .replicate 5 .js

/-- All three events are drained in one batch, and `waitForDebugger` ends without a session. -/
theorem not_sessionPresent_oneBatch :
    ¬ ∀ labels s, Run (System.step .decoding) init labels s → s.OneFrontend →
      s.fault ≠ some .nullSession := by
  intro h
  have hend : ∃ s ∈ disconnectInBatch.foldlM (System.step .decoding) init,
      s.posted.map QueuedMessage.event =
        [.startSession 1, .messageReceived 1 (ascii "{}"), .endSession 1] ∧
          s.fault = some .nullSession := by
    decide +kernel
  obtain ⟨s, hrun, hposted, hfault⟩ := hend
  exact h disconnectInBatch s hrun ⟨none, by rw [hposted]; rfl⟩ hfault

end System

end Inspector
end V8JsiRuntime
