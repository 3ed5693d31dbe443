import V8JsiRuntime.Inspector.AgentInvariant

/-!
# AgentControl — connect and disconnect in the agent's queue

Sessions are opened and closed by texts of the queue.  Two things follow: the texts must come in
turns, which is what the checks of `DispatchMessages` need, and a client can send them too.
-/

namespace V8JsiRuntime
namespace Inspector

open Lib

/-! ## Reading a tag -/

section Tag

variable {multiByteToWideChar : MultiByteToWideChar} {text : Bytes} {view : StringView}

theorem tagConnect_ascii : ∀ b ∈ tagConnect, b < 0x80 := by
  decide +kernel

theorem tagDisconnect_ascii : ∀ b ∈ tagDisconnect, b < 0x80 := by
  decide +kernel

/-- A tag is read back as the text it was posted as, anything else as another text. -/
theorem messageTag_view (h : utf8ToStringView multiByteToWideChar text = .ok view)
    {control : Bytes} (hcontrol : control = tagConnect ∨ control = tagDisconnect) :
    System.messageTag view = .ok control ↔ text = control := by
  have hread := stringViewToUtf8_utf8ToStringView h
  unfold System.messageTag
  constructor
  · intro htag
    split at htag
    · exact Except.ok.inj (hread.symm.trans htag)
    · -- no tag is empty
      have hempty := Except.ok.inj htag
      rcases hcontrol with rfl | rfl
      · exact absurd hempty (by decide)
      · exact absurd hempty (by decide)
  · intro htext
    have hlength : view.length = tagConnect.length ∨ view.length = tagDisconnect.length := by
      subst htext
      rcases hcontrol with rfl | rfl
      · exact Or.inl (length_of_ascii h tagConnect_ascii)
      · exact Or.inr (length_of_ascii h tagDisconnect_ascii)
    rw [if_pos hlength, hread, htext]

end Tag

/-! ## Control events -/

/-- What a text of the queue asks the agent to do with its session. -/
inductive Control
  | connect
  | disconnect
  deriving DecidableEq, Repr

namespace Control

/-- Sessions one after the other. -/
def step : Bool → Control → Option Bool
  | false, connect => some true
  | true, disconnect => some false
  | _, _ => none

theorem run_connect {connected connected' : Bool} (h : Run step connected [connect] connected') :
    connected = false ∧ connected' = true := by
  cases connected with
  | false => exact ⟨rfl, (Option.some.inj h).symm⟩
  | true => cases h

theorem run_disconnect {connected connected' : Bool}
    (h : Run step connected [disconnect] connected') : connected = true ∧ connected' = false := by
  cases connected with
  | false => cases h
  | true => exact ⟨rfl, (Option.some.inj h).symm⟩

end Control

/-- The control event that a text is taken for. -/
def SessionEvent.control (event : SessionEvent) : Option Control :=
  if event.text = tagConnect then
    some .connect
  else if event.text = tagDisconnect then
    some .disconnect
  else
    none

theorem SessionEvent.control_connect {event : SessionEvent} :
    event.control = some .connect ↔ event.text = tagConnect := by
  unfold control
  by_cases hconnect : event.text = tagConnect
  · simp [hconnect]
  · by_cases hdisconnect : event.text = tagDisconnect
    · simp [hdisconnect, tagConnect, tagDisconnect, ascii]
    · simp [hconnect, hdisconnect]

theorem SessionEvent.control_disconnect {event : SessionEvent} :
    event.control = some .disconnect ↔ event.text = tagDisconnect := by
  unfold control
  by_cases hconnect : event.text = tagConnect
  · simp [hconnect, tagConnect, tagDisconnect, ascii]
  · by_cases hdisconnect : event.text = tagDisconnect
    · simp [hdisconnect, tagConnect, tagDisconnect, ascii]
    · simp [hconnect, hdisconnect]

/-- A message that is read as neither tag was posted as no control event. -/
theorem control_of_tags {multiByteToWideChar : MultiByteToWideChar} {m : QueuedMessage}
    (hview : utf8ToStringView multiByteToWideChar m.event.text = .ok m.message)
    (hconnect : System.messageTag m.message ≠ .ok tagConnect)
    (hdisconnect : System.messageTag m.message ≠ .ok tagDisconnect) : m.event.control = none := by
  unfold SessionEvent.control
  rw [if_neg fun heq => hconnect ((messageTag_view hview (Or.inl rfl)).2 heq),
    if_neg fun heq => hdisconnect ((messageTag_view hview (Or.inr rfl)).2 heq)]

/-- The control events of a history, in order. -/
def controls (messages : List QueuedMessage) : List Control :=
  messages.filterMap fun m => m.event.control

@[simp]
theorem controls_append (messages messages' : List QueuedMessage) :
    controls (messages ++ messages') = controls messages ++ controls messages' :=
  List.filterMap_append

theorem controls_singleton (m : QueuedMessage) : controls [m] = m.event.control.toList := by
  cases h : m.event.control with
  | none => simp [controls, h]
  | some control => simp [controls, h]

namespace System

variable {multiByteToWideChar : MultiByteToWideChar} {s s' : System} {label : Label}

/-! ## Steps that leave the session alone -/

/-- The JS thread is in `waitForDebugger` before the agent accepts sessions. -/
inductive Starting : List Frame → Prop
  | back : Starting [.waitForDebugger]
  | waiting {wait : Frame} : wait.isWait = true → Starting [wait, .waitForDebugger]

theorem Starting.top {frame : Frame} {stack : List Frame} (h : Starting (frame :: stack)) :
    frame = .waitForDebugger ∧ stack = [] ∨ frame.isWait = true ∧ stack = [.waitForDebugger] := by
  cases h with
  | back => exact Or.inl ⟨rfl, rfl⟩
  | waiting hwait => exact Or.inr ⟨hwait, rfl⟩

theorem Starting.not_v8OnTop {stack : List Frame} (h : Starting stack) : v8OnTop stack = false := by
  cases h with
  | back => rfl
  | @waiting wait hwait =>
      cases wait with
      | dispatchProtocolMessage => cases hwait
      | _ => rfl

/-- The state of the agent, the session and the histories are kept, and no check fails. -/
structure Quiet (s s' : System) : Prop where
  state : s'.agent.state = s.agent.state
  sessionId : s'.agent.sessionId = s.agent.sessionId
  hasSession : s'.agent.inspector.hasSession = s.agent.inspector.hasSession
  waitingForFrontend : s'.agent.waitingForFrontend = s.agent.waitingForFrontend
  dispatched : s'.dispatched = s.dispatched
  handed : s'.handed = s.handed
  fault : s'.fault ≠ some .checkFailed
  shuttingDown : s.agent.shuttingDown = true → s'.agent.shuttingDown = true
  starting : Starting s.stack → Starting s'.stack
  started : .waitForDebugger ∉ s.stack → .waitForDebugger ∉ s'.stack

theorem Quiet.refl (hnone : s.fault = none) : Quiet s s :=
  ⟨rfl, rfl, rfl, rfl, rfl, rfl, by simp [hnone], id, id, id⟩

/-- A step that only changes the stack and flags the session does not depend on. -/
theorem Quiet.callDispatchMessages (hnone : s.fault = none) (hnot : ¬ Starting s.stack) :
    Quiet s s.callDispatchMessages := by
  unfold System.callDispatchMessages
  split
  · exact .refl hnone
  · exact { Quiet.refl hnone with
      starting := fun h => absurd h hnot
      started := fun h => by simpa using h }

theorem Quiet.runMessageLoopOnPause (hnone : s.fault = none) (hnot : ¬ Starting s.stack) :
    Quiet s s.runMessageLoopOnPause := by
  unfold System.runMessageLoopOnPause
  split
  · exact { Quiet.refl hnone with }
  · exact { Quiet.refl hnone with
      starting := fun h => absurd h hnot
      started := fun h => by simpa using h }

theorem not_starting {frame : Frame} {stack : List Frame} (hstack : s.stack = frame :: stack)
    (hwait : frame.isWait = false) (hframe : frame ≠ .waitForDebugger) : ¬ Starting s.stack := by
  intro h
  rw [hstack] at h
  rcases h.top with ⟨htop, _⟩ | ⟨htop, _⟩
  · exact hframe htop
  · cases hwait.symm.trans htop

theorem not_starting_of_v8OnTop (htop : v8OnTop s.stack = true) : ¬ Starting s.stack := by
  intro h
  cases htop.symm.trans h.not_v8OnTop

/-- Changing what is on top, where that is neither `waitForDebugger` nor one of its waits. -/
theorem Quiet.of_top {frame : Frame} {stack : List Frame}
    (h : Quiet s { s' with stack := s.stack }) (hstack : s.stack = frame :: stack)
    (hwait : frame.isWait = false) (hframe : frame ≠ .waitForDebugger)
    (hmem : .waitForDebugger ∈ s'.stack → .waitForDebugger ∈ stack) : Quiet s s' :=
  { h with
    starting := fun hstarting => absurd hstarting (not_starting hstack hwait hframe)
    started := fun hnot hin => hnot (hstack ▸ List.mem_cons_of_mem frame (hmem hin)) }

/-- Every step is quiet but the two that this module is about. -/
theorem Transition.quiet (ht : Transition multiByteToWideChar s label s') (hnone : s.fault = none) :
    Quiet s s' ∨
      (∃ stack, s.stack = .waitForDebugger :: stack ∧
        s' = { s with agent.state := .kAccepting, stack := .waitForDebuggerLoop :: stack }) ∨
      ∃ m tasks stack, s.stack = .dispatchTasks (m :: tasks) :: stack ∧ label = .js ∧
        s' = { s with stack := .dispatchTasks tasks :: stack }.dispatchOne m := by
  have hsame := Quiet.refl hnone
  -- on top of `waitForDebugger` only a wait can run, so most functions on top rule `Starting` out
  cases ht with
  | elsewhere hfault => exact Or.inl { hsame with fault := hfault }
  | appended => exact Or.inl { hsame with }
  | @waits label frame frame' stack poster hstack hframe hframe' =>
      refine Or.inl { hsame with starting := ?_, started := ?_ }
      · intro h
        rw [hstack] at h
        rcases h.top with ⟨rfl, _⟩ | ⟨_, rfl⟩
        · cases hframe
        · exact .waiting hframe'
      · intro h hmem
        rcases List.mem_cons.1 hmem with rfl | hmem
        · cases hframe'
        · exact h (hstack ▸ List.mem_cons_of_mem frame hmem)
  | @waited frame stack hstack hframe hqueue =>
      refine Or.inl { hsame with starting := ?_, started := ?_ }
      · intro h
        rw [hstack] at h
        rcases h.top with ⟨rfl, _⟩ | ⟨_, rfl⟩
        · cases hframe
        · exact .back
      · exact fun h hmem => h (hstack ▸ List.mem_cons_of_mem frame hmem)
  | accepting hstack => exact Or.inr (Or.inl ⟨_, hstack, rfl⟩)
  | loops hstack =>
      exact Or.inl (.callDispatchMessages hnone (not_starting hstack rfl nofun))
  | released hstack => exact Or.inl (.of_top { hsame with } hstack rfl nofun id)
  | pauseWaits hstack =>
      refine Or.inl (.of_top { hsame with } hstack rfl nofun ?_)
      intro hmem
      simpa using hmem
  | pauseEnds hstack => exact Or.inl (.of_top { hsame with } hstack rfl nofun id)
  | @pauseDispatches stack hstack =>
      have hnot : ¬ Starting (.pauseLoop :: stack) := by
        intro h
        rcases h.top with ⟨htop, _⟩ | ⟨htop, _⟩
        · cases htop
        · cases htop
      have hquiet := Quiet.callDispatchMessages (s := { s with stack := .pauseLoop :: stack })
        hnone hnot
      refine Or.inl { hquiet with starting := ?_, started := ?_ }
      · exact fun h => absurd h (not_starting hstack rfl nofun)
      · intro h
        apply hquiet.started
        rw [hstack] at h
        simpa using h
  | @swapped stack frame hstack hframe htasks =>
      refine Or.inl (.of_top { hsame with } hstack rfl nofun ?_)
      intro hmem
      rcases List.mem_cons.1 hmem with rfl | hmem
      · cases hframe
      · exact hmem
  | batchDone hstack =>
      refine Or.inl (.of_top { hsame with } hstack rfl nofun ?_)
      intro hmem
      simpa using hmem
  | dispatches hstack => exact Or.inr (Or.inr ⟨_, _, _, hstack, rfl, rfl⟩)
  | finished hstack => exact Or.inl (.of_top { hsame with } hstack rfl nofun id)
  | pauses htop => exact Or.inl (.runMessageLoopOnPause hnone (not_starting_of_v8OnTop htop))
  | quits => exact Or.inl { hsame with }
  | returns hstack => exact Or.inl (.of_top { hsame with } hstack rfl nofun id)
  | @called action tasks interrupts htop =>
      have hquiet := Quiet.callDispatchMessages
        (s := { s with foregroundTasks := tasks, interruptRequests := interrupts }) hnone
        (not_starting_of_v8OnTop (s := { s with
          foregroundTasks := tasks
          interruptRequests := interrupts }) htop)
      exact Or.inl { hquiet with }
  | @shutsDown calls htop =>
      have hquiet := Quiet.runMessageLoopOnPause
        (s := { s with agent.shuttingDown := true, serverCalls := calls }) hnone
        (not_starting_of_v8OnTop (s := { s with
          agent.shuttingDown := true
          serverCalls := calls }) htop)
      exact Or.inl { hquiet with shuttingDown := fun _ => hquiet.shuttingDown rfl }

/-! ## The checks of `DispatchMessages` -/

/-- The state of the agent after control events that leave a session open, or not. -/
def Tracks (s : System) : Bool → Prop
  | true => s.agent.state = .kConnected
  | false => s.agent.state = .kAccepting ∨
      s.agent.state = .kDone ∧ s.agent.shuttingDown = true

/-- The state of the agent is what the dispatched control events, in turns, make of it. -/
def Controlled (s : System) : Prop :=
  Starting s.stack ∧ s.dispatched = [] ∨
    .waitForDebugger ∉ s.stack ∧
      ∃ connected, Run Control.step false (controls s.dispatched) connected ∧ s.Tracks connected

/-- The posted texts open and close sessions in turns, and after `WaitForDisconnect` none is
opened. -/
def Orderly (s : System) : Prop :=
  (∃ connected, Run Control.step false (controls s.posted) connected) ∧
    (s.agent.shuttingDown = true →
      .connect ∉ controls (s.outstanding ++ s.agent.incomingMessageQueue))

theorem Tracks.quiet {connected : Bool} (hquiet : Quiet s s') (h : s.Tracks connected) :
    s'.Tracks connected := by
  cases connected with
  | true => exact hquiet.state.trans h
  | false =>
      rcases h with h | ⟨h, hdown⟩
      · exact Or.inl (hquiet.state.trans h)
      · exact Or.inr ⟨hquiet.state.trans h, hquiet.shuttingDown hdown⟩

theorem Controlled.quiet (hquiet : Quiet s s') (h : s.Controlled) : s'.Controlled := by
  rcases h with ⟨hstack, hdispatched⟩ | ⟨hstack, connected, hrun, htracks⟩
  · exact Or.inl ⟨hquiet.starting hstack, hquiet.dispatched.trans hdispatched⟩
  · refine Or.inr ⟨hquiet.started hstack, connected, ?_, htracks.quiet hquiet⟩
    rwa [hquiet.dispatched]

/-- The message at the head of a batch, with the control events around it. -/
theorem WellFormed.head {m : QueuedMessage} {tasks : List QueuedMessage} {stack : List Frame}
    (h : s.WellFormed multiByteToWideChar) (hstack : s.stack = .dispatchTasks (m :: tasks) :: stack) :
    utf8ToStringView multiByteToWideChar m.event.text = .ok m.message ∧
      m ∈ s.outstanding ∧
        s.dispatched ++ [m] <+: s.posted := by
  have hmem : m ∈ s.outstanding := by
    unfold outstanding
    rw [hstack]
    exact List.mem_append_left _ List.mem_cons_self
  have hposted : s.posted = s.dispatched ++ (s.outstanding ++ s.agent.incomingMessageQueue) := h.fifo
  refine ⟨h.converted m ?_, hmem, ?_⟩
  · rw [hposted]
    exact List.mem_append_right _ (List.mem_append_left _ hmem)
  · rw [hposted]
    unfold outstanding
    rw [hstack]
    exact ⟨tasks ++ stack.flatMap Frame.tasks ++ s.agent.incomingMessageQueue, by simp [Frame.tasks]⟩

/-- The turn that the next message takes. -/
theorem Orderly.turn {m : QueuedMessage} {connected : Bool} (h : s.Orderly)
    (hinitial : s.dispatched ++ [m] <+: s.posted)
    (hrun : Run Control.step false (controls s.dispatched) connected) :
    ∃ connected', Run Control.step connected m.event.control.toList connected' := by
  obtain ⟨⟨last, hall⟩, _⟩ := h
  obtain ⟨rest, hrest⟩ := hinitial
  rw [← hrest, controls_append, controls_append, controls_singleton, List.append_assoc,
    Run.append_iff] at hall
  obtain ⟨middle, hmiddle, hall⟩ := hall
  -- the turns of what was dispatched already end where the agent is
  obtain rfl := hrun.functional hmiddle
  obtain ⟨next, hnext, _⟩ := Run.append_iff.1 hall
  exact ⟨next, hnext⟩

/-- Dispatching the head of a batch, if the posted texts take turns. -/
theorem Controlled.dispatchOne {m : QueuedMessage} {tasks : List QueuedMessage} {stack : List Frame}
    (hstack : s.stack = .dispatchTasks (m :: tasks) :: stack) (hnone : s.fault = none)
    (hwell : s.WellFormed multiByteToWideChar) (horderly : s.Orderly) (h : s.Controlled)
    (hs' : s' = { s with stack := .dispatchTasks tasks :: stack }.dispatchOne m) :
    s'.fault ≠ some .checkFailed ∧ s'.Controlled := by
  obtain ⟨hview, hmem, hinitial⟩ := hwell.head hstack
  -- nothing is dispatched before sessions are accepted
  rcases h with ⟨hstarting, _⟩ | ⟨hstarted, connected, hrun, htracks⟩
  · exact absurd hstarting (not_starting hstack rfl nofun)
  obtain ⟨connected', hturn⟩ := horderly.turn hinitial hrun
  have hdispatched : Run Control.step false (controls (s.dispatched ++ [m])) connected' := by
    rw [controls_append, controls_singleton]
    exact Run.append_iff.2 ⟨connected, hrun, hturn⟩
  have hbelow : .waitForDebugger ∉ Frame.dispatchTasks tasks :: stack := by
    rw [hstack] at hstarted
    simpa using hstarted
  have houtcome := batch_outcome hnone m tasks stack
  rw [← hs'] at houtcome
  cases houtcome with
  | unreadable hunreadable =>
      exact absurd (stringViewToUtf8_utf8ToStringView hview) (hunreadable _)
  | connected htag hstate =>
      have hcontrol := SessionEvent.control_connect.2 ((messageTag_view hview (Or.inl rfl)).1 htag)
      rw [hcontrol] at hturn
      obtain ⟨_, rfl⟩ := Control.run_connect hturn
      exact ⟨by simp [hnone], Or.inr ⟨hbelow, true, hdispatched, rfl⟩⟩
  | connectFails htag hstate =>
      -- no session is open, so the agent accepts one, unless it is shutting down
      have hcontrol := SessionEvent.control_connect.2 ((messageTag_view hview (Or.inl rfl)).1 htag)
      rw [hcontrol] at hturn
      obtain ⟨rfl, _⟩ := Control.run_connect hturn
      rcases htracks with haccepting | ⟨_, hdown⟩
      · exact absurd haccepting hstate
      · have hpending : .connect ∈ controls (s.outstanding ++ s.agent.incomingMessageQueue) :=
          List.mem_filterMap.2 ⟨m, List.mem_append_left _ hmem, hcontrol⟩
        exact absurd hpending (horderly.2 hdown)
  | disconnected htag hstate =>
      have hcontrol :=
        SessionEvent.control_disconnect.2 ((messageTag_view hview (Or.inr rfl)).1 htag)
      rw [hcontrol] at hturn
      obtain ⟨_, rfl⟩ := Control.run_disconnect hturn
      refine ⟨by simp [hnone], Or.inr ⟨hbelow, false, hdispatched, ?_⟩⟩
      by_cases hdown : s.agent.shuttingDown = true
      · exact Or.inr ⟨if_pos hdown, hdown⟩
      · exact Or.inl (if_neg hdown)
  | disconnectFails htag hstate =>
      have hcontrol :=
        SessionEvent.control_disconnect.2 ((messageTag_view hview (Or.inr rfl)).1 htag)
      rw [hcontrol] at hturn
      obtain ⟨rfl, _⟩ := Control.run_disconnect hturn
      exact absurd htracks hstate
  | @handed text waiting stack' fault hconnect hdisconnect htext hwaiting hcalled hfault =>
      have hcontrol : m.event.control = none := control_of_tags hview hconnect hdisconnect
      rw [hcontrol] at hturn
      obtain rfl := Run.nil_iff.1 hturn
      refine ⟨hfault, Or.inr ⟨?_, connected, hdispatched, ?_⟩⟩
      · rcases hcalled with rfl | rfl
        · simpa using hbelow
        · exact hbelow
      · cases connected with
        | true => exact htracks
        | false => exact htracks

theorem Controlled.init : init.Controlled :=
  Or.inl ⟨.waiting rfl, rfl⟩

/-- A step between orderly states fails no check. -/
theorem Controlled.step (hstep : System.step multiByteToWideChar s label = some s')
    (hwell : s.WellFormed multiByteToWideChar) (horderly : s.Orderly) (h : s.Controlled) :
    s'.fault ≠ some .checkFailed ∧ s'.Controlled := by
  obtain ⟨hnone, ht⟩ := step_transition hstep
  rcases ht.quiet hnone with hquiet | ⟨stack, hstack, rfl⟩ | ⟨m, tasks, stack, hstack, _, hs'⟩
  · exact ⟨hquiet.fault, h.quiet hquiet⟩
  · -- `kAccepting` is entered once, with no control event dispatched yet
    refine ⟨by simp [hnone], ?_⟩
    rcases h with ⟨hstarting, hdispatched⟩ | ⟨hstarted, _⟩
    · rw [hstack] at hstarting
      rcases hstarting.top with ⟨_, rfl⟩ | ⟨hwait, _⟩
      · refine Or.inr ⟨by simp, false, ?_, Or.inl rfl⟩
        show Run Control.step false (controls s.dispatched) false
        rw [hdispatched]
        rfl
      · cases hwait
    · exact absurd (hstack ▸ List.mem_cons_self) hstarted
  · exact h.dispatchOne hstack hnone hwell horderly hs'

/-- In a run in which sessions are opened and closed in turns, no check of `DispatchMessages`
fails. -/
theorem checks_hold {labels : List Label}
    (hrun : Run (System.step multiByteToWideChar) init labels s)
    (horderly : Throughout (System.step multiByteToWideChar) Orderly init labels) :
    s.fault ≠ some .checkFailed := by
  have hall : s.fault ≠ some .checkFailed ∧ s.Controlled ∧ s.WellFormed multiByteToWideChar := by
    refine Run.invariant_throughout
      (P := fun s => s.fault ≠ some .checkFailed ∧ s.Controlled ∧ s.WellFormed multiByteToWideChar)
      ⟨by decide, .init, .init⟩ ?_ hrun horderly
    intro t label u ht _ hinv hstep
    obtain ⟨_, hcontrolled, hwell⟩ := hinv
    obtain ⟨hfault, hcontrolled'⟩ := hcontrolled.step hstep hwell ht
    exact ⟨hfault, hcontrolled', hwell.step hstep⟩
  exact hall.1

instance : DecidablePred Orderly :=
  fun _ => inferInstanceAs (Decidable (_ ∧ _))

/-- A session is opened and closed, and the JS thread dispatches both events. -/
def oneSession : List Label :=
  [.session (.startSession 1), .poster, .poster, .poster, .session (.endSession 1)] ++
    .replicate 6 .js

theorem checks_hold_oneSession :
    ∃ s, Run (System.step .decoding) init oneSession s ∧ s.dispatched.length = 2 ∧
      s.fault ≠ some .checkFailed := by
  have hend : ∃ s ∈ oneSession.foldlM (System.step .decoding) init, s.dispatched.length = 2 := by
    decide +kernel
  obtain ⟨s, hrun, hlength⟩ := hend
  exact ⟨s, hrun, hlength, checks_hold hrun (by decide +kernel)⟩

/-- The events of one session, in order. -/
def sessionEvents (sessionId : Nat) (labels : List Label) : List SessionEvent :=
  labels.filterMap fun
    | .session event => if event.sessionId = sessionId then some event else none
    | _ => none

/-- Every session is started, sends messages and is ended, as far as the run goes. -/
def Sessions (labels : List Label) : Prop :=
  ∀ sessionId, ∃ messages : List Bytes, sessionEvents sessionId labels <+:
    .startSession sessionId :: messages.map (.messageReceived sessionId) ++ [.endSession sessionId]

/-- The second of two sessions is opened while the first one is. -/
def twoSessions : List Label :=
  [.session (.startSession 1), .poster, .poster, .poster, .session (.startSession 2)] ++
    .replicate 6 .js

/-- With two sessions open, the check of the second connect fails. -/
theorem check_fails_twoSessions :
    ¬ ∀ labels s, Sessions labels → Run (System.step .decoding) init labels s →
      s.fault ≠ some .checkFailed := by
  intro h
  have hsessions : Sessions twoSessions := by
    intro sessionId
    refine ⟨[], ?_⟩
    by_cases hone : sessionId = 1
    · subst hone
      decide
    · by_cases htwo : sessionId = 2
      · subst htwo
        decide
      · -- no other session has any event
        have hnil : sessionEvents sessionId twoSessions = [] := by
          simp [sessionEvents, twoSessions, SessionEvent.sessionId, Ne.symm hone, Ne.symm htwo]
        rw [hnil]
        exact List.nil_prefix
  have hend : ∃ s ∈ twoSessions.foldlM (System.step .decoding) init,
      s.fault = some .checkFailed := by
    decide +kernel
  obtain ⟨s, hrun, hfault⟩ := hend
  exact h twoSessions s hsessions hrun hfault

/-! ## Control events and client texts -/

/-- The message that the loop over a batch comes to next. -/
def next (s : System) : Option QueuedMessage :=
  match s.stack with
  | .dispatchTasks (m :: _) :: _ => some m
  | _ => none

/-- What connects and disconnects change: `state_`, `session_id_`, and whether `session_` is set. -/
def sessionControl (s : System) : AgentState × Nat × Bool :=
  (s.agent.state, s.agent.sessionId, s.agent.inspector.hasSession)

/-- The next step keeps control and data apart: a client's text is handed to V8 and changes nothing
else, and the session is opened and closed by the events that say so. -/
structure Separated (multiByteToWideChar : MultiByteToWideChar) (s : System) : Prop where
  handsOver : ∀ m sessionId text s', s.next = some m → m.event = .messageReceived sessionId text →
    System.step multiByteToWideChar s .js = some s' →
      s'.sessionControl = s.sessionControl ∧ s'.handed = s.handed ++ [m.message] ∧
        stringViewToUtf8 m.message = .ok text
  connects : ∀ label s', System.step multiByteToWideChar s label = some s' →
    s.agent.state ≠ .kConnected → s'.agent.state = .kConnected →
      ∃ m sessionId, s.next = some m ∧ m.event = .startSession sessionId
  disconnects : ∀ label s', System.step multiByteToWideChar s label = some s' →
    s.agent.state = .kConnected → s'.agent.state ≠ .kConnected →
      ∃ m sessionId, s.next = some m ∧ m.event = .endSession sessionId
  /-- Other than that, only the first entry into `kAccepting` touches the session. -/
  otherwise : ∀ label s', System.step multiByteToWideChar s label = some s' →
    s'.sessionControl ≠ s.sessionControl →
      s.stack.head? = some .waitForDebugger ∨
        ∃ m, s.next = some m ∧ ∀ sessionId text, m.event ≠ .messageReceived sessionId text

/-- The client's text that comes next, if one does, is no tag. -/
def NoTagNext (s : System) : Prop :=
  s.fault = none → ∀ m sessionId text, s.next = some m → m.event = .messageReceived sessionId text →
    text ≠ tagConnect ∧ text ≠ tagDisconnect

theorem next_eq_some {m : QueuedMessage} :
    s.next = some m ↔ ∃ tasks stack, s.stack = .dispatchTasks (m :: tasks) :: stack := by
  unfold next
  constructor
  · intro h
    split at h
    · rename_i m' tasks stack hstack
      obtain rfl := Option.some.inj h
      exact ⟨tasks, stack, hstack⟩
    · cases h
  · rintro ⟨tasks, stack, hstack⟩
    rw [hstack]

/-- The step that comes to the next message. -/
theorem step_next {m : QueuedMessage} {tasks : List QueuedMessage} {stack : List Frame}
    (hnone : s.fault = none) (hstack : s.stack = .dispatchTasks (m :: tasks) :: stack) :
    System.step multiByteToWideChar s .js =
      some ({ s with stack := .dispatchTasks tasks :: stack }.dispatchOne m) := by
  rw [step_js hnone]
  unfold jsStep
  rw [hstack]

/-- Before sessions are accepted there is none. -/
theorem not_connected_of_run {labels : List Label}
    (hrun : Run (System.step multiByteToWideChar) init labels s) :
    Starting s.stack ∧ s.agent.state = .kNew ∨ .waitForDebugger ∉ s.stack := by
  refine Run.invariant
    (P := fun s => Starting s.stack ∧ s.agent.state = .kNew ∨ .waitForDebugger ∉ s.stack)
    (Or.inl ⟨.waiting rfl, rfl⟩) ?_ hrun
  intro t label u ht hstep
  obtain ⟨hnone, htransition⟩ := step_transition hstep
  rcases htransition.quiet hnone with hquiet | ⟨stack, hstack, rfl⟩ |
    ⟨m, tasks, stack, hstack, _, rfl⟩
  · rcases ht with ⟨hstarting, hstate⟩ | hstarted
    · exact Or.inl ⟨hquiet.starting hstarting, hquiet.state.trans hstate⟩
    · exact Or.inr (hquiet.started hstarted)
  · rcases ht with ⟨hstarting, _⟩ | hstarted
    · rw [hstack] at hstarting
      rcases hstarting.top with ⟨_, rfl⟩ | ⟨hwait, _⟩
      · exact Or.inr (by simp)
      · cases hwait
    · exact absurd (hstack ▸ List.mem_cons_self) hstarted
  · rcases ht with ⟨hstarting, _⟩ | hstarted
    · exact absurd hstarting (not_starting hstack rfl nofun)
    · obtain ⟨_, _, _, _, _, hcalled⟩ := (batch_outcome hnone m tasks stack).frame
      have hbelow : .waitForDebugger ∉ Frame.dispatchTasks tasks :: stack := by
        rw [hstack] at hstarted
        simpa using hstarted
      refine Or.inr ?_
      rcases hcalled with hcalled | hcalled
      · rw [hcalled]
        simpa using hbelow
      · rwa [hcalled]

/-- An event whose text is a tag, and that is no client's text. -/
theorem SessionEvent.of_control {event : SessionEvent} {control : Control}
    (h : event.control = some control)
    (hclient : ∀ sessionId text, event = .messageReceived sessionId text →
      text ≠ tagConnect ∧ text ≠ tagDisconnect) :
    (control = .connect ∧ ∃ sessionId, event = .startSession sessionId) ∨
      control = .disconnect ∧ ∃ sessionId, event = .endSession sessionId := by
  cases event with
  | startSession sessionId => exact Or.inl ⟨(Option.some.inj h).symm, sessionId, rfl⟩
  | messageReceived sessionId text =>
      obtain ⟨hconnect, hdisconnect⟩ := hclient sessionId text rfl
      unfold SessionEvent.control at h
      rw [if_neg (by exact hconnect), if_neg (by exact hdisconnect)] at h
      cases h
  | endSession sessionId =>
      have hcontrol : (SessionEvent.endSession sessionId).control = some .disconnect :=
        SessionEvent.control_disconnect.2 rfl
      exact Or.inr ⟨Option.some.inj (h.symm.trans hcontrol), sessionId, rfl⟩

theorem next_outcome {m : QueuedMessage} (hwell : s.WellFormed multiByteToWideChar)
    (hnext : s.next = some m) (hstep : System.step multiByteToWideChar s .js = some s') :
    ∃ tasks stack, s.stack = .dispatchTasks (m :: tasks) :: stack ∧
      utf8ToStringView multiByteToWideChar m.event.text = .ok m.message ∧
        Outcome { s with stack := .dispatchTasks tasks :: stack } m s' := by
  obtain ⟨tasks, stack, hstack⟩ := next_eq_some.1 hnext
  obtain ⟨hnone, _⟩ := step_transition hstep
  obtain rfl := Option.some.inj ((step_next hnone hstack).symm.trans hstep)
  exact ⟨tasks, stack, hstack, (hwell.head hstack).1, batch_outcome hnone m tasks stack⟩

/-- A client's text that is no tag is handed to V8 and changes nothing else. -/
theorem handsOver_of_noTagNext {m : QueuedMessage} {sessionId : Nat} {text : Bytes}
    (hwell : s.WellFormed multiByteToWideChar) (hnext : s.next = some m)
    (hevent : m.event = .messageReceived sessionId text)
    (hstep : System.step multiByteToWideChar s .js = some s')
    (hconnect : text ≠ tagConnect) (hdisconnect : text ≠ tagDisconnect) :
    s'.sessionControl = s.sessionControl ∧ s'.handed = s.handed ++ [m.message] ∧
      stringViewToUtf8 m.message = .ok text := by
  obtain ⟨tasks, stack, _, hview, houtcome⟩ := next_outcome hwell hnext hstep
  rw [hevent] at hview
  have hread := stringViewToUtf8_utf8ToStringView hview
  cases houtcome with
  | unreadable hunreadable => exact absurd hread (hunreadable _)
  | connected htag => exact absurd ((messageTag_view hview (Or.inl rfl)).1 htag) hconnect
  | connectFails htag => exact absurd ((messageTag_view hview (Or.inl rfl)).1 htag) hconnect
  | disconnected htag => exact absurd ((messageTag_view hview (Or.inr rfl)).1 htag) hdisconnect
  | disconnectFails htag => exact absurd ((messageTag_view hview (Or.inr rfl)).1 htag) hdisconnect
  | handed => exact ⟨rfl, rfl, hread⟩

/-- A client's text that is a tag is not handed to V8. -/
theorem not_separated_of_tag {m : QueuedMessage} {sessionId : Nat} {text : Bytes}
    (hwell : s.WellFormed multiByteToWideChar) (hnone : s.fault = none) (hnext : s.next = some m)
    (hevent : m.event = .messageReceived sessionId text)
    (htag : text = tagConnect ∨ text = tagDisconnect) :
    ¬ s.Separated multiByteToWideChar := by
  intro hseparated
  obtain ⟨s', hstep⟩ : ∃ s', System.step multiByteToWideChar s .js = some s' := by
    obtain ⟨tasks, stack, hstack⟩ := next_eq_some.1 hnext
    exact ⟨_, step_next hnone hstack⟩
  obtain ⟨_, hhanded, _⟩ := hseparated.handsOver m sessionId text s' hnext hevent hstep
  obtain ⟨tasks, stack, _, hview, houtcome⟩ := next_outcome hwell hnext hstep
  rw [hevent] at hview
  have hread : messageTag m.message = .ok text := (messageTag_view hview htag).2 rfl
  -- connecting, disconnecting or a failed check: V8 gets nothing
  have hkept : s'.handed = s.handed := by
    cases houtcome with
    | handed hconnect hdisconnect =>
        rcases htag with rfl | rfl
        · exact absurd hread hconnect
        · exact absurd hread hdisconnect
    | _ => rfl
  rw [hkept] at hhanded
  simp at hhanded

/-- Without such a text the session follows the events of the sessions. -/
theorem next_of_sessionControl (hwell : s.WellFormed multiByteToWideChar) (hclient : s.NoTagNext)
    (hstarted : Starting s.stack ∧ s.agent.state = .kNew ∨ .waitForDebugger ∉ s.stack)
    (hstep : System.step multiByteToWideChar s label = some s') :
    s'.sessionControl = s.sessionControl ∨
      (s.stack.head? = some .waitForDebugger ∧ s.agent.state = .kNew ∧
        s'.agent.state = .kAccepting) ∨
        (∃ m sessionId, s.next = some m ∧ m.event = .startSession sessionId ∧
          s.agent.state = .kAccepting ∧ s'.agent.state = .kConnected) ∨
          ∃ m sessionId, s.next = some m ∧ m.event = .endSession sessionId ∧
            s.agent.state = .kConnected ∧ s'.agent.state ≠ .kConnected := by
  obtain ⟨hnone, ht⟩ := step_transition hstep
  rcases ht.quiet hnone with hquiet | ⟨stack, hstack, rfl⟩ | ⟨m, tasks, stack, hstack, rfl, _⟩
  · left
    unfold sessionControl
    rw [hquiet.state, hquiet.sessionId, hquiet.hasSession]
  · rcases hstarted with ⟨_, hstate⟩ | hstarted
    · exact Or.inr (Or.inl ⟨by rw [hstack]; rfl, hstate, rfl⟩)
    · exact absurd (hstack ▸ List.mem_cons_self) hstarted
  · -- a tag that is no client's text is that of the event itself
    have hnext : s.next = some m := next_eq_some.2 ⟨tasks, stack, hstack⟩
    have hevent : ∀ sessionId text, m.event = .messageReceived sessionId text →
        text ≠ tagConnect ∧ text ≠ tagDisconnect :=
      fun sessionId text => hclient hnone m sessionId text hnext
    obtain ⟨_, _, _, hview, houtcome⟩ := next_outcome hwell hnext hstep
    cases houtcome with
    | connected htag hstate =>
        have hcontrol := SessionEvent.control_connect.2
          ((messageTag_view hview (Or.inl rfl)).1 htag)
        rcases SessionEvent.of_control hcontrol hevent with ⟨_, sessionId, hstart⟩ | ⟨hother, _⟩
        · exact Or.inr (Or.inr (Or.inl ⟨m, sessionId, hnext, hstart, hstate, rfl⟩))
        · cases hother
    | disconnected htag hstate =>
        have hcontrol := SessionEvent.control_disconnect.2
          ((messageTag_view hview (Or.inr rfl)).1 htag)
        rcases SessionEvent.of_control hcontrol hevent with ⟨hother, _⟩ | ⟨_, sessionId, hend⟩
        · cases hother
        · refine Or.inr (Or.inr (Or.inr ⟨m, sessionId, hnext, hend, hstate, ?_⟩))
          dsimp only
          split
          · nofun
          · nofun
    | unreadable => exact Or.inl rfl
    | connectFails => exact Or.inl rfl
    | disconnectFails => exact Or.inl rfl
    | handed => exact Or.inl rfl

/-- In every reachable state, control and data are kept apart by the next step if and only if it
does not come to a client's text that is a tag. -/
theorem separated_iff {labels : List Label}
    (hrun : Run (System.step multiByteToWideChar) init labels s) :
    s.Separated multiByteToWideChar ↔ s.NoTagNext := by
  have hwell := wellFormed_of_run hrun .init
  have hstarted := not_connected_of_run hrun
  constructor
  · intro hseparated hnone m sessionId text hnext hevent
    constructor
    · exact fun htag => not_separated_of_tag hwell hnone hnext hevent (Or.inl htag) hseparated
    · exact fun htag => not_separated_of_tag hwell hnone hnext hevent (Or.inr htag) hseparated
  · intro hclient
    refine ⟨?_, ?_, ?_, ?_⟩
    · intro m sessionId text s' hnext hevent hstep
      obtain ⟨hnone, _⟩ := step_transition hstep
      obtain ⟨hconnect, hdisconnect⟩ := hclient hnone m sessionId text hnext hevent
      exact handsOver_of_noTagNext hwell hnext hevent hstep hconnect hdisconnect
    · intro label s' hstep hbefore hafter
      rcases next_of_sessionControl hwell hclient hstarted hstep with
        hkept | ⟨_, _, haccepting⟩ | ⟨m, sessionId, hnext, hstart, _⟩ | ⟨_, _, _, _, hstate, _⟩
      · exact absurd ((congrArg Prod.fst hkept).symm.trans hafter) hbefore
      · cases haccepting.symm.trans hafter
      · exact ⟨m, sessionId, hnext, hstart⟩
      · exact absurd hstate hbefore
    · intro label s' hstep hbefore hafter
      rcases next_of_sessionControl hwell hclient hstarted hstep with
        hkept | ⟨_, hnew, _⟩ | ⟨_, _, _, _, hstate, _⟩ | ⟨m, sessionId, hnext, hend, _⟩
      · exact absurd ((congrArg Prod.fst hkept).trans hbefore) hafter
      · cases hnew.symm.trans hbefore
      · cases hstate.symm.trans hbefore
      · exact ⟨m, sessionId, hnext, hend⟩
    · intro label s' hstep hchanged
      rcases next_of_sessionControl hwell hclient hstarted hstep with
        hkept | ⟨hfirst, _⟩ | ⟨m, sessionId, hnext, hstart, _⟩ | ⟨m, sessionId, hnext, hend, _⟩
      · exact absurd hkept hchanged
      · exact Or.inl hfirst
      · exact Or.inr ⟨m, hnext, fun _ _ hmessage => by cases hstart.symm.trans hmessage⟩
      · exact Or.inr ⟨m, hnext, fun _ _ hmessage => by cases hend.symm.trans hmessage⟩

/-- A client sends a text on its session, and the JS thread goes on until the text is next. -/
def clientSends (text : Bytes) : List Label :=
  [.session (.startSession 1), .poster, .poster, .poster,
    .session (.messageReceived 1 text)] ++ .replicate 5 .js

theorem separated_clientSends :
    ∃ s, Run (System.step .decoding) init (clientSends (ascii "{}")) s ∧ s.next.isSome = true ∧
      s.Separated .decoding := by
  have hend : ∃ s ∈ (clientSends (ascii "{}")).foldlM (System.step .decoding) init,
      s.next.map (·.event) = some (.messageReceived 1 (ascii "{}")) := by
    decide +kernel
  obtain ⟨s, hrun, hevent⟩ := hend
  refine ⟨s, hrun, ?_, (separated_iff hrun).2 ?_⟩
  · cases hnext : s.next with
    | none => rw [hnext] at hevent; cases hevent
    | some m => rfl
  · intro _ m sessionId text hnext hmessage
    rw [hnext, Option.map_some, hmessage] at hevent
    cases hevent
    exact ⟨by decide, by decide⟩

/-- A client that sends `#disconnect` has the session closed. -/
theorem not_separated_clientSends :
    ¬ ∀ labels s, Run (System.step .decoding) init labels s → s.Separated .decoding := by
  intro h
  have hend : ∃ s ∈ (clientSends tagDisconnect).foldlM (System.step .decoding) init,
      s.fault = none ∧
        s.next.map (·.event) = some (.messageReceived 1 tagDisconnect) := by
    decide +kernel
  obtain ⟨s, hrun, hnone, hevent⟩ := hend
  cases hnext : s.next with
  | none => rw [hnext] at hevent; cases hevent
  | some m =>
      rw [hnext, Option.map_some] at hevent
      exact not_separated_of_tag (wellFormed_of_run hrun .init) hnone hnext
        (Option.some.inj hevent) (Or.inr rfl) (h _ s hrun)

end System

end Inspector
end V8JsiRuntime
