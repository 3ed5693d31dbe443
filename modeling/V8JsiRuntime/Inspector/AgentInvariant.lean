import V8JsiRuntime.Inspector.Agent

/-!
# AgentInvariant — what every step of the agent can do, and what it keeps

`Transition` lists the steps of the system, each with what it changes; every fact about runs is
proved from that list.  `WellFormed` is the part of the invariant that is about the stack of the JS
thread, the queue and their history.
-/

namespace V8JsiRuntime
namespace Inspector

open Lib

/-! ## Kinds of frames -/

namespace Frame

/-- `DispatchMessages` -/
def isDispatch : Frame → Bool
  | dispatchSwap => true
  | dispatchTasks _ => true
  | dispatchFinish => true
  | _ => false

/-- The loop of `runMessageLoopOnPause` -/
def isPause : Frame → Bool
  | pauseLoop => true
  | pauseDispatch => true
  | _ => false

/-- `WaitForFrontendMessage` -/
def isWait : Frame → Bool
  | waitCheck => true
  | waitPredicate => true
  | waitBlock => true
  | waitBlocked => true
  | _ => false

/-- A function that is in, or just back from, its call of `WaitForFrontendMessage`. -/
def isWaiter : Frame → Bool
  | waitForDebugger => true
  | pauseDispatch => true
  | _ => false

/-- The messages taken out of the queue that the frame has still to come to. -/
def tasks : Frame → List QueuedMessage
  | dispatchTasks tasks => tasks
  | _ => []

theorem isDispatch_of_isWait {frame : Frame} (h : frame.isWait = true) :
    frame.isDispatch = false := by
  cases frame with
  | waitCheck => rfl
  | waitPredicate => rfl
  | waitBlock => rfl
  | waitBlocked => rfl
  | _ => cases h

theorem tasks_of_not_isDispatch {frame : Frame} (h : frame.isDispatch = false) :
    frame.tasks = [] := by
  cases frame with
  | dispatchTasks tasks => cases h
  | _ => rfl

/-- How many frames of `DispatchMessages` are on a stack. -/
def dispatchCount (stack : List Frame) : Nat :=
  stack.countP isDispatch

@[simp]
theorem dispatchCount_cons_dispatch {frame : Frame} (h : frame.isDispatch = true)
    (stack : List Frame) : dispatchCount (frame :: stack) = dispatchCount stack + 1 :=
  List.countP_cons_of_pos h

@[simp]
theorem dispatchCount_cons_other {frame : Frame} (h : frame.isDispatch = false)
    (stack : List Frame) : dispatchCount (frame :: stack) = dispatchCount stack :=
  List.countP_cons_of_neg (by simp [h])

/-- Without `DispatchMessages` on the stack there is no batch. -/
theorem flatMap_tasks_of_dispatchCount {stack : List Frame} (h : dispatchCount stack = 0) :
    stack.flatMap tasks = [] := by
  apply List.flatMap_eq_nil_iff.2
  intro frame hframe
  have hnot := List.countP_eq_zero.1 h frame hframe
  exact tasks_of_not_isDispatch (Bool.not_eq_true _ ▸ hnot)

end Frame

/-! ## The steps -/

namespace System

/-- The messages taken out of the queue and not come to yet. -/
def outstanding (s : System) : List QueuedMessage :=
  s.stack.flatMap Frame.tasks

/-- The steps of the system by what they change. -/
inductive Transition (multiByteToWideChar : MultiByteToWideChar) (s : System) :
    Label → System → Prop
  /-- Steps that leave the queue, the stack and the agent alone. -/
  | elsewhere {label : Label} {delegate : InspectorAgentDelegate} {poster : Poster}
      {tasks interrupts : Nat} {calls : List ServerCall} {fault : Option AgentFault} :
      fault ≠ some .checkFailed →
        Transition multiByteToWideChar s label
          { s with
            delegate := delegate
            poster := poster
            foregroundTasks := tasks
            interruptRequests := interrupts
            serverCalls := calls
            fault := fault }
  | appended {event : SessionEvent} {view : StringView} {delegate : InspectorAgentDelegate} :
      utf8ToStringView multiByteToWideChar event.text = .ok view →
        Transition multiByteToWideChar s (.session event)
          ({ s with delegate := delegate }.appendMessage ⟨event, view⟩)
  | waits {label : Label} {frame frame' : Frame} {stack : List Frame} {poster : Poster} :
      s.stack = frame :: stack → frame.isWait = true → frame'.isWait = true →
        Transition multiByteToWideChar s label { s with stack := frame' :: stack, poster := poster }
  | waited {frame : Frame} {stack : List Frame} : s.stack = frame :: stack →
      frame.isWait = true → s.agent.incomingMessageQueue ≠ [] →
        Transition multiByteToWideChar s .js { s with stack := stack }
  | accepting {stack : List Frame} : s.stack = .waitForDebugger :: stack →
      Transition multiByteToWideChar s .js
        { s with agent.state := .kAccepting, stack := .waitForDebuggerLoop :: stack }
  | loops {stack : List Frame} : s.stack = .waitForDebuggerLoop :: stack →
      s.agent.waitingForFrontend = true →
        Transition multiByteToWideChar s .js s.callDispatchMessages
  | released {stack : List Frame} : s.stack = .waitForDebuggerLoop :: stack →
      s.agent.waitingForFrontend = false →
        Transition multiByteToWideChar s .js { s with stack := stack }
  | pauseWaits {stack : List Frame} : s.stack = .pauseLoop :: stack →
      s.agent.inspector.waitingForResume = true →
        Transition multiByteToWideChar s .js
          { s with stack := .waitCheck :: .pauseDispatch :: stack }
  | pauseEnds {stack : List Frame} : s.stack = .pauseLoop :: stack →
      s.agent.inspector.waitingForResume = false →
        Transition multiByteToWideChar s .js
          { s with
            agent.inspector.waitingForResume := false
            agent.inspector.runningNestedLoop := false
            stack := stack }
  | pauseDispatches {stack : List Frame} : s.stack = .pauseDispatch :: stack →
      Transition multiByteToWideChar s .js { s with stack := .pauseLoop :: stack }.callDispatchMessages
  | swapped {stack : List Frame} {frame : Frame} : s.stack = .dispatchSwap :: stack →
      frame.isDispatch = true → frame.tasks = s.agent.incomingMessageQueue →
        Transition multiByteToWideChar s .js
          { s with agent.incomingMessageQueue := [], stack := frame :: stack }
  | batchDone {stack : List Frame} : s.stack = .dispatchTasks [] :: stack →
      Transition multiByteToWideChar s .js { s with stack := .dispatchSwap :: stack }
  | dispatches {m : QueuedMessage} {tasks : List QueuedMessage} {stack : List Frame} :
      s.stack = .dispatchTasks (m :: tasks) :: stack →
        Transition multiByteToWideChar s .js
          ({ s with stack := .dispatchTasks tasks :: stack }.dispatchOne m)
  | finished {stack : List Frame} : s.stack = .dispatchFinish :: stack →
      Transition multiByteToWideChar s .js
        { s with agent.dispatchingMessages := false, stack := stack }
  | pauses : v8OnTop s.stack = true →
      Transition multiByteToWideChar s (.v8 .pause) s.runMessageLoopOnPause
  | quits : v8OnTop s.stack = true →
      Transition multiByteToWideChar s (.v8 .quit) s.quitMessageLoopOnPause
  | returns {stack : List Frame} : s.stack = .dispatchProtocolMessage :: stack →
      Transition multiByteToWideChar s (.v8 .returns) { s with stack := stack }
  /-- A foreground task or an interrupt. -/
  | called {action : V8Action} {tasks interrupts : Nat} : v8OnTop s.stack = true →
      Transition multiByteToWideChar s (.v8 action)
        { s with foregroundTasks := tasks, interruptRequests := interrupts }.callDispatchMessages
  | shutsDown {calls : List ServerCall} : v8OnTop s.stack = true →
      s.agent.state = .kConnected →
        Transition multiByteToWideChar s (.v8 .waitForDisconnect)
          { s with agent.shuttingDown := true, serverCalls := calls }.runMessageLoopOnPause

variable {multiByteToWideChar : MultiByteToWideChar} {s s' : System} {label : Label}

theorem notifyDelegate_eq (s : System) (event : SessionEvent) :
    ∃ delegate, s.notifyDelegate event = { s with delegate := delegate } := by
  cases event with
  | startSession sessionId => exact ⟨_, rfl⟩
  | messageReceived sessionId message =>
      rw [notifyDelegate]
      split
      · exact ⟨_, rfl⟩
      · exact ⟨s.delegate, rfl⟩
  | endSession sessionId => exact ⟨_, rfl⟩

/-- A step that only fails. -/
theorem Transition.fails {fault : AgentFault} (hfault : fault ≠ .checkFailed) :
    Transition multiByteToWideChar s label (s.fail fault) :=
  .elsewhere fun heq => hfault (Option.some.inj heq)

theorem jsStep_transition (h : s.jsStep = some s') : Transition multiByteToWideChar s .js s' := by
  unfold jsStep at h
  -- one case for each function that can be on top, split where its code branches
  cases hstack : s.stack with
  | nil =>
      rw [hstack] at h
      cases h
  | cons frame stack =>
      rw [hstack] at h
      cases frame with
      | waitForDebugger =>
          dsimp only at h
          split at h
          · obtain rfl := Option.some.inj h
            exact .fails nofun
          · obtain rfl := Option.some.inj h
            exact .accepting hstack
      | waitForDebuggerLoop =>
          dsimp only at h
          split at h
          · rename_i hwaiting
            obtain rfl := Option.some.inj h
            exact .loops hstack hwaiting
          · rename_i hwaiting
            split at h
            · obtain rfl := Option.some.inj h
              exact .released hstack (Bool.not_eq_true _ ▸ hwaiting)
            · obtain rfl := Option.some.inj h
              exact .fails nofun
      | pauseLoop =>
          dsimp only at h
          split at h
          · rename_i hresume
            obtain rfl := Option.some.inj h
            exact .pauseWaits hstack hresume
          · rename_i hresume
            obtain rfl := Option.some.inj h
            exact .pauseEnds hstack (Bool.not_eq_true _ ▸ hresume)
      | pauseDispatch =>
          obtain rfl := Option.some.inj h
          exact .pauseDispatches hstack
      | waitCheck =>
          dsimp only at h
          split at h
          · obtain rfl := Option.some.inj h
            exact .waits hstack rfl rfl
          · rename_i hqueue
            obtain rfl := Option.some.inj h
            exact .waited hstack rfl (by simpa using hqueue)
      | waitPredicate =>
          dsimp only at h
          split at h
          · obtain rfl := Option.some.inj h
            exact .waits hstack rfl rfl
          · rename_i hqueue
            obtain rfl := Option.some.inj h
            exact .waited hstack rfl (by simpa using hqueue)
      | waitBlock =>
          obtain rfl := Option.some.inj h
          exact .waits hstack rfl rfl
      | waitBlocked => cases h
      | dispatchSwap =>
          obtain rfl := Option.some.inj h
          refine .swapped hstack ?_ ?_
          · split <;> rfl
          · split
            · rename_i hqueue
              exact (List.isEmpty_iff.1 hqueue).symm
            · rfl
      | dispatchTasks tasks =>
          cases tasks with
          | nil =>
              obtain rfl := Option.some.inj h
              exact .batchDone hstack
          | cons m tasks =>
              obtain rfl := Option.some.inj h
              exact .dispatches hstack
      | dispatchFinish =>
          obtain rfl := Option.some.inj h
          exact .finished hstack
      | dispatchProtocolMessage => cases h

theorem write_transition (hnone : s.fault = none) (sessionId : Nat) (message : StringView) :
    Transition multiByteToWideChar s label (s.write sessionId message) := by
  unfold write
  split
  · exact .elsewhere (by rw [hnone]; nofun)
  · split
    · exact .fails nofun
    · exact .elsewhere (by rw [hnone]; nofun)

theorem v8Step_transition {action : V8Action} (hnone : s.fault = none)
    (h : s.v8Step action = some s') : Transition multiByteToWideChar s (.v8 action) s' := by
  unfold v8Step at h
  split at h
  · rename_i htop
    cases action with
    | pause =>
        obtain rfl := Option.some.inj h
        exact .pauses htop
    | quit =>
        obtain rfl := Option.some.inj h
        exact .quits htop
    | returns =>
        dsimp only at h
        split at h
        · rename_i stack hstack
          obtain rfl := Option.some.inj h
          exact .returns hstack
        · cases h
    | interrupt =>
        dsimp only at h
        split at h
        · cases h
        · obtain rfl := Option.some.inj h
          exact .called htop
    | task =>
        dsimp only at h
        split at h
        · cases h
        · obtain rfl := Option.some.inj h
          exact .called htop
    | waitForDisconnect =>
        obtain rfl := Option.some.inj h
        unfold waitForDisconnect
        split
        · rename_i hconnected
          exact .shutsDown htop hconnected
        · exact .elsewhere (by rw [hnone]; nofun)
    | send message =>
        obtain rfl := Option.some.inj h
        exact write_transition hnone s.agent.sessionId message
  · cases h

/-- Waking up moves a blocked thread and nothing else. -/
theorem wake_transition (hnone : s.fault = none) (poster : Poster) :
    Transition multiByteToWideChar s label { s with stack := wake s.stack, poster := poster } := by
  -- only a blocked thread is moved; otherwise the stack stays
  cases hstack : s.stack with
  | nil =>
      have hsame : wake [] = s.stack := hstack.symm
      rw [hsame]
      exact .elsewhere (by rw [hnone]; nofun)
  | cons frame stack =>
      by_cases hblocked : frame = .waitBlocked
      · subst hblocked
        exact .waits hstack rfl rfl
      · have hsame : wake (frame :: stack) = s.stack := by
          rw [hstack]
          unfold wake
          split
          · rename_i rest heq
            exact absurd (List.cons.inj heq).1 hblocked
          · rfl
        rw [hsame]
        exact .elsewhere (by rw [hnone]; nofun)

/-- Every step is one of the list, from a state without fault. -/
theorem step_transition (h : step multiByteToWideChar s label = some s') :
    s.fault = none ∧ Transition multiByteToWideChar s label s' := by
  unfold step at h
  split at h
  · cases h
  · rename_i hfault
    have hnone := Option.not_isSome_iff_eq_none.1 hfault
    refine ⟨hnone, ?_⟩
    cases label with
    | session event =>
        dsimp only at h
        split at h
        · obtain rfl := Option.some.inj h
          obtain ⟨delegate, hdelegate⟩ := notifyDelegate_eq s event
          unfold postIncomingMessage
          rw [hdelegate]
          cases hview : utf8ToStringView multiByteToWideChar event.text with
          | error error => exact .elsewhere nofun
          | ok view => exact .appended hview
        · cases h
    | poster =>
        dsimp only [posterStep] at h
        split at h
        · cases h
        · obtain rfl := Option.some.inj h
          exact .elsewhere (by rw [hnone]; nofun)
        · obtain rfl := Option.some.inj h
          exact .elsewhere (by rw [hnone]; nofun)
        · obtain rfl := Option.some.inj h
          exact wake_transition hnone .idle
    | js => exact jsStep_transition h
    | v8 action => exact v8Step_transition hnone h
    | wakeUp =>
        dsimp only at h
        split at h
        · cases h
        · obtain rfl := Option.some.inj h
          exact wake_transition hnone s.poster

theorem callDispatchMessages_queue (s : System) :
    s.callDispatchMessages.agent.incomingMessageQueue = s.agent.incomingMessageQueue := by
  unfold System.callDispatchMessages
  split <;> rfl

theorem runMessageLoopOnPause_queue (s : System) :
    s.runMessageLoopOnPause.agent.incomingMessageQueue = s.agent.incomingMessageQueue := by
  unfold System.runMessageLoopOnPause
  split <;> rfl

theorem step_js (hnone : s.fault = none) : step multiByteToWideChar s .js = s.jsStep :=
  if_neg (by simp [hnone])

/-! ## One message of a batch -/

/-- What the body of the loop over a batch can do. -/
inductive Outcome (s : System) (m : QueuedMessage) : System → Prop
  | unreadable {fault : Fault} : (∀ text, stringViewToUtf8 m.message ≠ .ok text) →
      Outcome s m { s with dispatched := s.dispatched ++ [m], fault := some (.memory fault) }
  | connected : messageTag m.message = .ok tagConnect → s.agent.state = .kAccepting →
      Outcome s m
        { s with
          dispatched := s.dispatched ++ [m]
          agent.sessionId := m.event.sessionId
          agent.state := .kConnected
          agent.inspector.hasSession := true }
  | connectFails : messageTag m.message = .ok tagConnect → s.agent.state ≠ .kAccepting →
      Outcome s m { s with dispatched := s.dispatched ++ [m], fault := some .checkFailed }
  | disconnected : messageTag m.message = .ok tagDisconnect → s.agent.state = .kConnected →
      Outcome s m
        { s with
          dispatched := s.dispatched ++ [m]
          agent.state := if s.agent.shuttingDown then .kDone else .kAccepting
          agent.inspector.waitingForResume := false
          agent.inspector.hasSession := false }
  | disconnectFails : messageTag m.message = .ok tagDisconnect → s.agent.state ≠ .kConnected →
      Outcome s m { s with dispatched := s.dispatched ++ [m], fault := some .checkFailed }
  | handed {text : Bytes} {waiting : Bool} {stack : List Frame} {fault : Option AgentFault} :
      messageTag m.message ≠ .ok tagConnect → messageTag m.message ≠ .ok tagDisconnect →
        stringViewToUtf8 m.message = .ok text →
          waiting = (s.agent.waitingForFrontend &&
            decide (ascii "Runtime.runIfWaitingForDebugger" <:+: text)) →
            (stack = .dispatchProtocolMessage :: s.stack ∨ stack = s.stack) →
              fault ≠ some .checkFailed →
                Outcome s m
                  { s with
                    dispatched := s.dispatched ++ [m]
                    handed := s.handed ++ [m.message]
                    agent.waitingForFrontend := waiting
                    stack := stack
                    fault := fault }

theorem unreadable_of_messageTag {message : StringView} {fault : Fault}
    (h : messageTag message = .error fault) (text : Bytes) : stringViewToUtf8 message ≠ .ok text := by
  unfold messageTag at h
  split at h
  · rw [h]
    nofun
  · cases h

theorem dispatchOne_outcome (hnone : s.fault = none) (m : QueuedMessage) :
    Outcome s m (s.dispatchOne m) := by
  unfold dispatchOne
  cases htag : messageTag m.message with
  | error fault => exact .unreadable (unreadable_of_messageTag htag)
  | ok tag =>
      dsimp only
      split
      · rename_i hconnect
        subst hconnect
        unfold connect
        split
        · rename_i hstate
          exact .connected htag hstate
        · rename_i hstate
          exact .connectFails htag hstate
      · rename_i hconnect
        split
        · rename_i hdisconnect
          subst hdisconnect
          unfold disconnect
          split
          · rename_i hstate
            exact .disconnected htag hstate
          · rename_i hstate
            exact .disconnectFails htag hstate
        · rename_i hdisconnect
          unfold dispatchMessageFromFrontend
          have htagConnect : messageTag m.message ≠ .ok tagConnect := by
            rw [htag]
            exact fun heq => hconnect (Except.ok.inj heq)
          have htagDisconnect : messageTag m.message ≠ .ok tagDisconnect := by
            rw [htag]
            exact fun heq => hdisconnect (Except.ok.inj heq)
          cases htext : stringViewToUtf8 m.message with
          | error fault => exact .unreadable (by simp [htext])
          | ok text =>
              -- the assignment under `if`, as one conjunction
              have hwaiting : (if s.agent.waitingForFrontend then
                  decide (ascii "Runtime.runIfWaitingForDebugger" <:+: text) else false) =
                  (s.agent.waitingForFrontend &&
                    decide (ascii "Runtime.runIfWaitingForDebugger" <:+: text)) := by
                cases s.agent.waitingForFrontend <;> rfl
              dsimp only
              split
              · exact .handed htagConnect htagDisconnect htext hwaiting (Or.inl rfl)
                  (by rw [hnone]; nofun)
              · exact .handed htagConnect htagDisconnect htext hwaiting (Or.inr rfl) nofun

theorem batch_outcome (hnone : s.fault = none) (m : QueuedMessage) (tasks : List QueuedMessage)
    (stack : List Frame) :
    Outcome { s with stack := .dispatchTasks tasks :: stack } m
      ({ s with stack := .dispatchTasks tasks :: stack }.dispatchOne m) :=
  dispatchOne_outcome (s := { s with stack := .dispatchTasks tasks :: stack }) hnone m

/-- What the body of the loop never touches. -/
theorem Outcome.frame {m : QueuedMessage} (h : Outcome s m s') :
    s'.posted = s.posted ∧ s'.dispatched = s.dispatched ++ [m] ∧
      s'.agent.incomingMessageQueue = s.agent.incomingMessageQueue ∧
        s'.agent.dispatchingMessages = s.agent.dispatchingMessages ∧
          s'.agent.inspector.runningNestedLoop = s.agent.inspector.runningNestedLoop ∧
            (s'.stack = .dispatchProtocolMessage :: s.stack ∨ s'.stack = s.stack) := by
  cases h with
  | unreadable => exact ⟨rfl, rfl, rfl, rfl, rfl, Or.inr rfl⟩
  | connected => exact ⟨rfl, rfl, rfl, rfl, rfl, Or.inr rfl⟩
  | connectFails => exact ⟨rfl, rfl, rfl, rfl, rfl, Or.inr rfl⟩
  | disconnected => exact ⟨rfl, rfl, rfl, rfl, rfl, Or.inr rfl⟩
  | disconnectFails => exact ⟨rfl, rfl, rfl, rfl, rfl, Or.inr rfl⟩
  | handed _ _ _ _ hstack _ => exact ⟨rfl, rfl, rfl, rfl, rfl, hstack⟩

/-! ## The invariant -/

/-- The flag says whether `DispatchMessages` is on the stack, where it is at most once. -/
def Guarded (s : System) : Prop :=
  Frame.dispatchCount s.stack = s.agent.dispatchingMessages.toNat

theorem callDispatchMessages_of_dispatching (h : s.agent.dispatchingMessages = true) :
    s.callDispatchMessages = s :=
  if_pos h

theorem callDispatchMessages_of_not_dispatching (h : s.agent.dispatchingMessages = false) :
    s.callDispatchMessages =
      { s with agent.dispatchingMessages := true, stack := .dispatchSwap :: s.stack } :=
  if_neg (by simp [h])

/-! ### The guard of `DispatchMessages` -/

theorem Guarded.callDispatchMessages (h : s.Guarded) : s.callDispatchMessages.Guarded := by
  cases hflag : s.agent.dispatchingMessages with
  | true => rwa [callDispatchMessages_of_dispatching hflag]
  | false =>
      have hnone : Frame.dispatchCount s.stack = 0 := by
        rw [h, hflag]
        rfl
      rw [callDispatchMessages_of_not_dispatching hflag]
      exact (Frame.dispatchCount_cons_dispatch rfl s.stack).trans (congrArg (· + 1) hnone)

theorem Guarded.runMessageLoopOnPause (h : s.Guarded) : s.runMessageLoopOnPause.Guarded := by
  unfold System.runMessageLoopOnPause
  split
  · exact h
  · exact (Frame.dispatchCount_cons_other rfl s.stack).trans h

/-- Replacing the frame on top by one of the same kind keeps the count. -/
theorem Guarded.replace {frame frame' : Frame} {stack : List Frame} (h : s.Guarded)
    (hstack : s.stack = frame :: stack) (hkind : frame'.isDispatch = frame.isDispatch) :
    Frame.dispatchCount (frame' :: stack) = s.agent.dispatchingMessages.toNat := by
  unfold Guarded at h
  rw [hstack] at h
  cases hframe : frame.isDispatch with
  | true =>
      rw [Frame.dispatchCount_cons_dispatch hframe] at h
      rwa [Frame.dispatchCount_cons_dispatch (hkind.trans hframe)]
  | false =>
      rw [Frame.dispatchCount_cons_other hframe] at h
      rwa [Frame.dispatchCount_cons_other (hkind.trans hframe)]

/-- Leaving a function other than `DispatchMessages` keeps the count. -/
theorem Guarded.pop {frame : Frame} {stack : List Frame} (h : s.Guarded)
    (hstack : s.stack = frame :: stack) (hkind : frame.isDispatch = false) :
    Frame.dispatchCount stack = s.agent.dispatchingMessages.toNat := by
  unfold Guarded at h
  rwa [hstack, Frame.dispatchCount_cons_other hkind] at h

/-- Without `DispatchMessages` on the stack the flag is not set. -/
theorem Guarded.not_dispatching {frame : Frame} {stack : List Frame} (h : s.Guarded)
    (hstack : s.stack = frame :: stack) (hkind : frame.isDispatch = false)
    (hbelow : ∀ frame ∈ stack, frame.isDispatch = false) : s.agent.dispatchingMessages = false := by
  have hcount := h.pop hstack hkind
  have hzero : Frame.dispatchCount stack = 0 :=
    List.countP_eq_zero.2 fun frame hmem => by simp [hbelow frame hmem]
  exact Bool.toNat_eq_zero.1 (hcount.symm.trans hzero)

theorem Transition.guarded (ht : Transition multiByteToWideChar s label s') (hnone : s.fault = none)
    (h : s.Guarded) : s'.Guarded := by
  -- frames of `DispatchMessages` come with the guard set and go with it reset
  cases ht with
  | elsewhere => exact h
  | appended => exact h
  | waits hstack hframe hframe' =>
      exact h.replace hstack
        ((Frame.isDispatch_of_isWait hframe').trans (Frame.isDispatch_of_isWait hframe).symm)
  | waited hstack hframe => exact h.pop hstack (Frame.isDispatch_of_isWait hframe)
  | accepting hstack => exact h.replace hstack rfl
  | loops hstack => exact h.callDispatchMessages
  | released hstack => exact h.pop hstack rfl
  | pauseWaits hstack =>
      exact (Frame.dispatchCount_cons_other rfl _).trans (h.replace hstack rfl)
  | pauseEnds hstack => exact h.pop hstack rfl
  | pauseDispatches hstack =>
      apply Guarded.callDispatchMessages
      exact h.replace hstack rfl
  | swapped hstack hframe => exact h.replace hstack hframe
  | batchDone hstack => exact h.replace hstack rfl
  | @dispatches m tasks stack hstack =>
      obtain ⟨_, _, _, hflag, _, hcalled⟩ :=
        (batch_outcome hnone m tasks stack).frame
      have hcount : Frame.dispatchCount (.dispatchTasks tasks :: stack) =
          s.agent.dispatchingMessages.toNat := h.replace hstack rfl
      unfold Guarded
      rw [hflag]
      rcases hcalled with hcalled | hcalled
      · rw [hcalled]
        exact (Frame.dispatchCount_cons_other rfl _).trans hcount
      · rw [hcalled]
        exact hcount
  | @finished stack hstack =>
      -- the frame that is left was the only one
      unfold Guarded at h
      rw [hstack, Frame.dispatchCount_cons_dispatch rfl] at h
      have hbound := s.agent.dispatchingMessages.toNat_le
      show Frame.dispatchCount stack = 0
      omega
  | pauses => exact h.runMessageLoopOnPause
  | quits => exact h
  | returns hstack => exact h.pop hstack rfl
  | called => exact Guarded.callDispatchMessages h
  | shutsDown => exact Guarded.runMessageLoopOnPause h

/-! ### Order -/

/-- Messages leave the queue, and the batch, in the order in which they came. -/
def Fifo (s : System) : Prop :=
  s.posted = s.dispatched ++ (s.outstanding ++ s.agent.incomingMessageQueue)

theorem Fifo.callDispatchMessages (h : s.Fifo) : s.callDispatchMessages.Fifo := by
  unfold System.callDispatchMessages
  split
  · exact h
  · exact h

theorem Fifo.runMessageLoopOnPause (h : s.Fifo) : s.runMessageLoopOnPause.Fifo := by
  unfold System.runMessageLoopOnPause
  split
  · exact h
  · exact h

/-- A change of the frame on top that keeps what it has still to come to. -/
theorem Fifo.replace {frame : Frame} {stack stack' : List Frame} (h : s.Fifo)
    (hstack : s.stack = frame :: stack)
    (htasks : stack'.flatMap Frame.tasks = frame.tasks ++ stack.flatMap Frame.tasks) :
    s.posted = s.dispatched ++ (stack'.flatMap Frame.tasks ++ s.agent.incomingMessageQueue) := by
  unfold Fifo outstanding at h
  rw [hstack, List.flatMap_cons] at h
  rwa [htasks]

theorem Transition.fifo (ht : Transition multiByteToWideChar s label s') (hnone : s.fault = none)
    (hguard : s.Guarded) (h : s.Fifo) : s'.Fifo := by
  -- messages move from the queue to a batch and from the batch to the history
  cases ht with
  | elsewhere => exact h
  | @appended event view delegate hview =>
      unfold Fifo at h
      show s.posted ++ [_] = s.dispatched ++ (s.outstanding ++
        (s.agent.incomingMessageQueue ++ [_]))
      simp [h]
  | @waits label frame frame' stack poster hstack hframe hframe' =>
      refine h.replace hstack ?_
      rw [List.flatMap_cons, Frame.tasks_of_not_isDispatch (Frame.isDispatch_of_isWait hframe),
        Frame.tasks_of_not_isDispatch (Frame.isDispatch_of_isWait hframe')]
  | waited hstack hframe =>
      refine h.replace hstack ?_
      rw [Frame.tasks_of_not_isDispatch (Frame.isDispatch_of_isWait hframe)]
      rfl
  | accepting hstack => exact h.replace hstack rfl
  | loops hstack => exact h.callDispatchMessages
  | released hstack => exact h.replace hstack rfl
  | pauseWaits hstack => exact h.replace hstack rfl
  | pauseEnds hstack => exact h.replace hstack rfl
  | pauseDispatches hstack =>
      apply Fifo.callDispatchMessages
      exact h.replace hstack rfl
  | @swapped stack frame hstack hframe htasks =>
      -- the batch goes before the messages still waiting in functions below: there are none
      have hbelow : stack.flatMap Frame.tasks = [] := by
        apply Frame.flatMap_tasks_of_dispatchCount
        unfold Guarded at hguard
        rw [hstack, Frame.dispatchCount_cons_dispatch rfl] at hguard
        have hbound := s.agent.dispatchingMessages.toNat_le
        omega
      unfold Fifo outstanding at h
      rw [hstack, List.flatMap_cons, hbelow] at h
      show s.posted = s.dispatched ++ ((frame :: stack).flatMap Frame.tasks ++ [])
      rw [List.flatMap_cons, hbelow, htasks, h]
      simp [Frame.tasks]
  | batchDone hstack => exact h.replace hstack rfl
  | @dispatches m tasks stack hstack =>
      obtain ⟨hposted, hdispatched, hqueue, _, _, hcalled⟩ :=
        (batch_outcome hnone m tasks stack).frame
      have houtstanding : (dispatchOne { s with stack := .dispatchTasks tasks :: stack } m).outstanding
          = tasks ++ stack.flatMap Frame.tasks := by
        unfold outstanding
        rcases hcalled with hcalled | hcalled
        · rw [hcalled]
          rfl
        · rw [hcalled]
          rfl
      unfold Fifo outstanding at h
      unfold Fifo
      rw [hposted, hdispatched, hqueue, houtstanding, h, hstack]
      simp [Frame.tasks]
  | finished hstack => exact h.replace hstack rfl
  | pauses => exact h.runMessageLoopOnPause
  | quits => exact h
  | returns hstack => exact h.replace hstack rfl
  | called => exact Fifo.callDispatchMessages h
  | shutsDown => exact Fifo.runMessageLoopOnPause h

/-! ### Waiting -/

/-- No function on the stack is in its call of `WaitForFrontendMessage`. -/
def Settled (stack : List Frame) : Prop :=
  ∀ frame ∈ stack, frame.isWait = false ∧ frame.isWaiter = false

theorem Settled.cons {frame : Frame} {stack : List Frame} (hwait : frame.isWait = false)
    (hwaiter : frame.isWaiter = false) (h : Settled stack) : Settled (frame :: stack) := by
  intro other hother
  rcases List.mem_cons.1 hother with hother | hother
  · subst hother
    exact ⟨hwait, hwaiter⟩
  · exact h other hother

theorem Settled.tail {frame : Frame} {stack : List Frame} (h : Settled (frame :: stack)) :
    Settled stack :=
  fun other hother => h other (List.mem_cons_of_mem frame hother)

/-- The loop of a pause waits only with its flag set, and nothing resets the flag meanwhile. -/
def Resumable (s : System) (frame : Frame) : Prop :=
  frame = .pauseDispatch → s.agent.inspector.waitingForResume = true

/-- Where the JS thread is with respect to `WaitForFrontendMessage`. -/
inductive Place (s : System) : Prop
  | settled : Settled s.stack → Place s
  | waiting {wait frame : Frame} {stack : List Frame} : s.stack = wait :: frame :: stack →
      wait.isWait = true → frame.isWaiter = true → Settled stack → s.Resumable frame → Place s
  | back {frame : Frame} {stack : List Frame} : s.stack = frame :: stack →
      frame.isWaiter = true → Settled stack → s.Resumable frame →
        s.agent.incomingMessageQueue ≠ [] → Place s

namespace Place

theorem of_frame {frame : Frame} {stack : List Frame} (h : Place s)
    (hstack : s.stack = frame :: stack) (hwait : frame.isWait = false)
    (hwaiter : frame.isWaiter = false) : Settled stack := by
  cases h with
  | settled hsettled =>
      rw [hstack] at hsettled
      exact hsettled.tail
  | waiting hstack' hwait' =>
      obtain ⟨rfl, _⟩ := List.cons.inj (hstack.symm.trans hstack')
      cases hwait.symm.trans hwait'
  | back hstack' hwaiter' =>
      obtain ⟨rfl, _⟩ := List.cons.inj (hstack.symm.trans hstack')
      cases hwaiter.symm.trans hwaiter'

theorem of_waiter {frame : Frame} {stack : List Frame} (h : Place s)
    (hstack : s.stack = frame :: stack) (hwait : frame.isWait = false)
    (hwaiter : frame.isWaiter = true) :
    Settled stack ∧ s.Resumable frame ∧ s.agent.incomingMessageQueue ≠ [] := by
  cases h with
  | settled hsettled =>
      rw [hstack] at hsettled
      cases (hsettled frame List.mem_cons_self).2.symm.trans hwaiter
  | waiting hstack' hwait' =>
      obtain ⟨rfl, _⟩ := List.cons.inj (hstack.symm.trans hstack')
      cases hwait.symm.trans hwait'
  | back hstack' _ hsettled hresume hqueue =>
      obtain ⟨rfl, rfl⟩ := List.cons.inj (hstack.symm.trans hstack')
      exact ⟨hsettled, hresume, hqueue⟩

theorem of_wait {wait : Frame} {stack : List Frame} (h : Place s)
    (hstack : s.stack = wait :: stack) (hwait : wait.isWait = true) :
    ∃ frame rest, stack = frame :: rest ∧ frame.isWaiter = true ∧ Settled rest ∧
      s.Resumable frame := by
  cases h with
  | settled hsettled =>
      rw [hstack] at hsettled
      cases (hsettled wait List.mem_cons_self).1.symm.trans hwait
  | waiting hstack' _ hwaiter hsettled hresume =>
      obtain ⟨_, hrest⟩ := List.cons.inj (hstack.symm.trans hstack')
      exact ⟨_, _, hrest, hwaiter, hsettled, hresume⟩
  | back hstack' hwaiter =>
      obtain ⟨rfl, _⟩ := List.cons.inj (hstack.symm.trans hstack')
      cases wait <;> cases hwait <;> cases hwaiter

theorem of_v8OnTop (h : Place s) (htop : v8OnTop s.stack = true) : Settled s.stack := by
  cases hstack : s.stack with
  | nil => exact nofun
  | cons frame stack =>
      rw [hstack] at htop
      cases frame with
      | dispatchProtocolMessage => exact .cons rfl rfl (h.of_frame hstack rfl rfl)
      | _ => cases htop

theorem callDispatchMessages (h : Settled s.stack) : Place s.callDispatchMessages := by
  unfold System.callDispatchMessages
  split
  · exact .settled h
  · exact .settled (.cons rfl rfl h)

theorem runMessageLoopOnPause (h : Settled s.stack) : Place s.runMessageLoopOnPause := by
  unfold System.runMessageLoopOnPause
  split
  · exact .settled h
  · exact .settled (.cons rfl rfl h)

end Place

theorem Transition.place (ht : Transition multiByteToWideChar s label s') (hnone : s.fault = none)
    (h : s.Place) : s'.Place := by
  cases ht with
  -- another thread moved: the place is the same, and the queue can only have grown
  | elsewhere =>
      cases h with
      | settled hsettled => exact .settled hsettled
      | waiting hstack hwait hwaiter hsettled hresume =>
          exact .waiting hstack hwait hwaiter hsettled hresume
      | back hstack hwaiter hsettled hresume hqueue =>
          exact .back hstack hwaiter hsettled hresume hqueue
  | appended =>
      cases h with
      | settled hsettled => exact .settled hsettled
      | waiting hstack hwait hwaiter hsettled hresume =>
          exact .waiting hstack hwait hwaiter hsettled hresume
      | back hstack hwaiter hsettled hresume _ =>
          exact .back hstack hwaiter hsettled hresume (List.append_ne_nil_of_right_ne_nil _ nofun)
  | waits hstack hframe hframe' =>
      obtain ⟨frame, rest, rfl, hwaiter, hsettled, hresume⟩ := h.of_wait hstack hframe
      exact .waiting rfl hframe' hwaiter hsettled hresume
  | waited hstack hframe hqueue =>
      -- a wait ends only when its test has seen a message
      obtain ⟨frame, rest, rfl, hwaiter, hsettled, hresume⟩ := h.of_wait hstack hframe
      exact .back rfl hwaiter hsettled hresume hqueue
  | accepting hstack => exact .settled (.cons rfl rfl (h.of_waiter hstack rfl rfl).1)
  | loops hstack =>
      apply Place.callDispatchMessages
      rw [hstack]
      exact .cons rfl rfl (h.of_frame hstack rfl rfl)
  | released hstack => exact .settled (h.of_frame hstack rfl rfl)
  | pauseWaits hstack hresume =>
      -- the loop has just tested the flag
      exact .waiting rfl rfl rfl (h.of_frame hstack rfl rfl) fun _ => hresume
  | pauseEnds hstack => exact .settled (h.of_frame hstack rfl rfl)
  | pauseDispatches hstack =>
      exact Place.callDispatchMessages (.cons rfl rfl (h.of_waiter hstack rfl rfl).1)
  | @swapped stack frame hstack hframe _ =>
      have hsettled := h.of_frame hstack rfl rfl
      cases frame with
      | dispatchSwap => exact .settled (.cons rfl rfl hsettled)
      | dispatchTasks tasks => exact .settled (.cons rfl rfl hsettled)
      | dispatchFinish => exact .settled (.cons rfl rfl hsettled)
      | _ => cases hframe
  | batchDone hstack => exact .settled (.cons rfl rfl (h.of_frame hstack rfl rfl))
  | @dispatches m tasks stack hstack =>
      obtain ⟨_, _, _, _, _, hcalled⟩ :=
        (batch_outcome hnone m tasks stack).frame
      have hsettled : Settled (.dispatchTasks tasks :: stack) :=
        .cons rfl rfl (h.of_frame hstack rfl rfl)
      apply Place.settled
      rcases hcalled with hcalled | hcalled
      · rw [hcalled]
        exact .cons rfl rfl hsettled
      · rw [hcalled]
        exact hsettled
  | finished hstack => exact .settled (h.of_frame hstack rfl rfl)
  | pauses htop => exact Place.runMessageLoopOnPause (h.of_v8OnTop htop)
  | quits htop =>
      -- the flag is reset only by code that runs on top, where nobody waits
      exact .settled (h.of_v8OnTop htop)
  | returns hstack => exact .settled (h.of_frame hstack rfl rfl)
  | called htop => exact Place.callDispatchMessages (h.of_v8OnTop htop)
  | shutsDown htop => exact Place.runMessageLoopOnPause (h.of_v8OnTop htop)

/-! ## Runs -/

/-- The texts in the queue's history are those of the events. -/
def Converted (multiByteToWideChar : MultiByteToWideChar) (s : System) : Prop :=
  ∀ m ∈ s.posted, utf8ToStringView multiByteToWideChar m.event.text = .ok m.message

theorem Transition.posted (ht : Transition multiByteToWideChar s label s')
    (hnone : s.fault = none) :
    s'.posted = s.posted ∨ ∃ event view,
      utf8ToStringView multiByteToWideChar event.text = .ok view ∧
        s'.posted = s.posted ++ [⟨event, view⟩] := by
  have hcall : ∀ t : System, t.callDispatchMessages.posted = t.posted := by
    intro t
    unfold callDispatchMessages
    split <;> rfl
  have hpause : ∀ t : System, t.runMessageLoopOnPause.posted = t.posted := by
    intro t
    unfold runMessageLoopOnPause
    split <;> rfl
  cases ht with
  | appended hview => exact Or.inr ⟨_, _, hview, rfl⟩
  | loops => exact Or.inl (hcall s)
  | pauseDispatches => exact Or.inl (hcall _)
  | called => exact Or.inl (hcall _)
  | pauses => exact Or.inl (hpause s)
  | shutsDown => exact Or.inl (hpause _)
  | @dispatches m tasks stack => exact Or.inl (batch_outcome hnone m tasks stack).frame.1
  | _ => exact Or.inl rfl

theorem Transition.posted_prefix (ht : Transition multiByteToWideChar s label s')
    (hnone : s.fault = none) : s.posted <+: s'.posted := by
  rcases ht.posted hnone with hposted | ⟨_, _, _, hposted⟩
  · rw [hposted]
  · rw [hposted]
    exact List.prefix_append _ _

theorem Transition.converted (ht : Transition multiByteToWideChar s label s')
    (hnone : s.fault = none) (h : s.Converted multiByteToWideChar) :
    s'.Converted multiByteToWideChar := by
  intro m hm
  rcases ht.posted hnone with hposted | ⟨event, view, hview, hposted⟩
  · exact h m (hposted ▸ hm)
  · rw [hposted] at hm
    rcases List.mem_append.1 hm with hm | hm
    · exact h m hm
    · rw [List.mem_singleton.1 hm]
      exact hview

/-- The facts about the stack, the queue and the history that every step keeps. -/
structure WellFormed (multiByteToWideChar : MultiByteToWideChar) (s : System) : Prop where
  guarded : s.Guarded
  fifo : s.Fifo
  place : s.Place
  converted : s.Converted multiByteToWideChar

theorem WellFormed.init : init.WellFormed multiByteToWideChar where
  guarded := rfl
  fifo := rfl
  place := .waiting rfl rfl rfl nofun nofun
  converted := nofun

theorem WellFormed.step (hstep : System.step multiByteToWideChar s label = some s')
    (h : s.WellFormed multiByteToWideChar) : s'.WellFormed multiByteToWideChar := by
  obtain ⟨hnone, ht⟩ := step_transition hstep
  exact
    { guarded := ht.guarded hnone h.guarded
      fifo := ht.fifo hnone h.guarded h.fifo
      place := ht.place hnone h.place
      converted := ht.converted hnone h.converted }

theorem wellFormed_of_run {labels : List Label}
    (hrun : Run (System.step multiByteToWideChar) s labels s')
    (h : s.WellFormed multiByteToWideChar) : s'.WellFormed multiByteToWideChar :=
  Run.invariant (P := WellFormed multiByteToWideChar) h (fun _ _ _ h hstep => h.step hstep) hrun

end System

end Inspector
end V8JsiRuntime
