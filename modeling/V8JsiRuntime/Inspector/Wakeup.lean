import V8JsiRuntime.Inspector.PauseLoop

/-!
# Wakeup — no message is lost between the two threads

Only a message put into an empty queue is announced to the JS thread, and a re-entrant
`DispatchMessages` leaves the queue as it is.  A message in the queue is nevertheless on its way: an
active call swaps the queue again, or the task that announces it has not run yet.  To tell the tasks
apart, each carries the epoch in which it was scheduled; an epoch begins when the queue becomes
non-empty.

The exception is a pause entered inside a call: its loop never lets the call go on, so it must not
begin when the call is all that is left to deliver a message.
-/

namespace V8JsiRuntime
namespace Inspector

open Lib

/-! ## Calls that swap the queue again -/

/-- `DispatchMessages` before its last swap. -/
def Frame.swapsAgain : Frame → Bool
  | dispatchSwap => true
  | dispatchTasks _ => true
  | _ => false

theorem Frame.swapsAgain_of_isDispatch {frame : Frame} (h : frame.isDispatch = true)
    (hfinish : frame ≠ .dispatchFinish) : frame.swapsAgain = true := by
  cases frame with
  | dispatchSwap => rfl
  | dispatchTasks tasks => rfl
  | dispatchFinish => exact absurd rfl hfinish
  | _ => cases h

theorem Frame.isDispatch_of_swapsAgain {frame : Frame} (h : frame.swapsAgain = true) :
    frame.isDispatch = true := by
  cases frame with
  | dispatchSwap => rfl
  | dispatchTasks tasks => rfl
  | _ => cases h

theorem Frame.not_swapsAgain_of_isWait {frame : Frame} (h : frame.isWait = true) :
    frame.swapsAgain = false := by
  cases frame with
  | dispatchSwap => cases h
  | dispatchTasks tasks => cases h
  | _ => rfl

namespace System

variable {multiByteToWideChar : MultiByteToWideChar} {s s' : System} {label : Label}

/-- A call of `DispatchMessages` is active that will swap the queue again. -/
def Draining (s : System) : Prop :=
  ∃ frame ∈ s.stack, frame.swapsAgain = true

/-- The end of `DispatchMessages` is on top of the stack only. -/
def FinishOnTop (s : System) : Prop :=
  .dispatchFinish ∉ s.stack.tail

/-- When V8 runs inside a call of `DispatchMessages`, that call is not at its end. -/
theorem draining_of_v8OnTop (hguard : s.Guarded) (hfinish : s.FinishOnTop)
    (htop : v8OnTop s.stack = true) (hflag : s.agent.dispatchingMessages = true) : s.Draining := by
  have hcount : Frame.dispatchCount s.stack ≠ 0 := by
    rw [hguard, hflag]
    exact Nat.one_ne_zero
  obtain ⟨frame, hframe, hdispatch⟩ := List.countP_pos_iff.1 (Nat.pos_of_ne_zero hcount)
  refine ⟨frame, hframe, Frame.swapsAgain_of_isDispatch hdispatch ?_⟩
  rintro rfl
  cases hstack : s.stack with
  | nil =>
      rw [hstack] at hframe
      cases hframe
  | cons top below =>
      rw [FinishOnTop, hstack] at hfinish
      rw [hstack] at hframe htop
      rcases List.mem_cons.1 hframe with rfl | hbelow
      · cases htop
      · exact hfinish hbelow

/-- A call keeps draining while functions above it come and go, and while it is not at its end. -/
theorem Draining.replace {frame : Frame} {below : List Frame} (top : List Frame) (h : s.Draining)
    (hstack : s.stack = frame :: below) (hstack' : s'.stack = top ++ below)
    (htop : frame.swapsAgain = true → ∃ frame' ∈ top, frame'.swapsAgain = true) : s'.Draining := by
  obtain ⟨other, hother, hswaps⟩ := h
  rw [hstack] at hother
  unfold Draining
  rw [hstack']
  rcases List.mem_cons.1 hother with rfl | hbelow
  · obtain ⟨frame', hframe', hswaps'⟩ := htop hswaps
    exact ⟨frame', List.mem_append_left below hframe', hswaps'⟩
  · exact ⟨other, List.mem_append_right top hbelow, hswaps⟩

/-- Replacing or leaving a function other than `DispatchMessages`. -/
theorem Draining.above {frame : Frame} {below : List Frame} (top : List Frame) (h : s.Draining)
    (hstack : s.stack = frame :: below) (hframe : frame.swapsAgain = false)
    (hstack' : s'.stack = top ++ below) : s'.Draining :=
  h.replace top hstack hstack' fun hswaps => absurd (hframe.symm.trans hswaps) Bool.false_ne_true

theorem Draining.callDispatchMessages (h : s.Draining) : s.callDispatchMessages.Draining := by
  obtain ⟨frame, hframe, hswaps⟩ := h
  obtain ⟨top, htop⟩ := callDispatchMessages_stack s
  exact ⟨frame, htop ▸ List.mem_append_right top hframe, hswaps⟩

theorem Draining.runMessageLoopOnPause (h : s.Draining) : s.runMessageLoopOnPause.Draining := by
  obtain ⟨frame, hframe, hswaps⟩ := h
  obtain ⟨top, htop⟩ := runMessageLoopOnPause_stack s
  exact ⟨frame, htop ▸ List.mem_append_right top hframe, hswaps⟩

/-- What a step does to the queue and to a call that will swap it. -/
inductive QueueStep (s : System) (label : Label) (s' : System) : Prop
  | kept : s'.agent.incomingMessageQueue = s.agent.incomingMessageQueue →
      (s.Draining → s'.Draining) → QueueStep s label s'
  | swapped : s'.agent.incomingMessageQueue = [] → QueueStep s label s'
  | appended {event : SessionEvent} : label = .session event → s'.stack = s.stack →
      QueueStep s label s'

theorem Transition.queueStep (ht : Transition multiByteToWideChar s label s')
    (hnone : s.fault = none) : QueueStep s label s' := by
  cases ht with
  | elsewhere => exact .kept rfl id
  | appended => exact .appended rfl rfl
  | @waits _ frame frame' stack poster hstack hframe hframe' =>
      exact .kept rfl fun h =>
        h.above [frame'] hstack (Frame.not_swapsAgain_of_isWait hframe) rfl
  | waited hstack hframe =>
      exact .kept rfl fun h =>
        h.above [] hstack (Frame.not_swapsAgain_of_isWait hframe) rfl
  | accepting hstack =>
      exact .kept rfl fun h => h.above [.waitForDebuggerLoop] hstack rfl rfl
  | loops => exact .kept (callDispatchMessages_queue s) fun h => h.callDispatchMessages
  | released hstack => exact .kept rfl fun h => h.above [] hstack rfl rfl
  | pauseWaits hstack =>
      exact .kept rfl fun h => h.above [.waitCheck, .pauseDispatch] hstack rfl rfl
  | pauseEnds hstack => exact .kept rfl fun h => h.above [] hstack rfl rfl
  | pauseDispatches hstack =>
      refine .kept (callDispatchMessages_queue _) fun h => Draining.callDispatchMessages ?_
      exact h.above [.pauseLoop] hstack rfl rfl
  | swapped => exact .swapped rfl
  | batchDone hstack =>
      exact .kept rfl fun h => h.replace [.dispatchSwap] hstack rfl fun _ =>
        ⟨.dispatchSwap, List.mem_singleton_self _, rfl⟩
  | @dispatches m tasks stack hstack =>
      obtain ⟨_, _, hqueue, _, _, hcalled⟩ := (batch_outcome hnone m tasks stack).frame
      refine .kept hqueue fun _ => ?_
      -- the batch stays on the stack, below V8 if the message is for V8
      rcases hcalled with hcalled | hcalled
      · exact ⟨.dispatchTasks tasks, by simp [hcalled], rfl⟩
      · exact ⟨.dispatchTasks tasks, by simp [hcalled], rfl⟩
  | finished hstack => exact .kept rfl fun h => h.above [] hstack rfl rfl
  | pauses => exact .kept (runMessageLoopOnPause_queue s) fun h => h.runMessageLoopOnPause
  | quits => exact .kept rfl id
  | returns hstack => exact .kept rfl fun h => h.above [] hstack rfl rfl
  | called =>
      refine .kept (callDispatchMessages_queue _) fun h => Draining.callDispatchMessages ?_
      exact h
  | shutsDown =>
      refine .kept (runMessageLoopOnPause_queue _) fun h => Draining.runMessageLoopOnPause ?_
      exact h

/-- A call stays active until it swaps in an empty queue. -/
theorem Draining.step (h : s.Draining) (hstep : System.step multiByteToWideChar s label = some s')
    (hqueue : s'.agent.incomingMessageQueue ≠ []) : s'.Draining := by
  obtain ⟨hnone, ht⟩ := step_transition hstep
  cases ht.queueStep hnone with
  | kept _ hkept => exact hkept h
  | swapped hempty => exact absurd hempty hqueue
  | appended _ hstack => rwa [Draining, hstack]

/-! ## The end of a call -/

theorem FinishOnTop.below {frame : Frame} {below : List Frame} (h : s.FinishOnTop)
    (hstack : s.stack = frame :: below) : .dispatchFinish ∉ below := by
  rwa [FinishOnTop, hstack] at h

theorem FinishOnTop.not_mem {frame : Frame} {below : List Frame} (h : s.FinishOnTop)
    (hstack : s.stack = frame :: below) (hframe : frame ≠ .dispatchFinish) :
    .dispatchFinish ∉ s.stack := by
  rw [hstack, List.mem_cons, not_or]
  exact ⟨fun heq => hframe heq.symm, h.below hstack⟩

theorem FinishOnTop.of_v8OnTop (h : s.FinishOnTop) (htop : v8OnTop s.stack = true) :
    .dispatchFinish ∉ s.stack := by
  cases hstack : s.stack with
  | nil => exact List.not_mem_nil
  | cons frame below =>
      rw [← hstack]
      refine h.not_mem hstack ?_
      rintro rfl
      rw [hstack] at htop
      cases htop

/-- Below the frame on top nothing changes when functions without an end are put there. -/
theorem finishOnTop_of_top {frame : Frame} {below : List Frame} (top : List Frame)
    (hbelow : .dispatchFinish ∉ below) (htop : .dispatchFinish ∉ top)
    (hstack : s.stack = frame :: (top ++ below)) : s.FinishOnTop := by
  rw [FinishOnTop, hstack, List.tail_cons, List.mem_append, not_or]
  exact ⟨htop, hbelow⟩

theorem finishOnTop_callDispatchMessages (h : .dispatchFinish ∉ s.stack) :
    s.callDispatchMessages.FinishOnTop := by
  unfold System.callDispatchMessages
  split
  · exact fun hmem => h (List.mem_of_mem_tail hmem)
  · exact h

theorem finishOnTop_runMessageLoopOnPause (h : .dispatchFinish ∉ s.stack) :
    s.runMessageLoopOnPause.FinishOnTop := by
  unfold System.runMessageLoopOnPause
  split
  · exact fun hmem => h (List.mem_of_mem_tail hmem)
  · exact h

/-- The end of `DispatchMessages` is left before anything is put on top of it. -/
theorem Transition.finishOnTop (ht : Transition multiByteToWideChar s label s')
    (hnone : s.fault = none) (h : s.FinishOnTop) : s'.FinishOnTop := by
  have hpop : ∀ {frame : Frame} {stack : List Frame}, s.stack = frame :: stack →
      .dispatchFinish ∉ stack.tail :=
    fun hstack hmem => h.below hstack (List.mem_of_mem_tail hmem)
  cases ht with
  | elsewhere => exact h
  | appended => exact h
  | waits hstack => exact h.below hstack
  | waited hstack => exact hpop hstack
  | accepting hstack => exact h.below hstack
  | loops hstack => exact finishOnTop_callDispatchMessages (h.not_mem hstack nofun)
  | released hstack => exact hpop hstack
  | pauseWaits hstack =>
      exact finishOnTop_of_top [.pauseDispatch] (h.below hstack) (by simp) rfl
  | pauseEnds hstack => exact hpop hstack
  | pauseDispatches hstack =>
      apply finishOnTop_callDispatchMessages
      simpa using h.below hstack
  | swapped hstack => exact h.below hstack
  | batchDone hstack => exact h.below hstack
  | @dispatches m tasks stack hstack =>
      rcases (batch_outcome hnone m tasks stack).frame.2.2.2.2.2 with hcalled | hcalled
      · exact finishOnTop_of_top [.dispatchTasks tasks] (h.below hstack) (by simp) hcalled
      · exact finishOnTop_of_top [] (h.below hstack) List.not_mem_nil hcalled
  | finished hstack => exact hpop hstack
  | pauses htop => exact finishOnTop_runMessageLoopOnPause (h.of_v8OnTop htop)
  | quits => exact h
  | returns hstack => exact hpop hstack
  | called htop => exact finishOnTop_callDispatchMessages (h.of_v8OnTop htop)
  | shutsDown htop => exact finishOnTop_runMessageLoopOnPause (h.of_v8OnTop htop)

/-! ## Calls that get to their next swap -/

/-- A call of `DispatchMessages` is active and will swap the queue again: the JS thread gets there by
its own steps, with V8 returning from each message, or goes wrong on the way. -/
def WillSwap (multiByteToWideChar : MultiByteToWideChar) (s : System) : Prop :=
  ∃ above frame below, s.stack = above ++ frame :: below ∧ frame.swapsAgain = true ∧
    Gets multiByteToWideChar s (.dispatchSwap :: below) s.agent.incomingMessageQueue

/-- Above an active call of `DispatchMessages` there is V8 with one message at most. -/
inductive Clear (s : System) : Prop
  | idle : s.agent.dispatchingMessages = false → Clear s
  | running {frame : Frame} {below : List Frame} : s.stack = frame :: below →
      frame.isDispatch = true → Clear s
  | inMessage {frame : Frame} {below : List Frame} :
      s.stack = .dispatchProtocolMessage :: frame :: below → frame.isDispatch = true → Clear s

namespace Clear

theorem init : init.Clear :=
  .idle rfl

/-- Where another function of the agent is on top, no call is active. -/
theorem not_dispatching {frame : Frame} {stack : List Frame} (h : s.Clear)
    (hstack : s.stack = frame :: stack) (hframe : frame.isDispatch = false)
    (hmessage : frame ≠ .dispatchProtocolMessage) : s.agent.dispatchingMessages = false := by
  cases h with
  | idle hflag => exact hflag
  | running hrunning hdispatch =>
      obtain ⟨rfl, _⟩ := List.cons.inj (hstack.symm.trans hrunning)
      cases hframe.symm.trans hdispatch
  | inMessage hmessage' =>
      obtain ⟨rfl, _⟩ := List.cons.inj (hstack.symm.trans hmessage')
      exact absurd rfl hmessage

theorem not_dispatching_of_isWait {frame : Frame} {stack : List Frame} (h : s.Clear)
    (hstack : s.stack = frame :: stack) (hwait : frame.isWait = true) :
    s.agent.dispatchingMessages = false := by
  refine h.not_dispatching hstack (Frame.isDispatch_of_isWait hwait) ?_
  rintro rfl
  cases hwait

theorem congr (h : s.Clear) (hstack : s'.stack = s.stack)
    (hflag : s'.agent.dispatchingMessages = s.agent.dispatchingMessages) : s'.Clear := by
  cases h with
  | idle hidle => exact .idle (hflag.trans hidle)
  | running hrunning hdispatch => exact .running (hstack.trans hrunning) hdispatch
  | inMessage hmessage hdispatch => exact .inMessage (hstack.trans hmessage) hdispatch

theorem callDispatchMessages (h : s.Clear) : s.callDispatchMessages.Clear := by
  cases hflag : s.agent.dispatchingMessages with
  | true => rwa [callDispatchMessages_of_dispatching hflag]
  | false =>
      rw [callDispatchMessages_of_not_dispatching hflag]
      exact .running rfl rfl

theorem runMessageLoopOnPause (h : s.Clear)
    (hpause : s.agent.inspector.runningNestedLoop = false → s.agent.dispatchingMessages = false) :
    s.runMessageLoopOnPause.Clear := by
  unfold System.runMessageLoopOnPause
  split
  · exact h.congr rfl rfl
  · rename_i hloop
    exact .idle (hpause (Bool.eq_false_of_not_eq_true hloop))

end Clear

/-- The loop of a pause is entered, by V8 or by `WaitForDisconnect`. -/
def entersPause (s : System) : Label → Prop
  | .v8 .pause => s.agent.inspector.runningNestedLoop = false
  | .v8 .waitForDisconnect =>
      s.agent.state = .kConnected ∧ s.agent.inspector.runningNestedLoop = false
  | _ => False

instance (s : System) (label : Label) : Decidable (s.entersPause label) := by
  unfold entersPause
  split <;> infer_instance

/-- A call is covered by other functions only if a pause begins inside it. -/
theorem Transition.clear (ht : Transition multiByteToWideChar s label s') (hnone : s.fault = none)
    (hpause : s.entersPause label → s.agent.dispatchingMessages = false) (h : s.Clear) :
    s'.Clear := by
  cases ht with
  | elsewhere => exact h.congr rfl rfl
  | appended => exact h.congr rfl rfl
  | waits hstack hframe => exact .idle (h.not_dispatching_of_isWait hstack hframe)
  | waited hstack hframe => exact .idle (h.not_dispatching_of_isWait hstack hframe)
  | accepting hstack => exact .idle (h.not_dispatching hstack rfl (by simp))
  | loops => exact h.callDispatchMessages
  | released hstack => exact .idle (h.not_dispatching hstack rfl (by simp))
  | pauseWaits hstack => exact .idle (h.not_dispatching hstack rfl (by simp))
  | pauseEnds hstack => exact .idle (h.not_dispatching hstack rfl (by simp))
  | pauseDispatches hstack =>
      apply Clear.callDispatchMessages
      exact .idle (h.not_dispatching hstack rfl (by simp))
  | swapped hstack hframe => exact .running rfl hframe
  | batchDone hstack => exact .running rfl rfl
  | @dispatches m tasks stack hstack =>
      rcases (batch_outcome hnone m tasks stack).frame.2.2.2.2.2 with hcalled | hcalled
      · exact .inMessage hcalled rfl
      · exact .running hcalled rfl
  | finished hstack => exact .idle rfl
  | pauses => exact h.runMessageLoopOnPause hpause
  | quits => exact h.congr rfl rfl
  | returns hstack =>
      cases h with
      | idle hflag => exact .idle hflag
      | running hrunning hdispatch =>
          obtain ⟨rfl, _⟩ := List.cons.inj (hstack.symm.trans hrunning)
          cases hdispatch
      | inMessage hmessage hdispatch =>
          exact .running (List.cons.inj (hstack.symm.trans hmessage)).2 hdispatch
  | called =>
      apply Clear.callDispatchMessages
      exact h.congr rfl rfl
  | shutsDown _ hstate =>
      exact Clear.runMessageLoopOnPause (h.congr rfl rfl) fun hloop => hpause ⟨hstate, hloop⟩

/-- The rest of the batch is dispatched, and the queue is swapped next. -/
theorem gets_swap {frame : Frame} {below : List Frame} (hnone : s.fault = none)
    (hstack : s.stack = frame :: below) (hswaps : frame.swapsAgain = true) :
    Gets multiByteToWideChar s (.dispatchSwap :: below) s.agent.incomingMessageQueue := by
  cases frame with
  | dispatchSwap => exact ⟨s, .refl s, Or.inr ⟨hnone, hstack, rfl⟩⟩
  | dispatchTasks tasks =>
      refine (gets_batch_end hnone hstack).trans ?_
      intro s' hnone' hstack' hqueue'
      have hround : s'.jsStep = some { s' with stack := .dispatchSwap :: below } := by
        unfold jsStep
        rw [hstack']
      exact .js hnone' hround ⟨_, .refl _, Or.inr ⟨hnone', rfl, hqueue'⟩⟩
  | _ => cases hswaps

/-- There is one call of `DispatchMessages` at most. -/
theorem Guarded.eq_of_mem {above below : List Frame} {frame other : Frame} (h : s.Guarded)
    (hstack : s.stack = above ++ frame :: below) (hframe : frame.isDispatch = true)
    (hmem : other ∈ s.stack) (hother : other.isDispatch = true) : other = frame := by
  have hcount : Frame.dispatchCount s.stack ≤ 1 := h ▸ s.agent.dispatchingMessages.toNat_le
  rw [hstack] at hmem hcount
  rw [Frame.dispatchCount, List.countP_append, List.countP_cons_of_pos hframe] at hcount
  have hothers : List.countP Frame.isDispatch above = 0 ∧ List.countP Frame.isDispatch below = 0 :=
    by omega
  rcases List.mem_append.1 hmem with habove | hrest
  · exact absurd hother (List.countP_eq_zero.1 hothers.1 other habove)
  · rcases List.mem_cons.1 hrest with heq | hbelow
    · exact heq
    · exact absurd hother (List.countP_eq_zero.1 hothers.2 other hbelow)

/-- With one message above it at most, a call gets to its next swap. -/
theorem Draining.willSwap (h : s.Draining) (hguard : s.Guarded) (hclear : s.Clear) :
    s.WillSwap multiByteToWideChar := by
  obtain ⟨frame, hmem, hswaps⟩ := h
  have hdispatch := Frame.isDispatch_of_swapsAgain hswaps
  by_cases hnone : s.fault = none
  · cases hclear with
    | idle hflag =>
        rw [Guarded, hflag] at hguard
        exact absurd hdispatch (List.countP_eq_zero.1 hguard frame hmem)
    | @running other below hstack hother =>
        have hcall : s.stack = [] ++ other :: below := hstack
        obtain rfl := hguard.eq_of_mem hcall hother hmem hdispatch
        exact ⟨[], frame, below, hcall, hswaps, gets_swap hnone hstack hswaps⟩
    | @inMessage other below hstack hother =>
        have hcall : s.stack = [.dispatchProtocolMessage] ++ other :: below := hstack
        obtain rfl := hguard.eq_of_mem hcall hother hmem hdispatch
        refine ⟨[.dispatchProtocolMessage], frame, below, hcall, hswaps, ?_⟩
        have hreturns : System.step multiByteToWideChar s (.v8 .returns) =
            some { s with stack := frame :: below } := by
          unfold System.step v8Step
          rw [hnone, hstack]
          rfl
        refine .of_reaches (.cons (Or.inr rfl) hreturns (.refl _)) ?_
        exact gets_swap (s := { s with stack := frame :: below }) hnone rfl hswaps
  · obtain ⟨above, below, hstack⟩ := List.append_of_mem hmem
    exact ⟨above, frame, below, hstack, hswaps, s, .refl s, Or.inl hnone⟩

/-! ## The announcement of a message -/

/-- How far the server thread is with its announcement, and how many tasks wait to run. -/
def announced (s : System) : Poster × Nat :=
  (s.poster, s.foregroundTasks)

theorem callDispatchMessages_announced (s : System) :
    s.callDispatchMessages.announced = s.announced := by
  unfold callDispatchMessages
  split <;> rfl

theorem runMessageLoopOnPause_announced (s : System) :
    s.runMessageLoopOnPause.announced = s.announced := by
  unfold runMessageLoopOnPause
  split <;> rfl

theorem write_announced (s : System) (sessionId : Nat) (message : StringView) :
    (s.write sessionId message).announced = s.announced := by
  unfold write
  split
  · rfl
  · split <;> rfl

theorem Outcome.announced {m : QueuedMessage} (h : Outcome s m s') :
    s'.announced = s.announced := by
  cases h <;> rfl

theorem jsStep_announced (hnone : s.fault = none) (h : s.jsStep = some s') :
    s'.announced = s.announced := by
  unfold jsStep at h
  split at h
  · cases h
  · cases h
  · split at h <;> cases h <;> rfl
  · split at h <;> cases h <;> rfl
  · cases h
    rfl
  · cases h
  · split at h <;> cases h <;> rfl
  · split at h
    · cases h
      exact callDispatchMessages_announced s
    · split at h <;> cases h <;> rfl
  · split at h <;> cases h <;> rfl
  · cases h
    exact callDispatchMessages_announced _
  · cases h
    rfl
  · cases h
    rfl
  · rename_i m tasks stack hstack
    cases h
    exact (batch_outcome hnone m tasks stack).announced
  · cases h
    rfl

theorem v8Step_announced {action : V8Action} (haction : action ≠ .task)
    (h : s.v8Step action = some s') : s'.announced = s.announced := by
  unfold v8Step at h
  split at h
  · cases action with
    | pause =>
        cases h
        exact runMessageLoopOnPause_announced s
    | quit =>
        cases h
        rfl
    | returns =>
        dsimp only at h
        split at h <;> cases h
        rfl
    | interrupt =>
        dsimp only at h
        split at h <;> cases h
        exact callDispatchMessages_announced _
    | task => exact absurd rfl haction
    | waitForDisconnect =>
        cases h
        unfold waitForDisconnect
        split
        · exact (runMessageLoopOnPause_announced _).trans (write_announced _ 0 (.view8 []))
        · rfl
    | send message =>
        cases h
        exact write_announced s _ message
  · cases h

/-- An event of a session leaves the JS thread and the tasks alone; if its message is put into an
empty queue, it is about to be announced. -/
theorem step_session {event : SessionEvent}
    (h : step multiByteToWideChar s (.session event) = some s') :
    s.poster = .idle ∧ s'.stack = s.stack ∧ s'.foregroundTasks = s.foregroundTasks ∧
      (s'.agent.incomingMessageQueue = s.agent.incomingMessageQueue ∨
        s'.agent.incomingMessageQueue ≠ [] ∧
          (s.agent.incomingMessageQueue = [] → s'.poster = .callOnForegroundThread)) := by
  have hnone := (step_transition h).1
  rw [step, if_neg (by simp [hnone])] at h
  split at h
  · rename_i hidle
    obtain rfl := Option.some.inj h
    obtain ⟨delegate, hdelegate⟩ := notifyDelegate_eq s event
    unfold postIncomingMessage
    rw [hdelegate]
    cases utf8ToStringView multiByteToWideChar event.text with
    | error error => exact ⟨hidle, rfl, rfl, Or.inl rfl⟩
    | ok view =>
        refine ⟨hidle, rfl, rfl, Or.inr ⟨?_, ?_⟩⟩
        · exact List.append_ne_nil_of_right_ne_nil _ nofun
        · exact fun hempty => if_pos (List.isEmpty_iff.2 hempty)
  · cases h

/-! ## Calls that never get to another swap -/

/-- By its own steps the JS thread neither leaves the loop of such a pause nor goes wrong. -/
theorem Spinning.jsStep_fault {rest : List Frame} {dispatched : List QueuedMessage}
    (h : Spinning rest dispatched s) (hstep : s.jsStep = some s') : s'.fault = s.fault := by
  obtain ⟨hlooping, hguard, hresume, _⟩ := h
  generalize hstack : s.stack = stack at hlooping
  unfold jsStep at hstep
  rw [hstack] at hstep
  cases hlooping with
  | loop =>
      dsimp only at hstep
      rw [if_pos hresume] at hstep
      cases hstep
      rfl
  | back =>
      cases hstep
      -- the guard makes the call return at once
      rw [callDispatchMessages_of_dispatching (s := { s with stack := .pauseLoop :: rest }) hguard]
  | @waiting wait hwait =>
      cases wait with
      | waitCheck =>
          dsimp only at hstep
          split at hstep <;> cases hstep <;> rfl
      | waitPredicate =>
          dsimp only at hstep
          split at hstep <;> cases hstep <;> rfl
      | waitBlock =>
          cases hstep
          rfl
      | waitBlocked => cases hstep
      | _ => cases hwait

theorem Spinning.of_reaches {rest : List Frame} {dispatched : List QueuedMessage}
    (h : Spinning rest dispatched s) (hnone : s.fault = none)
    (hreaches : Reaches multiByteToWideChar s s') :
    Spinning rest dispatched s' ∧ s'.fault = none := by
  obtain ⟨labels, hlabels, hrun⟩ := hreaches
  induction labels generalizing s with
  | nil =>
      obtain rfl := Run.nil_iff.1 hrun
      exact ⟨h, hnone⟩
  | cons label labels ih =>
      obtain ⟨t, hstep, hrest⟩ := Run.cons_iff.1 hrun
      refine ih (h.step hstep) ?_ (fun other hother => hlabels other (List.mem_cons_of_mem _ hother))
        hrest
      rcases hlabels label List.mem_cons_self with rfl | rfl
      · exact (h.jsStep_fault ((step_js hnone).symm.trans hstep)).trans hnone
      · -- V8 is not on top of the loop
        unfold System.step v8Step at hstep
        rw [hnone, h.looping.not_v8OnTop] at hstep
        cases hstep

theorem Spinning.not_willSwap {rest : List Frame} {dispatched : List QueuedMessage}
    (h : Spinning rest dispatched s) (hnone : s.fault = none) :
    ¬ s.WillSwap multiByteToWideChar := by
  rintro ⟨_, _, below, _, _, s', hreaches, hend⟩
  obtain ⟨hspinning, hnone'⟩ := h.of_reaches hnone hreaches
  rcases hend with hfault | ⟨_, hstack, _⟩
  · exact hfault hnone'
  · exact hspinning.looping.not_of hstack rfl rfl

theorem runMessageLoopOnPause_enters (hloop : s.agent.inspector.runningNestedLoop = false) :
    s.runMessageLoopOnPause = { s with
      agent.inspector.waitingForResume := true
      agent.inspector.runningNestedLoop := true
      stack := .pauseLoop :: s.stack } :=
  if_neg (by simp [hloop])

/-- A pause that begins inside a call is left by nothing. -/
theorem spinning_of_entersPause (henters : s.entersPause label)
    (hflag : s.agent.dispatchingMessages = true)
    (hstep : System.step multiByteToWideChar s label = some s') :
    Spinning s.stack s.dispatched s' ∧ s'.fault = none ∧ s'.announced = s.announced ∧
      s'.agent.incomingMessageQueue = s.agent.incomingMessageQueue := by
  obtain ⟨hnone, _⟩ := step_transition hstep
  unfold System.step v8Step at hstep
  rw [if_neg (by simp [hnone])] at hstep
  unfold entersPause at henters
  split at henters
  · dsimp only at hstep
    split at hstep
    · rw [runMessageLoopOnPause_enters henters] at hstep
      cases hstep
      exact ⟨⟨.loop, hflag, rfl, rfl⟩, hnone, rfl, rfl⟩
    · cases hstep
  · dsimp only at hstep
    split at hstep
    · obtain ⟨hstate, hloop⟩ := henters
      have hwaits : s.waitForDisconnect = _ :=
        (if_pos hstate).trans (runMessageLoopOnPause_enters hloop)
      rw [hwaits] at hstep
      cases hstep
      exact ⟨⟨.loop, hflag, rfl, rfl⟩, hnone, rfl, rfl⟩
    · cases hstep
  · exact henters.elim

/-! ## Tasks by epoch -/

/-- The system with its foreground tasks told apart. -/
structure Tracked where
  system : System
  /-- How often the queue became non-empty. -/
  epoch : Nat
  /-- The epoch in which each scheduled task that has not run yet was scheduled. -/
  tasks : List Nat
  deriving DecidableEq, Repr

namespace Tracked

def init : Tracked :=
  ⟨System.init, 0, []⟩

/-- What a step of the system means for the tasks; if a task runs, the number says which one. -/
def track (t : Tracked) (move : Label × Nat) (system : System) : Option Tracked :=
  match move.1 with
  | .session _ =>
      let nonEmpty := t.system.agent.incomingMessageQueue.isEmpty ∧
        ¬ system.agent.incomingMessageQueue.isEmpty
      some { t with system := system, epoch := if nonEmpty then t.epoch + 1 else t.epoch }
  | .poster =>
      let scheduled := if t.system.poster = .callOnForegroundThread then [t.epoch] else []
      some { t with system := system, tasks := t.tasks ++ scheduled }
  | .v8 .task =>
      if move.2 < t.tasks.length then
        some { t with system := system, tasks := t.tasks.eraseIdx move.2 }
      else
        none
  | _ => some { t with system := system }

def step (multiByteToWideChar : MultiByteToWideChar) (t : Tracked) (move : Label × Nat) :
    Option Tracked :=
  (t.system.step multiByteToWideChar move.1).bind (t.track move)

variable {t t' : Tracked} {move : Label × Nat}

/-- The task of this epoch is about to be scheduled or has not run yet. -/
def TaskAhead (t : Tracked) : Prop :=
  t.system.poster = .callOnForegroundThread ∨ t.epoch ∈ t.tasks

instance (t : Tracked) : Decidable t.TaskAhead :=
  inferInstanceAs (Decidable (_ ∨ _))

/-- A message in the queue is announced, or `P` holds of the system. -/
def AnnouncedOr (P : System → Prop) (t : Tracked) : Prop :=
  t.system.agent.incomingMessageQueue ≠ [] → P t.system ∨ t.TaskAhead

structure Inv (multiByteToWideChar : MultiByteToWideChar) (t : Tracked) : Prop where
  wellFormed : t.system.WellFormed multiByteToWideChar
  finishOnTop : t.system.FinishOnTop
  counted : t.tasks.length = t.system.foregroundTasks
  announced : t.AnnouncedOr Draining

theorem Inv.init : init.Inv multiByteToWideChar where
  wellFormed := WellFormed.init
  finishOnTop := by simp [FinishOnTop, Tracked.init, System.init]
  counted := rfl
  announced := fun h => absurd rfl h

theorem track_system {system : System} (h : t.track move system = some t') :
    t'.system = system := by
  unfold track at h
  split at h
  · cases h
    rfl
  · cases h
    rfl
  · split at h <;> cases h
    rfl
  · cases h
    rfl

/-- A step of the tracked system is one of the system. -/
theorem step_iff : t.step multiByteToWideChar move = some t' ↔
    t.system.step multiByteToWideChar move.1 = some t'.system ∧
      t.track move t'.system = some t' := by
  rw [step, Option.bind_eq_some_iff]
  constructor
  · rintro ⟨system, hsystem, htrack⟩
    obtain rfl := track_system htrack
    exact ⟨hsystem, htrack⟩
  · rintro ⟨hsystem, htrack⟩
    exact ⟨t'.system, hsystem, htrack⟩

theorem step_task (hstep : s.step multiByteToWideChar (.v8 .task) = some s') :
    s.foregroundTasks = s'.foregroundTasks + 1 := by
  have hnone := (step_transition hstep).1
  rw [System.step, if_neg (by simp [hnone])] at hstep
  dsimp only [v8Step] at hstep
  split at hstep
  · split at hstep
    · cases hstep
    · rename_i hscheduled
      obtain rfl := Option.some.inj hstep
      have hcount := congrArg Prod.snd (callDispatchMessages_announced
        { s with foregroundTasks := s.foregroundTasks - 1 })
      simp only [System.announced] at hcount
      omega
  · cases hstep

/-- A task that runs makes a call, unless one is active already. -/
theorem draining_of_task (hguard : s.Guarded) (hfinish : s.FinishOnTop)
    (hstep : s.step multiByteToWideChar (.v8 .task) = some s') : s'.Draining := by
  have hnone := (step_transition hstep).1
  rw [System.step, if_neg (by simp [hnone])] at hstep
  dsimp only [v8Step] at hstep
  split at hstep
  · rename_i htop
    split at hstep
    · cases hstep
    · obtain rfl := Option.some.inj hstep
      cases hflag : s.agent.dispatchingMessages with
      | true =>
          apply Draining.callDispatchMessages
          exact draining_of_v8OnTop hguard hfinish htop hflag
      | false =>
          rw [callDispatchMessages_of_not_dispatching (s := { s with
            foregroundTasks := s.foregroundTasks - 1 }) hflag]
          exact ⟨.dispatchSwap, List.mem_cons_self, rfl⟩
  · cases hstep

/-- Only an event of a session puts a message into the queue. -/
theorem queue_ne_nil_of_step (hstep : s.step multiByteToWideChar label = some s')
    (hsession : ∀ event, label ≠ .session event)
    (hqueue : s'.agent.incomingMessageQueue ≠ []) : s.agent.incomingMessageQueue ≠ [] := by
  obtain ⟨hnone, ht⟩ := step_transition hstep
  cases ht.queueStep hnone with
  | kept hsame => exact hsame ▸ hqueue
  | swapped hempty => exact absurd hempty hqueue
  | appended hlabel => exact absurd hlabel (hsession _)

/-- The steps that neither append, announce nor run a task. -/
theorem step_announced (hsession : ∀ event, label ≠ .session event) (hposter : label ≠ .poster)
    (htask : label ≠ .v8 .task) (hstep : s.step multiByteToWideChar label = some s') :
    s'.announced = s.announced := by
  have hnone := (step_transition hstep).1
  unfold System.step at hstep
  rw [if_neg (by simp [hnone])] at hstep
  cases label with
  | session event => exact absurd rfl (hsession event)
  | poster => exact absurd rfl hposter
  | js => exact jsStep_announced hnone hstep
  | v8 action =>
      refine v8Step_announced ?_ hstep
      rintro rfl
      exact htask rfl
  | wakeUp =>
      dsimp only at hstep
      split at hstep
      · cases hstep
      · cases hstep
        rfl

theorem step_poster (hstep : s.step multiByteToWideChar .poster = some s') :
    s'.foregroundTasks =
      s.foregroundTasks + if s.poster = .callOnForegroundThread then 1 else 0 := by
  have hnone := (step_transition hstep).1
  rw [System.step, if_neg (by simp [hnone])] at hstep
  dsimp only [posterStep] at hstep
  split at hstep
  · cases hstep
  · rename_i hposter
    cases hstep
    rw [if_pos hposter]
  · rename_i hposter
    cases hstep
    rw [hposter]
    rfl
  · rename_i hposter
    cases hstep
    rw [hposter]
    rfl

/-- What a move means for the announcement of the messages in the queue. -/
inductive Announcing (t : Tracked) (label : Label) (t' : Tracked) : Prop
  /-- An event of a session begins an epoch if it finds the queue empty. -/
  | session : t.system.poster = .idle → t'.tasks = t.tasks →
      t'.system.foregroundTasks = t.system.foregroundTasks →
        (t.system.agent.incomingMessageQueue = [] → t'.system.agent.incomingMessageQueue ≠ [] →
          t'.system.poster = .callOnForegroundThread) →
        (t.system.agent.incomingMessageQueue ≠ [] → t'.epoch = t.epoch) → Announcing t label t'
  | poster (scheduled : List Nat) : t'.epoch = t.epoch → t'.tasks = t.tasks ++ scheduled →
      t'.system.foregroundTasks = t.system.foregroundTasks + scheduled.length →
        (t.system.poster = .callOnForegroundThread → t.epoch ∈ scheduled) →
        (t'.system.agent.incomingMessageQueue ≠ [] →
          t.system.agent.incomingMessageQueue ≠ []) → Announcing t label t'
  | task : label = .v8 .task → t'.tasks.length + 1 = t.tasks.length →
      t.system.foregroundTasks = t'.system.foregroundTasks + 1 → Announcing t label t'
  | other : t'.system.announced = t.system.announced → t'.epoch = t.epoch → t'.tasks = t.tasks →
      (t'.system.agent.incomingMessageQueue ≠ [] →
        t.system.agent.incomingMessageQueue ≠ []) → Announcing t label t'

/-- The steps that neither append, announce nor run a task. -/
theorem announcing_other {label : Label} (hsession : ∀ event, label ≠ .session event)
    (hposter : label ≠ .poster) (htask : label ≠ .v8 .task)
    (hstep : t.system.step multiByteToWideChar label = some t'.system)
    (htrack : { t with system := t'.system } = t') : Announcing t label t' := by
  refine .other (step_announced hsession hposter htask hstep) (by rw [← htrack]) (by rw [← htrack]) ?_
  exact queue_ne_nil_of_step hstep hsession

theorem announcing (hstep : t.step multiByteToWideChar move = some t') :
    Announcing t move.1 t' := by
  obtain ⟨hsystem, htrack⟩ := step_iff.1 hstep
  obtain ⟨label, i⟩ := move
  cases label with
  | session event =>
      obtain ⟨hidle, _, htasks, hqueue⟩ := step_session hsystem
      have ht' := Option.some.inj htrack
      refine .session hidle (by rw [← ht']) htasks ?_ ?_
      · intro hempty hnonEmpty
        rcases hqueue with hsame | ⟨_, hcalls⟩
        · exact absurd (hsame.trans hempty) hnonEmpty
        · exact hcalls hempty
      · intro hnonEmpty
        rw [← ht']
        exact if_neg (by simp [hnonEmpty])
  | poster =>
      have ht' := Option.some.inj htrack
      refine .poster (if t.system.poster = .callOnForegroundThread then [t.epoch] else [])
        (by rw [← ht']) (by rw [← ht']) ?_ ?_ (queue_ne_nil_of_step hsystem nofun)
      · rw [step_poster hsystem]
        split <;> rfl
      · intro hcalls
        rw [if_pos hcalls]
        exact List.mem_singleton_self _
  | js => exact announcing_other nofun nofun nofun hsystem (Option.some.inj htrack)
  | wakeUp => exact announcing_other nofun nofun nofun hsystem (Option.some.inj htrack)
  | v8 action =>
      by_cases htask : action = .task
      · subst htask
        dsimp only [track] at htrack
        split at htrack
        · rename_i hi
          refine .task rfl ?_ (step_task hsystem)
          rw [← Option.some.inj htrack, List.length_eraseIdx_of_lt hi]
          exact Nat.sub_add_cancel (Nat.zero_lt_of_lt hi)
        · cases htrack
      · refine announcing_other nofun nofun (by simpa using htask) hsystem ?_
        cases action with
        | task => exact absurd rfl htask
        | _ => exact Option.some.inj htrack

/-- The messages stay announced if the steps keep `P`, and a task that runs leads to it. -/
theorem AnnouncedOr.step {P : System → Prop} (h : t.AnnouncedOr P)
    (hstep : t.step multiByteToWideChar move = some t')
    (hkeep : t'.system.agent.incomingMessageQueue ≠ [] → P t.system → P t'.system)
    (htask : move.1 = .v8 .task → P t'.system) : t'.AnnouncedOr P := by
  intro hqueue
  cases announcing hstep with
  | session hidle htasks _ hbegins hepoch =>
      by_cases hempty : t.system.agent.incomingMessageQueue = []
      · -- a new epoch, which begins with its announcement
        exact Or.inr (Or.inl (hbegins hempty hqueue))
      · rcases h hempty with hholds | hcalls | hscheduled
        · exact Or.inl (hkeep hqueue hholds)
        · cases hidle.symm.trans hcalls
        · right; right
          rwa [hepoch hempty, htasks]
  | poster scheduled hepoch htasks _ hcalls hbefore =>
      rcases h (hbefore hqueue) with hholds | hcalling | hscheduled
      · exact Or.inl (hkeep hqueue hholds)
      · right; right
        rw [hepoch, htasks]
        exact List.mem_append_right _ (hcalls hcalling)
      · right; right
        rw [hepoch, htasks]
        exact List.mem_append_left _ hscheduled
  | task hlabel => exact Or.inl (htask hlabel)
  | other hsame hepoch htasks hbefore =>
      refine (h (hbefore hqueue)).imp (hkeep hqueue) ?_
      rintro (hcalls | hscheduled)
      · exact Or.inl ((congrArg Prod.fst hsame).trans hcalls)
      · right
        rwa [hepoch, htasks]

theorem Inv.step (h : t.Inv multiByteToWideChar)
    (hstep : t.step multiByteToWideChar move = some t') : t'.Inv multiByteToWideChar := by
  obtain ⟨hsystem, _⟩ := step_iff.1 hstep
  obtain ⟨hnone, ht⟩ := step_transition hsystem
  refine ⟨h.wellFormed.step hsystem, ht.finishOnTop hnone h.finishOnTop, ?_, ?_⟩
  · have hcount := h.counted
    cases announcing hstep with
    | session _ htasks hforeground => rw [htasks, hforeground, hcount]
    | poster scheduled _ htasks hforeground =>
        rw [htasks, hforeground, List.length_append, hcount]
    | task _ hless hforeground => omega
    | other hsame _ htasks =>
        rw [htasks, hcount]
        exact (congrArg Prod.snd hsame).symm
  · refine h.announced.step hstep (fun hqueue hdraining => hdraining.step hsystem hqueue) ?_
    intro htask
    rw [htask] at hsystem
    exact draining_of_task h.wellFormed.guarded h.finishOnTop hsystem

theorem inv_of_run {moves : List (Label × Nat)}
    (hrun : Run (Tracked.step multiByteToWideChar) Tracked.init moves t) :
    t.Inv multiByteToWideChar :=
  Run.invariant (P := Inv multiByteToWideChar) Inv.init (fun _ _ _ h hstep => h.step hstep) hrun

/-- Tracking the tasks does not restrict the system: every run is the run of a tracked one. -/
theorem exists_tracked_run {labels : List Label}
    (hrun : Run (System.step multiByteToWideChar) System.init labels s) :
    ∃ moves t, moves.map Prod.fst = labels ∧
      Run (Tracked.step multiByteToWideChar) Tracked.init moves t ∧ t.system = s := by
  refine Run.induction (motive := fun labels s => ∃ moves t, moves.map Prod.fst = labels ∧
    Run (Tracked.step multiByteToWideChar) Tracked.init moves t ∧ t.system = s) ?_ ?_ hrun
  · exact ⟨[], Tracked.init, rfl, Run.nil_iff.2 rfl, rfl⟩
  · rintro labels _ label u _ hstep ⟨moves, t, rfl, hmoves, rfl⟩
    -- if a task runs, the first one that was scheduled does
    suffices htrack : ∃ t', t.track (label, 0) u = some t' by
      obtain ⟨t', ht'⟩ := htrack
      obtain rfl := track_system ht'
      exact ⟨moves ++ [(label, 0)], t', by simp, hmoves.concat (step_iff.2 ⟨hstep, ht'⟩), rfl⟩
    unfold track
    split
    · exact ⟨_, rfl⟩
    · exact ⟨_, rfl⟩
    · rename_i htask
      obtain rfl : label = .v8 .task := htask
      rw [if_pos (by rw [(inv_of_run hmoves).counted, step_task hstep]; exact Nat.succ_pos _)]
      exact ⟨_, rfl⟩
    · exact ⟨_, rfl⟩

/-! ## Delivery -/

/-- No message is lost or duplicated. -/
structure Delivers (multiByteToWideChar : MultiByteToWideChar) (t : Tracked) : Prop where
  /-- What was dispatched is what was appended first, in that order. -/
  order : t.system.dispatched <+: t.system.posted
  /-- Every other message appended is in a batch or in the queue, once. -/
  rest : t.system.posted = t.system.dispatched ++
    (t.system.outstanding ++ t.system.agent.incomingMessageQueue)
  /-- A message in the queue is on its way: an active call will swap the queue again, or the task is
  ahead that was scheduled when the queue became non-empty. -/
  onItsWay : t.AnnouncedOr (WillSwap multiByteToWideChar)

/-- A pause that begins inside a call leaves no message in the queue that only this call would come
to. -/
def StrandsNothing (t : Tracked) (move : Label × Nat) : Prop :=
  t.system.entersPause move.1 → t.system.agent.dispatchingMessages = true →
    t.system.agent.incomingMessageQueue ≠ [] → t.TaskAhead

instance (t : Tracked) : DecidablePred t.StrandsNothing :=
  fun _ => inferInstanceAs (Decidable (_ → _ → _ → _))

/-- Either the call that is active goes on by itself, or the messages wait for a task. -/
structure Kept (multiByteToWideChar : MultiByteToWideChar) (t : Tracked) : Prop where
  inv : t.Inv multiByteToWideChar
  place : t.system.Clear ∨
    (∃ rest dispatched, Spinning rest dispatched t.system) ∧ t.AnnouncedOr fun _ => False

theorem Kept.delivers (h : t.Kept multiByteToWideChar) : t.Delivers multiByteToWideChar := by
  have hfifo : t.system.posted = t.system.dispatched ++
      (t.system.outstanding ++ t.system.agent.incomingMessageQueue) := h.inv.wellFormed.fifo
  refine ⟨hfifo ▸ List.prefix_append _ _, hfifo, fun hqueue => ?_⟩
  rcases h.place with hclear | ⟨_, hannounced⟩
  · exact (h.inv.announced hqueue).imp_left fun hdraining =>
      hdraining.willSwap h.inv.wellFormed.guarded hclear
  · exact (hannounced hqueue).imp_left False.elim

theorem TaskAhead.of_entersPause (h : t'.TaskAhead) (henters : t.system.entersPause move.1)
    (hposter : t'.system.poster = t.system.poster)
    (hstep : t.step multiByteToWideChar move = some t') : t.TaskAhead := by
  obtain ⟨_, htrack⟩ := step_iff.1 hstep
  have ht' : { t with system := t'.system } = t' := by
    obtain ⟨label, i⟩ := move
    change t.system.entersPause label at henters
    unfold entersPause at henters
    split at henters
    · exact Option.some.inj htrack
    · exact Option.some.inj htrack
    · exact henters.elim
  refine h.imp hposter.symm.trans fun hscheduled => ?_
  rw [← ht'] at hscheduled
  exact hscheduled

theorem Kept.step (h : t.Kept multiByteToWideChar) (hsafe : t.StrandsNothing move)
    (hstep : t.step multiByteToWideChar move = some t') : t'.Kept multiByteToWideChar := by
  obtain ⟨hsystem, _⟩ := step_iff.1 hstep
  obtain ⟨hnone, ht⟩ := step_transition hsystem
  refine ⟨h.inv.step hstep, ?_⟩
  rcases h.place with hclear | ⟨⟨rest, dispatched, hspinning⟩, hannounced⟩
  · by_cases hinside : t.system.entersPause move.1 ∧ t.system.agent.dispatchingMessages = true
    · obtain ⟨henters, hflag⟩ := hinside
      obtain ⟨hspinning, _⟩ := spinning_of_entersPause henters hflag hsystem
      refine Or.inr ⟨⟨_, _, hspinning⟩, ?_⟩
      have hannounced : t.AnnouncedOr fun _ => False :=
        fun hqueue => Or.inr (hsafe henters hflag hqueue)
      refine hannounced.step hstep (fun _ => id) fun htask => ?_
      rw [htask] at henters
      exact henters
    · exact Or.inl (ht.clear hnone (fun henters => by simpa [henters] using hinside) hclear)
  · refine Or.inr ⟨⟨rest, dispatched, hspinning.step hsystem⟩, ?_⟩
    refine hannounced.step hstep (fun _ => id) fun htask => ?_
    -- no task runs under the loop
    rw [htask] at hsystem
    unfold System.step v8Step at hsystem
    rw [hnone, hspinning.looping.not_v8OnTop] at hsystem
    cases hsystem

/-- A pause that strands a message breaks the announcement at once. -/
theorem not_delivers_of_not_strandsNothing (hstrands : ¬ t.StrandsNothing move)
    (hstep : t.step multiByteToWideChar move = some t') : ¬ t'.Delivers multiByteToWideChar := by
  intro hdelivers
  refine hstrands fun henters hflag hqueue => ?_
  obtain ⟨hspinning, hnone, hsame, hkept⟩ :=
    spinning_of_entersPause henters hflag (step_iff.1 hstep).1
  rcases hdelivers.onItsWay (hkept ▸ hqueue) with hswaps | hahead
  · exact absurd hswaps (hspinning.not_willSwap hnone)
  · exact hahead.of_entersPause henters (congrArg Prod.fst hsame) hstep

/-- A run delivers in every state if and only if none of its pauses strands a message. -/
theorem delivers_iff (multiByteToWideChar : MultiByteToWideChar) (moves : List (Label × Nat))
    (t : Tracked) (hrun : Run (Tracked.step multiByteToWideChar) Tracked.init moves t) :
    Throughout (Tracked.step multiByteToWideChar) (Delivers multiByteToWideChar) Tracked.init moves ↔
      Along (Tracked.step multiByteToWideChar) StrandsNothing Tracked.init moves :=
  Run.throughout_iff_along (Kept multiByteToWideChar) ⟨Inv.init, Or.inl Clear.init⟩
    (fun _ h => h.delivers) (fun _ _ _ h hsafe hstep => h.step hsafe hstep)
    (fun _ _ _ _ hstrands hstep => not_delivers_of_not_strandsNothing hstrands hstep) hrun

/-- A second message comes while V8 has the first one; its task and the interrupts find the call
active and return. -/
def postedInside : List (Label × Nat) :=
  pauseStart.map (·, 0) ++
    [(.session (.messageReceived 1 (ascii "[]")), 0), (.poster, 0), (.poster, 0), (.poster, 0),
      (.v8 .task, 0), (.v8 .task, 0), (.v8 .interrupt, 0), (.v8 .interrupt, 0)]

/-- V8 returns, the call swaps the queue again, and the program pauses when the call is over. -/
def dispatchedInside : List (Label × Nat) :=
  postedInside ++ [(.v8 .returns, 0), (.js, 0), (.js, 0), (.js, 0), (.v8 .returns, 0), (.js, 0),
    (.js, 0), (.js, 0), (.js, 0), (.v8 .pause, 0)]

theorem delivers_dispatchedInside :
    ∃ t, Run (Tracked.step .decoding) Tracked.init dispatchedInside t ∧
      t.system.dispatched.length = 3 ∧ t.system.stack = [.pauseLoop] ∧
        Throughout (Tracked.step .decoding) (Delivers .decoding) Tracked.init dispatchedInside := by
  have hend : ∃ t ∈ dispatchedInside.foldlM (Tracked.step .decoding) Tracked.init,
      t.system.dispatched.length = 3 ∧ t.system.stack = [.pauseLoop] := by
    decide +kernel
  obtain ⟨t, hrun, hdispatched, hstack⟩ := hend
  have hsafe : Along (Tracked.step .decoding) StrandsNothing Tracked.init dispatchedInside := by
    decide +kernel
  exact ⟨t, hrun, hdispatched, hstack, (delivers_iff .decoding _ t hrun).2 hsafe⟩

/-- V8 pauses inside the first message; the second one stays in the queue. -/
theorem not_delivers_pausedInside :
    ¬ ∀ moves t, Run (Tracked.step .decoding) Tracked.init moves t → t.Delivers .decoding := by
  intro h
  have hend : ∃ t ∈ postedInside.foldlM (Tracked.step .decoding) Tracked.init,
      ¬ t.StrandsNothing (.v8 .pause, 0) ∧
        ∃ t' ∈ t.step .decoding (.v8 .pause, 0), t'.system.poster = .idle ∧ t'.tasks = [] := by
    decide +kernel
  obtain ⟨t, hrun, hstrands, t', hstep, _⟩ := hend
  exact not_delivers_of_not_strandsNothing hstrands hstep (h _ t' (Run.concat hrun hstep))

end Tracked

end System

end Inspector
end V8JsiRuntime
