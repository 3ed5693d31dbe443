import V8JsiRuntime.Lib.CondVar
import V8JsiRuntime.Inspector.AgentInvariant

/-!
# FrontendWait — the wake-up of a JS thread in `WaitForFrontendMessage`

The queue is guarded by another mutex than the wait, and `NotifyMessageReceived` takes neither.  A
message that is appended and announced while the JS thread has seen an empty queue and does not sleep
yet wakes nobody.  Without such a notification no wake-up is lost.
-/

namespace V8JsiRuntime
namespace Inspector

open Lib

/-- A frame of `WaitForFrontendMessage` as a place in the wait; only the JS thread takes
`incoming_message_cond_m_`. -/
def Frame.wait : Frame → WaitPlace
  | waitCheck | waitPredicate => .lock
  | waitBlock => .block
  | waitBlocked => .blocked
  | _ => .returned

theorem Frame.not_committed_of_not_isWait {frame : Frame} (h : frame.isWait = false) :
    ¬ frame.wait.Committed := by
  cases frame with
  | waitBlock | waitBlocked => cases h
  | waitCheck | waitPredicate => exact WaitPlace.not_committed_lock
  | _ => exact WaitPlace.not_committed_returned

namespace System

/-- Where the JS thread is. -/
def waitPlace (stack : List Frame) : WaitPlace :=
  match stack with
  | [] => .returned
  | frame :: _ => frame.wait

def incomingMessageCond : CondVar System where
  place s := waitPlace s.stack
  ready s := s.agent.incomingMessageQueue ≠ []
  pending s := s.poster ≠ .idle

/-- The step is no notification for a message that the JS thread has not seen, given when it has
evaluated its predicate and does not sleep yet. -/
def Noticed (s : System) (label : Label) : Prop :=
  label = .poster → s.poster = .notifyMessageReceived → s.agent.incomingMessageQueue ≠ [] →
    waitPlace s.stack ≠ .block

instance (s : System) : DecidablePred s.Noticed :=
  fun _ => inferInstanceAs (Decidable (_ → _))

variable {multiByteToWideChar : MultiByteToWideChar} {s s' : System} {label : Label}

/-! ## Steps of the JS thread -/

theorem not_committed_of_settled {stack : List Frame} (h : Settled stack) :
    ¬ (waitPlace stack).Committed := by
  cases stack with
  | nil => exact WaitPlace.not_committed_returned
  | cons frame stack =>
      exact Frame.not_committed_of_not_isWait (h frame List.mem_cons_self).1

theorem not_committed_callDispatchMessages (h : ¬ (waitPlace s.stack).Committed) :
    ¬ (waitPlace s.callDispatchMessages.stack).Committed := by
  unfold callDispatchMessages
  split
  · exact h
  · exact WaitPlace.not_committed_returned

theorem not_committed_runMessageLoopOnPause (h : ¬ (waitPlace s.stack).Committed) :
    ¬ (waitPlace s.runMessageLoopOnPause.stack).Committed := by
  unfold runMessageLoopOnPause
  split
  · exact h
  · exact WaitPlace.not_committed_returned

/-- A function that does not wait can at most begin to wait. -/
theorem Transition.not_committed (ht : Transition multiByteToWideChar s label s')
    (hnone : s.fault = none) (hplace : s.Place)
    (htop : ∀ frame stack, s.stack = frame :: stack → frame.isWait = false) :
    ¬ (waitPlace s'.stack).Committed := by
  have hbefore : ¬ (waitPlace s.stack).Committed := by
    cases hstack : s.stack with
    | nil => exact WaitPlace.not_committed_returned
    | cons frame stack => exact Frame.not_committed_of_not_isWait (htop frame stack hstack)
  cases ht with
  | elsewhere | appended | quits => exact hbefore
  | waits hstack hframe | waited hstack hframe => cases (htop _ _ hstack).symm.trans hframe
  | accepting hstack | batchDone hstack => exact WaitPlace.not_committed_returned
  | loops hstack | called hstack => exact not_committed_callDispatchMessages hbefore
  -- what is left below does not wait
  | released hstack | pauseEnds hstack | finished hstack | returns hstack =>
      exact not_committed_of_settled (hplace.of_frame hstack rfl rfl)
  -- it has to take the mutex first
  | pauseWaits hstack => exact WaitPlace.not_committed_lock
  | pauseDispatches hstack =>
      exact not_committed_callDispatchMessages WaitPlace.not_committed_returned
  | @swapped stack frame hstack hframe =>
      refine Frame.not_committed_of_not_isWait (Bool.eq_false_iff.2 fun hwait => ?_)
      cases (Frame.isDispatch_of_isWait hwait).symm.trans hframe
  | @dispatches m tasks stack hstack =>
      obtain ⟨_, _, _, _, _, hcalled⟩ := (batch_outcome hnone m tasks stack).frame
      rcases hcalled with hcalled | hcalled
      · rw [hcalled]
        exact WaitPlace.not_committed_returned
      · rw [hcalled]
        exact WaitPlace.not_committed_returned
  | pauses htop => exact not_committed_runMessageLoopOnPause hbefore
  | shutsDown htop => exact not_committed_runMessageLoopOnPause hbefore

/-- Only the server thread puts messages into the queue. -/
theorem Transition.queue (ht : Transition multiByteToWideChar s label s') (hnone : s.fault = none)
    (hlabel : ∀ event, label ≠ .session event) :
    s'.agent.incomingMessageQueue = s.agent.incomingMessageQueue ∨
      s'.agent.incomingMessageQueue = [] := by
  cases ht with
  | appended => exact absurd rfl (hlabel _)
  -- `SwapBehindLock` leaves the queue empty
  | swapped => exact Or.inr rfl
  | loops | called => exact Or.inl (callDispatchMessages_queue _)
  | pauseDispatches => exact Or.inl (callDispatchMessages_queue _)
  | @dispatches m tasks stack hstack =>
      exact Or.inl (batch_outcome hnone m tasks stack).frame.2.2.1
  | pauses | shutsDown => exact Or.inl (runMessageLoopOnPause_queue _)
  | _ => exact Or.inl rfl

theorem Transition.ready (ht : Transition multiByteToWideChar s label s') (hnone : s.fault = none)
    (hlabel : ∀ event, label ≠ .session event) (hready : incomingMessageCond.ready s') :
    incomingMessageCond.ready s := by
  rcases ht.queue hnone hlabel with hsame | hempty
  · exact fun hnil => hready (hsame.trans hnil)
  · exact absurd hempty hready

/-! ## Every step keeps the JS thread informed -/

theorem keeps_session (s : System) (event : SessionEvent) :
    incomingMessageCond.Keeps s (s.postIncomingMessage multiByteToWideChar event) := by
  obtain ⟨delegate, hdelegate⟩ := notifyDelegate_eq s event
  unfold postIncomingMessage
  rw [hdelegate]
  cases utf8ToStringView multiByteToWideChar event.text with
  | error error => exact .of_eq rfl Iff.rfl Iff.rfl
  | ok view =>
      -- the poster has its notification to give, with or without a task to schedule first
      refine .of_announce rfl ?_
      show (if _ then Poster.callOnForegroundThread else .notifyMessageReceived) ≠ .idle
      split
      · intro h
        cases h
      · intro h
        cases h

theorem waitPlace_wake (stack : List Frame) :
    waitPlace (wake stack) = (waitPlace stack).notifyAll := by
  cases stack with
  | nil => rfl
  | cons frame stack =>
      cases frame with
      | _ => rfl

theorem keeps_posterStep (hnoticed : s.Noticed .poster) (hstep : s.posterStep = some s') :
    incomingMessageCond.Keeps s s' ∨ ¬ incomingMessageCond.ready s' := by
  unfold posterStep at hstep
  split at hstep
  · cases hstep
  · rename_i hposter
    obtain rfl := Option.some.inj hstep
    exact Or.inl (.of_eq rfl Iff.rfl (by simp [incomingMessageCond, hposter]))
  · rename_i hposter
    obtain rfl := Option.some.inj hstep
    exact Or.inl (.of_eq rfl Iff.rfl (by simp [incomingMessageCond, hposter]))
  · rename_i hposter
    obtain rfl := Option.some.inj hstep
    -- a notification about a queue that was drained meanwhile may well be missed
    by_cases hqueue : s.agent.incomingMessageQueue = []
    · exact Or.inr (not_not_intro hqueue)
    · exact Or.inl (.of_notify (waitPlace_wake _) Iff.rfl (hnoticed rfl hposter hqueue))

/-- In the wait itself the thread goes to sleep only when the queue is empty. -/
theorem keeps_wait {frame : Frame} {stack : List Frame} (hplace : s.Place)
    (hstack : s.stack = frame :: stack) (hwait : frame.isWait = true)
    (hstep : s.jsStep = some s') : incomingMessageCond.Keeps s s' := by
  obtain ⟨waiter, rest, rfl, hwaiter, _⟩ := hplace.of_wait hstack hwait
  have hback : ¬ (waitPlace (waiter :: rest)).Committed := by
    refine Frame.not_committed_of_not_isWait ?_
    cases waiter with
    | waitForDebugger | pauseDispatch => rfl
    | _ => cases hwaiter
  unfold jsStep at hstep
  rw [hstack] at hstep
  cases frame with
  | waitCheck =>
      dsimp only at hstep
      split at hstep
      · obtain rfl := Option.some.inj hstep
        exact .of_away WaitPlace.not_committed_lock id
      · obtain rfl := Option.some.inj hstep
        exact .of_away hback id
  | waitPredicate =>
      dsimp only at hstep
      split at hstep
      · rename_i hempty
        obtain rfl := Option.some.inj hstep
        -- the thread commits itself, with an empty queue
        exact ⟨fun _ => Or.inr (not_not_intro (List.isEmpty_iff.1 hempty)), Or.inl, Or.inl⟩
      · obtain rfl := Option.some.inj hstep
        exact .of_away hback id
  | waitBlock =>
      obtain rfl := Option.some.inj hstep
      refine ⟨fun _ => Or.inl (Or.inl ?_), Or.inl, Or.inl⟩
      show waitPlace s.stack = .block
      rw [hstack]
      rfl
  | waitBlocked => cases hstep
  | _ => cases hwait

/-- A step of the JS thread outside the wait neither fills the queue nor goes to sleep. -/
theorem announced_outside (ht : Transition multiByteToWideChar s label s') (hnone : s.fault = none)
    (hplace : s.Place) (h : incomingMessageCond.Announced s)
    (hlabel : ∀ event, label ≠ .session event)
    (htop : ∀ frame stack, s.stack = frame :: stack → frame.isWait = false) :
    incomingMessageCond.Announced s' := by
  have hkeeps : incomingMessageCond.Keeps s s' :=
    .of_away (ht.not_committed hnone hplace htop) (ht.ready hnone hlabel)
  exact hkeeps.announced h

theorem announced_step (hplace : s.Place) (h : incomingMessageCond.Announced s)
    (hnoticed : s.Noticed label) (hstep : step multiByteToWideChar s label = some s') :
    incomingMessageCond.Announced s' := by
  obtain ⟨hnone, ht⟩ := step_transition hstep
  unfold step at hstep
  rw [if_neg (by simp [hnone])] at hstep
  cases label with
  | session event =>
      dsimp only at hstep
      split at hstep
      · obtain rfl := Option.some.inj hstep
        exact (keeps_session s event).announced h
      · cases hstep
  | poster =>
      rcases keeps_posterStep hnoticed hstep with hkeeps | hnot
      · exact hkeeps.announced h
      · exact fun _ hready => absurd hready hnot
  | js =>
      by_cases hwaits : ∃ frame stack, s.stack = frame :: stack ∧ frame.isWait = true
      · obtain ⟨frame, stack, hstack, hwait⟩ := hwaits
        exact (keeps_wait hplace hstack hwait hstep).announced h
      · refine announced_outside ht hnone hplace h nofun ?_
        exact fun frame stack hstack => Bool.eq_false_iff.2 fun hwait =>
          hwaits ⟨frame, stack, hstack, hwait⟩
  | v8 action =>
      refine announced_outside ht hnone hplace h nofun ?_
      intro frame stack hstack
      refine Bool.eq_false_iff.2 fun hwait => ?_
      dsimp only [v8Step] at hstep
      -- V8 does not run while the thread waits
      rw [hstack] at hstep
      cases frame with
      | waitCheck | waitPredicate | waitBlock | waitBlocked => cases hstep
      | _ => cases hwait
  | wakeUp =>
      dsimp only at hstep
      split at hstep
      · cases hstep
      · obtain rfl := Option.some.inj hstep
        exact CondVar.Keeps.announced (.of_wake (waitPlace_wake _) Iff.rfl Iff.rfl) h

/-! ## Runs -/

/-- In a run without a notification in the gap no wake-up of the JS thread is lost. -/
theorem neverLost (multiByteToWideChar : MultiByteToWideChar) (labels : List Label)
    (hnoticed : Along (step multiByteToWideChar) Noticed init labels) :
    Throughout (step multiByteToWideChar) (fun s => ¬ incomingMessageCond.Lost s) init labels := by
  intro visited s hprefix hrun
  -- where the JS thread can be is an invariant of its own
  have hkept : s.Place ∧ incomingMessageCond.Announced s := by
    refine hrun.invariant_along (I := fun s => s.Place ∧ incomingMessageCond.Announced s) ?_ ?_
      (hnoticed.of_prefix hprefix)
    · exact ⟨.waiting rfl rfl rfl (fun _ h => absurd h List.not_mem_nil) (fun h => by cases h),
        fun h => absurd h WaitPlace.not_committed_lock⟩
    · intro t label u ⟨hplace, hannounced⟩ hlabel hstep
      obtain ⟨hnone, ht⟩ := step_transition hstep
      exact ⟨ht.place hnone hplace, announced_step hplace hannounced hlabel hstep⟩
  exact hkept.2.not_lost

/-- The first message comes while the JS thread sleeps. -/
def messageAfterBlock : List Label :=
  .replicate 3 .js ++ [.session (.startSession 1)] ++ .replicate 3 .poster ++ [.js]

theorem neverLost_messageAfterBlock :
    (∃ s ∈ messageAfterBlock.foldlM (step .decoding) init, s.stack = [.waitForDebugger]) ∧
      Throughout (step .decoding) (fun s => ¬ incomingMessageCond.Lost s) init
        messageAfterBlock :=
  ⟨by decide +kernel, neverLost .decoding messageAfterBlock (by decide +kernel)⟩

/-- A notification in the gap is lost as soon as the JS thread takes its next step. -/
theorem lost_of_not_noticed (hnot : ¬ s.Noticed label)
    (hstep : step multiByteToWideChar s label = some s') :
    ∃ s'', step multiByteToWideChar s' .js = some s'' ∧ incomingMessageCond.Lost s'' := by
  have hcases : label = .poster ∧ s.poster = .notifyMessageReceived ∧
      s.agent.incomingMessageQueue ≠ [] ∧ waitPlace s.stack = .block := by
    unfold Noticed at hnot
    push Not at hnot
    exact hnot
  obtain ⟨rfl, hposter, hqueue, hplace⟩ := hcases
  obtain ⟨hnone, _⟩ := step_transition hstep
  obtain ⟨stack, hstack⟩ : ∃ stack, s.stack = .waitBlock :: stack := by
    cases hstack : s.stack with
    | nil =>
        rw [hstack] at hplace
        cases hplace
    | cons frame stack =>
        rw [hstack] at hplace
        cases frame with
        | waitBlock => exact ⟨stack, rfl⟩
        | _ => cases hplace
  unfold step at hstep
  rw [if_neg (by simp [hnone])] at hstep
  dsimp only [posterStep] at hstep
  rw [hposter] at hstep
  obtain rfl := Option.some.inj hstep
  refine ⟨{ s with stack := .waitBlocked :: stack, poster := .idle },
    Eq.trans (step_js ?_) ?_, rfl, hqueue, not_not_intro rfl⟩
  · exact hnone
  · rw [hstack]
    rfl

/-- The message comes when the JS thread has seen the empty queue and does not sleep yet. -/
def messageBeforeBlock : List Label :=
  .replicate 2 .js ++ [.session (.startSession 1)] ++ .replicate 3 .poster ++ [.js]

theorem not_neverLost_messageBeforeBlock :
    ¬ ∀ labels s, Run (step .decoding) init labels s → ¬ incomingMessageCond.Lost s := by
  intro h
  have hend : ∃ s ∈ messageBeforeBlock.foldlM (step .decoding) init,
      waitPlace s.stack = .blocked ∧ s.agent.incomingMessageQueue ≠ [] ∧ s.poster = .idle := by
    decide +kernel
  obtain ⟨s, hrun, hblocked, hqueue, hposter⟩ := hend
  exact h _ s hrun ⟨hblocked, hqueue, not_not_intro hposter⟩

end System

end Inspector
end V8JsiRuntime
