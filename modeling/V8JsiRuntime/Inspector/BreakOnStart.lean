import V8JsiRuntime.Inspector.AgentControl

/-!
# BreakOnStart — what releases the program that waits for a debugger

`waitForDebugger` dispatches messages until `waiting_for_frontend_` is false.  Each message of the
frontend overwrites the flag while it is set, so that it says of all messages so far whether every
one of them names `Runtime.runIfWaitingForDebugger`.
-/

namespace V8JsiRuntime
namespace Inspector

open Lib

/-- The text contains the name of the command that starts the program. -/
def Mentions (text : Bytes) : Prop :=
  ascii "Runtime.runIfWaitingForDebugger" <:+: text

instance : DecidablePred Mentions :=
  fun _ => inferInstanceAs (Decidable (_ <:+: _))

/-- The texts of a history that are no control events. -/
def frontendTexts (messages : List QueuedMessage) : List Bytes :=
  (messages.filter fun m => m.event.control = none).map fun m => m.event.text

theorem frontendTexts_concat_control {messages : List QueuedMessage} {m : QueuedMessage}
    {control : Control} (h : m.event.control = some control) :
    frontendTexts (messages ++ [m]) = frontendTexts messages := by
  simp [frontendTexts, h]

theorem frontendTexts_concat_text {messages : List QueuedMessage} {m : QueuedMessage}
    (h : m.event.control = none) :
    frontendTexts (messages ++ [m]) = frontendTexts messages ++ [m.event.text] := by
  simp [frontendTexts, h]

namespace System

variable {multiByteToWideChar : MultiByteToWideChar} {s s' : System} {label : Label}

/-- The flag says that all messages of the frontend so far name the command. -/
def FlagTracks (s : System) : Prop :=
  s.agent.waitingForFrontend = (frontendTexts s.dispatched).all fun text => decide (Mentions text)

/-- What one message does to the flag. -/
theorem FlagTracks.outcome {m : QueuedMessage}
    (hview : utf8ToStringView multiByteToWideChar m.event.text = .ok m.message)
    (houtcome : Outcome s m s') (h : s.FlagTracks) : s'.FlagTracks := by
  have hread := stringViewToUtf8_utf8ToStringView hview
  -- control events neither touch the flag nor count as texts
  have hcontrol : ∀ control, m.event.control = some control →
      s.agent.waitingForFrontend =
        (frontendTexts (s.dispatched ++ [m])).all fun text => decide (Mentions text) := by
    intro control hsome
    rw [frontendTexts_concat_control hsome]
    exact h
  cases houtcome with
  | unreadable hunreadable => exact absurd hread (hunreadable _)
  | connected htag =>
      exact hcontrol _ (SessionEvent.control_connect.2 ((messageTag_view hview (Or.inl rfl)).1 htag))
  | connectFails htag =>
      exact hcontrol _ (SessionEvent.control_connect.2 ((messageTag_view hview (Or.inl rfl)).1 htag))
  | disconnected htag =>
      exact hcontrol _
        (SessionEvent.control_disconnect.2 ((messageTag_view hview (Or.inr rfl)).1 htag))
  | disconnectFails htag =>
      exact hcontrol _
        (SessionEvent.control_disconnect.2 ((messageTag_view hview (Or.inr rfl)).1 htag))
  | @handed text waiting _ _ hconnect hdisconnect htext hwaiting =>
      have hnone : m.event.control = none := control_of_tags hview hconnect hdisconnect
      obtain rfl := Except.ok.inj (hread.symm.trans htext)
      show waiting = (frontendTexts (s.dispatched ++ [m])).all fun text => decide (Mentions text)
      rw [frontendTexts_concat_text hnone, List.all_append, List.all_cons, List.all_nil,
        Bool.and_true, hwaiting, h]
      rfl

theorem FlagTracks.step (hstep : System.step multiByteToWideChar s label = some s')
    (hwell : s.WellFormed multiByteToWideChar) (h : s.FlagTracks) : s'.FlagTracks := by
  obtain ⟨hnone, ht⟩ := step_transition hstep
  rcases ht.quiet hnone with hquiet | ⟨stack, _, rfl⟩ | ⟨m, tasks, stack, hstack, rfl, _⟩
  · unfold FlagTracks
    rw [hquiet.waitingForFrontend, hquiet.dispatched]
    exact h
  · exact h
  · obtain ⟨_, _, _, hview, houtcome⟩ :=
      next_outcome hwell (next_eq_some.2 ⟨tasks, stack, hstack⟩) hstep
    exact FlagTracks.outcome hview houtcome h

/-- After every run the flag is set exactly if all messages of the frontend name the command. -/
theorem flagTracks_of_run {labels : List Label}
    (hrun : Run (System.step multiByteToWideChar) init labels s) : s.FlagTracks := by
  have hall : s.FlagTracks ∧ s.WellFormed multiByteToWideChar := by
    refine Run.invariant (P := fun s => s.FlagTracks ∧ s.WellFormed multiByteToWideChar)
      ⟨rfl, .init⟩ ?_ hrun
    intro t label u ht hstep
    exact ⟨ht.1.step hstep ht.2, ht.2.step hstep⟩
  exact hall.1

/-- The loop of `waitForDebugger` goes round again exactly while the flag is set. -/
theorem loops_iff {stack : List Frame} (hnone : s.fault = none)
    (hstack : s.stack = .waitForDebuggerLoop :: stack) :
    System.step multiByteToWideChar s .js = some s.callDispatchMessages ↔
      s.agent.waitingForFrontend = true := by
  rw [step_js hnone]
  unfold jsStep
  rw [hstack]
  dsimp only
  constructor
  · intro h
    by_contra hflag
    rw [if_neg hflag] at h
    split at h
    · -- the loop was left, so its frame is gone
      have hleft := congrArg (fun t : System => t.stack.length) (Option.some.inj h)
      unfold callDispatchMessages at hleft
      split at hleft
      · simp [hstack] at hleft
      · simp only [hstack, List.length_cons] at hleft
        omega
    · have hfault := congrArg System.fault (Option.some.inj h)
      unfold callDispatchMessages at hfault
      split at hfault
      · exact absurd (hfault.trans hnone) nofun
      · exact absurd (hfault.trans hnone) nofun
  · intro hflag
    rw [if_pos hflag]

/-- The program waits until a message of the frontend names the command, and no longer. -/
structure BreaksOnStart (multiByteToWideChar : MultiByteToWideChar) (s : System) : Prop where
  flag : s.agent.waitingForFrontend = false ↔ ∃ text ∈ frontendTexts s.dispatched, Mentions text
  loop : ∀ stack, s.fault = none → s.stack = .waitForDebuggerLoop :: stack →
    (System.step multiByteToWideChar s .js = some s.callDispatchMessages ↔
      ¬ ∃ text ∈ frontendTexts s.dispatched, Mentions text)

/-- There was no message of the frontend yet, or there was one that names the command and one that
does not. -/
def Mixed (texts : List Bytes) : Prop :=
  texts = [] ∨ (∃ text ∈ texts, Mentions text) ∧ ∃ text ∈ texts, ¬ Mentions text

/-- Whether all and whether some texts name the command differ, unless there are none. -/
theorem mixed_iff (texts : List Bytes) :
    ((∃ text ∈ texts, ¬ Mentions text) ↔ ∃ text ∈ texts, Mentions text) ↔ Mixed texts := by
  constructor
  · intro h
    cases texts with
    | nil => exact Or.inl rfl
    | cons text texts =>
        right
        by_cases hmentions : Mentions text
        · have hsome : ∃ text' ∈ text :: texts, Mentions text' :=
            ⟨text, List.mem_cons_self, hmentions⟩
          exact ⟨hsome, h.2 hsome⟩
        · have hother : ∃ text' ∈ text :: texts, ¬ Mentions text' :=
            ⟨text, List.mem_cons_self, hmentions⟩
          exact ⟨h.1 hother, hother⟩
  · rintro (rfl | ⟨hsome, hother⟩)
    · simp
    · exact ⟨fun _ => hsome, fun _ => hother⟩

/-- After every run, the program waits as it should if and only if the messages were mixed. -/
theorem breaksOnStart_iff {labels : List Label}
    (hrun : Run (System.step multiByteToWideChar) init labels s) :
    s.BreaksOnStart multiByteToWideChar ↔ Mixed (frontendTexts s.dispatched) := by
  have hflag : s.agent.waitingForFrontend = false ↔
      ∃ text ∈ frontendTexts s.dispatched, ¬ Mentions text := by
    rw [flagTracks_of_run hrun]
    simp
  -- the code tracks "one does not name it", the property asks for "one does"
  rw [← mixed_iff, ← hflag]
  constructor
  · exact fun h => h.flag
  · intro h
    refine ⟨h, ?_⟩
    intro stack hnone hstack
    rw [loops_iff hnone hstack, ← h, Bool.not_eq_false]

/-- A session with the given texts, all of them dispatched. -/
def dispatchTexts (texts : List Bytes) : List Label :=
  [.session (.startSession 1), .poster, .poster, .poster] ++
    texts.flatMap (fun text => [.session (.messageReceived 1 text), .poster]) ++
      .replicate 5 .js ++ texts.flatMap fun _ => [.js, .v8 .returns]

theorem breaksOnStart_mixed :
    ∃ s, Run (System.step .decoding) init
        (dispatchTexts [ascii "{}", ascii "Runtime.runIfWaitingForDebugger"]) s ∧
      s.agent.waitingForFrontend = false ∧ s.BreaksOnStart .decoding := by
  have hend : ∃ s ∈ (dispatchTexts [ascii "{}", ascii "Runtime.runIfWaitingForDebugger"]).foldlM
      (System.step .decoding) init, s.agent.waitingForFrontend = false ∧
        frontendTexts s.dispatched = [ascii "{}", ascii "Runtime.runIfWaitingForDebugger"] := by
    decide +kernel
  obtain ⟨s, hrun, hflag, htexts⟩ := hend
  refine ⟨s, hrun, hflag, (breaksOnStart_iff hrun).2 (Or.inr ?_)⟩
  rw [htexts]
  exact ⟨⟨_, by simp, List.infix_rfl⟩, ascii "{}", by simp, by decide +kernel⟩

/-- One message that does not name the command releases the program. -/
theorem not_breaksOnStart_other :
    ¬ ∀ labels s, Run (System.step .decoding) init labels s → s.BreaksOnStart .decoding := by
  intro h
  have hend : ∃ s ∈ (dispatchTexts [ascii "{}"]).foldlM (System.step .decoding) init,
      s.agent.waitingForFrontend = false ∧
        ¬ ∃ text ∈ frontendTexts s.dispatched, Mentions text := by
    decide +kernel
  obtain ⟨s, hrun, hflag, hother⟩ := hend
  exact hother ((h _ s hrun).flag.1 hflag)

end System

end Inspector
end V8JsiRuntime
