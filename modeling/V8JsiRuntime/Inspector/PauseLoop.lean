import V8JsiRuntime.Inspector.AgentControl

/-!
# PauseLoop — messages while the program is paused

At a breakpoint V8 calls `runMessageLoopOnPause`, which waits for messages and dispatches them until
one of them resumes the program.  `DispatchMessages` does nothing while it is already on the stack,
so what the loop achieves depends on where the pause was entered from.
-/

namespace V8JsiRuntime
namespace Inspector

open Lib

namespace System

variable {multiByteToWideChar : MultiByteToWideChar} {s s' t : System} {label : Label}

/-! ## Histories -/

theorem Transition.dispatched_prefix (ht : Transition multiByteToWideChar s label s')
    (hnone : s.fault = none) : s.dispatched <+: s'.dispatched := by
  rcases ht.quiet hnone with hquiet | ⟨stack, _, rfl⟩ | ⟨m, tasks, stack, _, _, rfl⟩
  · rw [hquiet.dispatched]
  · exact List.prefix_rfl
  · rw [(batch_outcome hnone m tasks stack).frame.2.1]
    exact List.prefix_append _ _

/-! ## The stack below the function on top -/

theorem callDispatchMessages_stack (s : System) :
    ∃ top, s.callDispatchMessages.stack = top ++ s.stack := by
  unfold callDispatchMessages
  split
  · exact ⟨[], rfl⟩
  · exact ⟨[.dispatchSwap], rfl⟩

theorem runMessageLoopOnPause_stack (s : System) :
    ∃ top, s.runMessageLoopOnPause.stack = top ++ s.stack := by
  unfold runMessageLoopOnPause
  split
  · exact ⟨[], rfl⟩
  · exact ⟨[.pauseLoop], rfl⟩

/-- A step leaves the functions below the one on top alone. -/
theorem Transition.below {frame : Frame} {below : List Frame}
    (ht : Transition multiByteToWideChar s label s') (hnone : s.fault = none)
    (hstack : s.stack = frame :: below) : ∃ top, s'.stack = top ++ below := by
  -- a step either puts functions on top of the one that runs, or replaces it
  have hcall : ∀ top, s'.stack = top ++ s.stack → ∃ top, s'.stack = top ++ below := by
    intro top h
    exact ⟨top ++ [frame], by rw [h, hstack]; simp⟩
  have htail : ∀ {frame' : Frame} {stack : List Frame}, s.stack = frame' :: stack → stack = below :=
    fun h => (List.cons.inj (h.symm.trans hstack)).2
  cases ht with
  | elsewhere => exact hcall [] rfl
  | appended => exact hcall [] rfl
  | @waits _ _ frame' _ _ h => exact ⟨[frame'], by rw [← htail h]; rfl⟩
  | waited h => exact ⟨[], htail h⟩
  | accepting h => exact ⟨[.waitForDebuggerLoop], by rw [← htail h]; rfl⟩
  | loops => exact hcall _ (callDispatchMessages_stack s).choose_spec
  | released h => exact ⟨[], htail h⟩
  | pauseWaits h => exact ⟨[.waitCheck, .pauseDispatch], by rw [← htail h]; rfl⟩
  | pauseEnds h => exact ⟨[], htail h⟩
  | @pauseDispatches stack h =>
      obtain ⟨top, htop⟩ := callDispatchMessages_stack { s with stack := .pauseLoop :: stack }
      exact ⟨top ++ [.pauseLoop], by rw [htop, ← htail h]; simp⟩
  | @swapped _ frame' h => exact ⟨[frame'], by rw [← htail h]; rfl⟩
  | batchDone h => exact ⟨[.dispatchSwap], by rw [← htail h]; rfl⟩
  | @dispatches m tasks stack h =>
      rcases (batch_outcome hnone m tasks stack).frame.2.2.2.2.2 with hcalled | hcalled
      · exact ⟨[.dispatchProtocolMessage, .dispatchTasks tasks], by rw [hcalled, ← htail h]; rfl⟩
      · exact ⟨[.dispatchTasks tasks], by rw [hcalled, ← htail h]; rfl⟩
  | finished h => exact ⟨[], htail h⟩
  | pauses => exact hcall _ (runMessageLoopOnPause_stack s).choose_spec
  | quits => exact hcall [] rfl
  | returns h => exact ⟨[], htail h⟩
  | @called _ tasks interrupts =>
      exact hcall _ (callDispatchMessages_stack
        { s with foregroundTasks := tasks, interruptRequests := interrupts }).choose_spec
  | @shutsDown calls =>
      exact hcall _ (runMessageLoopOnPause_stack
        { s with agent.shuttingDown := true, serverCalls := calls }).choose_spec

/-! ## A pause inside `DispatchMessages` -/

/-- The loop of a pause with nothing on top but its call of `WaitForFrontendMessage`. -/
inductive Looping (rest : List Frame) : List Frame → Prop
  | loop : Looping rest (.pauseLoop :: rest)
  | back : Looping rest (.pauseDispatch :: rest)
  | waiting {wait : Frame} : wait.isWait = true → Looping rest (wait :: .pauseDispatch :: rest)

/-- What the top of such a stack can be, and what is below. -/
theorem Looping.top {rest stack : List Frame} {frame : Frame} (h : Looping rest (frame :: stack)) :
    frame = .pauseLoop ∧ stack = rest ∨ frame = .pauseDispatch ∧ stack = rest ∨
      frame.isWait = true ∧ stack = .pauseDispatch :: rest := by
  cases h with
  | loop => exact Or.inl ⟨rfl, rfl⟩
  | back => exact Or.inr (Or.inl ⟨rfl, rfl⟩)
  | waiting hwait => exact Or.inr (Or.inr ⟨hwait, rfl⟩)

theorem Looping.not_of {rest stack : List Frame} {frame : Frame} (h : Looping rest s.stack)
    (hstack : s.stack = frame :: stack) (hpause : frame.isPause = false)
    (hwait : frame.isWait = false) : False := by
  rw [hstack] at h
  rcases h.top with ⟨rfl, _⟩ | ⟨rfl, _⟩ | ⟨htop, _⟩
  · cases hpause
  · cases hpause
  · cases hwait.symm.trans htop

theorem Looping.not_v8OnTop {rest stack : List Frame} (h : Looping rest stack) :
    v8OnTop stack = false := by
  cases h with
  | loop => rfl
  | back => rfl
  | @waiting wait hwait =>
      cases wait with
      | dispatchProtocolMessage => cases hwait
      | _ => rfl

/-- The loop of a pause goes round and dispatches nothing. -/
structure Spinning (rest : List Frame) (dispatched : List QueuedMessage) (s : System) : Prop where
  looping : Looping rest s.stack
  guard : s.agent.dispatchingMessages = true
  resume : s.agent.inspector.waitingForResume = true
  dispatched : s.dispatched = dispatched

theorem Spinning.step {rest : List Frame} {dispatched : List QueuedMessage}
    (hstep : System.step multiByteToWideChar s label = some s') (h : Spinning rest dispatched s) :
    Spinning rest dispatched s' := by
  obtain ⟨hnone, ht⟩ := step_transition hstep
  obtain ⟨hlooping, hguard, hresume, hdispatched⟩ := h
  have hv8 : v8OnTop s.stack = true → False := by
    intro htop
    cases hlooping.not_v8OnTop.symm.trans htop
  cases ht with
  | elsewhere => exact ⟨hlooping, hguard, hresume, hdispatched⟩
  | appended => exact ⟨hlooping, hguard, hresume, hdispatched⟩
  | waits hstack hframe hframe' =>
      rw [hstack] at hlooping
      rcases hlooping.top with ⟨rfl, _⟩ | ⟨rfl, _⟩ | ⟨_, rfl⟩
      · cases hframe
      · cases hframe
      · exact ⟨.waiting hframe', hguard, hresume, hdispatched⟩
  | waited hstack hframe =>
      rw [hstack] at hlooping
      rcases hlooping.top with ⟨rfl, _⟩ | ⟨rfl, _⟩ | ⟨_, rfl⟩
      · cases hframe
      · cases hframe
      · exact ⟨.back, hguard, hresume, hdispatched⟩
  | accepting hstack => exact (hlooping.not_of hstack rfl rfl).elim
  | loops hstack => exact (hlooping.not_of hstack rfl rfl).elim
  | released hstack => exact (hlooping.not_of hstack rfl rfl).elim
  | pauseWaits hstack =>
      rw [hstack] at hlooping
      rcases hlooping.top with ⟨_, rfl⟩ | ⟨hframe, _⟩ | ⟨hframe, _⟩
      · exact ⟨.waiting rfl, hguard, hresume, hdispatched⟩
      · cases hframe
      · cases hframe
  | pauseEnds hstack hended => cases hended.symm.trans hresume
  | @pauseDispatches stack hstack =>
      -- the guard makes the call return at once
      have hreturns : { s with stack := .pauseLoop :: stack }.callDispatchMessages =
          { s with stack := .pauseLoop :: stack } :=
        callDispatchMessages_of_dispatching (s := { s with stack := .pauseLoop :: stack }) hguard
      rw [hstack] at hlooping
      rcases hlooping.top with ⟨hframe, _⟩ | ⟨_, rfl⟩ | ⟨hframe, _⟩
      · cases hframe
      · rw [hreturns]
        exact ⟨.loop, hguard, hresume, hdispatched⟩
      · cases hframe
  | swapped hstack => exact (hlooping.not_of hstack rfl rfl).elim
  | batchDone hstack => exact (hlooping.not_of hstack rfl rfl).elim
  | dispatches hstack => exact (hlooping.not_of hstack rfl rfl).elim
  | finished hstack => exact (hlooping.not_of hstack rfl rfl).elim
  | pauses htop => exact (hv8 htop).elim
  | quits htop => exact (hv8 htop).elim
  | returns hstack => exact (hlooping.not_of hstack rfl rfl).elim
  | called htop => exact (hv8 htop).elim
  | shutsDown htop => exact (hv8 htop).elim

/-- A pause entered while `DispatchMessages` is on the stack is never left. -/
theorem spinning_of_run {rest : List Frame} {labels : List Label}
    (hrun : Run (System.step multiByteToWideChar) s labels s')
    (hwell : s.WellFormed multiByteToWideChar) (hstack : s.stack = .pauseDispatch :: rest)
    (hbelow : ∃ frame ∈ rest, frame.isDispatch = true) : Spinning rest s.dispatched s' := by
  refine Run.invariant (P := Spinning rest s.dispatched) ?_ (fun _ _ _ h hstep => h.step hstep) hrun
  refine ⟨hstack ▸ .back, ?_, (hwell.place.of_waiter hstack rfl rfl).2.1 rfl, rfl⟩
  obtain ⟨frame, hmem, hframe⟩ := hbelow
  cases hflag : s.agent.dispatchingMessages with
  | true => rfl
  | false =>
      have hcount := hwell.guarded.pop hstack rfl
      rw [hflag] at hcount
      exact absurd hframe (List.countP_eq_zero.1 hcount frame hmem)

/-! ## A pause outside of `DispatchMessages` -/

/-- Back from waiting, the loop of a pause calls `DispatchMessages`. -/
theorem Transition.back {rest : List Frame} (ht : Transition multiByteToWideChar s label s')
    (hstack : s.stack = .pauseDispatch :: rest) :
    s'.stack = s.stack ∨ s' = { s with stack := .pauseLoop :: rest }.callDispatchMessages := by
  have hframe : ∀ {frame : Frame} {stack : List Frame}, s.stack = frame :: stack →
      frame = .pauseDispatch ∧ stack = rest :=
    fun h => List.cons.inj (h.symm.trans hstack)
  have hv8 : v8OnTop s.stack = false := by
    rw [hstack]
    rfl
  cases ht with
  | elsewhere => exact Or.inl rfl
  | appended => exact Or.inl rfl
  | waits h hwait =>
      obtain ⟨rfl, _⟩ := hframe h
      cases hwait
  | waited h hwait =>
      obtain ⟨rfl, _⟩ := hframe h
      cases hwait
  | accepting h => cases (hframe h).1
  | loops h => cases (hframe h).1
  | released h => cases (hframe h).1
  | pauseWaits h => cases (hframe h).1
  | pauseEnds h => cases (hframe h).1
  | pauseDispatches h =>
      obtain ⟨_, rfl⟩ := hframe h
      exact Or.inr rfl
  | swapped h => cases (hframe h).1
  | batchDone h => cases (hframe h).1
  | dispatches h => cases (hframe h).1
  | finished h => cases (hframe h).1
  | pauses htop => cases hv8.symm.trans htop
  | quits htop => cases hv8.symm.trans htop
  | returns h => cases (hframe h).1
  | called htop => cases hv8.symm.trans htop
  | shutsDown htop => cases hv8.symm.trans htop

/-- Where the iteration of the loop is that began with `pending` posted. -/
inductive Serving (pending : List QueuedMessage) (rest : List Frame) (s : System) : Prop
  | entered : s.stack = .pauseDispatch :: rest → Serving pending rest s
  | dispatching (top : List Frame) {frame : Frame} :
      s.stack = top ++ frame :: .pauseLoop :: rest → frame.isDispatch = true →
        frame ≠ .dispatchFinish → Serving pending rest s
  | served : pending <+: s.dispatched → Serving pending rest s

/-- Between two batches, with the queue empty, nothing that was posted is left. -/
theorem WellFormed.posted_eq {rest : List Frame} (h : s.WellFormed multiByteToWideChar)
    (hstack : s.stack = .dispatchSwap :: .pauseLoop :: rest)
    (hnotBelow : ∀ frame ∈ rest, frame.isDispatch = false)
    (hqueue : s.agent.incomingMessageQueue = []) : s.posted = s.dispatched := by
  have houtstanding : s.outstanding = [] := by
    have hnotRest : rest.flatMap Frame.tasks = [] := by
      apply List.flatMap_eq_nil_iff.2
      intro frame hmem
      exact Frame.tasks_of_not_isDispatch (hnotBelow frame hmem)
    unfold outstanding
    rw [hstack]
    simpa [Frame.tasks] using hnotRest
  have hposted : s.posted = s.dispatched ++ (s.outstanding ++ s.agent.incomingMessageQueue) :=
    h.fifo
  rw [hposted, houtstanding, hqueue, List.append_nil, List.append_nil]

/-- `DispatchMessages` itself moves; it gets to its end only with the queue empty. -/
theorem Serving.of_dispatch {pending : List QueuedMessage} {rest : List Frame} {frame : Frame}
    (ht : Transition multiByteToWideChar s label s') (hnone : s.fault = none)
    (hwell : s.WellFormed multiByteToWideChar) (hpending : pending <+: s.posted)
    (hnotBelow : ∀ frame ∈ rest, frame.isDispatch = false)
    (hstack : s.stack = frame :: .pauseLoop :: rest) (hframe : frame.isDispatch = true)
    (hfinish : frame ≠ .dispatchFinish) : Serving pending rest s' := by
  have hother : ∀ {frame' : Frame} {stack : List Frame}, s.stack = frame' :: stack →
      frame'.isDispatch = false → Serving pending rest s' := by
    intro frame' stack hstack' hframe'
    obtain ⟨rfl, _⟩ := List.cons.inj (hstack.symm.trans hstack')
    cases hframe.symm.trans hframe'
  have hv8 : v8OnTop s.stack = true → Serving pending rest s' := by
    intro htop
    rw [hstack] at htop
    cases frame with
    | dispatchProtocolMessage => cases hframe
    | _ => cases htop
  have htail : ∀ {frame' : Frame} {stack : List Frame}, s.stack = frame' :: stack →
      stack = .pauseLoop :: rest :=
    fun h => (List.cons.inj (h.symm.trans hstack)).2
  cases ht with
  | elsewhere => exact .dispatching [] hstack hframe hfinish
  | appended => exact .dispatching [] hstack hframe hfinish
  | waits h hwait => exact hother h (Frame.isDispatch_of_isWait hwait)
  | waited h hwait => exact hother h (Frame.isDispatch_of_isWait hwait)
  | accepting h => exact hother h rfl
  | loops h => exact hother h rfl
  | released h => exact hother h rfl
  | pauseWaits h => exact hother h rfl
  | pauseEnds h => exact hother h rfl
  | pauseDispatches h => exact hother h rfl
  | @swapped stack frame' h hframe' htasks =>
      obtain rfl := htail h
      by_cases hend : frame' = .dispatchFinish
      · have hqueue : s.agent.incomingMessageQueue = [] := by
          rw [← htasks, hend]
          rfl
        exact .served (hwell.posted_eq h hnotBelow hqueue ▸ hpending)
      · exact .dispatching [] rfl hframe' hend
  | batchDone h =>
      obtain rfl := htail h
      exact .dispatching [] rfl rfl (by simp)
  | @dispatches m tasks stack h =>
      obtain rfl := htail h
      rcases (batch_outcome hnone m tasks (.pauseLoop :: rest)).frame.2.2.2.2.2 with
        hcalled | hcalled
      · exact .dispatching [.dispatchProtocolMessage] hcalled rfl (by simp)
      · exact .dispatching [] hcalled rfl (by simp)
  | finished h =>
      obtain ⟨rfl, _⟩ := List.cons.inj (hstack.symm.trans h)
      exact absurd rfl hfinish
  | pauses htop => exact hv8 htop
  | quits htop => exact hv8 htop
  | returns h => exact hother h rfl
  | called htop => exact hv8 htop
  | shutsDown htop => exact hv8 htop

theorem Serving.step {pending : List QueuedMessage} {rest : List Frame}
    (hstep : System.step multiByteToWideChar s label = some s')
    (hwell : s.WellFormed multiByteToWideChar) (hpending : pending <+: s.posted)
    (hnotBelow : ∀ frame ∈ rest, frame.isDispatch = false) (h : Serving pending rest s) :
    Serving pending rest s' := by
  obtain ⟨hnone, ht⟩ := step_transition hstep
  -- what runs above `DispatchMessages` does not matter until it is on top again
  cases h with
  | served hserved => exact .served (hserved.trans (ht.dispatched_prefix hnone))
  | @dispatching top frame hstack hframe hfinish =>
      cases top with
      | nil =>
          exact .of_dispatch ht hnone hwell hpending hnotBelow hstack hframe hfinish
      | cons frame' top =>
          obtain ⟨top', htop⟩ := ht.below hnone hstack
          exact .dispatching (top' ++ top) (by rw [htop, List.append_assoc]; rfl) hframe hfinish
  | entered hstack =>
      rcases ht.back hstack with hkept | hmoves
      · exact .entered (hkept.trans hstack)
      · -- no `DispatchMessages` is on the stack, so the call goes ahead
        have hflag := hwell.guarded.not_dispatching hstack rfl hnotBelow
        rw [hmoves, callDispatchMessages_of_not_dispatching
          (s := { s with stack := .pauseLoop :: rest }) hflag]
        exact .dispatching [] rfl rfl nofun

theorem serving_of_run {rest : List Frame} {labels : List Label}
    (hrun : Run (System.step multiByteToWideChar) s labels s')
    (hwell : s.WellFormed multiByteToWideChar) (hstack : s.stack = .pauseDispatch :: rest)
    (hnotBelow : ∀ frame ∈ rest, frame.isDispatch = false) : Serving s.posted rest s' := by
  have hall : Serving s.posted rest s' ∧ s.posted <+: s'.posted ∧
      s'.WellFormed multiByteToWideChar := by
    refine Run.invariant (P := fun t => Serving s.posted rest t ∧ s.posted <+: t.posted ∧
      t.WellFormed multiByteToWideChar) ⟨.entered hstack, List.prefix_rfl, hwell⟩ ?_ hrun
    intro t label u ht hstep
    obtain ⟨hserving, hpending, hwell⟩ := ht
    obtain ⟨hnone, htransition⟩ := step_transition hstep
    exact ⟨hserving.step hstep hwell hpending hnotBelow,
      hpending.trans (htransition.posted_prefix hnone), hwell.step hstep⟩
  exact hall.1

/-- At the next test of the loop everything posted before is dispatched. -/
theorem Serving.at_loop {pending : List QueuedMessage} {rest : List Frame}
    (h : Serving pending rest s) (hstack : s.stack = .pauseLoop :: rest) :
    pending <+: s.dispatched := by
  cases h with
  | served hserved => exact hserved
  | entered hentered => cases (List.cons.inj (hstack.symm.trans hentered)).1
  | dispatching top hdispatching =>
      have hlength := congrArg List.length (hstack.symm.trans hdispatching)
      simp only [List.length_cons, List.length_append] at hlength
      omega

/-! ### The JS thread on its own -/

/-- What the JS thread reaches by its own steps, with V8 returning from each message. -/
def Reaches (multiByteToWideChar : MultiByteToWideChar) (s s' : System) : Prop :=
  ∃ labels, (∀ label ∈ labels, label = .js ∨ label = .v8 .returns) ∧
    Run (System.step multiByteToWideChar) s labels s'

namespace Reaches

theorem refl (s : System) : Reaches multiByteToWideChar s s :=
  ⟨[], nofun, Run.nil_iff.2 rfl⟩

theorem cons (hlabel : label = .js ∨ label = .v8 .returns)
    (hstep : System.step multiByteToWideChar s label = some s')
    (h : Reaches multiByteToWideChar s' t) : Reaches multiByteToWideChar s t := by
  obtain ⟨labels, hlabels, hrun⟩ := h
  refine ⟨label :: labels, ?_, Run.cons_iff.2 ⟨s', hstep, hrun⟩⟩
  intro other hother
  rcases List.mem_cons.1 hother with rfl | hother
  · exact hlabel
  · exact hlabels other hother

theorem trans (h : Reaches multiByteToWideChar s s') (h' : Reaches multiByteToWideChar s' t) :
    Reaches multiByteToWideChar s t := by
  obtain ⟨labels, hlabels, hrun⟩ := h
  obtain ⟨labels', hlabels', hrun'⟩ := h'
  refine ⟨labels ++ labels', ?_, Run.append_iff.2 ⟨s', hrun, hrun'⟩⟩
  intro label hlabel
  rcases List.mem_append.1 hlabel with hlabel | hlabel
  · exact hlabels label hlabel
  · exact hlabels' label hlabel

end Reaches

/-- The JS thread gets to the state of the stack, or goes wrong on the way. -/
def Gets (multiByteToWideChar : MultiByteToWideChar) (s : System) (stack : List Frame)
    (queue : List QueuedMessage) : Prop :=
  ∃ s', Reaches multiByteToWideChar s s' ∧
    (s'.fault ≠ none ∨
      s'.fault = none ∧ s'.stack = stack ∧ s'.agent.incomingMessageQueue = queue)

theorem Gets.of_reaches {stack : List Frame} {queue : List QueuedMessage}
    (h : Reaches multiByteToWideChar s s') (h' : Gets multiByteToWideChar s' stack queue) :
    Gets multiByteToWideChar s stack queue := by
  obtain ⟨t, ht, hend⟩ := h'
  exact ⟨t, h.trans ht, hend⟩

/-- The rest of a batch is dispatched. -/
theorem gets_batch_end {tasks : List QueuedMessage} {stack : List Frame} (hnone : s.fault = none)
    (hstack : s.stack = .dispatchTasks tasks :: stack) :
    Gets multiByteToWideChar s (.dispatchTasks [] :: stack) s.agent.incomingMessageQueue := by
  -- the messages still to come in the batch get fewer, and nobody posts meanwhile
  induction tasks generalizing s with
  | nil => exact ⟨s, .refl s, Or.inr ⟨hnone, hstack, rfl⟩⟩
  | cons m tasks ih =>
      have hstep : System.step multiByteToWideChar s .js = _ := step_next hnone hstack
      obtain ⟨_, _, hqueue, _, _, hcalled⟩ := (batch_outcome hnone m tasks stack).frame
      generalize { s with stack := .dispatchTasks tasks :: stack }.dispatchOne m = s'
        at hstep hqueue hcalled
      have hreaches : Reaches multiByteToWideChar s s' := .cons (Or.inl rfl) hstep (.refl s')
      by_cases hfault : s'.fault = none
      · rcases hcalled with hcalled | hcalled
        · -- V8 returns from the message
          have hreturns : System.step multiByteToWideChar s' (.v8 .returns) =
              some { s' with stack := .dispatchTasks tasks :: stack } := by
            unfold System.step v8Step
            rw [hfault, hcalled]
            rfl
          have hafter := ih (s := { s' with stack := .dispatchTasks tasks :: stack }) hfault rfl
          rw [show s.agent.incomingMessageQueue = s'.agent.incomingMessageQueue from hqueue.symm]
          exact (hafter.of_reaches (.cons (Or.inr rfl) hreturns (.refl _))).of_reaches hreaches
        · rw [show s.agent.incomingMessageQueue = s'.agent.incomingMessageQueue from hqueue.symm]
          exact (ih hfault hcalled).of_reaches hreaches
      · exact ⟨s', hreaches, Or.inl hfault⟩

theorem Gets.trans {stack stack' : List Frame} {queue queue' : List QueuedMessage}
    (h : Gets multiByteToWideChar s stack queue)
    (hnext : ∀ s', s'.fault = none → s'.stack = stack → s'.agent.incomingMessageQueue = queue →
      Gets multiByteToWideChar s' stack' queue') :
    Gets multiByteToWideChar s stack' queue' := by
  obtain ⟨s', hreaches, hend⟩ := h
  rcases hend with hfault | ⟨hnone, hstack, hqueue⟩
  · exact ⟨s', hreaches, Or.inl hfault⟩
  · exact (hnext s' hnone hstack hqueue).of_reaches hreaches

theorem Gets.js {stack : List Frame} {queue : List QueuedMessage} (hnone : s.fault = none)
    (hstep : s.jsStep = some s') (h : Gets multiByteToWideChar s' stack queue) :
    Gets multiByteToWideChar s stack queue :=
  h.of_reaches (.cons (Or.inl rfl) ((step_js hnone).trans hstep) (.refl s'))

/-- With the queue empty `DispatchMessages` returns. -/
theorem gets_return {stack : List Frame} (hnone : s.fault = none)
    (hstack : s.stack = .dispatchSwap :: stack) (hqueue : s.agent.incomingMessageQueue = []) :
    Gets multiByteToWideChar s stack [] := by
  have hswap : s.jsStep = some { s with
      agent.incomingMessageQueue := []
      stack := .dispatchFinish :: stack } := by
    unfold jsStep
    rw [hstack, hqueue]
    rfl
  refine .js hnone hswap ?_
  exact .js hnone rfl ⟨_, .refl _, Or.inr ⟨hnone, rfl, rfl⟩⟩

/-- `DispatchMessages` returns, with everything taken out of the queue. -/
theorem gets_dispatched {stack : List Frame} (hnone : s.fault = none)
    (hstack : s.stack = .dispatchSwap :: stack) : Gets multiByteToWideChar s stack [] := by
  cases hqueue : s.agent.incomingMessageQueue with
  | nil => exact gets_return hnone hstack hqueue
  | cons m queue =>
      have hswap : s.jsStep = some { s with
          agent.incomingMessageQueue := []
          stack := .dispatchTasks (m :: queue) :: stack } := by
        unfold jsStep
        rw [hstack, hqueue]
        rfl
      refine .js hnone hswap (.trans (gets_batch_end hnone rfl) ?_)
      intro s' hnone' hstack' hqueue'
      have hround : s'.jsStep = some { s' with stack := .dispatchSwap :: stack } := by
        unfold jsStep
        rw [hstack']
      exact .js hnone' hround (gets_return hnone' rfl hqueue')

/-! ## The loop -/

/-- The iteration of the loop that begins in `s`, over the functions `rest`, serves the messages
posted so far. -/
structure ServesPosted (multiByteToWideChar : MultiByteToWideChar) (s : System)
    (rest : List Frame) : Prop where
  /-- Back at its test, the loop has dispatched them. -/
  served : ∀ labels s', Run (System.step multiByteToWideChar) s labels s' →
    s'.stack = .pauseLoop :: rest → s.posted <+: s'.dispatched
  /-- The JS thread gets back there, unless it goes wrong. -/
  ends : Gets multiByteToWideChar s (.pauseLoop :: rest) []
  /-- The loop is left if one of them called `quitMessageLoopOnPause`. -/
  left : ∀ labels s', Run (System.step multiByteToWideChar) s labels s' → s'.fault = none →
    s'.stack = .pauseLoop :: rest → s'.agent.inspector.waitingForResume = false →
      ∃ s'', System.step multiByteToWideChar s' .js = some s'' ∧ s''.stack = rest

theorem servesPosted_of_not_dispatching {rest : List Frame}
    (hwell : s.WellFormed multiByteToWideChar) (hnone : s.fault = none)
    (hstack : s.stack = .pauseDispatch :: rest)
    (hnotBelow : ∀ frame ∈ rest, frame.isDispatch = false) :
    s.ServesPosted multiByteToWideChar rest := by
  refine ⟨?_, ?_, ?_⟩
  · intro labels s' hrun hloop
    exact (serving_of_run hrun hwell hstack hnotBelow).at_loop hloop
  · have hflag := hwell.guarded.not_dispatching hstack rfl hnotBelow
    have hcall : s.jsStep = some { s with
        agent.dispatchingMessages := true
        stack := .dispatchSwap :: .pauseLoop :: rest } := by
      unfold jsStep
      rw [hstack]
      exact congrArg some (callDispatchMessages_of_not_dispatching
        (s := { s with stack := .pauseLoop :: rest }) hflag)
    exact .js hnone hcall (gets_dispatched hnone rfl)
  · intro labels s' _ hnone' hloop hresume
    rw [step_js hnone']
    unfold jsStep
    rw [hloop]
    dsimp only
    rw [if_neg (by simp [hresume])]
    exact ⟨_, rfl, rfl⟩

/-- Inside `DispatchMessages` the iteration leaves at least one message where it is. -/
theorem not_servesPosted_of_dispatching {rest : List Frame}
    (hwell : s.WellFormed multiByteToWideChar) (hnone : s.fault = none)
    (hstack : s.stack = .pauseDispatch :: rest)
    (hbelow : ∃ frame ∈ rest, frame.isDispatch = true) :
    ¬ s.ServesPosted multiByteToWideChar rest := by
  intro hserves
  have hguard : s.agent.dispatchingMessages = true :=
    (spinning_of_run (Run.nil_iff.2 rfl) hwell hstack hbelow).guard
  have hreturns : System.step multiByteToWideChar s .js =
      some { s with stack := .pauseLoop :: rest } := by
    rw [step_js hnone]
    unfold jsStep
    rw [hstack]
    exact congrArg some (callDispatchMessages_of_dispatching
      (s := { s with stack := .pauseLoop :: rest }) hguard)
  -- one step of the JS thread ends the iteration, and the queue was not empty
  have hserved := hserves.served [.js] _ (Run.cons_iff.2 ⟨_, hreturns, Run.nil_iff.2 rfl⟩) rfl
  have hqueue := (hwell.place.of_waiter hstack rfl rfl).2.2
  have hposted : s.posted = s.dispatched ++ (s.outstanding ++ s.agent.incomingMessageQueue) :=
    hwell.fifo
  have hlength := hserved.length_le
  rw [hposted] at hlength
  simp only [List.length_append] at hlength
  have hpositive := List.length_pos_iff.2 hqueue
  omega

/-- In every reachable iteration: the posted messages are served if and only if the pause was not
entered inside `DispatchMessages`; and if it was, the loop spins for ever. -/
theorem servesPosted_iff {rest : List Frame} {labels : List Label}
    (hrun : Run (System.step multiByteToWideChar) init labels s) (hnone : s.fault = none)
    (hstack : s.stack = .pauseDispatch :: rest) :
    (s.ServesPosted multiByteToWideChar rest ↔ ∀ frame ∈ rest, frame.isDispatch = false) ∧
      ((∃ frame ∈ rest, frame.isDispatch = true) →
        ∀ labels s', Run (System.step multiByteToWideChar) s labels s' →
          Looping rest s'.stack ∧ s'.dispatched = s.dispatched) := by
  have hwell := wellFormed_of_run hrun .init
  refine ⟨⟨?_, servesPosted_of_not_dispatching hwell hnone hstack⟩, ?_⟩
  · intro hserves frame hmem
    by_contra hframe
    exact not_servesPosted_of_dispatching hwell hnone hstack
      ⟨frame, hmem, Bool.not_eq_false _ ▸ hframe⟩ hserves
  · intro hbelow labels s' hrun'
    have hspinning := spinning_of_run hrun' hwell hstack hbelow
    exact ⟨hspinning.looping, hspinning.dispatched⟩

/-- A client connects and sends a message. -/
def pauseStart : List Label :=
  [.session (.startSession 1), .poster, .poster, .poster,
    .session (.messageReceived 1 (ascii "{}")), .poster] ++ .replicate 6 .js

/-- V8 pauses, and the loop waits until a second message comes. -/
def pauseAndPost : List Label :=
  [.v8 .pause, .js, .session (.messageReceived 1 (ascii "[]")), .js]

/-- The program pauses when the first message is done. -/
def pauseAfter : List Label :=
  pauseStart ++ [.v8 .returns, .js, .js, .js, .js] ++ pauseAndPost

/-- The program pauses inside the first message. -/
def pauseInside : List Label :=
  pauseStart ++ pauseAndPost

theorem servesPosted_pauseAfter :
    ∃ s, Run (System.step .decoding) init pauseAfter s ∧ s.ServesPosted .decoding [] := by
  have hend : ∃ s ∈ pauseAfter.foldlM (System.step .decoding) init,
      s.fault = none ∧ s.stack = [.pauseDispatch] := by
    decide +kernel
  obtain ⟨s, hrun, hnone, hstack⟩ := hend
  exact ⟨s, hrun, (servesPosted_iff hrun hnone hstack).1.2 nofun⟩

theorem not_servesPosted_pauseInside :
    ¬ ∀ labels s rest, Run (System.step .decoding) init labels s → s.fault = none →
      s.stack = .pauseDispatch :: rest → s.ServesPosted .decoding rest := by
  intro h
  have hend : ∃ s ∈ pauseInside.foldlM (System.step .decoding) init,
      s.fault = none ∧ s.stack = [.pauseDispatch, .dispatchProtocolMessage, .dispatchTasks [],
        .waitForDebuggerLoop] := by
    decide +kernel
  obtain ⟨s, hrun, hnone, hstack⟩ := hend
  exact not_servesPosted_of_dispatching (wellFormed_of_run hrun .init) hnone hstack
    ⟨.dispatchTasks [], by simp, rfl⟩ (h pauseInside s _ hrun hnone hstack)

end System

end Inspector
end V8JsiRuntime
