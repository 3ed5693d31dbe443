import V8JsiRuntime.Lib.ParserCuts

/-!
# ParserInvariant — what holds at the nodes of a parser

An assertion for each node on the store of the parser is checked node by node, and then holds
wherever the parser comes.  The checks may rely on what the signals so far have reported.
-/

namespace V8JsiRuntime
namespace Lib
namespace ParserGraph

variable {Label Store Span Signal : Type}

/-- The node hands the assertion on, given that a signal reports what `E` says. -/
def Node.Keeps (I : Label → Store → Prop) (E : Signal → Prop) (label : Label) (s : Store) :
    Node Label Store Span Signal → Prop
  | .switch cases otherwise => ∀ move ∈ otherwise :: cases.map Prod.snd, I move.target s
  | .sequence _ _ complete mismatch => I complete s ∧ I mismatch s
  | .consume counter target =>
      I target (counter.set 0 s) ∧ ∀ n ≤ counter.get s, I label (counter.set n s)
  | .invoke code cases otherwise => I (chooseCode cases otherwise (code s).2) (code s).1
  | .signal make target => E (make s) → I target s
  | .spanStart _ target => I target s
  | .spanEnd _ _ target => I target s
  | .error _ => True
  | .pause _ resume => I resume s

/-- All nodes that may follow. -/
def Node.targets : Node Label Store Span Signal → List Label
  | .switch cases otherwise => (otherwise :: cases.map Prod.snd).map Move.target
  | .sequence _ _ complete mismatch => [complete, mismatch]
  | .consume _ target => [target]
  | .invoke _ cases otherwise => otherwise :: cases.map Prod.snd
  | .signal _ target => [target]
  | .spanStart _ target => [target]
  | .spanEnd _ _ target => [target]
  | .error _ => []
  | .pause _ resume => [resume]

/-- The store stays as `W` says. -/
def Node.Preserves (W : Store → Prop) (s : Store) : Node Label Store Span Signal → Prop
  | .consume counter _ => ∀ n ≤ counter.get s, W (counter.set n s)
  | .invoke code _ _ => W (code s).1
  | _ => True

/-- A node that leads only to nodes which ask for no more than `W`. -/
theorem Node.keeps_of_targets {I : Label → Store → Prop} {E : Signal → Prop} {W : Store → Prop}
    {label : Label} {s : Store} (node : Node Label Store Span Signal)
    (htargets : ∀ target ∈ label :: node.targets, ∀ s, W s → I target s)
    (hpreserves : node.Preserves W s) (h : W s) : node.Keeps I E label s := by
  have hnext : ∀ target ∈ node.targets, ∀ s, W s → I target s :=
    fun target hmem => htargets target (List.mem_cons_of_mem label hmem)
  cases node with
  | switch cases otherwise => exact fun move hmem => hnext _ (List.mem_map_of_mem hmem) s h
  | sequence fold blob complete mismatch =>
      exact ⟨hnext _ List.mem_cons_self s h, hnext _ (List.mem_cons_of_mem _ List.mem_cons_self) s h⟩
  | consume counter target =>
      refine ⟨hnext _ List.mem_cons_self _ (hpreserves 0 (Nat.zero_le _)), fun n hn => ?_⟩
      exact htargets label List.mem_cons_self _ (hpreserves n hn)
  | invoke code cases otherwise => exact hnext _ (chooseCode_mem cases otherwise _) _ hpreserves
  | signal make target => exact fun _ => hnext _ List.mem_cons_self s h
  | spanStart span target => exact hnext _ List.mem_cons_self s h
  | spanEnd span takes target => exact hnext _ List.mem_cons_self s h
  | error code => trivial
  | pause code resume => exact hnext _ List.mem_cons_self s h

theorem Node.Keeps.and {I J : Label → Store → Prop} {E E' : Signal → Prop} {label : Label}
    {s : Store} {node : Node Label Store Span Signal} (h : node.Keeps I E label s)
    (h' : node.Keeps J E' label s) :
    node.Keeps (fun label s => I label s ∧ J label s) (fun signal => E signal ∧ E' signal)
      label s := by
  cases node with
  | switch cases otherwise => exact fun move hmem => ⟨h move hmem, h' move hmem⟩
  | sequence fold blob complete mismatch => exact ⟨⟨h.1, h'.1⟩, h.2, h'.2⟩
  | consume counter target => exact ⟨⟨h.1, h'.1⟩, fun n hn => ⟨h.2 n hn, h'.2 n hn⟩⟩
  | invoke code cases otherwise => exact ⟨h, h'⟩
  | signal make target => exact fun hsignal => ⟨h hsignal.1, h' hsignal.2⟩
  | spanStart span target => exact ⟨h, h'⟩
  | spanEnd span takes target => exact ⟨h, h'⟩
  | error code => trivial
  | pause code resume => exact ⟨h, h'⟩

/-- All events that are signals meet `E`. -/
def Signals (E : Signal → Prop) (events : List (Event Span Signal)) : Prop :=
  ∀ signal, .signal signal ∈ events → E signal

theorem Signals.append_iff {E : Signal → Prop} {events events' : List (Event Span Signal)} :
    Signals E (events ++ events') ↔ Signals E events ∧ Signals E events' := by
  simp only [Signals, List.mem_append, or_imp, forall_and]

theorem Signals.cons_iff {E : Signal → Prop} {event : Event Span Signal}
    {events : List (Event Span Signal)} :
    Signals E (event :: events) ↔ Signals E [event] ∧ Signals E events := by
  rw [← Signals.append_iff, List.singleton_append]

@[simp] theorem Signals.nil (E : Signal → Prop) :
    Signals E ([] : List (Event Span Signal)) :=
  nofun

/-- The first signal that does not meet `E`. -/
theorem Signals.exists_first {E : Signal → Prop} {events : List (Event Span Signal)}
    (h : ¬ Signals E events) : ∃ before signal after,
      events = before ++ .signal signal :: after ∧ Signals E before ∧ ¬ E signal := by
  induction events with
  | nil => exact absurd (Signals.nil E) h
  | cons event events ih =>
      by_cases hevent : Signals E [event]
      · have hrest : ¬ Signals E events := fun hrest =>
          h (Signals.cons_iff.2 ⟨hevent, hrest⟩)
        obtain ⟨before, signal, after, rfl, hbefore, hsignal⟩ := ih hrest
        exact ⟨event :: before, signal, after, rfl,
          Signals.cons_iff.2 ⟨hevent, hbefore⟩, hsignal⟩
      · cases event with
        | fragment span text => exact absurd (fun signal => by simp) hevent
        | signal signal =>
            refine ⟨[], signal, events, rfl, Signals.nil E, fun hsignal => hevent ?_⟩
            intro other hother
            obtain rfl := Event.signal.inj (List.mem_singleton.1 hother)
            exact hsignal

/-- What is reported of an open span is no signal. -/
theorem Signals.pending (E : Signal → Prop) (data : List UInt8) (c : Config Label Store Span) :
    Signals E (c.pending data : List (Event Span Signal)) := by
  rw [Config.pending]
  split <;> simp [Signals]

/-! ## What a step reports, and where it halts -/

variable {data : List UInt8} {c : Config Label Store Span}

/-- A step reports no signal, or the one of a signal node. -/
theorem Node.step_signal {node : Node Label Store Span Signal} {c' : Config Label Store Span}
    {events : List (Event Span Signal)} (hstep : node.step data c = some (.next c' events)) :
    (∀ signal, .signal signal ∉ events) ∨
      ∃ make target, node = .signal make target ∧ events = [.signal (make c.store)] ∧
        c' = { c with label := target } := by
  cases node with
  | switch cases otherwise =>
      rw [Node.step] at hstep
      split at hstep
      · cases hstep
      · cases hstep
        exact Or.inl fun _ => List.not_mem_nil
  | sequence fold blob complete mismatch =>
      rw [Node.step] at hstep
      split at hstep
      · cases hstep
      · cases hstep
        exact Or.inl fun _ => List.not_mem_nil
      · cases hstep
      · cases hstep
        exact Or.inl fun _ => List.not_mem_nil
  | consume counter target =>
      rw [Node.step] at hstep
      split at hstep
      · cases hstep
        exact Or.inl fun _ => List.not_mem_nil
      · cases hstep
  | invoke code cases otherwise =>
      cases hstep
      exact Or.inl fun _ => List.not_mem_nil
  | signal make target =>
      cases hstep
      exact Or.inr ⟨make, target, rfl, rfl, rfl⟩
  | spanStart span target =>
      rw [Node.step] at hstep
      split at hstep
      · cases hstep
      · cases hstep
        exact Or.inl fun _ => List.not_mem_nil
  | spanEnd span takes target =>
      rw [Node.step] at hstep
      split at hstep
      · cases hstep
      · split at hstep
        · cases hstep
        · cases hstep
          exact Or.inl fun signal => by simp
  | error code => cases hstep
  | pause code resume => cases hstep

/-- Only an error and a pause halt the parser. -/
theorem Node.step_halt {node : Node Label Store Span Signal} {c' : Config Label Store Span}
    {code : Nat} {resume : Option Label} (hstep : node.step data c = some (.halt c' code resume)) :
    c' = c ∧ (node = .error code ∧ resume = none ∨
      ∃ label, node = .pause code label ∧ resume = some label) := by
  cases node with
  | switch cases otherwise =>
      rw [Node.step] at hstep
      split at hstep <;> cases hstep
  | sequence fold blob complete mismatch =>
      rw [Node.step] at hstep
      split at hstep <;> cases hstep
  | consume counter target =>
      rw [Node.step] at hstep
      split at hstep <;> cases hstep
  | invoke code cases otherwise => cases hstep
  | signal make target => cases hstep
  | spanStart span target =>
      rw [Node.step] at hstep
      split at hstep <;> cases hstep
  | spanEnd span takes target =>
      rw [Node.step] at hstep
      split at hstep
      · cases hstep
      · split at hstep <;> cases hstep
  | error code =>
      cases hstep
      exact ⟨rfl, Or.inl ⟨rfl, rfl⟩⟩
  | pause code label =>
      cases hstep
      exact ⟨rfl, Or.inr ⟨label, rfl, rfl⟩⟩

/-- The nodes that wait for the next chunk. -/
def Node.rests : Node Label Store Span Signal → Bool
  | .switch _ _ => true
  | .sequence _ _ _ _ => true
  | .consume _ _ => true
  | .spanStart _ _ => true
  | _ => false

theorem Node.step_suspend {node : Node Label Store Span Signal} {c' : Config Label Store Span}
    (hstep : node.step data c = some (.suspend c')) : c'.label = c.label ∧ node.rests = true := by
  cases node with
  | switch cases otherwise =>
      rw [Node.step] at hstep
      split at hstep <;> cases hstep
      exact ⟨rfl, rfl⟩
  | sequence fold blob complete mismatch =>
      rw [Node.step] at hstep
      split at hstep <;> cases hstep
      exact ⟨rfl, rfl⟩
  | consume counter target =>
      rw [Node.step] at hstep
      split at hstep <;> cases hstep
      exact ⟨rfl, rfl⟩
  | invoke code cases otherwise => cases hstep
  | signal make target => cases hstep
  | spanStart span target =>
      rw [Node.step] at hstep
      split at hstep <;> cases hstep
      exact ⟨rfl, rfl⟩
  | spanEnd span takes target =>
      rw [Node.step] at hstep
      split at hstep
      · cases hstep
      · split at hstep <;> cases hstep
  | error code => cases hstep
  | pause code label => cases hstep

/-! ## Runs -/

variable [DecidableEq Span]

/-- An assertion for each node of the graph that is handed on by every node. -/
def Kept (g : ParserGraph Label Store Span Signal) (I : Label → Store → Prop)
    (E : Signal → Prop) : Prop :=
  ∀ label s, I label s → (g.node label).Keeps I E label s

/-- An assertion that is handed on where another one holds. -/
theorem Kept.and {g : ParserGraph Label Store Span Signal} {I J : Label → Store → Prop}
    {E E' : Signal → Prop} (h : Kept g I E)
    (h' : ∀ label s, I label s → J label s → (g.node label).Keeps J E' label s) :
    Kept g (fun label s => I label s ∧ J label s) fun signal => E signal ∧ E' signal :=
  fun label s hboth => (h label s hboth.1).and (h' label s hboth.1 hboth.2)

/-- The assertion at the node where the parser goes on. -/
def State.Keeps (I : Label → Store → Prop) (s : State Label Store Span) : Prop :=
  ∀ label, s.current = some label → I label s.store

def Stop.Keeps (I : Label → Store → Prop) : Stop Label Store Span → Prop
  | .suspended c => I c.label c.store
  | .halted c _ resume => I c.label c.store ∧ ∀ label, resume = some label → I label c.store

def Outcome.Keeps (I : Label → Store → Prop) (E : Signal → Prop) :
    Outcome Label Store Span Signal → Prop
  | .next c events => Signals E events → I c.label c.store
  | .suspend c => I c.label c.store
  | .halt c _ resume => I c.label c.store ∧ ∀ label, resume = some label → I label c.store

variable {g : ParserGraph Label Store Span Signal} {I : Label → Store → Prop} {E : Signal → Prop}

/-- One step hands the assertion on. -/
theorem Kept.step (h : Kept g I E) (hc : I c.label c.store)
    {o : Outcome Label Store Span Signal} (hstep : (g.node c.label).step data c = some o) :
    o.Keeps I E := by
  have hkeeps := h c.label c.store hc
  cases hnode : g.node c.label with
  | switch cases otherwise =>
      rw [hnode] at hstep hkeeps
      rw [Node.step] at hstep
      cases hbyte : data[c.p]? with
      | none =>
          rw [hbyte] at hstep
          obtain rfl := Option.some.inj hstep
          exact hc
      | some byte =>
          rw [hbyte] at hstep
          obtain rfl := Option.some.inj hstep
          exact fun _ => hkeeps _ (choose_mem cases otherwise byte)
  | sequence fold blob complete mismatch =>
      rw [hnode] at hstep hkeeps
      rw [Node.step] at hstep
      cases hmatch : matchSequence fold blob c.index c.p (data.drop c.p) with
      | none =>
          rw [hmatch] at hstep
          cases hstep
      | some result =>
          rw [hmatch] at hstep
          cases result with
          | complete current =>
              obtain rfl := Option.some.inj hstep
              exact fun _ => hkeeps.1
          | pause index =>
              obtain rfl := Option.some.inj hstep
              exact hc
          | mismatch current =>
              obtain rfl := Option.some.inj hstep
              exact fun _ => hkeeps.2
  | consume counter target =>
      rw [hnode] at hstep hkeeps
      rw [Node.step] at hstep
      split at hstep
      · obtain rfl := Option.some.inj hstep
        exact fun _ => hkeeps.1
      · obtain rfl := Option.some.inj hstep
        exact hkeeps.2 _ (Nat.sub_le _ _)
  | invoke code cases otherwise =>
      rw [hnode] at hstep hkeeps
      obtain rfl := Option.some.inj hstep
      exact fun _ => hkeeps
  | signal make target =>
      rw [hnode] at hstep hkeeps
      obtain rfl := Option.some.inj hstep
      exact fun hsignals => hkeeps (hsignals _ List.mem_cons_self)
  | spanStart span target =>
      rw [hnode] at hstep hkeeps
      rw [Node.step] at hstep
      split at hstep
      · obtain rfl := Option.some.inj hstep
        exact hc
      · obtain rfl := Option.some.inj hstep
        exact fun _ => hkeeps
  | spanEnd span takes target =>
      rw [hnode] at hstep hkeeps
      rw [Node.step] at hstep
      cases hspan : c.span with
      | none =>
          rw [hspan] at hstep
          cases hstep
      | some opened =>
          rw [hspan] at hstep
          dsimp only at hstep
          split at hstep
          · cases hstep
          · obtain rfl := Option.some.inj hstep
            exact fun _ => hkeeps
  | error code =>
      rw [hnode] at hstep
      obtain rfl := Option.some.inj hstep
      exact ⟨hc, fun _ h => by cases h⟩
  | pause code resume =>
      rw [hnode] at hstep hkeeps
      obtain rfl := Option.some.inj hstep
      refine ⟨hc, ?_⟩
      rintro _ ⟨⟩
      exact hkeeps

/-- A run hands the assertion on. -/
theorem Kept.runs (h : Kept g I E) {events : List (Event Span Signal)}
    {stop : Stop Label Store Span} (hruns : Runs g data c events stop) (hc : I c.label c.store)
    (hsignals : Signals E events) : stop.Keeps I := by
  induction hruns with
  | suspend hstep => exact h.step hc hstep
  | halt hstep => exact h.step hc hstep
  | next hstep _ ih =>
      obtain ⟨hfirst, hrest⟩ := Signals.append_iff.1 hsignals
      exact ih (h.step hc hstep hfirst) hrest

/-- Where a run reports a signal it passes a signal node, and the rest of the run follows. -/
theorem Kept.runs_signal (h : Kept g I E) {before after : List (Event Span Signal)}
    {signal : Signal} {stop : Stop Label Store Span}
    (hruns : Runs g data c (before ++ .signal signal :: after) stop) (hc : I c.label c.store)
    (hsignals : Signals E before) :
    ∃ (c' : Config Label Store Span) (make : Store → Signal) (target : Label),
      g.node c'.label = .signal make target ∧ make c'.store = signal ∧ I c'.label c'.store ∧
        Runs g data { c' with label := target } after stop := by
  generalize hall : before ++ .signal signal :: after = events at hruns
  induction hruns generalizing before with
  | suspend hstep => simp at hall
  | halt hstep => simp at hall
  | @next c c' events events' stop hstep hrest ih =>
      rcases Node.step_signal hstep with hnone | ⟨make, target, hnode, rfl, rfl⟩
      · have hfront : ∃ between, before = events ++ between ∧
            between ++ .signal signal :: after = events' := by
          rcases List.append_eq_append_iff.1 hall with ⟨rest, hevents, hsplit⟩ | hlonger
          · cases rest with
            | nil => exact ⟨[], by simpa using hevents.symm, hsplit⟩
            | cons event rest =>
                obtain ⟨rfl, -⟩ := List.cons.inj hsplit
                exact absurd (hevents ▸ by simp) (hnone signal)
          · obtain ⟨rest, hbefore, hevents⟩ := hlonger
            exact ⟨rest, hbefore, hevents.symm⟩
        obtain ⟨between, rfl, hevents⟩ := hfront
        obtain ⟨hfirst, hlast⟩ := Signals.append_iff.1 hsignals
        exact ih (h.step hc hstep hfirst) hlast hevents
      · cases before with
        | nil =>
            obtain ⟨heq, rfl⟩ := List.cons.inj hall
            exact ⟨c, make, target, hnode, (Event.signal.inj heq).symm, hc, hrest⟩
        | cons event before =>
            obtain ⟨rfl, hevents⟩ := List.cons.inj hall
            obtain ⟨hfirst, hlast⟩ := Signals.cons_iff.1 hsignals
            exact ih (h.step hc hstep hfirst) hlast hevents

/-- A run halts at an error or a pause. -/
theorem Runs.of_halted {events : List (Event Span Signal)} {c' : Config Label Store Span}
    {code : Nat} {resume : Option Label} (hruns : Runs g data c events (.halted c' code resume)) :
    g.node c'.label = .error code ∧ resume = none ∨
      ∃ label, g.node c'.label = .pause code label ∧ resume = some label := by
  generalize hstop : Stop.halted c' code resume = stop at hruns
  induction hruns with
  | suspend _ => cases hstop
  | next _ _ ih => exact ih hstop
  | halt hstep =>
      obtain ⟨rfl, rfl, rfl⟩ := Stop.halted.inj hstop
      obtain ⟨rfl, hnode⟩ := Node.step_halt hstep
      exact hnode

/-- A run that uses up the chunk stops at a node that waits. -/
theorem Runs.rests {events : List (Event Span Signal)} {c' : Config Label Store Span}
    (hruns : Runs g data c events (.suspended c')) : (g.node c'.label).rests = true := by
  generalize hstop : Stop.suspended c' = stop at hruns
  induction hruns with
  | halt _ => cases hstop
  | next _ _ ih => exact ih hstop
  | @suspend c c'' hstep =>
      obtain rfl := Stop.suspended.inj hstop
      obtain ⟨hlabel, hrests⟩ := Node.step_suspend hstep
      exact hlabel ▸ hrests

/-- A run starts with code. -/
theorem Runs.of_invoke {code : Store → Store × Nat} {cases : List (Nat × Label)} {otherwise : Label}
    (hnode : g.node c.label = .invoke code cases otherwise) {events : List (Event Span Signal)}
    {stop : Stop Label Store Span} (hruns : Runs g data c events stop) :
    Runs g data { c with
      label := chooseCode cases otherwise (code c.store).2
      store := (code c.store).1 } events stop := by
  cases hruns with
  | suspend hstep =>
      rw [hnode] at hstep
      cases hstep
  | halt hstep =>
      rw [hnode] at hstep
      cases hstep
  | next hstep hrest =>
      rw [hnode] at hstep
      cases hstep
      exact hrest

/-- A run ends where it pauses. -/
theorem Runs.of_pause {code : Nat} {label : Label} (hnode : g.node c.label = .pause code label)
    {events : List (Event Span Signal)} {stop : Stop Label Store Span}
    (hruns : Runs g data c events stop) : events = [] ∧ stop = .halted c code (some label) := by
  cases hruns with
  | suspend hstep =>
      rw [hnode] at hstep
      cases hstep
  | halt hstep =>
      rw [hnode] at hstep
      cases hstep
      exact ⟨rfl, rfl⟩
  | next hstep hrest =>
      rw [hnode] at hstep
      cases hstep

namespace Parser

variable {parser : g.Parser}

/-- Behind a signal of the report the rest of the run follows. -/
theorem report_signal (h : Kept g I E) (hkeeps : parser.1.Keeps I)
    {before after : List (Event Span Signal)} {signal : Signal}
    (hevents : (parser.report data).events = before ++ .signal signal :: after)
    (hsignals : Signals E before) :
    ∃ (c' : Config Label Store Span) (make : Store → Signal) (target : Label)
      (events : List (Event Span Signal)) (stop : Stop Label Store Span),
      g.node c'.label = .signal make target ∧ make c'.store = signal ∧ I c'.label c'.store ∧
        Runs g data { c' with label := target } events stop ∧
          stop.report data events = { parser.report data with events := after } := by
  by_cases hok : parser.1.error = 0
  · obtain ⟨label, hcurrent⟩ := Option.isSome_iff_exists.1 (parser.2.isSome (Or.inl hok))
    obtain ⟨events, stop, hruns, hreport⟩ := exists_runs hok hcurrent data
    rw [hreport] at hevents
    have hsplit : ∃ rest, events = before ++ .signal signal :: rest ∧
        stop.report data rest = { stop.report data events with events := after } := by
      cases stop with
      | halted c code resume =>
          obtain rfl : events = before ++ .signal signal :: after := hevents
          exact ⟨after, rfl, rfl⟩
      | suspended c =>
          have hpending := Signals.pending (fun _ : Signal => False) data c
          rcases List.append_eq_append_iff.1 hevents with ⟨rest, hbefore, hrest⟩ | ⟨rest, hall, hrest⟩
          · exact absurd (hrest ▸ by simp) (hpending signal)
          · cases rest with
            | nil =>
                rw [List.nil_append] at hrest
                exact absurd (hrest ▸ List.mem_cons_self) (hpending signal)
            | cons event rest =>
                obtain ⟨rfl, rfl⟩ := List.cons.inj hrest
                exact ⟨rest, hall, rfl⟩
    obtain ⟨rest, rfl, hrest⟩ := hsplit
    obtain ⟨c', make, target, hnode, hmake, hc', hafter⟩ :=
      h.runs_signal hruns (hkeeps label hcurrent) hsignals
    exact ⟨c', make, target, rest, stop, hnode, hmake, hc', hafter, by rw [hrest, hreport]⟩
  · rw [report_of_error parser data hok] at hevents
    simp at hevents

/-- A chunk hands the assertion on, and so does what follows a pause. -/
theorem keeps_execute (h : Kept g I E) (hkeeps : parser.1.Keeps I)
    (hsignals : Signals E (parser.report data).events) : (parser.execute data).1.Keeps I := by
  by_cases hok : parser.1.error = 0
  · obtain ⟨label, hcurrent⟩ := Option.isSome_iff_exists.1 (parser.2.isSome (Or.inl hok))
    obtain ⟨events, stop, hruns, hreport⟩ := exists_runs hok hcurrent data
    have hstate : (parser.execute data).1 = (stop.report data events).state :=
      congrArg Report.state hreport
    rw [hreport] at hsignals
    rw [hstate]
    cases stop with
    | suspended c =>
        obtain ⟨hevents, _⟩ := Signals.append_iff.1 hsignals
        rintro _ ⟨⟩
        exact h.runs hruns (hkeeps label hcurrent) hevents
    | halted c code resume => exact (h.runs hruns (hkeeps label hcurrent) hsignals).2
  · have hstate : (parser.execute data).1 = parser.1 :=
      congrArg Report.state (report_of_error parser data hok)
    rwa [hstate]

theorem keeps_resume (hkeeps : parser.1.Keeps I) : parser.resume.1.Keeps I := by
  change (parser.1.resume g).Keeps I
  unfold State.resume
  split
  · exact hkeeps
  · exact hkeeps

theorem keeps_init {store : Store} (h : I g.start store) : (init g store).1.Keeps I := by
  rintro _ ⟨⟩
  exact h

end Parser

end ParserGraph

end Lib
end V8JsiRuntime
