import V8JsiRuntime.Lib.ParserInvariant

/-!
# ParserPaths — the way of a parser through a text

Runs are put together from pieces: from steps within a chunk, and from chunks that follow each other.
What a text reports is then known for all its cuts.
-/

namespace V8JsiRuntime
namespace Lib
namespace ParserGraph

variable {Label Store Span Signal : Type}

/-! ## Words in a text -/

section Words

variable {fold : UInt8 → UInt8} {blob text : List UInt8}

/-- A text that begins with the rest of the word. -/
theorem matchSequence_of_prefix {index : Nat} (p : Nat) (rest : List UInt8) (hne : text ≠ [])
    (h : text.map fold = blob.drop index) :
    matchSequence fold blob index p (text ++ rest) = some (.complete (p + (text.length - 1))) := by
  induction text generalizing index p with
  | nil => exact absurd rfl hne
  | cons byte text ih =>
      have hlt : index < blob.length := by
        have hlength := congrArg List.length h
        rw [List.length_map, List.length_drop, List.length_cons] at hlength
        omega
      rw [List.drop_eq_getElem_cons hlt, List.map_cons] at h
      obtain ⟨hbyte, htext⟩ := List.cons.inj h
      rw [List.cons_append, matchSequence, List.getElem?_eq_getElem hlt]
      cases text with
      | nil =>
          have hlast : index + 1 = blob.length := by
            have hlength := congrArg List.length htext
            rw [List.map_nil, List.length_nil, List.length_drop] at hlength
            omega
          simp [hbyte, hlast]
      | cons next text =>
          have hmore : index + 1 ≠ blob.length := by
            have hlength := congrArg List.length htext
            rw [List.length_map, List.length_drop, List.length_cons] at hlength
            omega
          simp only [hbyte, hmore]
          rw [ih (p + 1) (List.cons_ne_nil _ _) htext]
          simp [Nat.add_assoc, Nat.add_comm 1]

/-- A text that does not begin with the rest of the word, and has a byte that the word has not: the
first `k` bytes fit. -/
theorem matchSequence_of_not_prefix (index p : Nat) (hindex : index < blob.length)
    (h : ¬ blob.drop index <+: text.map fold) (hforeign : ∃ byte ∈ text, fold byte ∉ blob) :
    ∃ k < text.length, (text.take k).map fold <+: blob.drop index ∧
      matchSequence fold blob index p text = some (.mismatch (p + k)) := by
  induction text generalizing index p with
  | nil =>
      obtain ⟨_, hmem, _⟩ := hforeign
      exact absurd hmem List.not_mem_nil
  | cons byte text ih =>
      rw [matchSequence, List.getElem?_eq_getElem hindex]
      by_cases hbyte : fold byte = blob[index]
      · rw [List.drop_eq_getElem_cons hindex, List.map_cons, hbyte, List.cons_prefix_cons] at h
        have hrest : ¬ blob.drop (index + 1) <+: text.map fold := fun hprefix => h ⟨rfl, hprefix⟩
        have hmore : index + 1 < blob.length := by
          by_contra hend
          rw [List.drop_eq_nil_of_le (by omega)] at hrest
          exact hrest List.nil_prefix
        have hforeign' : ∃ byte ∈ text, fold byte ∉ blob := by
          obtain ⟨other, hmem, hnot⟩ := hforeign
          rcases List.mem_cons.1 hmem with rfl | hmem
          · exact absurd (hbyte ▸ List.getElem_mem hindex) hnot
          · exact ⟨other, hmem, hnot⟩
        obtain ⟨k, hk, hfits, hmatch⟩ := ih (index + 1) (p + 1) hmore hrest hforeign'
        refine ⟨k + 1, Nat.succ_lt_succ hk, ?_, ?_⟩
        · rw [List.take_succ_cons, List.map_cons, hbyte, List.drop_eq_getElem_cons hindex]
          exact List.cons_prefix_cons.2 ⟨rfl, hfits⟩
        have hne : index + 1 ≠ blob.length := Nat.ne_of_lt hmore
        simp only [hbyte, hne]
        rw [hmatch]
        simp [Nat.add_assoc, Nat.add_comm 1]
      · exact ⟨0, Nat.succ_pos _, List.nil_prefix, by simp [hbyte]⟩

end Words

/-! ## Steps in a row -/

variable [DecidableEq Span]

/-- The steps from `c` lead to `c'` and report `events`. -/
inductive Reaches (g : ParserGraph Label Store Span Signal) (data : List UInt8) :
    Config Label Store Span → List (Event Span Signal) → Config Label Store Span → Prop
  | refl (c : Config Label Store Span) : Reaches g data c [] c
  | step {c c' c'' : Config Label Store Span} {events events' : List (Event Span Signal)}
      (hstep : (g.node c.label).step data c = some (.next c' events))
      (hrest : Reaches g data c' events' c'') : Reaches g data c (events ++ events') c''

variable {g : ParserGraph Label Store Span Signal} {data : List UInt8}
  {c c' c'' : Config Label Store Span} {events events' : List (Event Span Signal)}

namespace Reaches

theorem single (hstep : (g.node c.label).step data c = some (.next c' events)) :
    Reaches g data c events c' := by
  have h := Reaches.step hstep (.refl c')
  rwa [List.append_nil] at h

theorem trans (h : Reaches g data c events c') (h' : Reaches g data c' events' c'') :
    Reaches g data c (events ++ events') c'' := by
  induction h with
  | refl c => exact h'
  | step hstep _ ih =>
      rw [List.append_assoc]
      exact .step hstep (ih h')

/-- Steps that report nothing. -/
theorem silent_trans (h : Reaches g data c [] c') (h' : Reaches g data c' events c'') :
    Reaches g data c events c'' :=
  h.trans h'

theorem runs (h : Reaches g data c events c') {stop : Stop Label Store Span}
    (hruns : Runs g data c' events' stop) : Runs g data c (events ++ events') stop := by
  induction h with
  | refl c => exact hruns
  | step hstep _ ih =>
      rw [List.append_assoc]
      exact .next hstep (ih hruns)

end Reaches

theorem getElem?_of_drop {p : Nat} {byte : UInt8} {rest : List UInt8}
    (hrest : data.drop p = byte :: rest) : data[p]? = some byte := by
  rw [← List.head?_drop, hrest, List.head?_cons]

theorem drop_of_drop {p : Nat} {text rest : List UInt8} (hrest : data.drop p = text ++ rest) :
    data.drop (p + text.length) = rest := by
  rw [← List.drop_drop, hrest, List.drop_left]

section Choices

variable {test : UInt8 → Bool} {move otherwise : Move Label}
  {cases : List ((UInt8 → Bool) × Move Label)} {byte : UInt8}

@[simp] theorem choose_nil (otherwise : Move Label) (byte : UInt8) :
    choose [] otherwise byte = otherwise :=
  rfl

theorem choose_cons_of_pos (h : test byte = true) :
    choose ((test, move) :: cases) otherwise byte = move := by
  simp [choose, h]

theorem choose_cons_of_neg (h : test byte = false) :
    choose ((test, move) :: cases) otherwise byte = choose cases otherwise byte := by
  simp [choose, h]

end Choices

section Steps

variable {cases : List ((UInt8 → Bool) × Move Label)} {otherwise : Move Label} {byte : UInt8}
  {rest : List UInt8}

theorem Reaches.goto (hnode : g.node c.label = .switch cases otherwise)
    (hrest : data.drop c.p = byte :: rest) {target : Label}
    (hchoose : choose cases otherwise byte = .goto target) :
    Reaches g data c [] { c with label := target } := by
  refine .single ?_
  rw [hnode, Node.step, getElem?_of_drop hrest]
  simp only [hchoose]
  rfl

theorem Reaches.advance (hnode : g.node c.label = .switch cases otherwise)
    (hrest : data.drop c.p = byte :: rest) {target : Label}
    (hchoose : choose cases otherwise byte = .advance target) :
    Reaches g data c [] { c with label := target, p := c.p + 1 } := by
  refine .single ?_
  rw [hnode, Node.step, getElem?_of_drop hrest]
  simp only [hchoose]
  rfl

/-- Bytes that all lead back to the node. -/
theorem Reaches.loop {text : List UInt8} (hnode : g.node c.label = .switch cases otherwise)
    (hrest : data.drop c.p = text ++ rest)
    (hclass : ∀ byte ∈ text, choose cases otherwise byte = .advance c.label) :
    Reaches g data c [] { c with p := c.p + text.length } := by
  induction text generalizing c with
  | nil => exact .refl c
  | cons byte text ih =>
      have hfirst := Reaches.advance hnode hrest (hclass byte List.mem_cons_self)
      refine hfirst.silent_trans ?_
      have hnext : data.drop (c.p + [byte].length) = text ++ rest := drop_of_drop hrest
      have hloop := ih (c := { c with p := c.p + 1 }) hnode hnext fun byte hmem =>
        hclass byte (List.mem_cons_of_mem _ hmem)
      rw [List.length_cons, Nat.add_comm text.length 1, ← Nat.add_assoc]
      exact hloop

theorem Reaches.invoke {code : Store → Store × Nat} {cases : List (Nat × Label)}
    {otherwise target : Label} {store : Store}
    (hnode : g.node c.label = .invoke code cases otherwise) (hstore : (code c.store).1 = store)
    (htarget : chooseCode cases otherwise (code c.store).2 = target) :
    Reaches g data c [] { c with label := target, store := store } := by
  refine .single ?_
  rw [hnode, Node.step, hstore, htarget]

theorem Reaches.spanStart {span : Span} {target : Label}
    (hnode : g.node c.label = .spanStart span target) (hrest : data.drop c.p = byte :: rest) :
    Reaches g data c [] { c with label := target, span := some (span, c.p) } := by
  refine .single ?_
  have hlt : c.p ≠ data.length := by
    intro hend
    rw [hend, List.drop_length] at hrest
    cases hrest
  rw [hnode, Node.step, if_neg hlt]

theorem Reaches.spanEnd {span opened : Span} {start : Nat} {target : Label} {text : List UInt8}
    (hnode : g.node c.label = .spanEnd span false target) (hspan : c.span = some (opened, start))
    (htext : slice data start c.p = text) :
    Reaches g data c [.fragment span text] { c with label := target, span := none } := by
  refine .single ?_
  rw [hnode, Node.step, hspan, ← htext]
  rfl

/-- The end of a span that takes the byte behind it. -/
theorem Reaches.spanEnd_take {span opened : Span} {start : Nat} {target : Label}
    (hnode : g.node c.label = .spanEnd span true target) (hspan : c.span = some (opened, start))
    (hrest : data.drop c.p = byte :: rest) :
    Reaches g data c [.fragment span (slice data start c.p)]
      { c with label := target, span := none, p := c.p + 1 } := by
  refine .single ?_
  have hlt : ¬ (true = true ∧ c.p = data.length) := by
    rintro ⟨_, hend⟩
    rw [hend, List.drop_length] at hrest
    cases hrest
  rw [hnode, Node.step, hspan]
  dsimp only
  rw [if_neg hlt]
  rfl

variable {fold : UInt8 → UInt8} {blob text : List UInt8} {complete mismatch : Label}

theorem Reaches.word (hnode : g.node c.label = .sequence fold blob complete mismatch)
    (hindex : c.index = 0) (hne : text ≠ []) (hrest : data.drop c.p = text ++ rest)
    (htext : text.map fold = blob) :
    Reaches g data c [] { c with label := complete, p := c.p + text.length } := by
  refine .single ?_
  have hmatch := matchSequence_of_prefix c.p rest hne (htext.trans (List.drop_zero).symm)
  have hlength : c.p + (text.length - 1) + 1 = c.p + text.length := by
    have := List.length_pos_iff.2 hne
    omega
  rw [hnode, Node.step, hindex, hrest, hmatch]
  simp only [hlength, ← hindex]

theorem Reaches.noWord (hnode : g.node c.label = .sequence fold blob complete mismatch)
    (hindex : c.index = 0) (hblob : blob ≠ []) (hnot : ¬ blob <+: (data.drop c.p).map fold)
    (hforeign : ∃ byte ∈ data.drop c.p, fold byte ∉ blob) :
    ∃ k < (data.drop c.p).length, ((data.drop c.p).take k).map fold <+: blob ∧
      Reaches g data c [] { c with label := mismatch, p := c.p + k } := by
  obtain ⟨k, hk, hfits, hmatch⟩ := matchSequence_of_not_prefix 0 c.p
    (List.length_pos_iff.2 hblob) (by rwa [List.drop_zero]) hforeign
  refine ⟨k, hk, hfits, .single ?_⟩
  rw [hnode, Node.step, hindex, hmatch]

theorem Reaches.consume {counter : Counter Store} {target : Label}
    (hnode : g.node c.label = .consume counter target) (hrest : data.drop c.p = text ++ rest)
    (htext : text.length = counter.get c.store) :
    Reaches g data c []
      { c with label := target, store := counter.set 0 c.store, p := c.p + text.length } := by
  refine .single ?_
  have havailable : data.length - c.p ≥ counter.get c.store := by
    have hlength := congrArg List.length hrest
    rw [List.length_drop, List.length_append] at hlength
    omega
  rw [hnode, Node.step, htext]
  exact if_pos havailable

theorem Reaches.signal {make : Store → Signal} {signal : Signal} {target : Label}
    (hnode : g.node c.label = .signal make target) (hsignal : make c.store = signal) :
    Reaches g data c [.signal signal] { c with label := target } := by
  refine .single ?_
  rw [hnode, Node.step, hsignal]

/-- At the end of the chunk. -/
theorem Runs.of_end (hnode : g.node c.label = .switch cases otherwise) (hend : c.p = data.length) :
    Runs g data c [] (.suspended c) := by
  refine .suspend ?_
  rw [hnode, Node.step, List.getElem?_eq_none (Nat.le_of_eq hend.symm)]

theorem Runs.halted {code : Nat} {target : Label} (hnode : g.node c.label = .pause code target) :
    Runs g data c [] (.halted c code (some target)) := by
  refine .halt ?_
  rw [hnode, Node.step]

theorem Runs.failed {code : Nat} (hnode : g.node c.label = .error code) :
    Runs g data c [] (.halted c code none) := by
  refine .halt ?_
  rw [hnode, Node.step]

end Steps

/-! ## Texts in a row -/

namespace Parser

variable {parser : g.Parser} {text more : List UInt8}

/-- Behind an error the rest of a text makes no difference. -/
theorem execute_append_of_error (h : (parser.execute text).1.error ≠ 0) (more : List UInt8) :
    (parser.execute (text ++ more)).1 = (parser.execute text).1 := by
  have hstate := (parser.report_append text more).1
  rw [report_of_error _ _ h] at hstate
  exact hstate

/-- A run that halts at the end of the text, if at all, does not halt in the middle. -/
theorem error_eq_zero_of_runs {label : Label} {stop : Stop Label Store Span} (hok : parser.1.error = 0)
    (hcurrent : parser.1.current = some label)
    (hruns : Runs g (text ++ more) (parser.1.config label) events stop)
    (hend : ∀ c code resume, stop = .halted c code resume → c.p = (text ++ more).length)
    (hmore : more ≠ []) : (parser.execute text).1.error = 0 := by
  obtain ⟨events', stop', hruns', hreport⟩ := exists_runs hok hcurrent text
  have herror : (parser.execute text).1.error = (stop'.report text events').state.error :=
    congrArg (fun r => r.state.error) hreport
  have hwf : (parser.1.config label).WellFormed g text := parser.2.config hcurrent
  cases stop' with
  | suspended c => exact herror
  | halted c code resume =>
      obtain ⟨_, rfl⟩ := hruns.functional (hruns'.append_of_halted hwf more)
      obtain ⟨hp, _⟩ := hruns'.sound hwf
      have hlength := hend c code resume rfl
      rw [List.length_append] at hlength
      exact absurd (List.eq_nil_of_length_eq_zero (by omega)) hmore

end Parser

/-- The text takes the parser from one state to the other, and reports the events, up to cuts; the
parser does not stop before the end of the text. -/
def Feeds (g : ParserGraph Label Store Span Signal) (s : State Label Store Span)
    (text : List UInt8) (events : List (Event Span Signal)) (s' : State Label Store Span) : Prop :=
  ∀ parser : g.Parser, parser.1 = s → (parser.execute text).1 = s' ∧
    Regrouped (parser.report text).all events ∧
      ∀ front rest, text = front ++ rest → rest ≠ [] → (parser.execute front).1.error = 0

namespace Feeds

variable {s s' s'' : State Label Store Span} {text text' : List UInt8}

theorem of_execute {undelivered : List (Event Span Signal)}
    (h : g.execute s text = some ⟨s', events, undelivered⟩) (hok : s'.error = 0) :
    Feeds g s text (events ++ undelivered) s' := by
  rintro parser rfl
  have hreport := Option.some.inj ((parser.execute_eq text).symm.trans h)
  have hstate : (parser.execute text).1 = s' := congrArg Report.state hreport
  refine ⟨hstate, hreport ▸ Regrouped.refl _, fun front rest htext _ => ?_⟩
  by_contra herror
  have hsame := Parser.execute_append_of_error herror rest
  rw [← htext, hstate] at hsame
  exact herror (hsame ▸ hok)

section End

variable {label target : Label} {index : Nat} {store : Store}
  {cases : List ((UInt8 → Bool) × Move Label)} {otherwise : Move Label}

theorem of_runs {stop : Stop Label Store Span} (hok : s.error = 0) (hcurrent : s.current = some label)
    (hruns : Runs g text (s.config label) events stop)
    (hend : ∀ c code resume, stop = .halted c code resume → c.p = text.length) :
    Feeds g s text (stop.report text events).all (stop.report text events).state := by
  rintro parser rfl
  have hreport : parser.report text = stop.report text events :=
    Parser.report_of_runs hok hcurrent hruns
  refine ⟨congrArg Report.state hreport, hreport ▸ Regrouped.refl _, fun front rest htext hrest => ?_⟩
  subst htext
  exact Parser.error_eq_zero_of_runs hok hcurrent hruns hend hrest

/-- The text ends at a node that looks at the next byte. -/
theorem of_reaches (hok : s.error = 0) (hcurrent : s.current = some label)
    (h : Reaches g text (s.config label) events ⟨target, index, none, store, text.length⟩)
    (hnode : g.node target = .switch cases otherwise) :
    Feeds g s text events ⟨some target, index, none, store, 0⟩ := by
  have hfeeds := of_runs hok hcurrent (h.runs (.of_end hnode rfl)) nofun
  rw [all_report, List.append_nil] at hfeeds
  change Feeds g s text (events ++ []) _ at hfeeds
  rwa [List.append_nil] at hfeeds

/-- The text ends inside of a span that has been open from its beginning. -/
theorem of_reaches_open {span : Span} (hok : s.error = 0) (hcurrent : s.current = some label)
    (h : Reaches g text (s.config label) events
      ⟨target, index, some (span, 0), store, text.length⟩)
    (hnode : g.node target = .switch cases otherwise) :
    Feeds g s text (events ++ [.fragment span text])
      ⟨some target, index, some span, store, 0⟩ := by
  have hfeeds := of_runs hok hcurrent (h.runs (.of_end hnode rfl)) nofun
  have hslice : slice text 0 text.length = text := by simp [slice]
  rw [all_report, List.append_nil] at hfeeds
  change Feeds g s text (events ++ [.fragment span (slice text 0 text.length)]) _ at hfeeds
  rwa [hslice] at hfeeds

/-- With the end of the text the parser pauses. -/
theorem of_reaches_pause {code : Nat} {resume : Label} (hok : s.error = 0)
    (hcurrent : s.current = some label)
    (h : Reaches g text (s.config label) events ⟨target, index, none, store, text.length⟩)
    (hnode : g.node target = .pause code resume) :
    Feeds g s text events ⟨some resume, index, none, store, code⟩ := by
  have hfeeds := of_runs hok hcurrent (h.runs (.halted hnode)) fun c code' resume' heq => by
    injection heq with hc
    rw [← hc]
  rw [all_report, List.append_nil] at hfeeds
  change Feeds g s text (events ++ []) _ at hfeeds
  rwa [List.append_nil] at hfeeds

end End

theorem regroup (h : Feeds g s text events s') (hevents : Regrouped events events') :
    Feeds g s text events' s' := by
  intro parser hparser
  obtain ⟨hstate, hsame, hgoes⟩ := h parser hparser
  exact ⟨hstate, hsame.trans hevents, hgoes⟩

theorem append (h : Feeds g s text events s') (h' : Feeds g s' text' events' s'') :
    Feeds g s (text ++ text') (events ++ events') s'' := by
  intro parser hparser
  obtain ⟨hfirst, hevents, hgoes⟩ := h parser hparser
  obtain ⟨hsecond, hevents', hgoes'⟩ := h' (parser.execute text) hfirst
  obtain ⟨hstate, hall⟩ := parser.report_append text text'
  refine ⟨hstate.trans hsecond, hall.symm.trans (hevents.append hevents'),
    fun front rest htext hrest => ?_⟩
  rcases List.append_eq_append_iff.1 htext with ⟨middle, rfl, htext'⟩ | ⟨middle, hfront, rfl⟩
  · exact (congrArg State.error (parser.report_append text middle).1).trans
      (hgoes' middle rest htext' hrest)
  · cases middle with
    | cons byte middle => exact hgoes front (byte :: middle) hfront (List.cons_ne_nil _ _)
    | nil =>
        rw [List.append_nil] at hfront
        subst hfront
        by_contra herror
        have hnil := hgoes' [] text' rfl hrest
        have hsame := congrArg Report.state (Parser.report_of_error (parser.execute text) [] herror)
        exact herror ((congrArg State.error hsame).symm.trans hnil)

end Feeds

end ParserGraph
end Lib
end V8JsiRuntime
