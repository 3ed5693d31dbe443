import V8JsiRuntime.Lib.ParserGraph

/-!
# ParserCuts — where the chunks are cut does not matter

A parser of a graph reports the same for a text in one chunk and for the text cut into chunks, up to
where the texts of the spans are cut.  The text of a span that is open when the parser fails is not
reported; the earlier chunks have reported their part of it.
-/

namespace V8JsiRuntime
namespace Lib
namespace ParserGraph

variable {Label Store Span Signal : Type}

/-! ## Reports up to cuts -/

/-- It does not matter to the consumer where the text of a span is cut. -/
def Additive {σ : Type} (f : σ → Event Span Signal → σ) : Prop :=
  ∀ x span text text', f (f x (.fragment span text)) (.fragment span text') =
    f x (.fragment span (text ++ text'))

/-- The same reports, up to where the texts of the spans are cut. -/
def Regrouped (events events' : List (Event Span Signal)) : Prop :=
  ∀ (σ : Type) (f : σ → Event Span Signal → σ), Additive f →
    ∀ x, events.foldl f x = events'.foldl f x

namespace Regrouped

variable {events events' events'' more more' : List (Event Span Signal)}

theorem refl (events : List (Event Span Signal)) : Regrouped events events :=
  fun _ _ _ _ => rfl

theorem symm (h : Regrouped events events') : Regrouped events' events :=
  fun σ f hf x => (h σ f hf x).symm

theorem trans (h : Regrouped events events') (h' : Regrouped events' events'') :
    Regrouped events events'' :=
  fun σ f hf x => (h σ f hf x).trans (h' σ f hf x)

theorem append (h : Regrouped events events') (h' : Regrouped more more') :
    Regrouped (events ++ more) (events' ++ more') := by
  intro σ f hf x
  rw [List.foldl_append, List.foldl_append, h σ f hf x, h' σ f hf]

theorem join (span : Span) (text text' : List UInt8) :
    Regrouped ([.fragment span text, .fragment span text'] : List (Event Span Signal))
      [.fragment span (text ++ text')] :=
  fun _ _ hf x => hf x span text text'

end Regrouped

/-! ## Steps in a longer text -/

variable {data : List UInt8} {c : Config Label Store Span}

section Words

variable {fold : UInt8 → UInt8} {blob rest : List UInt8} {index p : Nat}

/-- A match that pauses goes on in what follows. -/
theorem matchSequence_append_of_pause {index' : Nat}
    (h : matchSequence fold blob index p rest = some (.pause index')) (more : List UInt8) :
    matchSequence fold blob index p (rest ++ more) =
      matchSequence fold blob index' (p + rest.length) more := by
  induction rest generalizing index p with
  | nil =>
      obtain rfl : index = index' := by simpa [matchSequence] using h
      rfl
  | cons byte rest ih =>
      rw [List.cons_append, matchSequence]
      rw [matchSequence] at h
      cases hexpected : blob[index]? with
      | none =>
          rw [hexpected] at h
          cases h
      | some expected =>
          rw [hexpected] at h
          dsimp only at h ⊢
          split at h
          · rename_i hbyte
            rw [if_pos hbyte]
            split at h
            · cases h
            · rename_i hlast
              rw [if_neg hlast, ih h, List.length_cons, Nat.add_assoc, Nat.add_comm 1]
          · cases h

/-- A match that is decided stays so. -/
theorem matchSequence_append_of_decided {result : MatchResult}
    (h : matchSequence fold blob index p rest = some result)
    (hdecided : ∀ index', result ≠ .pause index') (more : List UInt8) :
    matchSequence fold blob index p (rest ++ more) = some result := by
  induction rest generalizing index p with
  | nil => exact absurd (Option.some.inj h).symm (hdecided index)
  | cons byte rest ih =>
      rw [List.cons_append, matchSequence]
      rw [matchSequence] at h
      cases hexpected : blob[index]? with
      | none =>
          rw [hexpected] at h
          cases h
      | some expected =>
          rw [hexpected] at h
          dsimp only at h ⊢
          split at h
          · rename_i hbyte
            rw [if_pos hbyte]
            split at h
            · rename_i hlast
              rw [if_pos hlast, h]
            · rename_i hlast
              rw [if_neg hlast, ih h]
          · rename_i hbyte
            rw [if_neg hbyte, h]

/-- The same match in a text that begins `offset` bytes later. -/
def MatchResult.shift (offset : Nat) : MatchResult → MatchResult
  | .complete current => .complete (offset + current)
  | .pause index => .pause index
  | .mismatch current => .mismatch (offset + current)

theorem matchSequence_shift (offset : Nat) :
    matchSequence fold blob index (offset + p) rest =
      (matchSequence fold blob index p rest).map (MatchResult.shift offset) := by
  induction rest generalizing index p with
  | nil => rfl
  | cons byte rest ih =>
      rw [matchSequence, matchSequence]
      cases blob[index]? with
      | none => rfl
      | some expected =>
          dsimp only
          split
          · split
            · rfl
            · rw [Nat.add_assoc, ih]
          · rfl

end Words

theorem slice_append {start p : Nat} (h : p ≤ data.length) (more : List UInt8) :
    slice (data ++ more) start p = slice data start p := by
  rw [slice, slice, List.take_append_of_le_length h]

/-- What a step means for a longer text: it is the same, and where the text was used up the parser
goes on from where it stopped. -/
def Outcome.GoesOn (node : Node Label Store Span Signal) (data more : List UInt8)
    (c : Config Label Store Span) : Outcome Label Store Span Signal → Prop
  | .next c' events => node.step (data ++ more) c = some (.next c' events)
  | .suspend c' => c'.label = c.label ∧ node.step (data ++ more) c = node.step (data ++ more) c'
  | .halt c' code resume => node.step (data ++ more) c = some (.halt c' code resume)

theorem consume_append {counter : Counter Store} {target : Label} (hp : c.p ≤ data.length)
    (hneed : ¬ data.length - c.p ≥ counter.get c.store) (more : List UInt8) :
    (Node.consume counter target : Node Label Store Span Signal).step (data ++ more) c =
      (Node.consume counter target).step (data ++ more) { c with
        store := counter.set (counter.get c.store - (data.length - c.p)) c.store
        p := data.length } := by
  have hget := counter.get_set (counter.get c.store - (data.length - c.p)) c.store (Nat.sub_le _ _)
  simp only [Node.step, hget, List.length_append, counter.set_set, Nat.add_sub_cancel_left]
  by_cases hmore : data.length + more.length - c.p ≥ counter.get c.store
  · rw [if_pos hmore, if_pos (by omega)]
    congr 3
    omega
  · rw [if_neg hmore, if_neg (by omega)]
    congr 4
    omega

theorem Node.step_append {node : Node Label Store Span Signal} (hp : c.p ≤ data.length)
    {o : Outcome Label Store Span Signal} (h : node.step data c = some o) (more : List UInt8) :
    o.GoesOn node data more c := by
  cases node with
  | switch cases otherwise =>
      rw [Node.step] at h
      cases hbyte : data[c.p]? with
      | none =>
          rw [hbyte] at h
          obtain rfl := Option.some.inj h
          exact ⟨rfl, rfl⟩
      | some byte =>
          have hlt := (List.getElem?_eq_some_iff.1 hbyte).1
          rw [hbyte] at h
          obtain rfl := Option.some.inj h
          dsimp only [Outcome.GoesOn]
          rw [Node.step, List.getElem?_append_left hlt, hbyte]
  | sequence fold blob complete mismatch =>
      have hdrop : (data ++ more).drop c.p = data.drop c.p ++ more :=
        List.drop_append_of_le_length hp
      rw [Node.step] at h
      cases hmatch : matchSequence fold blob c.index c.p (data.drop c.p) with
      | none =>
          rw [hmatch] at h
          cases h
      | some result =>
          rw [hmatch] at h
          cases result with
          | complete current =>
              obtain rfl := Option.some.inj h
              have hlonger := matchSequence_append_of_decided hmatch (fun _ h => by cases h) more
              dsimp only [Outcome.GoesOn]
              rw [Node.step, hdrop, hlonger]
          | mismatch current =>
              obtain rfl := Option.some.inj h
              have hlonger := matchSequence_append_of_decided hmatch (fun _ h => by cases h) more
              dsimp only [Outcome.GoesOn]
              rw [Node.step, hdrop, hlonger]
          | pause index =>
              obtain rfl := Option.some.inj h
              have hlonger := matchSequence_append_of_pause hmatch more
              rw [List.length_drop, Nat.add_sub_of_le hp] at hlonger
              refine ⟨rfl, ?_⟩
              simp only [Node.step, hdrop, hlonger, List.drop_left]
  | consume counter target =>
      rw [Node.step] at h
      by_cases hneed : data.length - c.p ≥ counter.get c.store
      · rw [if_pos hneed] at h
        obtain rfl := Option.some.inj h
        dsimp only [Outcome.GoesOn]
        rw [Node.step, if_pos]
        rw [List.length_append]
        omega
      · rw [if_neg hneed] at h
        obtain rfl := Option.some.inj h
        exact ⟨rfl, consume_append hp hneed more⟩
  | invoke code cases otherwise =>
      obtain rfl := Option.some.inj h
      rfl
  | signal make target =>
      obtain rfl := Option.some.inj h
      rfl
  | spanStart span target =>
      rw [Node.step] at h
      by_cases hend : c.p = data.length
      · rw [if_pos hend] at h
        obtain rfl := Option.some.inj h
        exact ⟨rfl, rfl⟩
      · rw [if_neg hend] at h
        obtain rfl := Option.some.inj h
        dsimp only [Outcome.GoesOn]
        rw [Node.step, if_neg]
        rw [List.length_append]
        omega
  | spanEnd span takes target =>
      rw [Node.step] at h
      cases hopen : c.span with
      | none =>
          rw [hopen] at h
          cases h
      | some opened =>
          rw [hopen] at h
          dsimp only at h
          split at h
          · cases h
          · rename_i hbyte
            obtain rfl := Option.some.inj h
            dsimp only [Outcome.GoesOn]
            rw [Node.step, hopen]
            dsimp only
            rw [slice_append hp, if_neg]
            rintro ⟨htakes, hend⟩
            rw [List.length_append] at hend
            exact hbyte ⟨htakes, by omega⟩
  | error code =>
      obtain rfl := Option.some.inj h
      rfl
  | pause code resume =>
      obtain rfl := Option.some.inj h
      rfl

/-! ## Steps behind an earlier part of the text -/

variable {more : List UInt8}

/-- The span of a parser that has read `data` and that of one which starts on the next chunk there;
`carried` is what was reported of the span when the chunk ended. -/
inductive Carried (data : List UInt8) :
    Option (Span × Nat) → Option (Span × Nat) → List (Event Span Signal) → Prop
  | closed : Carried data none none []
  | inside (span : Span) (start : Nat) :
      Carried data (some (span, data.length + start)) (some (span, start)) []
  | across (span : Span) (start : Nat) (h : start ≤ data.length) :
      Carried data (some (span, start)) (some (span, 0)) [.fragment span (data.drop start)]

/-- `c` has read `data` and a part of the next chunk, `d` that part only. -/
structure Continues (data : List UInt8) (carried : List (Event Span Signal))
    (c d : Config Label Store Span) : Prop where
  label : c.label = d.label
  index : c.index = d.index
  store : c.store = d.store
  p : c.p = data.length + d.p
  span : Carried data c.span d.span carried

theorem slice_inside (start p : Nat) :
    slice (data ++ more) (data.length + start) (data.length + p) = slice more start p := by
  rw [slice, slice, List.take_length_add_append, List.drop_length_add_append]

theorem slice_across {start : Nat} (h : start ≤ data.length) (p : Nat) :
    slice (data ++ more) start (data.length + p) = data.drop start ++ slice more 0 p := by
  rw [slice, slice, List.take_length_add_append, List.drop_append_of_le_length h, List.drop_zero]

/-- The text of a span that ends. -/
theorem Carried.regrouped {carried : List (Event Span Signal)} {span : Span} {start start' : Nat}
    (h : Carried data (some (span, start)) (some (span, start')) carried) (closed : Span)
    (hclosed : span = closed) (p : Nat) :
    Regrouped (carried ++ [.fragment closed (slice more start' p)])
      [.fragment closed (slice (data ++ more) start (data.length + p))] := by
  subst hclosed
  cases h with
  | inside span start =>
      rw [slice_inside]
      exact .refl _
  | across span start hstart =>
      rw [slice_across hstart]
      exact .join _ _ _

/-- What a step on the next chunk means for the whole text. -/
def Outcome.ContinuedBy (node : Node Label Store Span Signal) (data more : List UInt8)
    (carried : List (Event Span Signal)) (c : Config Label Store Span) :
    Outcome Label Store Span Signal → Prop
  | .next d' events => ∃ c' events' carried',
      node.step (data ++ more) c = some (.next c' events') ∧ Continues data carried' c' d' ∧
        Regrouped (carried ++ events) (events' ++ carried')
  | .suspend d' => ∃ c', node.step (data ++ more) c = some (.suspend c') ∧
      Continues data carried c' d'
  | .halt d' code resume => ∃ c', node.step (data ++ more) c = some (.halt c' code resume) ∧
      Continues data carried c' d'

variable {d : Config Label Store Span} {carried : List (Event Span Signal)}

namespace Continues

theorem move (h : Continues data carried c d) {label : Label} {index : Nat} {store : Store}
    {p p' : Nat} (hp : p = data.length + p') :
    Continues data carried ⟨label, index, c.span, store, p⟩ ⟨label, index, d.span, store, p'⟩ :=
  ⟨rfl, rfl, rfl, hp, h.span⟩

theorem switch (h : Continues data carried c d) {cases : List ((UInt8 → Bool) × Move Label)}
    {otherwise : Move Label} {o : Outcome Label Store Span Signal}
    (hstep : (Node.switch cases otherwise).step more d = some o) :
    o.ContinuedBy (.switch cases otherwise) data more carried c := by
  have hlook : (data ++ more)[c.p]? = more[d.p]? := by
    rw [h.p, List.getElem?_append_right (Nat.le_add_right _ _), Nat.add_sub_cancel_left]
  rw [Node.step] at hstep
  cases hbyte : more[d.p]? with
  | none =>
      rw [hbyte] at hstep hlook
      obtain rfl := Option.some.inj hstep
      refine ⟨c, ?_, h⟩
      rw [Node.step, hlook]
  | some byte =>
      rw [hbyte] at hstep hlook
      obtain rfl := Option.some.inj hstep
      refine ⟨{ c with
        label := (choose cases otherwise byte).target
        p := (choose cases otherwise byte).position c.p }, [], carried, ?_, ?_, ?_⟩
      · rw [Node.step, hlook]
      · rw [h.index, h.store]
        refine h.move ?_
        cases choose cases otherwise byte with
        | goto target => exact h.p
        | advance target => exact congrArg Nat.succ h.p
      · rw [List.append_nil]
        exact .refl _

theorem sequence (h : Continues data carried c d) {fold : UInt8 → UInt8} {blob : List UInt8}
    {complete mismatch : Label} {o : Outcome Label Store Span Signal}
    (hstep : (Node.sequence fold blob complete mismatch).step more d = some o) :
    o.ContinuedBy (.sequence fold blob complete mismatch) data more carried c := by
  have hlook : matchSequence fold blob c.index c.p ((data ++ more).drop c.p) =
      (matchSequence fold blob d.index d.p (more.drop d.p)).map (MatchResult.shift data.length) := by
    rw [h.p, h.index, List.drop_length_add_append, matchSequence_shift]
  rw [Node.step] at hstep
  cases hmatch : matchSequence fold blob d.index d.p (more.drop d.p) with
  | none =>
      rw [hmatch] at hstep
      cases hstep
  | some result =>
      rw [hmatch] at hstep hlook
      cases result with
      | complete current =>
          obtain rfl := Option.some.inj hstep
          refine ⟨{ c with label := complete, index := 0, p := data.length + current + 1 }, [],
            carried, ?_, ?_, ?_⟩
          · rw [Node.step, hlook]
            rfl
          · rw [h.store]
            exact h.move (Nat.add_assoc _ _ _)
          · rw [List.append_nil]
            exact .refl _
      | pause index =>
          obtain rfl := Option.some.inj hstep
          refine ⟨{ c with index := index, p := (data ++ more).length }, ?_, ?_⟩
          · rw [Node.step, hlook]
            rfl
          · rw [h.store, h.label]
            exact h.move List.length_append
      | mismatch current =>
          obtain rfl := Option.some.inj hstep
          refine ⟨{ c with label := mismatch, index := 0, p := data.length + current }, [],
            carried, ?_, ?_, ?_⟩
          · rw [Node.step, hlook]
            rfl
          · rw [h.store]
            exact h.move rfl
          · rw [List.append_nil]
            exact .refl _

theorem consume (h : Continues data carried c d) {counter : Counter Store} {target : Label}
    {o : Outcome Label Store Span Signal}
    (hstep : (Node.consume counter target).step more d = some o) :
    o.ContinuedBy (.consume counter target) data more carried c := by
  have havailable : (data ++ more).length - c.p = more.length - d.p := by
    rw [List.length_append, h.p, Nat.add_sub_add_left]
  rw [Node.step] at hstep
  split at hstep
  · rename_i hneed
    obtain rfl := Option.some.inj hstep
    refine ⟨{ c with
      label := target
      store := counter.set 0 c.store
      p := c.p + counter.get c.store }, [], carried, ?_, ?_, ?_⟩
    · rw [Node.step, havailable, h.store, if_pos hneed]
    · rw [h.index, h.store]
      refine h.move ?_
      rw [h.p, Nat.add_assoc]
    · rw [List.append_nil]
      exact .refl _
  · rename_i hneed
    obtain rfl := Option.some.inj hstep
    refine ⟨{ c with
      store := counter.set (counter.get c.store - (more.length - d.p)) c.store
      p := (data ++ more).length }, ?_, ?_⟩
    · rw [Node.step, havailable, h.store, if_neg hneed]
    · rw [h.index, h.store, h.label]
      exact h.move List.length_append

theorem eq_nil (h : Continues data carried c d) (hclosed : d.span = none) : carried = [] := by
  have hcarried := h.span
  rw [hclosed] at hcarried
  generalize c.span = opened at hcarried
  cases hcarried
  rfl

theorem spanStart (h : Continues data carried c d) {span : Span} {target : Label}
    {o : Outcome Label Store Span Signal} (hclosed : d.span = none)
    (hstep : (Node.spanStart span target).step more d = some o) :
    o.ContinuedBy (.spanStart span target) data more carried c := by
  have hend : c.p = (data ++ more).length ↔ d.p = more.length := by
    rw [List.length_append, h.p]
    exact Nat.add_left_cancel_iff
  rw [Node.step] at hstep
  split at hstep
  · rename_i hp
    obtain rfl := Option.some.inj hstep
    refine ⟨c, ?_, h⟩
    rw [Node.step, if_pos (hend.2 hp)]
  · rename_i hp
    obtain rfl := Option.some.inj hstep
    rw [h.eq_nil hclosed]
    refine ⟨{ c with label := target, span := some (span, c.p) }, [], [], ?_, ?_, .refl _⟩
    · rw [Node.step, if_neg fun heq => hp (hend.1 heq)]
    · refine ⟨rfl, h.index, h.store, h.p, ?_⟩
      dsimp only
      rw [h.p]
      exact .inside span d.p

theorem spanEnd (h : Continues data carried c d) {span : Span} {takes : Bool} {target : Label}
    {o : Outcome Label Store Span Signal} (hopen : d.span.map Prod.fst = some span)
    (hstep : (Node.spanEnd span takes target).step more d = some o) :
    o.ContinuedBy (.spanEnd span takes target) data more carried c := by
  obtain ⟨⟨opened, start⟩, hspan, rfl⟩ := Option.map_eq_some_iff.1 hopen
  have hend : c.p = (data ++ more).length ↔ d.p = more.length := by
    rw [List.length_append, h.p]
    exact Nat.add_left_cancel_iff
  have hcarried := h.span
  rw [hspan] at hcarried
  have hwhole : ∃ start', c.span = some (opened, start') := by
    cases hc : c.span with
    | none =>
        rw [hc] at hcarried
        cases hcarried
    | some other =>
        rw [hc] at hcarried
        cases hcarried with
        | inside => exact ⟨_, rfl⟩
        | across => exact ⟨_, rfl⟩
  obtain ⟨start', hspan'⟩ := hwhole
  rw [hspan'] at hcarried
  rw [Node.step, hspan] at hstep
  dsimp only at hstep
  split at hstep
  · cases hstep
  · rename_i hbyte
    obtain rfl := Option.some.inj hstep
    refine ⟨{ c with
      label := target
      span := none
      p := if takes then c.p + 1 else c.p },
        [.fragment opened (slice (data ++ more) start' c.p)], [], ?_, ?_, ?_⟩
    · rw [Node.step, hspan']
      dsimp only
      rw [if_neg fun hboth => hbyte ⟨hboth.1, hend.1 hboth.2⟩]
    · refine ⟨rfl, h.index, h.store, ?_, .closed⟩
      cases takes with
      | true => exact congrArg Nat.succ h.p
      | false => exact h.p
    · rw [List.append_nil, h.p]
      exact hcarried.regrouped opened rfl d.p

/-- What is known of the open span in the end. -/
theorem pending (h : Continues data carried c d) :
    Regrouped (carried ++ d.pending more) (c.pending (data ++ more)) := by
  have hcarried := h.span
  cases hd : d.span with
  | none =>
      rw [h.eq_nil hd]
      rw [hd] at hcarried
      cases hc : c.span with
      | none =>
          simp only [Config.pending, hc, hd, List.append_nil]
          exact .refl _
      | some opened =>
          rw [hc] at hcarried
          cases hcarried
  | some opened =>
      obtain ⟨span, start⟩ := opened
      rw [hd] at hcarried
      cases hc : c.span with
      | none =>
          rw [hc] at hcarried
          cases hcarried
      | some opened =>
          obtain ⟨span', start'⟩ := opened
          rw [hc] at hcarried
          simp only [Config.pending, hc, hd, h.p]
          cases hcarried with
          | inside => exact Carried.regrouped (.inside span start) span rfl d.p
          | across _ _ hstart => exact Carried.regrouped (.across span start' hstart) span rfl d.p

end Continues

/-! ### Ends -/

/-- The ends of a run on the next chunk and of a run on the whole text. -/
inductive Stop.Continues (data : List UInt8) (carried : List (Event Span Signal)) :
    Stop Label Store Span → Stop Label Store Span → Prop
  | suspended {c d : Config Label Store Span} (h : ParserGraph.Continues data carried c d) :
      Stop.Continues data carried (.suspended c) (.suspended d)
  | halted {c d : Config Label Store Span} {code : Nat} {resume : Option Label}
      (h : ParserGraph.Continues data carried c d) :
      Stop.Continues data carried (.halted c code resume) (.halted d code resume)

/-- All that was reported, and what was not because the parser failed. -/
def Report.all (r : Report Label Store Span Signal) : List (Event Span Signal) :=
  r.events ++ r.undelivered

theorem all_report (events : List (Event Span Signal)) (stop : Stop Label Store Span) :
    (stop.report data events).all = events ++
      match stop with
      | .suspended c => c.pending data
      | .halted c _ _ => c.pending data := by
  cases stop with
  | suspended c => exact List.append_nil _
  | halted c code resume => rfl

namespace Stop.Continues

variable {events events' : List (Event Span Signal)} {stop stop' : Stop Label Store Span}

theorem state_eq (h : Stop.Continues data carried stop stop') :
    (stop.report (data ++ more) events).state = (stop'.report more events').state := by
  have hspan {c d : Config Label Store Span} (h : ParserGraph.Continues data carried c d) :
      c.span.map Prod.fst = d.span.map Prod.fst := by
    have hcarried := h.span
    generalize c.span = opened at hcarried
    generalize d.span = opened' at hcarried
    cases hcarried <;> rfl
  cases h with
  | suspended h => simp only [Stop.report, h.label, h.index, h.store, hspan h]
  | halted h => simp only [Stop.report, h.index, h.store, hspan h]

variable (more) in
theorem all_report (h : Stop.Continues data carried stop stop')
    {before : List (Event Span Signal)}
    (hevents : Regrouped (before ++ events') (events ++ carried)) :
    Regrouped (before ++ (stop'.report more events').all)
      (stop.report (data ++ more) events).all := by
  rw [ParserGraph.all_report, ParserGraph.all_report]
  have hpending {c d : Config Label Store Span} (h : ParserGraph.Continues data carried c d) :
      Regrouped (before ++ (events' ++ d.pending more)) (events ++ c.pending (data ++ more)) := by
    have hboth := hevents.append (.refl (d.pending more))
    rw [List.append_assoc, List.append_assoc] at hboth
    exact hboth.trans ((Regrouped.refl events).append h.pending)
  cases h with
  | suspended h => exact hpending h
  | halted h => exact hpending h

end Stop.Continues

/-! ## Runs as a relation -/

/-- The steps from `c` on report `events` and end with `stop`. -/
inductive Runs [DecidableEq Span] (g : ParserGraph Label Store Span Signal) (data : List UInt8) :
    Config Label Store Span → List (Event Span Signal) → Stop Label Store Span → Prop
  | suspend {c c' : Config Label Store Span}
      (hstep : (g.node c.label).step data c = some (.suspend c')) : Runs g data c [] (.suspended c')
  | halt {c c' : Config Label Store Span} {code : Nat} {resume : Option Label}
      (hstep : (g.node c.label).step data c = some (.halt c' code resume)) :
      Runs g data c [] (.halted c' code resume)
  | next {c c' : Config Label Store Span} {events events' : List (Event Span Signal)}
      {stop : Stop Label Store Span}
      (hstep : (g.node c.label).step data c = some (.next c' events))
      (hrest : Runs g data c' events' stop) : Runs g data c (events ++ events') stop

variable [DecidableEq Span] {g : ParserGraph Label Store Span Signal}

theorem runs_of_run {fuel : Nat} {r : List (Event Span Signal) × Stop Label Store Span}
    (h : g.run data fuel c = some r) : Runs g data c r.1 r.2 := by
  induction fuel generalizing c r with
  | zero => cases h
  | succ fuel ih =>
      rw [run] at h
      cases hstep : (g.node c.label).step data c with
      | none =>
          rw [hstep] at h
          cases h
      | some o =>
          rw [hstep] at h
          cases o with
          | suspend c' =>
              obtain rfl := Option.some.inj h
              exact .suspend hstep
          | halt c' code resume =>
              obtain rfl := Option.some.inj h
              exact .halt hstep
          | next c' events =>
              obtain ⟨rest, hrest, rfl⟩ := Option.map_eq_some_iff.1 h
              exact .next hstep (ih hrest)

/-- A run has one end. -/
theorem Runs.functional {events events' : List (Event Span Signal)}
    {stop stop' : Stop Label Store Span} (h : Runs g data c events stop)
    (h' : Runs g data c events' stop') : events = events' ∧ stop = stop' := by
  induction h generalizing events' stop' with
  | suspend hstep =>
      cases h' with
      | suspend hstep' =>
          cases hstep.symm.trans hstep'
          exact ⟨rfl, rfl⟩
      | halt hstep' => cases hstep.symm.trans hstep'
      | next hstep' _ => cases hstep.symm.trans hstep'
  | halt hstep =>
      cases h' with
      | suspend hstep' => cases hstep.symm.trans hstep'
      | halt hstep' =>
          cases hstep.symm.trans hstep'
          exact ⟨rfl, rfl⟩
      | next hstep' _ => cases hstep.symm.trans hstep'
  | next hstep hrest ih =>
      cases h' with
      | suspend hstep' => cases hstep.symm.trans hstep'
      | halt hstep' => cases hstep.symm.trans hstep'
      | next hstep' hrest' =>
          cases hstep.symm.trans hstep'
          obtain ⟨rfl, rfl⟩ := ih hrest'
          exact ⟨rfl, rfl⟩

/-- A run keeps to well-formed configurations. -/
theorem Runs.sound {events : List (Event Span Signal)} {stop : Stop Label Store Span}
    (h : Runs g data c events stop) (hc : c.WellFormed g data) : stop.Sound g data := by
  induction h with
  | suspend hstep =>
      obtain ⟨o, heq, hsound⟩ := hc.step
      cases hstep.symm.trans heq
      exact hsound
  | halt hstep =>
      obtain ⟨o, heq, hsound⟩ := hc.step
      cases hstep.symm.trans heq
      obtain ⟨rfl, hcode, hpause, hresume⟩ := hsound
      refine ⟨hc.p_le, hcode, hpause, fun label hlabel => ?_⟩
      rw [hc.span]
      exact hresume label hlabel
  | next hstep _ ih =>
      obtain ⟨o, heq, hsound⟩ := hc.step
      cases hstep.symm.trans heq
      exact ih hsound.1

/-! ### Runs in a longer text -/

/-- A run that halts halts in every longer text. -/
theorem Runs.append_of_halted {events : List (Event Span Signal)} {c' : Config Label Store Span}
    {code : Nat} {resume : Option Label} (h : Runs g data c events (.halted c' code resume))
    (hc : c.WellFormed g data) (more : List UInt8) :
    Runs g (data ++ more) c events (.halted c' code resume) := by
  generalize hstop : Stop.halted c' code resume = stop at h
  induction h with
  | suspend _ => cases hstop
  | halt hstep =>
      cases hstop
      exact .halt (Node.step_append hc.p_le hstep more)
  | next hstep _ ih =>
      obtain ⟨o, heq, hsound⟩ := hc.step
      cases hstep.symm.trans heq
      exact .next (Node.step_append hc.p_le hstep more) (ih hsound.1 hstop)

/-- A run that uses the text up goes on in a longer one. -/
theorem Runs.append_of_suspended {events events' : List (Event Span Signal)}
    {c' : Config Label Store Span} {stop : Stop Label Store Span}
    (h : Runs g data c events (.suspended c')) (hc : c.WellFormed g data) {more : List UInt8}
    (hrest : Runs g (data ++ more) c' events' stop) :
    Runs g (data ++ more) c (events ++ events') stop := by
  generalize hstop : Stop.suspended c' = stop' at h
  induction h with
  | @suspend c c'' hstep =>
      cases hstop
      obtain ⟨hlabel, hsame⟩ := Node.step_append hc.p_le hstep more
      rw [← hlabel] at hsame
      rw [List.nil_append]
      cases hrest with
      | suspend hstep' => exact .suspend (hlabel ▸ hsame.trans hstep')
      | halt hstep' => exact .halt (hlabel ▸ hsame.trans hstep')
      | next hstep' hrest' => exact .next (hlabel ▸ hsame.trans hstep') hrest'
  | halt _ => cases hstop
  | next hstep _ ih =>
      obtain ⟨o, heq, hsound⟩ := hc.step
      cases hstep.symm.trans heq
      rw [List.append_assoc]
      exact .next (Node.step_append hc.p_le hstep more) (ih hsound.1 hstop)

/-! ### Runs behind an earlier part of the text -/

section Continuation

variable {more : List UInt8} {d : Config Label Store Span} {carried : List (Event Span Signal)}

theorem Continues.step (h : Continues data carried c d) (hd : d.WellFormed g more)
    {o : Outcome Label Store Span Signal} (hstep : (g.node d.label).step more d = some o) :
    o.ContinuedBy (g.node c.label) data more carried c := by
  have hindex := hd.index
  have haccepts := g.accepts d.label
  rw [h.label]
  cases hnode : g.node d.label with
  | switch cases otherwise => exact h.switch (hnode ▸ hstep)
  | sequence fold blob complete mismatch => exact h.sequence (hnode ▸ hstep)
  | consume counter target => exact h.consume (hnode ▸ hstep)
  | invoke code cases otherwise =>
      rw [hnode] at hstep
      obtain rfl := Option.some.inj hstep
      refine ⟨_, _, carried, rfl, ?_, ?_⟩
      · rw [h.index, h.store]
        exact h.move h.p
      · rw [List.append_nil]
        exact .refl _
  | signal make target =>
      rw [hnode] at hstep
      obtain rfl := Option.some.inj hstep
      rw [hnode, Node.accepts, beq_iff_eq] at haccepts
      have hclosed := hd.span
      rw [haccepts, Option.map_eq_none_iff] at hclosed
      refine ⟨_, _, carried, rfl, ?_, ?_⟩
      · rw [h.index, h.store]
        exact h.move h.p
      · -- nothing is carried outside of a span
        rw [h.eq_nil hclosed, List.append_nil, h.store]
        exact .refl _
  | spanStart span target =>
      rw [hnode, Node.accepts, beq_iff_eq] at haccepts
      have hclosed := hd.span
      rw [haccepts, Option.map_eq_none_iff] at hclosed
      exact h.spanStart hclosed (hnode ▸ hstep)
  | spanEnd span takes target =>
      rw [hnode, Node.accepts, Bool.and_eq_true, beq_iff_eq] at haccepts
      exact h.spanEnd (hd.span.trans haccepts.1) (hnode ▸ hstep)
  | error code =>
      rw [hnode] at hstep
      obtain rfl := Option.some.inj hstep
      exact ⟨c, rfl, h⟩
  | pause code resume =>
      rw [hnode] at hstep
      obtain rfl := Option.some.inj hstep
      exact ⟨c, rfl, h⟩

/-- A run on the next chunk is a run on the whole text. -/
theorem Continues.runs {events : List (Event Span Signal)} {stop : Stop Label Store Span}
    (h : Continues data carried c d) (hd : d.WellFormed g more)
    (hruns : Runs g more d events stop) :
    ∃ events' stop' carried', Runs g (data ++ more) c events' stop' ∧
      Stop.Continues data carried' stop' stop ∧
        Regrouped (carried ++ events) (events' ++ carried') := by
  induction hruns generalizing c carried with
  | suspend hstep =>
      obtain ⟨c', hstep', hc'⟩ := h.step hd hstep
      exact ⟨[], _, carried, .suspend hstep', .suspended hc', by simpa using .refl _⟩
  | halt hstep =>
      obtain ⟨c', hstep', hc'⟩ := h.step hd hstep
      exact ⟨[], _, carried, .halt hstep', .halted hc', by simpa using .refl _⟩
  | @next d d' events events' stop hstep _ ih =>
      obtain ⟨o, heq, hsound⟩ := hd.step
      cases hstep.symm.trans heq
      obtain ⟨c', first, carried', hstep', hc', hfirst⟩ := h.step hd hstep
      obtain ⟨rest, stop', carried'', hruns, hstop, hrest⟩ := ih hc' hsound.1
      refine ⟨first ++ rest, stop', carried'', .next hstep' hruns, hstop, ?_⟩
      have hboth := hfirst.append (.refl events')
      rw [List.append_assoc, List.append_assoc] at hboth
      rw [List.append_assoc]
      exact hboth.trans ((Regrouped.refl first).append hrest)

end Continuation

/-! ## Chunks -/

namespace Parser

variable (parser : g.Parser) (more : List UInt8)

/-- A failed or paused parser takes nothing. -/
theorem report_of_error (herror : parser.1.error ≠ 0) :
    parser.report more = ⟨parser.1, [], []⟩ := by
  have heq := parser.execute_eq more
  rw [ParserGraph.execute, if_pos herror] at heq
  exact (Option.some.inj heq).symm

variable {parser}

/-- A parser at work runs from where it stopped. -/
theorem exists_runs {label : Label} (hok : parser.1.error = 0)
    (hcurrent : parser.1.current = some label) (data : List UInt8) :
    ∃ events stop, Runs g data (parser.1.config label) events stop ∧
      parser.report data = stop.report data events := by
  have heq := parser.execute_eq data
  rw [ParserGraph.execute, if_neg (not_not.2 hok), hcurrent] at heq
  obtain ⟨r, hrun, hreport⟩ := Option.map_eq_some_iff.1 heq
  exact ⟨r.1, r.2, runs_of_run hrun, hreport.symm⟩

theorem report_of_runs {label : Label} {events : List (Event Span Signal)}
    {stop : Stop Label Store Span} (hok : parser.1.error = 0)
    (hcurrent : parser.1.current = some label)
    (hruns : Runs g data (parser.1.config label) events stop) :
    parser.report data = stop.report data events := by
  obtain ⟨events', stop', hruns', hreport⟩ := exists_runs hok hcurrent data
  obtain ⟨rfl, rfl⟩ := hruns.functional hruns'
  exact hreport

/-- Behind a chunk the parser goes on with what the chunk left open. -/
theorem continues_config (hwf : c.WellFormed g data) (hend : c.p = data.length)
    (events : List (Event Span Signal)) :
    Continues data (c.pending data : List (Event Span Signal)) c
      (((Stop.suspended c).report data events).state.config c.label) := by
  refine ⟨rfl, rfl, rfl, hend, ?_⟩
  have hstart := hwf.start_le
  simp only [Stop.report, State.config, Config.pending]
  cases hspan : c.span with
  | none => exact .closed
  | some opened =>
      obtain ⟨span, start⟩ := opened
      have hle : start ≤ data.length := hend ▸ hstart _ hspan
      simp only [slice, hend, List.take_length]
      exact .across span start hle

/-- A text in two chunks: the parser ends in the same state as on the whole text, and reports the
same. -/
theorem report_append (parser : g.Parser) (data more : List UInt8) :
    (parser.report (data ++ more)).state = ((parser.execute data).report more).state ∧
      Regrouped ((parser.report data).all ++ ((parser.execute data).report more).all)
        (parser.report (data ++ more)).all := by
  by_cases hok : parser.1.error = 0
  · obtain ⟨label, hcurrent⟩ := Option.isSome_iff_exists.1 (parser.2.isSome (Or.inl hok))
    obtain ⟨events, stop, hruns, hreport⟩ := exists_runs hok hcurrent data
    have hwf : (parser.1.config label).WellFormed g data := parser.2.config hcurrent
    have hsound := hruns.sound hwf
    have hstate : (parser.execute data).1 = (stop.report data events).state :=
      congrArg Report.state hreport
    cases stop with
    | halted c code resume =>
        obtain ⟨hp, hcode, _⟩ := hsound
        have hwhole := report_of_runs hok hcurrent (hruns.append_of_halted hwf more)
        have hfailed : (parser.execute data).1.error ≠ 0 := by
          rw [hstate]
          exact hcode
        rw [report_of_error (parser.execute data) more hfailed, hwhole, hreport, hstate]
        refine ⟨rfl, ?_⟩
        have hpending : (c.pending (data ++ more) : List (Event Span Signal)) = c.pending data := by
          simp only [Config.pending, slice_append hp]
        simp only [Report.all, Stop.report, List.append_nil, hpending]
        exact .refl _
    | suspended c =>
        obtain ⟨hc, _, hend⟩ := hsound
        have hok' : (parser.execute data).1.error = 0 := by
          rw [hstate]
          rfl
        have hcurrent' : (parser.execute data).1.current = some c.label := by
          rw [hstate]
          rfl
        obtain ⟨events', stop', hruns', hreport'⟩ := exists_runs hok' hcurrent' more
        have hcontinues := continues_config hc hend events
        rw [← hstate] at hcontinues
        obtain ⟨events'', stop'', carried, hruns'', hstop, hregrouped⟩ :=
          hcontinues.runs ((parser.execute data).2.config hcurrent') hruns'
        have hwhole := report_of_runs hok hcurrent (hruns.append_of_suspended hwf hruns'')
        rw [hwhole, hreport, hreport']
        refine ⟨hstop.state_eq, ?_⟩
        have hrest := (Regrouped.refl events).append (hstop.all_report more hregrouped)
        simp only [all_report, List.append_assoc] at hrest ⊢
        exact hrest
  · have hdata := report_of_error parser data hok
    have hstate : (parser.execute data).1 = parser.1 := congrArg Report.state hdata
    rw [report_of_error parser _ hok, hdata, report_of_error (parser.execute data) more
      (by rw [hstate]; exact hok), hstate]
    exact ⟨rfl, .refl _⟩

/-- The chunks of a text, one after the other. -/
def reports (parser : g.Parser) : List (List UInt8) → List (Report Label Store Span Signal)
  | [] => []
  | data :: chunks => parser.report data :: (parser.execute data).reports chunks

/-- The parser behind the chunks. -/
def executes (parser : g.Parser) (chunks : List (List UInt8)) : g.Parser :=
  chunks.foldl execute parser

/-- However a text is cut into chunks, the parser ends in the same state as on the whole text, and
reports the same. -/
theorem reports_flatten (parser : g.Parser) (first : List UInt8) (chunks : List (List UInt8)) :
    parser.executes (first :: chunks) = parser.execute (first :: chunks).flatten ∧
      Regrouped ((parser.reports (first :: chunks)).flatMap Report.all)
        (parser.report (first :: chunks).flatten).all := by
  induction chunks generalizing parser first with
  | nil => simp [executes, reports, Regrouped.refl]
  | cons second chunks ih =>
      obtain ⟨hstate, hevents⟩ := parser.report_append first (second :: chunks).flatten
      obtain ⟨hstate', hevents'⟩ := ih (parser.execute first) second
      rw [List.flatten_cons]
      constructor
      · rw [executes, List.foldl_cons, ← executes, hstate']
        exact Subtype.ext hstate.symm
      · rw [reports, List.flatMap_cons]
        exact ((Regrouped.refl _).append hevents').trans hevents

/-! ### What is not delivered -/

/-- Only a parser that fails leaves a text undelivered, and that is no signal. -/
theorem report_undelivered (parser : g.Parser) (data : List UInt8) :
    ((parser.execute data).1.error = 0 ∨ (parser.execute data).1.error = g.pauseCode →
      (parser.report data).undelivered = []) ∧
      ∀ signal, .signal signal ∉ (parser.report data).undelivered := by
  have herror : (parser.execute data).1.error = (parser.report data).state.error := rfl
  by_cases hok : parser.1.error = 0
  · obtain ⟨label, hcurrent⟩ := Option.isSome_iff_exists.1 (parser.2.isSome (Or.inl hok))
    obtain ⟨events, stop, hruns, hreport⟩ := exists_runs hok hcurrent data
    have hsound := hruns.sound (parser.2.config hcurrent)
    rw [herror, hreport]
    cases stop with
    | suspended c => exact ⟨fun _ => rfl, nofun⟩
    | halted c code resume =>
        obtain ⟨_, hcode, hpause, _⟩ := hsound
        refine ⟨fun herror => ?_, fun signal => ?_⟩
        · -- no span is open where the parser pauses
          dsimp only [Stop.report, Config.pending]
          rw [(hpause (herror.resolve_left hcode)).2]
        · dsimp only [Stop.report, Config.pending]
          split <;> simp
  · rw [report_of_error parser data hok]
    exact ⟨fun _ => rfl, nofun⟩

/-- Behind an error nothing more is reported. -/
theorem reports_of_error {parser : g.Parser} (herror : parser.1.error ≠ 0)
    (chunks : List (List UInt8)) :
    (parser.reports chunks).flatMap Report.events = [] ∧
      (parser.reports chunks).flatMap Report.all = [] ∧ parser.executes chunks = parser := by
  induction chunks with
  | nil => exact ⟨rfl, rfl, rfl⟩
  | cons data chunks ih =>
      have hreport := report_of_error parser data herror
      have hsame : parser.execute data = parser := Subtype.ext (congrArg Report.state hreport)
      obtain ⟨hevents, hall, hexecutes⟩ := ih
      refine ⟨?_, ?_, ?_⟩
      · rw [reports, List.flatMap_cons, hsame, hevents, hreport]
        rfl
      · rw [reports, List.flatMap_cons, hsame, hall, hreport]
        rfl
      · rw [executes, List.foldl_cons, hsame, ← executes, hexecutes]

/-- What the chunks report, and behind it what the parser has left undelivered. -/
theorem reports_all (parser : g.Parser) (chunks : List (List UInt8)) :
    ∃ lost, (parser.reports chunks).flatMap Report.all =
        (parser.reports chunks).flatMap Report.events ++ lost ∧
      ((parser.executes chunks).1.error = 0 ∨ (parser.executes chunks).1.error = g.pauseCode →
        lost = []) ∧ ∀ signal, .signal signal ∉ lost := by
  induction chunks generalizing parser with
  | nil => exact ⟨[], rfl, fun _ => rfl, nofun⟩
  | cons data chunks ih =>
      obtain ⟨hnone, hsignal⟩ := parser.report_undelivered data
      rw [reports, List.flatMap_cons, List.flatMap_cons, executes, List.foldl_cons, ← executes]
      by_cases hok : (parser.execute data).1.error = 0
      · obtain ⟨lost, hall, hlost, hsignals⟩ := ih (parser.execute data)
        refine ⟨lost, ?_, hlost, hsignals⟩
        rw [hall, Report.all, hnone (Or.inl hok), List.append_nil, List.append_assoc]
      · obtain ⟨hevents, hall, hexecutes⟩ := reports_of_error hok chunks
        refine ⟨(parser.report data).undelivered, ?_, ?_, hsignal⟩
        · rw [hevents, hall, List.append_nil, List.append_nil, Report.all]
        · rw [hexecutes]
          exact hnone

end Parser

end ParserGraph

end Lib
end V8JsiRuntime
