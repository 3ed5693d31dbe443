import V8JsiRuntime.Inspector.LlhttpReads

/-!
# LlhttpPause — upgrades and what is left of a message

The parser pauses behind a request that asks for an upgrade, so that the rest of the read is not
read as HTTP.  It does so unless a content length is left over from an earlier message.
-/

namespace V8JsiRuntime
namespace Inspector
namespace Llhttp

open Lib Lib.ParserGraph

/-! ## Flags -/

theorem hasFlags_setFlags {bits other : UInt8} (h : other &&& bits = 0) (s : Store) :
    hasFlags bits (setFlags other s).1 = hasFlags bits s := by
  have hbits : (s.flags ||| other) &&& bits = s.flags &&& bits := by
    have hdistrib : (s.flags ||| other) &&& bits = s.flags &&& bits ||| other &&& bits :=
      UInt8.toBitVec_inj.1 BitVec.and_or_distrib_right
    rw [hdistrib, h, UInt8.or_zero]
  rw [hasFlags, setFlags, hbits, hasFlags]

theorem hasFlags_setFlags_self (bits : UInt8) (s : Store) :
    hasFlags bits (setFlags bits s).1 = true := by
  have hbits : (s.flags ||| bits) &&& bits = bits := by
    refine UInt8.toBitVec_inj.1 ?_
    ext i
    rw [UInt8.toBitVec_and, UInt8.toBitVec_or, BitVec.getElem_and, BitVec.getElem_or]
    cases bits.toBitVec[i] <;> simp
  rw [hasFlags, setFlags, beq_iff_eq, hbits]

theorem hasFlags_setFlags_of {bits : UInt8} {s : Store} (h : hasFlags bits s = true)
    (other : UInt8) : hasFlags bits (setFlags other s).1 = true := by
  rw [hasFlags, beq_iff_eq] at h
  have hbits : (s.flags ||| other) &&& bits = bits := by
    have hdistrib : (s.flags ||| other) &&& bits = s.flags &&& bits ||| other &&& bits :=
      UInt8.toBitVec_inj.1 BitVec.and_or_distrib_right
    rw [hdistrib, h]
    refine UInt8.toBitVec_inj.1 ?_
    ext i
    rw [UInt8.toBitVec_or, UInt8.toBitVec_and, BitVec.getElem_or, BitVec.getElem_and]
    cases bits.toBitVec[i] <;> simp
  rw [hasFlags, setFlags, beq_iff_eq, hbits]

@[simp] theorem mulAdd_flags (base : UInt64) (value : Nat) (s : Store) :
    (mulAdd base value s).1.flags = s.flags := by
  unfold mulAdd
  split
  · rfl
  · split <;> rfl

@[simp] theorem mulAdd_upgrade (base : UInt64) (value : Nat) (s : Store) :
    (mulAdd base value s).1.upgrade = s.upgrade := by
  unfold mulAdd
  split
  · rfl
  · split <;> rfl

/-! ## Assertions at the labels -/

/-- What holds at every label: `on_headers_complete` is not set, so nothing skips a body, and a
trailer belongs to a chunked body. -/
structure Tidy (s : Store) : Prop where
  upgrade : s.upgrade = 0 ∨ s.upgrade = 1
  skipbody : hasFlags 64 s = false
  trailing : hasFlags 128 s = true → hasFlags 8 s = true

/-- There is a content length that this request has not given. -/
structure Leftover (s : Store) : Prop where
  contentLength : s.contentLength ≠ 0
  notGiven : hasFlags 32 s = false
  notConnect : s.method ≠ 5
  notChunked : hasFlags 8 s = false

/-- The labels inside of a chunked body. -/
def chunked : Label → Bool
  | .invokeUpdateContentLength | .chunkSize | .invokeMulAddContentLength _ | .chunkSizeOtherwise
  | .chunkSizeAlmostDone | .chunkParameters | .invokeOnChunkHeader | .invokeIsEqualContentLength
  | .spanStartOnBody | .consumeContentLength | .spanEndOnBody | .chunkDataAlmostDone
  | .chunkDataAlmostDoneSkip | .invokeOnChunkComplete | .invokeOrFlags | .invokeOnChunkComplete1 =>
      true
  | _ => false

/-- What is known where a message ends. -/
def Ending : Label → Store → Prop
  | .spanEndOnBody1, s => s.contentLength = 0
  | .invokeOnMessageComplete1, s => s.upgrade = 1 ∧ ¬ Leftover s
  | .invokeOnMessageComplete2, s => s.contentLength = 0 ∨ hasFlags 8 s = true
  | .invokeOnMessageComplete, s => s.upgrade = 1 → Leftover s
  | _, _ => True

/-- The assertions. -/
structure Coherent (label : Label) (s : Store) : Prop where
  tidy : Tidy s
  chunked : chunked label = true → hasFlags 8 s = true
  ending : Ending label s

namespace Tidy

variable {s : Store}

/-- Only the flags and `upgrade` matter. -/
theorem congr (h : Tidy s) {s' : Store} (hupgrade : s'.upgrade = s.upgrade)
    (hflags : s'.flags = s.flags) : Tidy s' := by
  obtain ⟨hup, hskip, htrail⟩ := h
  refine ⟨hupgrade ▸ hup, ?_, ?_⟩
  · rwa [hasFlags, hflags]
  · rwa [hasFlags, hasFlags, hflags]

theorem setFlags (h : Tidy s) {bits : UInt8} (hskip : bits &&& 64 = 0) (htrail : bits &&& 128 = 0) :
    Tidy (setFlags bits s).1 where
  upgrade := h.upgrade
  skipbody := (hasFlags_setFlags hskip s).trans h.skipbody
  trailing := by
    rw [hasFlags_setFlags htrail]
    exact fun htrailing => hasFlags_setFlags_of (h.trailing htrailing) bits

theorem mulAdd (h : Tidy s) (base : UInt64) (value : Nat) : Tidy (mulAdd base value s).1 :=
  h.congr (mulAdd_upgrade base value s) (mulAdd_flags base value s)

theorem beforeHeadersComplete (h : Tidy s) : Tidy (beforeHeadersComplete s).1 := by
  unfold Llhttp.beforeHeadersComplete
  split
  · exact ⟨Or.inr rfl, h.skipbody, h.trailing⟩
  · refine ⟨?_, h.skipbody, h.trailing⟩
    dsimp only
    split
    · exact Or.inr rfl
    · exact Or.inl rfl

end Tidy

/-- What `after_headers_complete` decides: there is no body, or the data behind the message is no
HTTP, or chunks or as many bytes as given follow. -/
theorem afterHeadersComplete_cases {s : Store} (h : Tidy s) :
    (afterHeadersComplete s = (s, 0) ∧ hasFlags 8 s = false ∧
        (hasFlags 32 s = false ∨ s.contentLength = 0) ∧
          (s.upgrade = 1 → s.method ≠ 5 ∧ s.contentLength ≠ 0)) ∨
      (afterHeadersComplete s = (s, 1) ∧ s.upgrade = 1 ∧
        (s.method = 5 ∨ hasFlags 8 s = false ∧ s.contentLength = 0)) ∨
      (afterHeadersComplete s = (s, 2) ∧ hasFlags 8 s = true) ∨ afterHeadersComplete s = (s, 3) := by
  have hbody : hasBody s = false ↔ hasFlags 8 s = false ∧ s.contentLength = 0 := by
    rw [hasBody, Bool.or_eq_false_iff, decide_eq_false_iff_not, UInt64.not_lt]
    exact and_congr_right fun _ => UInt64.le_zero_iff
  rw [afterHeadersComplete, h.skipbody]
  split
  · rename_i hexit
    rw [Bool.and_eq_true, Bool.or_false, Bool.or_eq_true, beq_iff_eq, Bool.not_eq_true'] at hexit
    have hupgrade : s.upgrade = 1 := h.upgrade.resolve_left (by simpa using hexit.1)
    exact Or.inr (Or.inl ⟨rfl, hupgrade, hexit.2.imp_right hbody.1⟩)
  · rename_i hexit
    have hstays (hupgrade : s.upgrade = 1) : s.method ≠ 5 ∧ hasBody s = true := by
      simp only [hupgrade, Bool.or_false, Bool.and_eq_true, Bool.or_eq_true, not_and, not_or,
        Bool.not_eq_true', Bool.not_eq_false, beq_iff_eq] at hexit
      exact hexit (by decide)
    rw [if_neg Bool.false_ne_true]
    split
    · rename_i hchunked
      exact Or.inr (Or.inr (Or.inl ⟨rfl, hchunked⟩))
    · rename_i hchunked
      rw [Bool.not_eq_true] at hchunked
      have hlength (hupgrade : s.upgrade = 1) : s.method ≠ 5 ∧ s.contentLength ≠ 0 := by
        obtain ⟨hconnect, hhas⟩ := hstays hupgrade
        refine ⟨hconnect, fun hzero => ?_⟩
        exact Bool.false_ne_true ((hbody.2 ⟨hchunked, hzero⟩).symm.trans hhas)
      split
      · rename_i hgiven
        exact Or.inl ⟨rfl, hchunked, Or.inl (by simpa using hgiven), hlength⟩
      · split
        · rename_i hzero
          exact Or.inl ⟨rfl, hchunked, Or.inr (beq_iff_eq.1 hzero), hlength⟩
        · exact Or.inr (Or.inr (Or.inr rfl))

/-! ### Labels where little is known -/

/-- Nothing is known at the label but `Tidy`. -/
def plain (label : Label) : Bool :=
  !chunked label &&
    match label with
    | .spanEndOnBody1 | .invokeOnMessageComplete1 | .invokeOnMessageComplete2
    | .invokeOnMessageComplete => false
    | _ => true

theorem coherent_of_plain {label : Label} (hplain : plain label = true) {s : Store} (h : Tidy s) :
    Coherent label s := by
  obtain ⟨hnot, hending⟩ := Bool.and_eq_true_iff.1 hplain
  refine ⟨h, fun hchunked => ?_, ?_⟩
  · rw [hchunked] at hnot
    cases hnot
  · cases label <;> trivial

theorem keeps_of_plain {label : Label} {s : Store}
    (hplain : (label :: (node label).targets).all plain = true)
    (hpreserves : (node label).Preserves Tidy s) (h : Tidy s) :
    (node label).Keeps Coherent (fun _ => True) label s :=
  (node label).keeps_of_targets
    (fun target hmem _ htidy => coherent_of_plain (List.all_eq_true.1 hplain target hmem) htidy)
    hpreserves h

/-- Inside of a chunked body. -/
theorem keeps_of_chunked {label : Label} {s : Store}
    (htargets : (label :: (node label).targets).all
      (fun target => chunked target || plain target) = true)
    (hpreserves : (node label).Preserves (fun s => Tidy s ∧ hasFlags 8 s = true) s)
    (h : Tidy s) (hchunked : hasFlags 8 s = true) :
    (node label).Keeps Coherent (fun _ => True) label s := by
  refine (node label).keeps_of_targets (fun target hmem s' hs' => ?_) hpreserves ⟨h, hchunked⟩
  rcases Bool.or_eq_true_iff.1 (List.all_eq_true.1 htargets target hmem) with hin | hplain
  · refine ⟨hs'.1, fun _ => hs'.2, ?_⟩
    cases target <;> trivial
  · exact coherent_of_plain hplain hs'.1

/-- All nodes hand the assertions on. -/
theorem kept_coherent : Kept graph Coherent fun _ => True := by
  intro label s ⟨h, hchunked, hending⟩
  have h1 : Tidy (setFlags 1 s).1 := h.setFlags (by decide) (by decide)
  have h2 : Tidy (setFlags 2 s).1 := h.setFlags (by decide) (by decide)
  have h4 : Tidy (setFlags 4 s).1 := h.setFlags (by decide) (by decide)
  have h8 : Tidy (setFlags 8 s).1 := h.setFlags (by decide) (by decide)
  have h16 : Tidy (setFlags 16 s).1 := h.setFlags (by decide) (by decide)
  have h32 : Tidy (setFlags 32 s).1 := h.setFlags (by decide) (by decide)
  cases label with
  | invokeBeforeHeadersComplete => exact ⟨h.beforeHeadersComplete, nofun, trivial⟩
  | invokeAfterHeadersComplete =>
      change Coherent (chooseCode _ _ (afterHeadersComplete s).2) (afterHeadersComplete s).1
      rcases afterHeadersComplete_cases h with
        ⟨heq, hplain, hlength, hstays⟩ | ⟨heq, hupgrade, hexit⟩ | ⟨heq, hbody⟩ | heq
      · rw [heq]
        refine ⟨h, nofun, fun hupgrade => ?_⟩
        obtain ⟨hconnect, hleft⟩ := hstays hupgrade
        exact ⟨hleft, hlength.resolve_right hleft, hconnect, hplain⟩
      · rw [heq]
        refine ⟨h, nofun, hupgrade, fun hleft => ?_⟩
        rcases hexit with hconnect | hnone
        · exact hleft.notConnect hconnect
        · exact hleft.contentLength hnone.2
      · rw [heq]
        exact ⟨h, fun _ => hbody, trivial⟩
      · rw [heq]
        exact ⟨h, nofun, trivial⟩
  | invokeTestFlags =>
      change Coherent (chooseCode _ _ (if hasFlags 128 s then 1 else 0)) s
      split
      · rename_i htrailing
        exact ⟨h, fun _ => h.trailing htrailing, trivial⟩
      · exact ⟨h, nofun, trivial⟩
  | invokeOrFlags =>
      have hbody := hasFlags_setFlags_of (hchunked rfl) 128
      have hskip : (128 : UInt8) &&& 64 = 0 := by decide
      exact ⟨⟨h.upgrade, (hasFlags_setFlags hskip s).trans h.skipbody, fun _ => hbody⟩, nofun, trivial⟩
  | consumeContentLength1 =>
      exact ⟨⟨h.congr rfl rfl, nofun, rfl⟩, fun n _ => ⟨h.congr rfl rfl, nofun, trivial⟩⟩
  | spanEndOnBody1 => exact ⟨h, nofun, Or.inl hending⟩
  | invokeOnChunkComplete1 => exact ⟨h, nofun, Or.inr (hchunked rfl)⟩
  | invokeOnMessageComplete => exact fun _ => ⟨h, nofun, trivial⟩
  | invokeOnMessageComplete1 => exact fun _ => ⟨h, nofun, trivial⟩
  | invokeOnMessageComplete2 => exact fun _ => ⟨h, nofun, trivial⟩
  | invokeAfterMessageComplete =>
      have htrailing : hasFlags 128 { s with flags := 0, finish := 0 } ≠ true := by
        simp [hasFlags]
      exact ⟨⟨h.upgrade, by simp [hasFlags, afterMessageComplete],
        fun htrail => absurd htrail htrailing⟩, nofun, trivial⟩
  | invokeMulAddContentLength value =>
      refine keeps_of_chunked rfl ⟨h.mulAdd 16 value, ?_⟩ h (hchunked rfl)
      rw [hasFlags, mulAddContentLength, mulAdd_flags, ← hasFlags]
      exact hchunked rfl
  | _ =>
      first
      | refine keeps_of_plain rfl ?_ h
        first
        | trivial
        | exact h
        | exact h.congr rfl rfl
        | exact h1
        | exact h2
        | exact h4
        | exact h8
        | exact h16
        | exact h32
        | exact h.mulAdd 10 _
      | refine keeps_of_chunked rfl ?_ h (hchunked rfl)
        first
        | trivial
        | exact ⟨h, hchunked rfl⟩
        | exact ⟨h.congr rfl rfl, hchunked rfl⟩
        | exact fun n hn => ⟨h.congr rfl rfl, hchunked rfl⟩

/-! ## Pauses -/

/-- At no other label the parser pauses before it has completed a message. -/
def Quiet (label : Label) (_ : Store) : Prop :=
  label ≠ .pause1 ∧ label ≠ .invokeIsEqualUpgrade

theorem kept_quiet : Kept graph Quiet fun _ => False := by
  intro label s ⟨hpause, hequal⟩
  have hplain {label : Label} (hall : (label :: (node label).targets).all
      (fun target => !(target matches .pause1 | .invokeIsEqualUpgrade)) = true) :
      (node label).Keeps Quiet (fun _ => False) label s := by
    refine (node label).keeps_of_targets (W := fun _ => True) (fun target hmem s _ => ?_) ?_ trivial
    · have htarget := List.all_eq_true.1 hall target hmem
      constructor <;> rintro rfl <;> cases htarget
    · unfold Node.Preserves
      split <;> simp
  cases label with
  | pause1 => exact absurd rfl hpause
  | invokeIsEqualUpgrade => exact absurd rfl hequal
  | invokeOnMessageComplete => exact False.elim
  | invokeOnMessageComplete1 => exact False.elim
  | invokeOnMessageComplete2 => exact False.elim
  | _ => exact hplain rfl

theorem error_ne_pauseCode {label : Label} {code : Nat} (h : node label = .error code) :
    code ≠ 21 := by
  have haccepts := graph.accepts label
  change (node label).accepts _ _ _ = true at haccepts
  rw [h, Node.accepts, Bool.and_eq_true, bne_iff_ne, bne_iff_ne] at haccepts
  exact haccepts.2

theorem eq_pause1 {label target : Label} {code : Nat} (h : node label = .pause code target) :
    label = .pause1 ∧ target = .invokeAfterMessageComplete := by
  cases label with
  | pause1 =>
      cases h
      exact ⟨rfl, rfl⟩
  | _ => cases h

theorem node_pause1 : graph.node .pause1 = .pause 21 .invokeAfterMessageComplete :=
  rfl

/-- The labels at which a message is complete. -/
theorem node_signal {label target : Label} {make : Store → Store}
    (h : node label = .signal make target) : make = id ∧
      (label = .invokeOnMessageComplete ∧ target = .invokeAfterMessageComplete ∨
        label = .invokeOnMessageComplete1 ∧ target = .pause1 ∨
        label = .invokeOnMessageComplete2 ∧ target = .invokeIsEqualUpgrade) := by
  cases label with
  | invokeOnMessageComplete =>
      cases h
      exact ⟨rfl, Or.inl ⟨rfl, rfl⟩⟩
  | invokeOnMessageComplete1 =>
      cases h
      exact ⟨rfl, Or.inr (Or.inl ⟨rfl, rfl⟩)⟩
  | invokeOnMessageComplete2 =>
      cases h
      exact ⟨rfl, Or.inr (Or.inr ⟨rfl, rfl⟩)⟩
  | _ => cases h

variable {data : Bytes} {c : Config Label Store Span} {events : List (Event Span Store)}
  {stop : Stop Label Store Span}

theorem error_ne_of_quiet (hruns : Runs graph data c events stop) (hquiet : Quiet c.label c.store)
    {front : List (Event Span Store)} (hsignals : ∀ m, .signal m ∉ events) :
    (stop.report data front).state.error ≠ 21 := by
  have hkeeps := kept_quiet.runs hruns hquiet fun m hmem => hsignals m hmem
  cases stop with
  | suspended c' =>
      change (0 : Nat) ≠ 21
      decide
  | halted c' code resume =>
      rintro (rfl : code = 21)
      rcases hruns.of_halted with ⟨herror, _⟩ | ⟨target, hnode, _⟩
      · exact error_ne_pauseCode herror rfl
      · exact hkeeps.1.1 (eq_pause1 hnode).1

/-- Behind a message that asks for an upgrade the parser pauses at once, unless something is left
over; behind another it does not pause before the next. -/
theorem pauses_behind {c' : Config Label Store Span} {make : Store → Store} {target : Label}
    (hnode : graph.node c'.label = .signal make target) (hc' : Coherent c'.label c'.store)
    (hruns : Runs graph data { c' with label := target } events stop) :
    (((make c'.store).upgrade = 1 ∧ ¬ Leftover (make c'.store)) → events = [] ∧
        ∃ resume, stop = .halted { c' with label := .pause1 } 21 resume) ∧
      (¬ ((make c'.store).upgrade = 1 ∧ ¬ Leftover (make c'.store)) → (∀ m, .signal m ∉ events) →
        (stop.report data events).state.error ≠ 21) := by
  have hending := hc'.ending
  obtain ⟨rfl, ⟨hlabel, rfl⟩ | ⟨hlabel, rfl⟩ | ⟨hlabel, rfl⟩⟩ := node_signal hnode
  · rw [hlabel] at hending
    refine ⟨fun hasks => absurd (hending hasks.1) hasks.2, fun _ hsignals => ?_⟩
    exact error_ne_of_quiet hruns ⟨nofun, nofun⟩ hsignals
  · rw [hlabel] at hending
    obtain ⟨rfl, rfl⟩ := hruns.of_pause node_pause1
    exact ⟨fun _ => ⟨rfl, _, rfl⟩, fun hnot => absurd hending hnot⟩
  · rw [hlabel] at hending
    have hleft : ¬ Leftover c'.store := by
      rintro ⟨hlength, _, _, hchunked⟩
      rcases hending with hzero | hbody
      · exact hlength hzero
      · rw [hchunked] at hbody
        cases hbody
    have hnext := hruns.of_invoke rfl
    rcases hc'.tidy.upgrade with hupgrade | hupgrade
    · refine ⟨fun hasks => absurd (hupgrade.symm.trans hasks.1) (by decide), fun _ hsignals => ?_⟩
      refine error_ne_of_quiet hnext ?_ hsignals
      simp [isEqualUpgrade, test, hupgrade, chooseCode, Quiet]
    · have htarget : chooseCode [(0, .invokeAfterMessageComplete)] Label.pause1
          (isEqualUpgrade c'.store).2 = .pause1 := by
        simp [isEqualUpgrade, test, hupgrade, chooseCode]
      rw [htarget] at hnext
      obtain ⟨rfl, rfl⟩ := hnext.of_pause node_pause1
      exact ⟨fun _ => ⟨rfl, _, rfl⟩, fun hnot => absurd ⟨hupgrade, hleft⟩ hnot⟩

/-! ## The reads of a connection -/

/-- What holds of the parser between two reads. -/
structure Sane (s : State Label Store Span) : Prop where
  coherent : s.Keeps Coherent
  waits : ∀ label, s.current = some label →
    (node label).rests = true ∨ label = .invokeAfterMessageComplete

theorem Sane.init : Sane State.init where
  coherent := by
    rintro _ ⟨⟩
    exact coherent_of_plain rfl ⟨Or.inl rfl, rfl, nofun⟩
  waits := by
    rintro _ ⟨⟩
    exact Or.inl rfl

theorem Sane.resume {s : State Label Store Span} (h : Sane s) : Sane (s.resume graph) := by
  rw [State.resume]
  split
  · exact ⟨h.coherent, h.waits⟩
  · exact h

theorem Sane.execute {p : graph.Parser} (h : Sane p.1) (data : Bytes) :
    Sane (p.execute data).1 := by
  refine ⟨p.keeps_execute kept_coherent h.coherent fun _ _ => trivial, ?_⟩
  change ∀ label, (p.report data).state.current = some label → _
  by_cases hok : p.1.error = 0
  · obtain ⟨label, hcurrent⟩ := Option.isSome_iff_exists.1 (p.2.isSome (Or.inl hok))
    obtain ⟨events, stop, hruns, hreport⟩ := Parser.exists_runs hok hcurrent data
    rw [hreport]
    cases stop with
    | suspended c =>
        rintro _ ⟨⟩
        exact Or.inl hruns.rests
    | halted c code resume =>
        rintro target (rfl : resume = some target)
        rcases hruns.of_halted with ⟨_, hnone⟩ | ⟨label, hnode, hsome⟩
        · cases hnone
        · obtain rfl := Option.some.inj hsome
          exact Or.inr (eq_pause1 hnode).2
  · rw [Parser.report_of_error p data hok]
    exact h.waits

/-- The parser pauses right behind a message that asks for an upgrade and leaves nothing over, and
nowhere else. -/
structure PausesRight (report : Report Label Store Span Store) : Prop where
  paused : report.state.error = 21 ↔
    ∃ before m, report.events = before ++ [.signal m] ∧ m.upgrade = 1 ∧ ¬ Leftover m
  last : ∀ before m after, report.events = before ++ .signal m :: after → m.upgrade = 1 →
    ¬ Leftover m → after = []
  asks : ∀ m, .signal m ∈ report.events → m.upgrade = 0 ∨ m.upgrade = 1

/-- The last message that a read completes. -/
theorem last_signal (events : List (Event Span Store)) :
    (∀ m, .signal m ∉ events) ∨
      ∃ before m after, events = before ++ .signal m :: after ∧ ∀ m', .signal m' ∉ after := by
  induction events with
  | nil => exact Or.inl nofun
  | cons event events ih =>
      rcases ih with hnone | ⟨before, m, after, rfl, hafter⟩
      · cases event with
        | fragment span text =>
            refine Or.inl fun m hmem => ?_
            rcases List.mem_cons.1 hmem with heq | hmem
            · cases heq
            · exact hnone m hmem
        | signal m => exact Or.inr ⟨[], m, events, rfl, hnone⟩
      · exact Or.inr ⟨event :: before, m, after, rfl, hafter⟩

theorem error_ne_of_waits {p : graph.Parser} (h : Sane p.1) (hok : p.1.error ≠ 21) {data : Bytes}
    (hnone : ∀ m, .signal m ∉ (p.report data).events) : (p.report data).state.error ≠ 21 := by
  by_cases hzero : p.1.error = 0
  · obtain ⟨label, hcurrent⟩ := Option.isSome_iff_exists.1 (p.2.isSome (Or.inl hzero))
    obtain ⟨events, stop, hruns, hreport⟩ := Parser.exists_runs hzero hcurrent data
    have hquiet : Quiet label p.1.store := by
      rcases h.waits label hcurrent with hrests | rfl
      · constructor <;> rintro rfl <;> cases hrests
      · exact ⟨nofun, nofun⟩
    rw [hreport] at hnone ⊢
    refine error_ne_of_quiet hruns hquiet fun m hmem => hnone m ?_
    cases stop with
    | suspended c => exact List.mem_append_left _ hmem
    | halted c code resume => exact hmem
  · rw [Parser.report_of_error p data hzero]
    exact hok

theorem pausesRight_report {p : graph.Parser} (h : Sane p.1) (hok : p.1.error ≠ 21)
    (data : Bytes) : PausesRight (p.report data) := by
  have hbehind {before after : List (Event Span Store)} {m : Store}
      (hevents : (p.report data).events = before ++ .signal m :: after) : Tidy m ∧
      (m.upgrade = 1 ∧ ¬ Leftover m → after = [] ∧ (p.report data).state.error = 21) ∧
        (¬ (m.upgrade = 1 ∧ ¬ Leftover m) → (∀ m', .signal m' ∉ after) →
          (p.report data).state.error ≠ 21) := by
    obtain ⟨c', make, target, events, stop, hnode, rfl, hc', hruns, hreport⟩ :=
      p.report_signal kept_coherent h.coherent hevents fun _ _ => trivial
    have hafter : (stop.report data events).events = after := by rw [hreport]
    have hstate : (stop.report data events).state = (p.report data).state := by rw [hreport]
    obtain ⟨hasks, hnot⟩ := pauses_behind hnode hc' hruns
    obtain ⟨rfl, _⟩ := node_signal hnode
    refine ⟨hc'.tidy, fun hm => ?_, fun hm hsignals => ?_⟩
    · obtain ⟨rfl, resume, rfl⟩ := hasks hm
      exact ⟨hafter.symm, hstate ▸ rfl⟩
    · refine hstate ▸ hnot hm fun m' hmem => hsignals m' ?_
      rw [← hafter]
      cases stop with
      | suspended c => exact List.mem_append_left _ hmem
      | halted c code resume => exact hmem
  refine ⟨⟨fun hpause => ?_, ?_⟩, fun before m after hevents hupgrade hleft =>
    ((hbehind hevents).2.1 ⟨hupgrade, hleft⟩).1, fun m hmem => ?_⟩
  · rcases last_signal (p.report data).events with hnone | ⟨before, m, after, hevents, hnone⟩
    · exact absurd hpause (error_ne_of_waits h hok hnone)
    · by_contra hnot
      have hm : ¬ (m.upgrade = 1 ∧ ¬ Leftover m) := by
        intro hm
        obtain ⟨rfl, _⟩ := (hbehind hevents).2.1 hm
        exact hnot ⟨before, m, hevents, hm⟩
      exact (hbehind hevents).2.2 hm hnone hpause
  · rintro ⟨before, m, hevents, hm⟩
    exact ((hbehind hevents).2.1 hm).2
  · obtain ⟨before, after, hevents⟩ := List.append_of_mem hmem
    exact (hbehind hevents).1.upgrade

theorem error_resume_ne (s : State Label Store Span) : (s.resume graph).error ≠ 21 := by
  rw [State.resume]
  split
  · exact Nat.zero_ne_add_one 20
  · assumption

/-- On every read of a connection the parser pauses where it should. -/
theorem pauses_exactly (reads : List Bytes) :
    ∃ reports, executeReads State.init reads = some reports ∧
      ∀ report ∈ reports, PausesRight report := by
  obtain ⟨reports, hreads, hall⟩ := forall_executeReads
    (P := fun _ p => Sane p.1 ∧ p.1.error ≠ 21) (Q := fun _ report => PausesRight report)
    (fun _ p data ⟨hsane, hok⟩ =>
      ⟨pausesRight_report hsane hok data, (hsane.execute data).resume, error_resume_ne _⟩)
    [] (p := Parser.init graph .init) ⟨Sane.init, Nat.zero_ne_add_one 20⟩ reads
  refine ⟨reports, hreads, fun report hreport => ?_⟩
  obtain ⟨earlier, later, heq⟩ := List.append_of_mem hreport
  exact hall earlier report later heq

/-! ## What is left over -/

/-- The labels at which a length is being read or counted down. -/
def counting : Label → Bool
  | .headerValueContentLength | .invokeMulAddContentLength1 _ | .spanEndOnHeaderValue3 | .error14
  | .headerValueContentLengthWs | .invokeOrFlags15 | .spanEndOnHeaderValue4 | .error15
  | .invokeUpdateContentLength | .chunkSize | .invokeMulAddContentLength _ | .error4
  | .chunkSizeOtherwise | .chunkSizeAlmostDone | .chunkParameters | .error7 | .invokeOnChunkHeader
  | .invokeIsEqualContentLength | .spanStartOnBody | .consumeContentLength | .spanEndOnBody
  | .chunkDataAlmostDone | .chunkDataAlmostDoneSkip | .invokeOnChunkComplete | .spanStartOnBody1
  | .consumeContentLength1 => true
  | _ => false

/-- What is known of the length as long as nothing was left over. -/
def Fresh : Label → Store → Prop
  | .invokeOrFlags, s | .spanEndOnBody1, s | .invokeOnMessageComplete, s
  | .invokeIsEqualUpgrade, s | .pause1, s | .invokeAfterMessageComplete, s => s.contentLength = 0
  | .invokeOnChunkComplete1, s => hasFlags 128 s = true
  | .invokeOnMessageComplete1, s | .invokeOnMessageComplete2, s =>
      s.contentLength ≠ 0 → s.method = 5 ∨ hasFlags 128 s = true
  | label, s => counting label = false → s.contentLength ≠ 0 → hasFlags 32 s = true

/-- A length is one that the request has given. -/
def Given (s : Store) : Prop :=
  s.contentLength ≠ 0 → hasFlags 32 s = true

theorem Given.setFlags {s : Store} (h : Given s) (bits : UInt8) : Given (setFlags bits s).1 :=
  fun hleft => hasFlags_setFlags_of (h hleft) bits

/-- Nothing but `Given` is known at the label. -/
def ordinary : Label → Bool
  | .invokeOrFlags | .spanEndOnBody1 | .invokeOnMessageComplete | .invokeIsEqualUpgrade | .pause1
  | .invokeAfterMessageComplete | .invokeOnChunkComplete1 | .invokeOnMessageComplete1
  | .invokeOnMessageComplete2 => false
  | _ => true

theorem fresh_of_ordinary (label : Label) (hordinary : ordinary label = true) {s : Store}
    (h : Given s) : Fresh label s := by
  cases label <;> first | exact fun _ => h | cases hordinary

theorem fresh_of_counting (label : Label) (hcounting : counting label = true) (s : Store) :
    Fresh label s := by
  have hnever (hnot : counting label = false) : False :=
    Bool.false_ne_true (hnot.symm.trans hcounting)
  cases label <;> first | exact fun hnot => absurd hnot hnever | cases hcounting

theorem keeps_of_ordinary {label : Label} {s : Store} {E : Store → Prop}
    (htargets : (label :: (node label).targets).all
      (fun target => counting target || ordinary target) = true)
    (hpreserves : (node label).Preserves Given s) (h : Given s) :
    (node label).Keeps Fresh E label s := by
  refine (node label).keeps_of_targets (fun target hmem s hs => ?_) hpreserves h
  rcases Bool.or_eq_true_iff.1 (List.all_eq_true.1 htargets target hmem) with hin | hplain
  · exact fresh_of_counting target hin s
  · exact fresh_of_ordinary target hplain hs

theorem keeps_of_counting {label : Label} {s : Store} {E : Store → Prop}
    (htargets : (label :: (node label).targets).all counting = true) :
    (node label).Keeps Fresh E label s := by
  refine (node label).keeps_of_targets (W := fun _ => True) (fun target hmem s _ =>
    fresh_of_counting target (List.all_eq_true.1 htargets target hmem) s) ?_ trivial
  unfold Node.Preserves
  split <;> simp

/-- As long as no message has left a length over, the assertions are handed on. -/
theorem keeps_fresh (label : Label) (s : Store) (h : Coherent label s) (hfresh : Fresh label s) :
    (graph.node label).Keeps Fresh (fun m => m.contentLength = 0) label s := by
  change (node label).Keeps Fresh _ label s
  cases label with
  | invokeOrFlags15 =>
      exact fresh_of_ordinary .headerValueDiscardRws rfl fun _ => hasFlags_setFlags_self 32 s
  | invokeTestFlags =>
      change Fresh (chooseCode _ _ (if hasFlags 128 s then 1 else 0)) s
      split
      · assumption
      · exact hfresh
  | invokeAfterHeadersComplete =>
      have hgiven := hfresh rfl
      change Fresh (chooseCode _ _ (afterHeadersComplete s).2) (afterHeadersComplete s).1
      rcases afterHeadersComplete_cases h.tidy with
        ⟨heq, _, hlength, _⟩ | ⟨heq, _, hexit⟩ | ⟨heq, _⟩ | heq
      · rw [heq]
        change s.contentLength = 0
        rcases hlength with hnot | hzero
        · by_contra hleft
          exact Bool.false_ne_true (hnot.symm.trans (hgiven hleft))
        · exact hzero
      · rw [heq]
        intro hleft
        rcases hexit with hconnect | hnone
        · exact Or.inl hconnect
        · exact absurd hnone.2 hleft
      · rw [heq]
        exact fresh_of_counting .invokeUpdateContentLength rfl s
      · rw [heq]
        exact fresh_of_counting .spanStartOnBody1 rfl s
  | invokeIsEqualContentLength =>
      change Fresh (chooseCode _ _ (if s.contentLength == 0 then 1 else 0)) s
      split
      · rename_i hzero
        exact beq_iff_eq.1 hzero
      · exact fresh_of_counting .spanStartOnBody rfl s
  | invokeOrFlags => exact fresh_of_ordinary .headerFieldStart rfl fun hleft => absurd hfresh hleft
  | consumeContentLength1 =>
      exact ⟨rfl, fun n _ => fresh_of_counting .consumeContentLength1 rfl _⟩
  | spanEndOnBody1 => exact fun hleft => absurd hfresh hleft
  | invokeOnChunkComplete1 => exact fun _ => Or.inr hfresh
  | invokeOnMessageComplete => exact id
  | invokeOnMessageComplete1 => exact id
  | invokeOnMessageComplete2 => exact id
  | invokeIsEqualUpgrade =>
      change Fresh (chooseCode _ _ (if s.upgrade == 1 then 1 else 0)) s
      split
      · exact hfresh
      · exact hfresh
  | pause1 => exact hfresh
  | invokeAfterMessageComplete =>
      exact fresh_of_ordinary .start rfl fun hleft => absurd hfresh hleft
  | invokeBeforeHeadersComplete =>
      refine fresh_of_ordinary .invokeOnHeadersComplete rfl ?_
      unfold beforeHeadersComplete
      split
      · exact hfresh rfl
      · exact hfresh rfl
  | _ =>
      first
      | exact keeps_of_counting rfl
      | refine keeps_of_ordinary rfl ?_ (hfresh rfl)
        first
        | trivial
        | exact hfresh rfl
        | exact Given.setFlags (hfresh rfl) _

theorem kept_fresh : Kept graph (fun label s => Coherent label s ∧ Fresh label s)
    fun m => True ∧ m.contentLength = 0 :=
  kept_coherent.and keeps_fresh

/-- A message that leaves a length over: it is a CONNECT, or has trailers. -/
def Leaves (m : Store) : Prop :=
  m.contentLength ≠ 0 ∧ (m.method = 5 ∨ hasFlags 128 m = true)

/-- The message behind which a length is left over for the first time. -/
theorem leaves_of_report {p : graph.Parser}
    (h : p.1.Keeps fun label s => Coherent label s ∧ Fresh label s) {data : Bytes}
    {before after : List (Event Span Store)} {m : Store}
    (hevents : (p.report data).events = before ++ .signal m :: after)
    (hsignals : Signals (fun m => m.contentLength = 0) before) (hleft : m.contentLength ≠ 0) :
    Tidy m ∧ Leaves m := by
  obtain ⟨c', make, target, _, _, hnode, rfl, ⟨hc', hfresh⟩, _⟩ :=
    p.report_signal kept_fresh h hevents fun m hmem => ⟨trivial, hsignals m hmem⟩
  obtain ⟨rfl, ⟨hlabel, _⟩ | ⟨hlabel, _⟩ | ⟨hlabel, _⟩⟩ := node_signal hnode
  · rw [hlabel] at hfresh
    exact absurd hfresh hleft
  · rw [hlabel] at hfresh
    exact ⟨hc'.tidy, hleft, hfresh hleft⟩
  · rw [hlabel] at hfresh
    exact ⟨hc'.tidy, hleft, hfresh hleft⟩

theorem signals_of_report {p : graph.Parser}
    (h : p.1.Keeps fun label s => Coherent label s ∧ Fresh label s) {data : Bytes}
    {before after : List (Event Span Store)} (hevents : (p.report data).events = before ++ after)
    (hnone : Signals (fun m => ¬ Leaves m) before) :
    Signals (fun m => m.contentLength = 0) before := by
  by_contra hnot
  obtain ⟨front, m, rest, rfl, hfront, hleft⟩ := Signals.exists_first hnot
  rw [List.append_assoc, List.cons_append] at hevents
  have hleaves := (leaves_of_report h hevents hfront hleft).2
  exact hnone m (List.mem_append_right _ List.mem_cons_self) hleaves

/-- Where a length is left over, a message of the report or in front of it has left it. -/
def Explained (front : List (Event Span Store)) (report : Report Label Store Span Store) : Prop :=
  ∀ before m after, report.events = before ++ .signal m :: after → Leftover m →
    ∃ m', .signal m' ∈ front ++ before ∧ Leaves m'

/-- As long as no message has left a length over, the assertions hold of the parser. -/
def FreshAfter (front : List (Event Span Store)) (p : graph.Parser) : Prop :=
  Signals (fun m => ¬ Leaves m) front → p.1.Keeps fun label s => Coherent label s ∧ Fresh label s

theorem FreshAfter.init : FreshAfter [] (Parser.init graph .init) := fun _ =>
  Parser.keeps_init ⟨coherent_of_plain rfl ⟨Or.inl rfl, rfl, nofun⟩,
    fresh_of_ordinary .start rfl fun hleft => absurd rfl hleft⟩

section FreshAfter

variable {front : List (Event Span Store)} {p : graph.Parser}

theorem FreshAfter.execute (h : FreshAfter front p) (data : Bytes) :
    FreshAfter (front ++ (p.report data).events) (p.execute data).resume := by
  intro hinnocent
  obtain ⟨hfront, hevents⟩ := Signals.append_iff.1 hinnocent
  have hzero := signals_of_report (h hfront) (List.append_nil _).symm hevents
  exact Parser.keeps_resume
    (p.keeps_execute kept_fresh (h hfront) fun m hmem => ⟨trivial, hzero m hmem⟩)

theorem FreshAfter.explained (h : FreshAfter front p) (data : Bytes) :
    Explained front (p.report data) := by
  intro before m after hevents hleft
  by_contra hnone
  have hinnocent : Signals (fun m => ¬ Leaves m) (front ++ before) :=
    fun m' hmem hleaves => hnone ⟨m', hmem, hleaves⟩
  obtain ⟨hfront, hbefore⟩ := Signals.append_iff.1 hinnocent
  have hzero := signals_of_report (h hfront) hevents hbefore
  obtain ⟨htidy, _, hconnect | htrailing⟩ :=
    leaves_of_report (h hfront) hevents hzero hleft.contentLength
  · exact hleft.notConnect hconnect
  · exact Bool.false_ne_true (hleft.notChunked.symm.trans (htidy.trailing htrailing))

end FreshAfter

/-- A request that asks for an upgrade, and behind which the parser does not pause, comes behind a
CONNECT or behind a message with trailers that has left a length over. -/
theorem leftover_from (reads : List Bytes) :
    ∃ reports, executeReads State.init reads = some reports ∧
      ∀ earlier report later, reports = earlier ++ report :: later →
        Explained (earlier.flatMap Report.events) report :=
  forall_executeReads (fun _ _ data h => ⟨h.explained data, h.execute data⟩) [] FreshAfter.init
    reads

/-- A length in a trailer stays, and the parser does not pause behind the upgrade. -/
example : (executeReads State.init [ascii
    "POST / HTTP/1.1\r\nTransfer-Encoding: chunked\r\n\r\n0\r\nContent-Length: 7\r\n\r\n",
    ascii "GET / HTTP/1.1\r\nConnection: Upgrade\r\nUpgrade: a\r\n\r\n"]).map
      (List.map fun report => report.state.error) = some [0, 0] := by
  decide +kernel

end Llhttp
end Inspector
end V8JsiRuntime
