import V8JsiRuntime.Lib.ParserInvariant
import V8JsiRuntime.Inspector.HostGate
import V8JsiRuntime.Inspector.Llhttp

/-!
# LlhttpReads — the parser and the handler

What `HttpHandler` gets to see of its parser: the callbacks that `llhttp_execute` makes for a read,
and whether it fails.  Where the bytes are cut into reads does not matter to the requests that the
handler finishes.
-/

namespace V8JsiRuntime
namespace Inspector
namespace Llhttp

open Lib Lib.ParserGraph

/-! ## The settings -/

/-- The callbacks that the handler has set; `on_body` is none of them. -/
def callbacks : Event Span Store → List Callback
  | .fragment .onUrl text => [.onPath text]
  | .fragment .onHeaderField text => [.onHeaderField text]
  | .fragment .onHeaderValue text => [.onHeaderValue text]
  | .fragment .onBody _ => []
  | .signal s => [.onMessageComplete (s.upgrade != 0) (s.method == 1)]

/-- After `llhttp_init`. -/
def State.init : State Label Store Span :=
  ⟨some .start, 0, none, .init, 0⟩

/-- The reads of a connection: `llhttp_execute`, and `llhttp_resume_after_upgrade` behind a pause;
`none` is undefined behaviour. -/
def executeReads (s : State Label Store Span) :
    List Bytes → Option (List (Report Label Store Span Store))
  | [] => some []
  | data :: reads => do
      let report ← graph.execute s data
      let rest ← executeReads (report.state.resume graph) reads
      return report :: rest

/-- The parser as `OnData` uses it. -/
def parser : HttpParser graph.Parser where
  init := Parser.init graph .init
  execute p data :=
    ((p.execute data).resume, ⟨(p.report data).events.flatMap callbacks,
      (p.report data).state.error != 0 && (p.report data).state.error != 21⟩)

/-! ## Every read ends -/

theorem exists_executeReads {s : State Label Store Span} (h : s.WellFormed graph)
    (reads : List Bytes) : ∃ reports, executeReads s reads = some reports := by
  induction reads generalizing s with
  | nil => exact ⟨[], rfl⟩
  | cons data reads ih =>
      obtain ⟨report, hreport, hstate⟩ := exists_execute h data
      obtain ⟨rest, hrest⟩ := ih hstate.resume
      exact ⟨report :: rest, by simp [executeReads, hreport, hrest]⟩

theorem executeReads_cons (p : graph.Parser) (data : Bytes) (reads : List Bytes) :
    executeReads p.1 (data :: reads) =
      (executeReads (p.execute data).resume.1 reads).map fun rest => p.report data :: rest := by
  have hresume : (p.report data).state.resume graph = (p.execute data).resume.1 := rfl
  rw [executeReads, p.execute_eq data]
  change (executeReads ((p.report data).state.resume graph) reads).bind _ = _
  rw [hresume]
  cases executeReads (p.execute data).resume.1 reads <;> rfl

/-- Reads one by one: `P` holds of what is reported in front of each and of the parser there, and then
`Q` of its report. -/
theorem forall_executeReads {P : List (Event Span Store) → graph.Parser → Prop}
    {Q : List (Event Span Store) → Report Label Store Span Store → Prop}
    (hstep : ∀ front p data, P front p →
      Q front (p.report data) ∧ P (front ++ (p.report data).events) (p.execute data).resume)
    (front : List (Event Span Store)) {p : graph.Parser} (h : P front p) (reads : List Bytes) :
    ∃ reports, executeReads p.1 reads = some reports ∧ ∀ earlier report later,
      reports = earlier ++ report :: later → Q (front ++ earlier.flatMap Report.events) report := by
  induction reads generalizing front p with
  | nil => exact ⟨[], rfl, fun earlier report later heq => by simp at heq⟩
  | cons data reads ih =>
      obtain ⟨hreport, hnext⟩ := hstep front p data h
      obtain ⟨rest, hrest, hall⟩ := ih _ hnext
      refine ⟨p.report data :: rest, by rw [executeReads_cons, hrest]; rfl, ?_⟩
      intro earlier report later heq
      cases earlier with
      | nil =>
          obtain ⟨rfl, rfl⟩ := List.cons.inj heq
          rwa [List.flatMap_nil, List.append_nil]
      | cons first earlier =>
          obtain ⟨rfl, hrest'⟩ := List.cons.inj heq
          rw [List.flatMap_cons, ← List.append_assoc]
          exact hall earlier report later hrest'

/-- Whatever the peer sends, and however it is cut into reads: the parser never loops without taking
a byte, never reads behind the read or behind one of its words, and never ends a span that is not
open. -/
theorem executeReads_isSome (reads : List Bytes) : (executeReads State.init reads).isSome := by
  obtain ⟨reports, h⟩ := exists_executeReads (Parser.init graph .init).2 reads
  rw [State.init]
  exact h ▸ rfl

/-! ## The handler does not see the cuts -/

/-- The handler takes up what the parser reports. -/
def take (result : Except Fault HttpHandler) (event : Event Span Store) : Except Fault HttpHandler :=
  result >>= fun handler => (callbacks event).foldlM HttpHandler.callback handler

theorem foldl_take (events : List (Event Span Store)) (handler : HttpHandler) :
    events.foldl take (.ok handler) =
      (events.flatMap callbacks).foldlM HttpHandler.callback handler := by
  have herror (events : List (Event Span Store)) (fault : Fault) :
      events.foldl take (.error fault) = .error fault := by
    induction events with
    | nil => rfl
    | cons event events ih => exact ih
  induction events generalizing handler with
  | nil => rfl
  | cons event events ih =>
      rw [List.foldl_cons, List.flatMap_cons, List.foldlM_append, take, ok_bind]
      cases (callbacks event).foldlM HttpHandler.callback handler with
      | error fault => exact herror events fault
      | ok next => exact ih next

/-- Fragments of a path, of a name and of a value are put together. -/
theorem additive_take : Additive take := by
  intro result span text text'
  cases result with
  | error fault => rfl
  | ok handler =>
      cases span with
      | onUrl => simp [take, callbacks, HttpHandler.callback]
      | onHeaderField =>
          cases hvalue : handler.parsingValue with
          | false => simp [take, callbacks, HttpHandler.callback, hvalue]
          | true => simp [take, callbacks, HttpHandler.callback, hvalue]
      | onHeaderValue => simp [take, callbacks, HttpHandler.callback]
      | onBody => rfl

/-- The callbacks do the same to every handler. -/
def SameEffect (callbacks callbacks' : List Callback) : Prop :=
  ∀ handler : HttpHandler,
    callbacks.foldlM HttpHandler.callback handler = callbacks'.foldlM HttpHandler.callback handler

theorem sameEffect_of_regrouped {events events' : List (Event Span Store)}
    (h : Regrouped events events') :
    SameEffect (events.flatMap callbacks) (events'.flatMap callbacks) := by
  intro handler
  rw [← foldl_take, ← foldl_take]
  exact h _ take additive_take _

theorem foldlM_isOk (callbacks : List Callback) (handler : HttpHandler) :
    ∃ handler', callbacks.foldlM HttpHandler.callback handler = .ok handler' := by
  obtain ⟨handler', new, _, hfold⟩ := HttpHandler.foldlM_events callbacks handler
  exact ⟨_, hfold handler.events⟩

/-- Fragments finish no request. -/
theorem events_of_fragments {events : List (Event Span Store)}
    (h : ∀ signal, .signal signal ∉ events) (handler : HttpHandler) :
    ∃ handler', (events.flatMap callbacks).foldlM HttpHandler.callback handler = .ok handler' ∧
      handler'.events = handler.events := by
  induction events generalizing handler with
  | nil => exact ⟨handler, rfl, rfl⟩
  | cons event events ih =>
      have hrest : ∀ signal, .signal signal ∉ events :=
        fun signal hmem => h signal (List.mem_cons_of_mem event hmem)
      have hfirst : ∃ next, (callbacks event).foldlM HttpHandler.callback handler = .ok next ∧
          next.events = handler.events := by
        cases event with
        | signal s => exact absurd List.mem_cons_self (h s)
        | fragment span text =>
            cases span with
            | onUrl => exact ⟨_, rfl, rfl⟩
            | onHeaderField =>
                rw [callbacks, List.foldlM_cons, HttpHandler.callback]
                split
                · exact ⟨_, rfl, rfl⟩
                · exact ⟨_, rfl, rfl⟩
            | onHeaderValue => exact ⟨_, rfl, rfl⟩
            | onBody => exact ⟨_, rfl, rfl⟩
      obtain ⟨next, hnext, hsame⟩ := hfirst
      obtain ⟨handler', hfold, hevents⟩ := ih hrest next
      refine ⟨handler', ?_, hevents.trans hsame⟩
      rw [List.flatMap_cons, List.foldlM_append, hnext, ok_bind, hfold]

/-- Reports that are the same up to cuts and up to fragments at their ends finish the same
requests. -/
theorem foldlM_of_regrouped {events events' lost lost' : List (Event Span Store)}
    (h : Regrouped (events ++ lost) (events' ++ lost')) (hlost : ∀ signal, .signal signal ∉ lost)
    (hlost' : ∀ signal, .signal signal ∉ lost') (handler : HttpHandler) :
    ∃ next next', (events.flatMap callbacks).foldlM HttpHandler.callback handler = .ok next ∧
      (events'.flatMap callbacks).foldlM HttpHandler.callback handler = .ok next' ∧
        next.events = next'.events ∧ (lost = [] → lost' = [] → next = next') := by
  obtain ⟨next, hfold⟩ := foldlM_isOk (events.flatMap callbacks) handler
  obtain ⟨next', hfold'⟩ := foldlM_isOk (events'.flatMap callbacks) handler
  refine ⟨next, next', hfold, hfold', ?_⟩
  obtain ⟨last, hlast, hevents⟩ := events_of_fragments hlost next
  obtain ⟨last', hlast', hevents'⟩ := events_of_fragments hlost' next'
  have hsame := sameEffect_of_regrouped h handler
  rw [List.flatMap_append, List.flatMap_append, List.foldlM_append, List.foldlM_append, hfold,
    hfold', ok_bind, ok_bind, hlast, hlast'] at hsame
  obtain rfl := Except.ok.inj hsame
  refine ⟨hevents.symm.trans hevents', ?_⟩
  rintro rfl rfl
  exact (Except.ok.inj hlast).trans (Except.ok.inj hlast').symm

/-- However the bytes are cut into chunks, the parser ends in the same state, and the handler has
finished the same requests; if the parser goes on or pauses for an upgrade, the handler is the same
altogether. -/
theorem cuts_invisible (p : graph.Parser) (handler : HttpHandler) (first : Bytes)
    (chunks : List Bytes) :
    p.executes (first :: chunks) = p.execute (first :: chunks).flatten ∧
      ∃ handler' whole,
        (((p.reports (first :: chunks)).flatMap Report.events).flatMap callbacks).foldlM
            HttpHandler.callback handler = .ok handler' ∧
          ((p.report (first :: chunks).flatten).events.flatMap callbacks).foldlM
            HttpHandler.callback handler = .ok whole ∧
          handler'.events = whole.events ∧
            ((p.execute (first :: chunks).flatten).1.error = 0 ∨
              (p.execute (first :: chunks).flatten).1.error = 21 → handler' = whole) := by
  obtain ⟨hstate, hregrouped⟩ := p.reports_flatten first chunks
  obtain ⟨lost, hall, hlost, hsignals⟩ := p.reports_all (first :: chunks)
  obtain ⟨hnone, hsignals'⟩ := p.report_undelivered (first :: chunks).flatten
  rw [hall, Report.all] at hregrouped
  obtain ⟨handler', whole, hfold, hfold', hevents, hsame⟩ :=
    foldlM_of_regrouped hregrouped hsignals hsignals' handler
  exact ⟨hstate, handler', whole, hfold, hfold', hevents,
    fun hok => hsame (hlost (hstate ▸ hok)) (hnone hok)⟩

end Llhttp
end Inspector
end V8JsiRuntime
