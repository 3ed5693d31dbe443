import V8JsiRuntime.Inspector.LlhttpRefusals
import V8JsiRuntime.Inspector.LlhttpRequests
import V8JsiRuntime.Inspector.RequestAssembly

/-!
# LlhttpRoundTrip — from the text of requests to the handler

The handler gets back what a client has written: the paths, the hosts, the keys and whether an
upgrade is asked for, whichever way the text is cut into reads.
-/

namespace V8JsiRuntime
namespace Inspector
namespace Llhttp

open Lib Lib.ParserGraph

/-! ## Reads -/

section Reads

variable {p : graph.Parser} {handler : HttpHandler}

theorem finished_cons_eq {data : Bytes} {reads : List Bytes} {next : HttpHandler}
    {batches : List Batch}
    (hfold : ((p.report data).events.flatMap callbacks).foldlM HttpHandler.callback handler =
      .ok next)
    (hrest : parser.finished (p.execute data).resume { next with events := [] } reads =
      .ok batches) :
    parser.finished p handler (data :: reads) =
      .ok (⟨next.events, (p.execute data).1.error != 0 && (p.execute data).1.error != 21⟩ ::
        batches) := by
  have hfirst : (parser.execute p data).2.callbacks.foldlM HttpHandler.callback handler =
      .ok next := hfold
  rw [HttpParser.finished, hfirst, ok_bind]
  change (parser.finished (p.execute data).resume { next with events := [] } reads >>= _) = _
  rw [hrest]
  rfl

/-- Reads without a byte, also the first ones behind a pause. -/
theorem finished_of_empty {label : Label} {m : Store}
    (hlabel : label = .start ∨ label = .invokeAfterMessageComplete)
    (hp : p.1 = ⟨some label, 0, none, m, 0⟩) (hempty : handler.events = []) {reads : List Bytes}
    (hreads : reads.flatten = []) : ∃ batches, parser.finished p handler reads = .ok batches ∧
      ∀ batch ∈ batches, batch = ⟨[], false⟩ := by
  induction reads generalizing p handler label m with
  | nil => exact ⟨[], rfl, nofun⟩
  | cons data reads ih =>
      rw [List.flatten_cons, List.append_eq_nil_iff] at hreads
      obtain ⟨rfl, hreads⟩ := hreads
      have hfeeds : ∃ m', Feeds graph ⟨some label, 0, none, m, 0⟩ [] [] (startState m') := by
        rcases hlabel with rfl | rfl
        · exact ⟨m, .of_reaches rfl rfl (.refl _) rfl⟩
        · exact ⟨_, .of_reaches rfl rfl (.invoke rfl rfl rfl) rfl⟩
      obtain ⟨m', hfeeds⟩ := hfeeds
      obtain ⟨hstate, hevents, _⟩ := hfeeds p hp
      have hzero : (p.execute []).1.error = 0 := by rw [hstate]; rfl
      have hresume : (p.execute []).resume.1 = startState m' := by
        change (p.execute []).1.resume graph = _
        rw [hstate]
        rfl
      have hfold : ((p.report []).events.flatMap callbacks).foldlM HttpHandler.callback handler =
          .ok handler := by
        rw [Report.all, (p.report_undelivered []).1 (Or.inl hzero), List.append_nil] at hevents
        exact sameEffect_of_regrouped hevents handler
      have hcleared : ({ handler with events := [] } : HttpHandler).events = [] := rfl
      obtain ⟨batches, hrest, hall⟩ := ih (Or.inl rfl) hresume hcleared hreads
      refine ⟨_, finished_cons_eq hfold hrest, List.forall_mem_cons.2 ⟨?_, hall⟩⟩
      rw [hempty, hzero]
      rfl

/-- When the parser has stopped behind a read, nothing more is finished, and after a pause at the end
of the text nothing fails either. -/
theorem finished_of_stopped {data : Bytes} {reads : List Bytes} (hempty : handler.events = [])
    (hzero : (p.execute data).1.error ≠ 0)
    (hnil : (p.execute data).1.error = 21 → reads.flatten = [])
    (hpaused : (p.execute data).1.error = 21 → ∃ m, (p.execute data).1 = pausedState m) :
    ∃ batches, parser.finished (p.execute data).resume handler reads = .ok batches ∧
      (∀ batch ∈ batches, batch.events = []) ∧
        ((p.execute data).1.error = 21 → ∀ batch ∈ batches, batch.isError = false) := by
  by_cases h21 : (p.execute data).1.error = 21
  · obtain ⟨m, hm⟩ := hpaused h21
    have hresume : (p.execute data).resume.1 =
        ⟨some .invokeAfterMessageComplete, 0, none, m, 0⟩ := by
      change (p.execute data).1.resume graph = _
      rw [hm]
      rfl
    obtain ⟨batches, hbatches, hall⟩ := finished_of_empty (Or.inr rfl) hresume hempty (hnil h21)
    exact ⟨batches, hbatches, fun batch hbatch => congrArg Batch.events (hall batch hbatch),
      fun _ batch hbatch => congrArg Batch.isError (hall batch hbatch)⟩
  · obtain ⟨finished, hfinishes⟩ := exists_finishes (p.execute data) handler hempty reads
    have hbatches := finished_eq hempty hfinishes
    have hnothing : ∀ batch ∈ finished.map FinishedRead.batch, batch.events = [] :=
      List.forall_mem_map.2 fun read hread =>
        List.map_eq_nil_iff.2 (finishes_of_error hzero h21 hempty hfinishes read hread)
    rw [← resume_execute h21] at hbatches
    exact ⟨_, hbatches, hnothing, fun hpause => absurd hpause h21⟩

/-- If the parser does not pause before the end, the reads finish what one read of all the bytes
would, and one of them fails if the parser does; the induction is on the reads. -/
theorem finished_flatten {first : Bytes} {reads : List Bytes}
    (hpause : ∀ front rest, (first :: reads).flatten = front ++ rest → rest ≠ [] →
      (p.execute front).1.error ≠ 21)
    (hpaused : (p.execute (first :: reads).flatten).1.error = 21 →
      ∃ m, (p.execute (first :: reads).flatten).1 = pausedState m)
    (hempty : handler.events = []) {whole : HttpHandler}
    (hwhole : ((p.report (first :: reads).flatten).events.flatMap callbacks).foldlM
      HttpHandler.callback handler = .ok whole) :
    ∃ batches, parser.finished p handler (first :: reads) = .ok batches ∧
      batches.flatMap Batch.events = whole.events ∧
        ((∃ batch ∈ batches, batch.isError = true) ↔
          ((p.execute (first :: reads).flatten).1.error != 0 &&
            (p.execute (first :: reads).flatten).1.error != 21) = true) := by
  induction reads generalizing p handler first whole with
  | nil =>
      rw [List.flatten_singleton] at hwhole ⊢
      refine ⟨_, finished_cons_eq hwhole rfl, List.append_nil _, ?_⟩
      refine ⟨?_, fun herror => ⟨_, List.mem_singleton_self _, herror⟩⟩
      rintro ⟨batch, hmem, herror⟩
      obtain rfl := List.mem_singleton.1 hmem
      exact herror
  | cons second reads ih =>
      rw [List.flatten_cons] at hpause hpaused hwhole ⊢
      obtain ⟨both, whole', hboth, hwhole', hsame⟩ :=
        foldlM_append_report p first (second :: reads).flatten handler
      obtain rfl := Except.ok.inj (hwhole.symm.trans hwhole')
      obtain ⟨next, hnext⟩ := foldlM_isOk ((p.report first).events.flatMap callbacks) handler
      rw [List.flatMap_append, List.foldlM_append, hnext, ok_bind] at hboth
      have hcleared : ({ next with events := [] } : HttpHandler).events = [] := rfl
      by_cases hzero : (p.execute first).1.error = 0
      · have happend (more : Bytes) :
            (p.execute (first ++ more)).1 = ((p.execute first).execute more).1 :=
          (p.report_append first more).1
        rw [happend] at hpaused ⊢
        -- the events of the first read are taken away before the second one
        obtain ⟨last, hlast⟩ := foldlM_isOk
          (((p.execute first).report (second :: reads).flatten).events.flatMap callbacks)
          { next with events := [] }
        obtain ⟨batches, hbatches, hall, hfails⟩ := ih (fun front rest hsplit hrest => by
          rw [← happend]
          exact hpause _ rest (by rw [hsplit, List.append_assoc]) hrest) hpaused hcleared hlast
        rw [← resume_execute_of_eq hzero] at hbatches
        refine ⟨_, finished_cons_eq hnext hbatches, ?_, ?_⟩
        · rw [List.flatMap_cons, hall, ← hsame, events_of_waiting hboth hlast]
        · rw [← hfails, hzero]
          simp
      · have hstop : (p.execute (first ++ (second :: reads).flatten)).1 = (p.execute first).1 :=
          Parser.execute_append_of_error hzero _
        rw [Parser.report_of_error _ _ hzero] at hboth
        obtain rfl := Except.ok.inj hboth
        have hnil (h21 : (p.execute first).1.error = 21) : (second :: reads).flatten = [] := by
          by_contra hmore
          exact hpause first _ rfl hmore h21
        obtain ⟨batches, hbatches, hnothing, hnone⟩ :=
          finished_of_stopped hcleared hzero hnil fun h21 => hstop ▸ hpaused (hstop ▸ h21)
        refine ⟨_, finished_cons_eq hnext hbatches, ?_, ?_⟩
        · rw [List.flatMap_cons, List.flatMap_eq_nil_iff.2 hnothing, List.append_nil]
          exact hsame
        · rw [hstop]
          refine ⟨?_, fun herror => ⟨_, List.mem_cons_self, herror⟩⟩
          rintro ⟨batch, hmem, herror⟩
          rcases List.mem_cons.1 hmem with rfl | hmem
          · exact herror
          · rw [Bool.and_eq_true, bne_iff_ne, bne_iff_ne]
            exact ⟨hzero, fun hpause =>
              Bool.false_ne_true ((hnone hpause batch hmem).symm.trans herror)⟩

/-- What the reads finish if the parser goes on to the end of their text. -/
theorem finished_of_feeds {first : Bytes} {reads : List Bytes} {events : List (Event Span Store)}
    {s' : State Label Store Span} (h : Feeds graph p.1 (first :: reads).flatten events s')
    (hend : s'.error = 0 ∨ ∃ m, s' = pausedState m) (hempty : handler.events = [])
    {whole : HttpHandler}
    (hwhole : (events.flatMap callbacks).foldlM HttpHandler.callback handler = .ok whole) :
    ∃ batches, parser.finished p handler (first :: reads) = .ok batches ∧
      batches.flatMap Batch.events = whole.events ∧ ∀ batch ∈ batches, batch.isError = false := by
  obtain ⟨hstate, hevents, hgoes⟩ := h p rfl
  rw [Report.all, ← List.append_nil events] at hevents
  obtain ⟨next, whole', hnext, hwhole', hsame, _⟩ :=
    foldlM_of_regrouped hevents (p.report_undelivered _).2 (fun _ => List.not_mem_nil) handler
  obtain rfl := Except.ok.inj (hwhole.symm.trans hwhole')
  obtain ⟨batches, hbatches, hall, hfails⟩ := finished_flatten
    (fun front rest hsplit hrest => by
      rw [hgoes front rest hsplit hrest]
      exact Nat.zero_ne_add_one 20)
    (fun hpause => by
      rw [hstate] at hpause ⊢
      refine hend.resolve_left fun hzero => ?_
      rw [hzero] at hpause
      cases hpause)
    hempty hnext
  refine ⟨batches, hbatches, hall.trans hsame,
    fun batch hbatch => Bool.eq_false_iff.2 fun hfailed => ?_⟩
  have herror := hfails.1 ⟨batch, hbatch, hfailed⟩
  rw [hstate] at herror
  rcases hend with hzero | ⟨m, rfl⟩
  · rw [hzero] at herror
    cases herror
  · cases herror

theorem foldlM_texts (requests : List RequestText) :
    (requests.flatMap fun request => request.request.callbacks).foldlM HttpHandler.callback .init =
      .ok (HttpHandler.idle (requests.map fun request => request.request.event)) := by
  have hfold := HttpHandler.foldlM_requests (requests.map RequestText.request) []
  rw [List.flatMap_map, List.nil_append, List.map_map] at hfold
  exact hfold

/-- The requests of a text, each finished in one of the reads. -/
theorem exists_batches {requests : List RequestText}
    (hplain : ∀ request ∈ requests.dropLast, request.upgrade = false) {first : Bytes}
    {reads : List Bytes} (hcut : (first :: reads).flatten = requests.flatMap RequestText.text) :
    ∃ batches, parser.finished parser.init .init (first :: reads) = .ok batches ∧
      batches.flatMap Batch.events = requests.map (fun request => request.request.event) ∧
        ∀ batch ∈ batches, batch.isError = false := by
  obtain ⟨s', events, hfeeds, hevents, hend⟩ :=
    feeds_requests (s := .init) requests hplain rfl rfl
  have hwhole : (events.flatMap callbacks).foldlM HttpHandler.callback .init =
      .ok (HttpHandler.idle (requests.map fun request => request.request.event)) := by
    rw [hevents, foldlM_texts]
  rw [← hcut] at hfeeds
  refine finished_of_feeds hfeeds (hend.imp ?_ And.left) rfl hwhole
  rintro ⟨m, rfl, _⟩
  rfl

theorem eq_nil_of_text {requests : List RequestText}
    (h : [] = requests.flatMap RequestText.text) : requests = [] := by
  cases requests with
  | nil => rfl
  | cons request requests => simp [RequestText.text] at h

/-- Requests written out one behind the other, the last of which may ask for an upgrade: however the
text is cut into reads, the handler finishes these requests in this order, with their paths, their
hosts and their keys, and the parser does not fail. -/
theorem finished_requests (requests : List RequestText)
    (hplain : ∀ request ∈ requests.dropLast, request.upgrade = false) (reads : List Bytes)
    (hcut : reads.flatten = requests.flatMap RequestText.text) :
    ∃ batches, parser.finished parser.init .init reads = .ok batches ∧
      batches.flatMap Batch.events = requests.map (fun request => request.request.event) ∧
        ∀ batch ∈ batches, batch.isError = false := by
  cases reads with
  | nil =>
      obtain rfl := eq_nil_of_text hcut
      exact ⟨[], rfl, rfl, nofun⟩
  | cons first reads => exact exists_batches hplain hcut

def hostField : PlainField where
  name := ascii "Host"
  blanks := ascii " "
  value := ascii "localhost:9229"
  name_ne_nil := by decide +kernel
  name_token := by decide +kernel
  blanks_blank := by decide +kernel
  value_byte := by decide +kernel
  value_head := by decide +kernel
  name_state := by decide +kernel
  last_option := by decide +kernel

def connectionField : PlainField where
  name := ascii "connection"
  blanks := []
  value := ascii "keep-alive, Upgrade"
  name_ne_nil := by decide +kernel
  name_token := by decide +kernel
  blanks_blank := by decide +kernel
  value_byte := by decide +kernel
  value_head := by decide +kernel
  name_state := by decide +kernel
  last_option := by decide +kernel

def upgradeField : PlainField where
  name := ascii "UPGRADE"
  blanks := ascii "  "
  value := ascii "websocket"
  name_ne_nil := by decide +kernel
  name_token := by decide +kernel
  blanks_blank := by decide +kernel
  value_byte := by decide +kernel
  value_head := by decide +kernel
  name_state := by decide +kernel
  last_option := by decide +kernel

def keyField : PlainField where
  name := ascii "Sec-WebSocket-Key"
  blanks := ascii " "
  value := ascii "AQIDBAUGBwgJCgsMDQ4PEA=="
  name_ne_nil := by decide +kernel
  name_token := by decide +kernel
  blanks_blank := by decide +kernel
  value_byte := by decide +kernel
  value_head := by decide +kernel
  name_state := by decide +kernel
  last_option := by decide +kernel

def encodingField : ChunkedField where
  name := ascii "Transfer-Encoding"
  blanks := ascii " "
  value := ascii "Chunked"
  name_ne_nil := by decide +kernel
  name_token := by decide +kernel
  blanks_blank := by decide +kernel
  value_byte := by decide +kernel
  value_head := by decide +kernel
  chunks := [{
    size := ascii "00c"
    data := ascii "GET / HTTP/1"
    size_digit := by decide +kernel
    size_eq := by decide +kernel
    data_ne_nil := by decide +kernel
    data_lt := by decide +kernel }]
  name_state := by decide +kernel
  value_eq := by decide +kernel

def jsonUrl : UrlText where
  first := 47
  path := ascii "json"
  query := some (ascii "a?b")
  first_start := by decide +kernel
  path_byte := by decide +kernel
  query_byte := by decide +kernel

def targetUrl : UrlText where
  first := 47
  path := ascii "1"
  query := none
  first_start := by decide +kernel
  path_byte := by decide +kernel
  query_byte := by decide +kernel

/-- A request with a body, and one for an upgrade. -/
def sampleRequests : List RequestText :=
  [⟨(ascii "GET", 1), jsonUrl, [hostField], .chunked encodingField, [], by decide +kernel⟩,
    ⟨(ascii "GET", 1), targetUrl, [hostField, connectionField], .none, [upgradeField, keyField],
      by decide +kernel⟩]

def sampleReads : List Bytes :=
  [(sampleRequests.flatMap RequestText.text).take 30, [],
    (sampleRequests.flatMap RequestText.text).drop 30]

theorem finished_requests_sample : ∃ batches,
    parser.finished parser.init .init sampleReads = .ok batches ∧
      batches.flatMap Batch.events =
        [⟨ascii "/json?a?b", false, true, [], ascii "localhost:9229"⟩,
          ⟨ascii "/1", true, true, ascii "AQIDBAUGBwgJCgsMDQ4PEA==", ascii "localhost:9229"⟩] ∧
      ∀ batch ∈ batches, batch.isError = false := by
  have hevents : sampleRequests.map (fun request => request.request.event) =
      [⟨ascii "/json?a?b", false, true, [], ascii "localhost:9229"⟩,
        ⟨ascii "/1", true, true, ascii "AQIDBAUGBwgJCgsMDQ4PEA==", ascii "localhost:9229"⟩] := by
    decide +kernel
  rw [← hevents]
  exact finished_requests sampleRequests (by decide +kernel) sampleReads (by simp [sampleReads])

/-! ### What is served -/

/-- If nothing is refused, all requests are served, also those in front of an upgrade. -/
theorem answersOf_of_none_refused {accepts : Bytes → Bool} {batches : List Batch}
    {events : List HttpEvent} (hevents : batches.flatMap Batch.events = events)
    (hallowed : ∀ event ∈ events, ¬ event.IsRefused)
    (hplain : ∀ event ∈ events.dropLast, event.upgrade = false)
    (hnone : ∀ batch ∈ batches, batch.isError = false) :
    Batch.answersOf accepts batches = .ok (events.map HttpEvent.served) := by
  have hserved {events : List HttpEvent} (hallowed : ∀ event ∈ events, ¬ event.IsRefused) :
      handleEvents events = events.map HttpEvent.served := by
    induction events with
    | nil => rfl
    | cons event events ih =>
        obtain ⟨hevent, hevents⟩ := List.forall_mem_cons.1 hallowed
        rw [handleEvents_of_not_isRefused hevent, ih hevents, List.map_cons]
  induction batches generalizing events with
  | nil =>
      subst hevents
      rfl
  | cons batch batches ih =>
      rw [List.flatMap_cons] at hevents
      subst hevents
      obtain ⟨hbatch, hrest⟩ := List.forall_mem_append.1 hallowed
      obtain ⟨herror, hnone'⟩ := List.forall_mem_cons.1 hnone
      have hanswers : batch.answers = batch.events.map HttpEvent.served := by
        rw [Batch.answers, hserved hbatch, herror]
        exact List.append_nil _
      -- requests that do not ask for an upgrade hand nothing over
      have hstays {events : List HttpEvent} (h : ∀ event ∈ events, event.upgrade = false) :
          (events.map HttpEvent.served).any (Disposition.upgrades accepts) = false :=
        not_upgrades_of_declined fun event hevent hupgrade =>
          absurd ((h event hevent).symm.trans hupgrade) Bool.false_ne_true
      rw [List.map_append]
      by_cases hlater : batches.flatMap Batch.events = []
      · have hnothing := ih hlater (fun _ hmem => absurd hmem List.not_mem_nil)
          (fun _ hmem => absurd hmem List.not_mem_nil) hnone'
        rw [hlater, List.append_nil] at hplain
        have hsound : usesDeleted accepts (handleEvents batch.events) = false := by
          rw [hserved hbatch, usesDeleted, ← List.map_dropLast, hstays hplain]
        rw [Batch.answersOf, hsound, if_neg Bool.false_ne_true, hanswers, hnothing, hlater]
        split
        · exact congrArg Except.ok (List.append_nil _).symm
        · rfl
      · rw [List.dropLast_append_of_ne_nil hlater] at hplain
        obtain ⟨hfirst, hplain'⟩ := List.forall_mem_append.1 hplain
        have hgoes := hstays hfirst
        rw [← hserved hbatch] at hgoes
        rw [answersOf_of_not_upgrades hgoes, hanswers, ih rfl hrest hplain' hnone']
        rfl

/-- If none of the requests is refused, each is answered by its own call, whichever way their text is
cut into reads. -/
theorem serve_requests (accepts : Bytes → Bool) (requests : List RequestText)
    (hplain : ∀ request ∈ requests.dropLast, request.upgrade = false)
    (hallowed : ∀ request ∈ requests, ¬ request.request.IsRefused) (reads : List Bytes)
    (hcut : reads.flatten = requests.flatMap RequestText.text) :
    parser.serve accepts parser.init .init reads =
      .ok (requests.map fun request => request.request.event.served) := by
  cases reads with
  | nil =>
      obtain rfl := eq_nil_of_text hcut
      rfl
  | cons first reads =>
      obtain ⟨batches, hbatches, hevents, hnone⟩ := exists_batches hplain hcut
      obtain ⟨finished, hfinishes, rfl⟩ := exists_of_finished rfl hbatches
      rw [serve_eq accepts rfl hfinishes, answersOf_of_none_refused hevents ?_ ?_ hnone, List.map_map]
      · rfl
      · exact List.forall_mem_map.2 hallowed
      · rw [← List.map_dropLast]
        exact List.forall_mem_map.2 hplain

theorem serve_requests_sample : parser.serve (fun _ => true) parser.init .init sampleReads =
    .ok [.onHttpGet (ascii "localhost:9229") (ascii "/json?a?b"),
      .onSocketUpgrade (ascii "localhost:9229") (ascii "/1") (ascii "AQIDBAUGBwgJCgsMDQ4PEA==")] := by
  have hserved : sampleRequests.map (fun request => request.request.event.served) =
      [.onHttpGet (ascii "localhost:9229") (ascii "/json?a?b"), .onSocketUpgrade
        (ascii "localhost:9229") (ascii "/1") (ascii "AQIDBAUGBwgJCgsMDQ4PEA==")] := by
    decide +kernel
  rw [← hserved]
  exact serve_requests (fun _ => true) sampleRequests (by decide +kernel) (by decide +kernel)
    sampleReads (by simp [sampleReads])

/-! ### A length that is too large -/

/-- A length from `2 ^ 64` on. -/
structure LongField extends FieldText where
  name_state : headerStateOf name = 2
  value_digit : ∀ byte ∈ value, isDigit byte = true
  value_le : 2 ^ 64 ≤ decimal value

/-- The request up to its first lines. -/
def RequestText.start (request : RequestText) : Bytes :=
  request.method.1 ++ [32] ++ request.url.text ++ ascii " HTTP/1.1\r\n" ++
    (request.fields.map PlainField.toFieldText).flatMap FieldText.text

/-- The parser fails at the value. -/
theorem error_of_long (field : LongField) {s : Store} (hflags : hasFlags 32 s = false)
    (hzero : s.contentLength = 0)
    (hp : p.1 = ⟨some .headerValueDiscardWs, 0, none,
      { s with headerState := headerStateOf field.name }, 0⟩) (rest : Bytes) :
    (p.execute (field.value ++ [13, 10] ++ rest)).1.error = 11 ∧
      ∀ signal, .signal signal ∉ (p.report (field.value ++ [13, 10] ++ rest)).all := by
  have hdigits := field.value_digit
  have hlong := field.value_le
  have hne : field.value ≠ [] := by
    intro hnil
    rw [hnil] at hlong
    exact absurd hlong (by decide +kernel)
  obtain ⟨byte, others, hcons⟩ := List.exists_cons_of_ne_nil hne
  rw [hcons] at hdigits hlong ⊢
  have hreach := reaches_length (s := { s with headerState := headerStateOf field.name }) hdigits
    field.name_state hflags hzero
  rw [if_neg (Nat.not_lt.2 hlong)] at hreach
  obtain ⟨s', k, _, hbad⟩ := hreach
  have hclose : Reaches graph (byte :: others ++ [13, 10])
      (valueConfig .spanEndOnHeaderValue3 s' k)
      [.fragment .onHeaderValue (slice (byte :: others ++ [13, 10]) 0 k)]
      ⟨.error14, 0, none, s', k⟩ := .spanEnd rfl rfl rfl
  have hruns := (hbad.silent_trans hclose).runs (.failed rfl)
  have hok : p.1.error = 0 := by rw [hp]
  have hcurrent : p.1.current = some .headerValueDiscardWs := by rw [hp]
  have hconfig : p.1.config .headerValueDiscardWs = ⟨.headerValueDiscardWs, 0, none,
      { s with headerState := headerStateOf field.name }, 0⟩ := by
    rw [hp]
    rfl
  rw [← hconfig] at hruns
  have hreport := Parser.report_of_runs hok hcurrent
    (hruns.append_of_halted (p.2.config hcurrent) rest)
  refine ⟨congrArg (fun r => r.state.error) hreport, fun signal hmem => ?_⟩
  rw [hreport] at hmem
  simp [all_report, Config.pending] at hmem

/-- Up to the value of a line: nothing is complete. -/
theorem feeds_start (request : RequestText) (field : FieldText) {s : Store} (hflags : s.flags = 0)
    (hzero : s.contentLength = 0) :
    ∃ s' events, Feeds graph (startState s) (request.start ++ (field.name ++ [58] ++ field.blanks))
        events ⟨some .headerValueDiscardWs, 0, none,
          { s' with headerState := headerStateOf field.name }, 0⟩ ∧
      (∀ signal, .signal signal ∉ events) ∧ hasFlags 32 s' = false ∧ s'.contentLength = 0 := by
  have hmethods : ∀ method ∈ methods, method.2 ≠ 5 := by decide +kernel
  have hline := (feeds_method request.method_mem s).append (feeds_url request.url
    { s with finish := 2, method := request.method.2 } (hmethods _ request.method_mem))
  obtain ⟨state, hlines⟩ := takesLines_plain
    { s with finish := 2, method := request.method.2, httpMajor := 1, httpMinor := 1 } request.fields
  obtain ⟨state', owed, reported, hheaders, hat, howed⟩ := hlines _ [] (atLine_fieldStart _)
  have hfeeds := (hline.append hheaders).append (feeds_name field hat)
  have htext : request.method.1 ++ [32] ++ (request.url.text ++ ascii " HTTP/1.1\r\n") ++
      (request.fields.map PlainField.toFieldText).flatMap FieldText.text = request.start := by
    simp only [RequestText.start, List.append_assoc]
  rw [htext] at hfeeds
  refine ⟨_, _, hfeeds, fun signal hmem => ?_, ?_, hzero⟩
  · have hnone : .signal signal ∉ reported ++ owed := by
      rw [howed]
      simp [FieldText.events]
    simp only [List.nil_append, List.mem_append, List.mem_singleton, reduceCtorEq, or_false,
      false_or] at hmem hnone
    exact hnone hmem
  · change ((s.flags ||| plainFlags request.fields) &&& (232 &&& 32) == 32) = false
    rw [hflags, UInt8.zero_or, ← UInt8.and_assoc, (plainFlags_bits request.fields).1]
    rfl

/-- A `Content-Length` from `2 ^ 64` on is an error, wherever the text is cut and whatever comes
behind it: the requests in front of it are all that is ever finished. -/
theorem refuses_length (requests : List RequestText)
    (hplain : ∀ request ∈ requests, request.upgrade = false) (request : RequestText)
    (field : LongField) (rest : Bytes) (reads : List Bytes)
    (hcut : reads.flatten =
      requests.flatMap RequestText.text ++ request.start ++ field.text ++ rest) :
    ∃ batches, parser.finished parser.init .init reads = .ok batches ∧
      batches.flatMap Batch.events = requests.map (fun request => request.request.event) ∧
        ∃ batch ∈ batches, batch.isError = true := by
  have hdrop : ∀ request ∈ requests.dropLast, request.upgrade = false :=
    fun request hmem => hplain request (List.dropLast_subset _ hmem)
  obtain ⟨s', events, hfeeds, hevents, hend⟩ := feeds_requests (s := .init) requests hdrop rfl rfl
  obtain ⟨m, rfl, hflags, hzero⟩ := hend.resolve_right fun ⟨_, asking, hmem, hasks⟩ =>
    Bool.false_ne_true ((hplain asking hmem).symm.trans hasks)
  obtain ⟨s, more, hstart, hnone, hlength, hzero'⟩ :=
    feeds_start request field.toFieldText hflags hzero
  obtain ⟨hstate, hall, _⟩ := (hfeeds.append hstart) parser.init rfl
  obtain ⟨herror, hsignals⟩ := error_of_long field hlength hzero' hstate rest
  have htext : requests.flatMap RequestText.text ++ request.start ++ field.text ++ rest =
      requests.flatMap RequestText.text ++
        (request.start ++ (field.name ++ [58] ++ field.blanks)) ++
          (field.value ++ [13, 10] ++ rest) := by
    simp only [FieldText.text, List.append_assoc]
  cases reads with
  | nil => simp [RequestText.start] at hcut
  | cons first reads =>
      obtain ⟨happend, hregrouped⟩ := Parser.report_append parser.init
        (requests.flatMap RequestText.text ++ (request.start ++ (field.name ++ [58] ++ field.blanks)))
        (field.value ++ [13, 10] ++ rest)
      rw [← htext, ← hcut] at happend hregrouped
      have hfail : (parser.init.execute (first :: reads).flatten).1.error = 11 :=
        (congrArg State.error happend).trans herror
      have hsame := hregrouped.symm.trans (hall.append (.refl _))
      rw [Report.all, List.append_assoc] at hsame
      obtain ⟨next, whole, hnext, hwhole, hfinished, _⟩ := foldlM_of_regrouped hsame
        (Parser.report_undelivered parser.init _).2
        (fun signal hmem => (List.mem_append.1 hmem).elim (hnone signal) (hsignals signal)) .init
      rw [hevents, foldlM_texts] at hwhole
      obtain rfl := Except.ok.inj hwhole
      obtain ⟨batches, hbatches, hbatchEvents, hfails⟩ := finished_flatten
        (fun front back hsplit _ hpause => by
          have hstop := Parser.execute_append_of_error (by rw [hpause]; decide) back
          rw [← hsplit] at hstop
          rw [hstop, hpause] at hfail
          cases hfail)
        (fun hpause => by rw [hfail] at hpause; cases hpause) rfl hnext
      refine ⟨batches, hbatches, hbatchEvents.trans hfinished, hfails.2 ?_⟩
      rw [hfail]
      rfl

def longField : LongField where
  name := ascii "Content-Length"
  blanks := ascii " "
  value := ascii "18446744073709551616"
  name_ne_nil := by decide +kernel
  name_token := by decide +kernel
  blanks_blank := by decide +kernel
  value_byte := by decide +kernel
  value_head := by decide +kernel
  name_state := by decide +kernel
  value_digit := by decide +kernel
  value_le := by decide +kernel

/-- What comes behind the length is not looked at. -/
theorem refuses_length_sample : ∃ batches,
    parser.finished parser.init .init
        [(sampleRequests.take 1).flatMap RequestText.text,
          ascii "GET /json?a?b HTTP/1.1\r\nHost: localhost:9229\r\nContent-Length: 184467440737",
          ascii "09551616\r\n\r\nGET / HTTP/1.1\r\n\r\n"] = .ok batches ∧
      batches.flatMap Batch.events = [⟨ascii "/json?a?b", false, true, [], ascii "localhost:9229"⟩] ∧
        ∃ batch ∈ batches, batch.isError = true := by
  have hevents : (sampleRequests.take 1).map (fun request => request.request.event) =
      [⟨ascii "/json?a?b", false, true, [], ascii "localhost:9229"⟩] := by decide +kernel
  rw [← hevents]
  exact refuses_length (sampleRequests.take 1) (by decide +kernel)
    ⟨(ascii "GET", 1), jsonUrl, [hostField], .none, [], by decide +kernel⟩ longField
    (ascii "\r\nGET / HTTP/1.1\r\n\r\n") _ (by decide +kernel)

end Reads

end Llhttp
end Inspector
end V8JsiRuntime
