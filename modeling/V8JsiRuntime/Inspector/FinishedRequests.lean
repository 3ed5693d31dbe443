import V8JsiRuntime.Inspector.LlhttpPause

/-!
# FinishedRequests — the requests that a read finishes

The handler makes one event of each message that its parser completes.  Behind a request that asks
for an upgrade the parser pauses, so that it is the last one of its read, unless a content length is
left over from an earlier message.
-/

namespace V8JsiRuntime
namespace Inspector
namespace Llhttp

open Lib Lib.ParserGraph

instance (m : Store) : Decidable (Leftover m) :=
  decidable_of_iff (m.contentLength ≠ 0 ∧ hasFlags 32 m = false ∧ m.method ≠ 5 ∧
    hasFlags 8 m = false)
    ⟨fun ⟨hlength, hgiven, hconnect, hchunked⟩ => ⟨hlength, hgiven, hconnect, hchunked⟩,
      fun ⟨hlength, hgiven, hconnect, hchunked⟩ => ⟨hlength, hgiven, hconnect, hchunked⟩⟩

/-! ## The requests of a read -/

/-- The messages that are completed. -/
def messages : List (Event Span Store) → List Store
  | [] => []
  | .signal m :: events => m :: messages events
  | .fragment _ _ :: events => messages events

/-- A request that the handler has finished. -/
structure Finished where
  event : HttpEvent
  /-- A content length that the request has not given is left over. -/
  leftover : Bool
  deriving DecidableEq, Repr

/-- The parser pauses behind the request. -/
def Finished.Pauses (request : Finished) : Prop :=
  request.event.upgrade = true ∧ request.leftover = false

instance : DecidablePred Finished.Pauses := fun request =>
  inferInstanceAs (Decidable (request.event.upgrade = true ∧ request.leftover = false))

/-- The events of a read, with what the parser holds at each of them. -/
def Finished.ofEvents (events : List HttpEvent) (messages : List Store) : List Finished :=
  events.zipWith (fun event m => ⟨event, decide (Leftover m)⟩) messages

/-- What one read finishes, and the handler behind it. -/
def finish (p : graph.Parser) (handler : HttpHandler) (data : Bytes) :
    Except Fault (HttpHandler × List Finished) := do
  let next ← (parser.execute p data).2.callbacks.foldlM HttpHandler.callback handler
  return ({ next with events := [] },
    Finished.ofEvents next.events (messages (p.report data).events))

/-- What a read finishes, and whether the parser fails in it. -/
structure FinishedRead where
  requests : List Finished
  isError : Bool
  deriving DecidableEq, Repr

/-- What the reads of a connection finish, as long as the parser gets them. -/
def finishes (p : graph.Parser) (handler : HttpHandler) :
    List Bytes → Except Fault (List FinishedRead)
  | [] => .ok []
  | data :: reads => do
      let read ← finish p handler data
      let rest ← finishes (parser.execute p data).1 read.1 reads
      return ⟨read.2, (parser.execute p data).2.isError⟩ :: rest

/-! ### Events and messages -/

/-- A message that is completed is a signal. -/
theorem eq_append_of_messages {events : List (Event Span Store)} {before after : List Store}
    {m : Store} (h : messages events = before ++ m :: after) :
    ∃ front rest, events = front ++ .signal m :: rest ∧ messages front = before ∧
      messages rest = after := by
  induction events generalizing before with
  | nil =>
      rw [messages] at h
      cases before <;> cases h
  | cons event events ih =>
      cases event with
      | fragment span text =>
          obtain ⟨front, rest, rfl, hfront, hrest⟩ := ih h
          exact ⟨.fragment span text :: front, rest, rfl, hfront, hrest⟩
      | signal m' =>
          rw [messages] at h
          cases before with
          | nil =>
              obtain ⟨rfl, rfl⟩ := List.cons.inj h
              exact ⟨[], events, rfl, rfl, rfl⟩
          | cons first before =>
              obtain ⟨rfl, hbefore⟩ := List.cons.inj h
              obtain ⟨front, rest, rfl, rfl, hrest⟩ := ih hbefore
              exact ⟨.signal m' :: front, rest, rfl, rfl, hrest⟩

theorem mem_messages {m : Store} (front rest : List (Event Span Store)) :
    m ∈ messages (front ++ .signal m :: rest) := by
  induction front with
  | nil => exact List.mem_cons_self
  | cons event front ih =>
      cases event with
      | fragment span text => exact ih
      | signal m' => exact List.mem_cons_of_mem m' ih

/-- The end of a message adds an event with the flag that the parser holds. -/
theorem exists_onMessageComplete (handler : HttpHandler) (upgrade isGET : Bool) :
    ∃ (next : HttpHandler) (event : HttpEvent),
      handler.callback (.onMessageComplete upgrade isGET) = .ok next ∧ event.upgrade = upgrade ∧
        next.events = handler.events ++ [event] := by
  obtain ⟨wsKey, hkey⟩ := handler.headerValue_ok (ascii "Sec-WebSocket-Key") (by decide +kernel)
  obtain ⟨host, hhost⟩ := handler.headerValue_ok (ascii "Host") (by decide +kernel)
  refine ⟨HttpHandler.idle (handler.events ++ [⟨handler.path, upgrade, isGET, wsKey, host⟩]),
    ⟨handler.path, upgrade, isGET, wsKey, host⟩, ?_, rfl, rfl⟩
  rw [HttpHandler.callback, hkey, ok_bind, hhost, ok_bind]
  rfl

/-- The handler adds one event for each message. -/
theorem exists_foldlM_events (events : List (Event Span Store)) (handler : HttpHandler) :
    ∃ next new, (events.flatMap callbacks).foldlM HttpHandler.callback handler = .ok next ∧
      next.events = handler.events ++ new ∧
        new.map HttpEvent.upgrade = (messages events).map fun m => m.upgrade != 0 := by
  induction events generalizing handler with
  | nil => exact ⟨handler, [], rfl, (List.append_nil _).symm, rfl⟩
  | cons event events ih =>
      rw [List.flatMap_cons, List.foldlM_append]
      cases event with
      | fragment span text =>
          obtain ⟨middle, hmiddle, hsame⟩ :=
            @events_of_fragments [.fragment span text] (by simp) handler
          obtain ⟨next, new, hnext, hevents, hflags⟩ := ih middle
          rw [List.flatMap_singleton] at hmiddle
          exact ⟨next, new, by rw [hmiddle, ok_bind, hnext], hsame ▸ hevents, hflags⟩
      | signal m =>
          obtain ⟨middle, event, hmiddle, hupgrade, hadded⟩ :=
            exists_onMessageComplete handler (m.upgrade != 0) (m.method == 1)
          obtain ⟨next, new, hnext, hevents, hflags⟩ := ih middle
          refine ⟨next, event :: new, ?_, ?_, ?_⟩
          · rw [callbacks, List.foldlM_cons, hmiddle, ok_bind]
            exact hnext
          · rw [hevents, hadded, List.append_assoc, List.singleton_append]
          · rw [List.map_cons, hupgrade, hflags, messages, List.map_cons]

/-- What the condition of a pause is about: the flag of the request and the length left over. -/
def Finished.asks (request : Finished) : Bool × Bool :=
  (request.event.upgrade, request.leftover)

theorem Finished.map_ofEvents {events : List HttpEvent} {messages : List Store}
    (h : events.map HttpEvent.upgrade = messages.map fun m => m.upgrade != 0) :
    (Finished.ofEvents events messages).map Finished.event = events ∧
      (Finished.ofEvents events messages).map Finished.asks =
        messages.map fun m => (m.upgrade != 0, decide (Leftover m)) := by
  induction events generalizing messages with
  | nil =>
      cases messages with
      | nil => exact ⟨rfl, rfl⟩
      | cons m messages => cases h
  | cons event events ih =>
      cases messages with
      | nil => cases h
      | cons m messages =>
          obtain ⟨hupgrade, hrest⟩ := List.cons.inj h
          obtain ⟨hevents, hasks⟩ := ih hrest
          refine ⟨congrArg (event :: ·) hevents, ?_⟩
          have hfirst : Finished.asks ⟨event, decide (Leftover m)⟩ =
              (m.upgrade != 0, decide (Leftover m)) :=
            Prod.ext hupgrade rfl
          exact congrArg₂ List.cons hfirst hasks

section Finish

variable {p : graph.Parser} {handler next : HttpHandler} {data : Bytes} {requests : List Finished}

/-- Each read is finished; the requests are the events, one for each message. -/
theorem exists_finish (p : graph.Parser) {handler : HttpHandler} (hempty : handler.events = [])
    (data : Bytes) :
    ∃ last requests,
      (parser.execute p data).2.callbacks.foldlM HttpHandler.callback handler = .ok last ∧
        finish p handler data = .ok ({ last with events := [] }, requests) ∧
          requests.map Finished.event = last.events ∧
            requests.map Finished.asks = (messages (p.report data).events).map fun m =>
              (m.upgrade != 0, decide (Leftover m)) := by
  obtain ⟨last, new, hfold, hevents, hflags⟩ := exists_foldlM_events (p.report data).events handler
  rw [hempty, List.nil_append] at hevents
  have hfold' : (parser.execute p data).2.callbacks.foldlM HttpHandler.callback handler =
      .ok last := hfold
  obtain ⟨hsame, hasks⟩ := Finished.map_ofEvents (hevents ▸ hflags)
  refine ⟨last, _, hfold', ?_, hsame, hasks⟩
  rw [finish, hfold', ok_bind]
  rfl

theorem of_finish (hempty : handler.events = []) (h : finish p handler data = .ok (next, requests)) :
    ∃ last : HttpHandler,
      (parser.execute p data).2.callbacks.foldlM HttpHandler.callback handler = .ok last ∧
        next = { last with events := [] } ∧ requests.map Finished.event = last.events ∧
          requests.map Finished.asks = (messages (p.report data).events).map fun m =>
            (m.upgrade != 0, decide (Leftover m)) := by
  obtain ⟨last, requests', hfold, hfinish, hevents, hasks⟩ := exists_finish p hempty data
  obtain ⟨rfl, rfl⟩ := Prod.mk.inj (Except.ok.inj (hfinish.symm.trans h))
  exact ⟨last, hfold, rfl, hevents, hasks⟩

/-- A request that is finished belongs to a message. -/
theorem exists_signal (hasks : requests.map Finished.asks =
      (messages (p.report data).events).map fun m => (m.upgrade != 0, decide (Leftover m)))
    {before after : List Finished} {request : Finished}
    (hrequests : requests = before ++ request :: after) :
    ∃ front m rest, (p.report data).events = front ++ .signal m :: rest ∧
      request.event.upgrade = (m.upgrade != 0) ∧ request.leftover = decide (Leftover m) ∧
        after.length = (messages rest).length := by
  rw [hrequests, List.map_append, List.map_cons] at hasks
  obtain ⟨before', rest', hmessages, _, hrest⟩ := List.map_eq_append_iff.1 hasks.symm
  obtain ⟨m, after', rfl, hm, hafter⟩ := List.map_eq_cons_iff.1 hrest
  obtain ⟨front, rest, hevents, _, rfl⟩ := eq_append_of_messages hmessages
  obtain ⟨hupgrade, hleftover⟩ := Prod.mk.inj hm
  have hlength := congrArg List.length hafter
  rw [List.length_map, List.length_map] at hlength
  exact ⟨front, m, rest, hevents, hupgrade.symm, hleftover.symm, hlength.symm⟩

end Finish

/-! ## Pauses between the reads -/

/-- The parser between two reads of a connection. -/
structure Ready (p : graph.Parser) : Prop where
  sane : Sane p.1
  resumed : p.1.error ≠ 21

theorem Ready.init : Ready parser.init :=
  ⟨Sane.init, Nat.zero_ne_add_one 20⟩

theorem Ready.execute {p : graph.Parser} (h : Ready p) (data : Bytes) :
    Ready (parser.execute p data).1 :=
  ⟨(h.sane.execute data).resume, error_resume_ne _⟩

theorem resume_of_ne {s : State Label Store Span} (h : s.error ≠ 21) : s.resume graph = s :=
  if_neg h

theorem resume_execute {p : graph.Parser} {data : Bytes} (h : (p.execute data).1.error ≠ 21) :
    (p.execute data).resume = p.execute data :=
  Subtype.ext (resume_of_ne h)

/-- The parser goes on with the next read as it is. -/
theorem resume_execute_of_eq {p : graph.Parser} {data : Bytes}
    (h : (p.execute data).1.error = 0) : (p.execute data).resume = p.execute data :=
  resume_execute (by rw [h]; exact Nat.zero_ne_add_one 20)

/-- The flag of a message is 0 or 1. -/
theorem Ready.upgrade_eq_one {p : graph.Parser} (h : Ready p) {data : Bytes} {m : Store}
    (hmem : .signal m ∈ (p.report data).events) (hupgrade : (m.upgrade != 0) = true) :
    m.upgrade = 1 :=
  ((pausesRight_report h.sane h.resumed data).asks m hmem).resolve_left (bne_iff_ne.1 hupgrade)

/-- A request behind which the parser pauses is the last one. -/
def PausesLast (requests : List Finished) : Prop :=
  ∀ before request after, requests = before ++ request :: after → request.Pauses → after = []

theorem PausesLast.tail {request : Finished} {requests : List Finished}
    (h : PausesLast (request :: requests)) : PausesLast requests :=
  fun before other after hrequests => h (request :: before) other after (hrequests ▸ rfl)

section Pauses

variable {p : graph.Parser} {handler next : HttpHandler} {data : Bytes} {requests : List Finished}

theorem Ready.pausesLast (h : Ready p) (hempty : handler.events = [])
    (hfinish : finish p handler data = .ok (next, requests)) : PausesLast requests := by
  obtain ⟨_, _, _, _, hasks⟩ := of_finish hempty hfinish
  have hright := pausesRight_report h.sane h.resumed data
  intro before request after hrequests ⟨hupgrade, hleftover⟩
  obtain ⟨front, m, rest, hevents, hm, hleft, hlength⟩ := exists_signal hasks hrequests
  have hmem : .signal m ∈ (p.report data).events :=
    hevents ▸ List.mem_append_right _ List.mem_cons_self
  have hone := h.upgrade_eq_one hmem (hm ▸ hupgrade)
  have hnot : ¬ Leftover m := of_decide_eq_false (hleft.symm.trans hleftover)
  rw [hright.last front m rest hevents hone hnot] at hlength
  exact List.eq_nil_of_length_eq_zero hlength

/-- The parser is paused behind the read exactly if it finishes a request behind which it pauses. -/
theorem Ready.paused_iff (h : Ready p) (hempty : handler.events = [])
    (hfinish : finish p handler data = .ok (next, requests)) :
    (p.execute data).1.error = 21 ↔ ∃ request ∈ requests, request.Pauses := by
  obtain ⟨_, _, _, _, hasks⟩ := of_finish hempty hfinish
  have hright := pausesRight_report h.sane h.resumed data
  refine hright.paused.trans ⟨?_, ?_⟩
  · rintro ⟨front, m, hevents, hupgrade, hleft⟩
    have hmem : (m.upgrade != 0, decide (Leftover m)) ∈ requests.map Finished.asks := by
      rw [hasks, hevents]
      exact List.mem_map.2 ⟨m, mem_messages front [], rfl⟩
    obtain ⟨request, hrequest, heq⟩ := List.mem_map.1 hmem
    obtain ⟨hasked, hleftover⟩ := Prod.mk.inj heq
    rw [hupgrade] at hasked
    exact ⟨request, hrequest, hasked, hleftover.trans (decide_eq_false hleft)⟩
  · rintro ⟨request, hrequest, hpauses⟩
    obtain ⟨before, after, hrequests⟩ := List.append_of_mem hrequest
    obtain ⟨front, m, rest, hevents, hm, hleft, hlength⟩ := exists_signal hasks hrequests
    have hmem : .signal m ∈ (p.report data).events :=
      hevents ▸ List.mem_append_right _ List.mem_cons_self
    have hone := h.upgrade_eq_one hmem (hm ▸ hpauses.1)
    have hnot : ¬ Leftover m := of_decide_eq_false (hleft.symm.trans hpauses.2)
    obtain rfl := hright.last front m rest hevents hone hnot
    exact ⟨front, m, hevents, hone, hnot⟩

end Pauses

/-! ## The reads and one read -/

section Reads

variable {p : graph.Parser} {handler : HttpHandler} {data first : Bytes} {reads : List Bytes}
  {batches : List FinishedRead}

theorem exists_finishes (p : graph.Parser) (handler : HttpHandler) (hempty : handler.events = [])
    (reads : List Bytes) : ∃ batches, finishes p handler reads = .ok batches := by
  induction reads generalizing p handler with
  | nil => exact ⟨[], rfl⟩
  | cons data reads ih =>
      obtain ⟨last, requests, _, hfinish, _⟩ := exists_finish p hempty data
      obtain ⟨rest, hrest⟩ := ih (parser.execute p data).1 { last with events := [] } rfl
      refine ⟨⟨requests, (parser.execute p data).2.isError⟩ :: rest, ?_⟩
      rw [finishes, hfinish, ok_bind]
      dsimp only
      rw [hrest]
      rfl

/-- The first read, and the others. -/
theorem finishes_cons (hempty : handler.events = [])
    (h : finishes p handler (data :: reads) = .ok batches) :
    ∃ last requests rest,
      (parser.execute p data).2.callbacks.foldlM HttpHandler.callback handler = .ok last ∧
        finish p handler data = .ok ({ last with events := [] }, requests) ∧
          requests.map Finished.event = last.events ∧
            finishes (parser.execute p data).1 { last with events := [] } reads = .ok rest ∧
              batches = ⟨requests, (parser.execute p data).2.isError⟩ :: rest := by
  obtain ⟨last, requests, hfold, hfinish, hevents, _⟩ := exists_finish p hempty data
  obtain ⟨rest, hrest⟩ := exists_finishes (parser.execute p data).1
    { last with events := [] } rfl reads
  refine ⟨last, requests, rest, hfold, hfinish, hevents, hrest, ?_⟩
  rw [finishes, hfinish, ok_bind] at h
  dsimp only at h
  rw [hrest] at h
  exact (Except.ok.inj h).symm

/-- An error stays, and nothing more is finished. -/
theorem finishes_of_error (herror : p.1.error ≠ 0) (hpause : p.1.error ≠ 21)
    (hempty : handler.events = []) (h : finishes p handler reads = .ok batches) :
    ∀ batch ∈ batches, batch.requests = [] := by
  induction reads generalizing handler batches with
  | nil =>
      obtain rfl := Except.ok.inj h
      exact fun _ hmem => absurd hmem List.not_mem_nil
  | cons data reads ih =>
      obtain ⟨last, requests, rest, hfold, _, hevents, hrest, rfl⟩ := finishes_cons hempty h
      have hreport := p.report_of_error data herror
      have hlast : handler = last := by
        change ((p.report data).events.flatMap callbacks).foldlM HttpHandler.callback handler =
          .ok last at hfold
        rw [hreport] at hfold
        exact Except.ok.inj hfold
      have hparser : (p.execute data).resume = p := by
        refine Subtype.ext ?_
        change ((p.report data).state.resume graph) = p.1
        rw [hreport]
        exact resume_of_ne hpause
      subst hlast
      change finishes (p.execute data).resume _ reads = .ok rest at hrest
      rw [hparser] at hrest
      intro batch hbatch
      rcases List.mem_cons.1 hbatch with rfl | hbatch
      · exact List.map_eq_nil_iff.1 (hevents.trans hempty)
      · exact ih rfl hrest batch hbatch

/-- An error is the end of the requests. -/
def ErrorLast (batches : List FinishedRead) : Prop :=
  batches.Pairwise fun earlier later => earlier.isError = true → later.requests = []

theorem errorLast_of_finishes (hempty : handler.events = [])
    (h : finishes p handler reads = .ok batches) : ErrorLast batches := by
  induction reads generalizing p handler batches with
  | nil =>
      obtain rfl := Except.ok.inj h
      exact List.Pairwise.nil
  | cons data reads ih =>
      obtain ⟨last, requests, rest, _, _, _, hrest, rfl⟩ := finishes_cons hempty h
      refine List.pairwise_cons.2 ⟨fun later hlater herror => ?_, ih rfl hrest⟩
      change ((p.report data).state.error != 0 && (p.report data).state.error != 21) = true at herror
      rw [Bool.and_eq_true, bne_iff_ne, bne_iff_ne] at herror
      have hresume : (p.execute data).resume.1.error = (p.report data).state.error :=
        congrArg State.error (resume_of_ne herror.2)
      exact finishes_of_error (hresume ▸ herror.1) (hresume ▸ herror.2) rfl hrest later hlater

theorem pausesLast_of_finishes (hready : Ready p) (hempty : handler.events = [])
    (h : finishes p handler reads = .ok batches) :
    ∀ batch ∈ batches, PausesLast batch.requests := by
  induction reads generalizing p handler batches with
  | nil =>
      obtain rfl := Except.ok.inj h
      exact fun _ hmem => absurd hmem List.not_mem_nil
  | cons data reads ih =>
      obtain ⟨last, requests, rest, _, hfinish, _, hrest, rfl⟩ := finishes_cons hempty h
      intro batch hbatch
      rcases List.mem_cons.1 hbatch with rfl | hbatch
      · exact hready.pausesLast hempty hfinish
      · exact ih (hready.execute data) rfl hrest batch hbatch

/-- What one read of all the bytes finishes: the parser leaves the rest alone when it pauses. -/
def untilPause : List (List Finished) → List Finished
  | [] => []
  | batch :: batches =>
      if ∃ request ∈ batch, request.Pauses then batch else batch ++ untilPause batches

theorem untilPause_cons (batch : List Finished) (batches : List (List Finished)) :
    ∃ rest, untilPause (batch :: batches) = batch ++ rest := by
  rw [untilPause]
  split
  · exact ⟨[], (List.append_nil batch).symm⟩
  · exact ⟨_, rfl⟩

/-- Nothing is finished in one read exactly if nothing is in any. -/
theorem untilPause_eq_nil_iff {batches : List (List Finished)} :
    untilPause batches = [] ↔ ∀ batch ∈ batches, batch = [] := by
  induction batches with
  | nil => simp [untilPause]
  | cons batch batches ih =>
      rw [untilPause, List.forall_mem_cons, ← ih]
      split
      · rename_i hpauses
        obtain ⟨request, hrequest, _⟩ := hpauses
        have hne := List.ne_nil_of_mem hrequest
        exact iff_of_false hne fun h => hne h.1
      · exact List.append_eq_nil_iff

/-- What two chunks finish, and what they finish as one. -/
theorem foldlM_append_report (p : graph.Parser) (data more : Bytes) (handler : HttpHandler) :
    ∃ both whole, (((p.report data).events ++ ((p.execute data).report more).events).flatMap
        callbacks).foldlM HttpHandler.callback handler = .ok both ∧
      ((p.report (data ++ more)).events.flatMap callbacks).foldlM HttpHandler.callback handler =
        .ok whole ∧ both.events = whole.events := by
  obtain ⟨_, hregrouped⟩ := p.reports_flatten data [more]
  obtain ⟨lost, hall, _, hsignals⟩ := p.reports_all [data, more]
  obtain ⟨_, hsignals'⟩ := p.report_undelivered (data ++ more)
  rw [hall, List.flatten_cons, List.flatten_singleton, Report.all] at hregrouped
  have hboth : (p.reports [data, more]).flatMap Report.events =
      (p.report data).events ++ ((p.execute data).report more).events := by
    simp [Parser.reports]
  rw [hboth] at hregrouped
  obtain ⟨both, whole, hfold, hfold', hevents, _⟩ :=
    foldlM_of_regrouped hregrouped hsignals hsignals' handler
  exact ⟨both, whole, hfold, hfold', hevents⟩

/-- When the parser has stopped behind a read, one read of all the bytes finishes nothing more. -/
theorem untilPause_of_error {read : FinishedRead} (hzero : (p.execute data).1.error ≠ 0)
    (hpaused : (p.execute data).1.error = 21 ↔ ∃ request ∈ read.requests, request.Pauses)
    (hempty : handler.events = [])
    (hrest : finishes (p.execute data).resume handler reads = .ok batches) :
    untilPause ((read :: batches).map FinishedRead.requests) = read.requests := by
  rw [List.map_cons, untilPause]
  split
  · rfl
  · rename_i hnot
    have hpause : (p.execute data).1.error ≠ 21 := fun hpause => hnot (hpaused.1 hpause)
    rw [resume_execute hpause] at hrest
    have hnothing := finishes_of_error hzero hpause hempty hrest
    rw [untilPause_eq_nil_iff.2 (List.forall_mem_map.2 hnothing), List.append_nil]

/-- The events that wait in the handler stay in front of the new ones. -/
theorem events_of_waiting {callbacks : List Callback} {handler both last : HttpHandler}
    (hboth : callbacks.foldlM HttpHandler.callback handler = .ok both)
    (hlast : callbacks.foldlM HttpHandler.callback { handler with events := [] } = .ok last) :
    both.events = handler.events ++ last.events := by
  obtain ⟨handler', new, _, hgoes⟩ := HttpHandler.foldlM_events callbacks handler
  obtain rfl := Except.ok.inj ((hgoes []).symm.trans hlast)
  obtain rfl := Except.ok.inj ((hgoes handler.events).symm.trans hboth)
  rfl

/-- One read of all the bytes finishes what the reads finish up to the first pause; the induction is
on the reads. -/
theorem foldlM_flatten (hready : Ready p) (hempty : handler.events = [])
    (h : finishes p handler (first :: reads) = .ok batches) :
    ∃ whole, ((p.report (first :: reads).flatten).events.flatMap callbacks).foldlM
        HttpHandler.callback handler = .ok whole ∧
      whole.events = (untilPause (batches.map FinishedRead.requests)).map Finished.event := by
  induction reads generalizing p handler first batches with
  | nil =>
      obtain ⟨last, requests, rest, hfold, _, hevents, hrest, rfl⟩ := finishes_cons hempty h
      obtain rfl := Except.ok.inj hrest
      refine ⟨last, by rw [List.flatten_singleton]; exact hfold, ?_⟩
      simp [untilPause, hevents]
  | cons second reads ih =>
      obtain ⟨last, requests, rest, hfold, hfinish, hlast, hrest, rfl⟩ := finishes_cons hempty h
      have hpaused := hready.paused_iff hempty hfinish
      change finishes (p.execute first).resume _ _ = .ok rest at hrest
      change ((p.report first).events.flatMap callbacks).foldlM HttpHandler.callback handler =
        .ok last at hfold
      obtain ⟨both, whole, hboth, hwhole, hevents⟩ :=
        foldlM_append_report p first (second :: reads).flatten handler
      rw [List.flatMap_append, List.foldlM_append, hfold, ok_bind] at hboth
      refine ⟨whole, hwhole, ?_⟩
      rw [← hevents]
      by_cases hzero : (p.execute first).1.error = 0
      · have hresume := resume_execute_of_eq hzero
        have hnext : Ready (p.execute first).resume := hready.execute first
        rw [hresume] at hrest hnext
        have hnot : ¬ ∃ request ∈ requests, request.Pauses := by
          rw [← hpaused, hzero]
          exact Nat.zero_ne_add_one 20
        -- the requests of the first read are waiting while the parser goes on
        obtain ⟨last', hfold', hlast'⟩ := ih hnext rfl hrest
        rw [events_of_waiting hboth hfold', hlast', List.map_cons, untilPause, if_neg hnot,
          List.map_append, hlast]
      · -- the parser takes nothing more
        rw [Parser.report_of_error _ _ hzero] at hboth
        obtain rfl := Except.ok.inj hboth
        rw [untilPause_of_error hzero hpaused rfl hrest, hlast]

end Reads

end Llhttp
end Inspector
end V8JsiRuntime
