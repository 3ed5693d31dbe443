import V8JsiRuntime.Inspector.RefusedHandshake

/-!
# LlhttpRefusals — refused requests when no length is left over

As long as no length is left over behind a request that asks for an upgrade, the parser pauses behind
every such request, and the reads of a connection are answered like one read exactly if refused
requests stay refused.
-/

namespace V8JsiRuntime
namespace Inspector

open Lib Lib.ParserGraph

/-- The request ends the loop of its read, or the read itself. -/
def HttpEvent.EndsRead (event : HttpEvent) : Prop :=
  event.IsRefused ∨ event.upgrade = true

instance (event : HttpEvent) : Decidable event.EndsRead :=
  inferInstanceAs (Decidable (_ ∨ _))

/-- After a read with a request that is refused, or asks for an upgrade that the server declines,
every read begins with a request that is refused. -/
def StaysRefused (accepts : Bytes → Bool) : List (List HttpEvent) → Prop
  | [] => True
  | batch :: batches =>
      match batch.find? fun event => event.EndsRead with
      | none => StaysRefused accepts batches
      | some event => (¬ event.IsRefused ∧ accepts event.path = true) ∨
          ∀ later ∈ batches, ∀ first ∈ later.head?, first.IsRefused

namespace Llhttp

/-! ## Reads in which no length is left over -/

/-- An upgrade is not asked for while a length is left over. -/
def CleanEvent : Event Span Store → Prop
  | .signal m => m.upgrade = 1 → ¬ Leftover m
  | .fragment _ _ => True

instance : DecidablePred CleanEvent
  | .signal m => inferInstanceAs (Decidable (m.upgrade = 1 → ¬ Leftover m))
  | .fragment _ _ => inferInstanceAs (Decidable True)

def CleanReport (report : Report Label Store Span Store) : Prop :=
  ∀ event ∈ report.events, CleanEvent event

instance (report : Report Label Store Span Store) : Decidable (CleanReport report) :=
  inferInstanceAs (Decidable (∀ event ∈ report.events, _))

/-- The reads of a connection, with the parser resumed behind each. -/
def Clean (p : graph.Parser) : List Bytes → Prop
  | [] => True
  | data :: reads => CleanReport (p.report data) ∧ Clean (p.execute data).resume reads

instance decidableClean (p : graph.Parser) : (reads : List Bytes) → Decidable (Clean p reads)
  | [] => inferInstanceAs (Decidable True)
  | data :: reads =>
      have := decidableClean (p.execute data).resume reads
      inferInstanceAs (Decidable (_ ∧ _))

/-- The parser pauses behind every request that asks for an upgrade. -/
def AsksCleanly (requests : List Finished) : Prop :=
  ∀ request ∈ requests, request.event.upgrade = true → request.leftover = false

theorem asksCleanly_of_finishes {p : graph.Parser} (hready : Ready p) {handler : HttpHandler}
    (hempty : handler.events = []) {reads : List Bytes} (hclean : Clean p reads)
    {batches : List FinishedRead} (h : finishes p handler reads = .ok batches) :
    ∀ batch ∈ batches, AsksCleanly batch.requests := by
  induction reads generalizing p handler batches with
  | nil =>
      obtain rfl := Except.ok.inj h
      exact fun _ hmem => absurd hmem List.not_mem_nil
  | cons data reads ih =>
      obtain ⟨last, requests, rest, _, hfinish, _, hrest, rfl⟩ := finishes_cons hempty h
      obtain ⟨hreport, hlater⟩ := hclean
      intro batch hbatch
      rcases List.mem_cons.1 hbatch with rfl | hbatch
      · intro request hrequest hupgrade
        obtain ⟨_, _, _, _, hasks⟩ := of_finish hempty hfinish
        obtain ⟨before, after, hrequests⟩ := List.append_of_mem hrequest
        obtain ⟨front, m, behind, hevents, hm, hleftover, _⟩ := exists_signal hasks hrequests
        have hmem : .signal m ∈ (p.report data).events :=
          hevents ▸ List.mem_append_right _ List.mem_cons_self
        have hone := hready.upgrade_eq_one hmem (hm ▸ hupgrade)
        exact hleftover.trans (decide_eq_false (hreport _ hmem hone))
      · exact ih (hready.execute data) rfl hlater hrest batch hbatch

/-! ## The reads of a connection -/

theorem ends_iff {accepts : Bytes → Bool} {request : Finished}
    (hclean : request.event.upgrade = true → request.leftover = false) :
    request.Ends accepts ↔ request.event.EndsRead :=
  or_congr_right (and_iff_left_of_imp fun hupgrade => Or.inr (hclean hupgrade))

/-- Where the parser pauses behind every upgrade, requests end for good if they stay refused. -/
theorem endsForGood_iff {accepts : Bytes → Bool} {batches : List (List Finished)}
    (hclean : ∀ requests ∈ batches, AsksCleanly requests)
    (hlast : ∀ requests ∈ batches, PausesLast requests) :
    EndsForGood accepts batches ↔
      StaysRefused accepts (batches.map fun requests => requests.map Finished.event) := by
  induction batches with
  | nil => exact Iff.rfl
  | cons requests later ih =>
      have hrest := ih (fun other hother => hclean other (List.mem_cons_of_mem requests hother))
        fun other hother => hlast other (List.mem_cons_of_mem requests hother)
      have hasks := hclean requests List.mem_cons_self
      have hheads : (∀ events ∈ later.map fun requests => requests.map Finished.event,
          ∀ first ∈ events.head?, first.IsRefused) ↔
            ∀ requests ∈ later, ∀ first ∈ requests.head?, first.event.IsRefused := by
        rw [List.forall_mem_map]
        refine forall₂_congr fun requests _ => ?_
        cases requests with
        | nil => exact iff_of_true (fun _ h => by cases h) fun _ h => by cases h
        | cons request requests => simp
      rw [List.map_cons, EndsForGood, StaysRefused, hheads]
      rcases dropWhile_ends accepts requests with ⟨hdrop, hgoes⟩ |
        ⟨before, request, after, hdrop, rfl, hends, hgoes⟩
      · have hnone : ((requests.map Finished.event).find? fun event => event.EndsRead) = none := by
          rw [List.find?_eq_none, List.forall_mem_map]
          intro request hrequest
          simpa using (ends_iff (hasks request hrequest)).not.1 (hgoes request hrequest)
        rw [hdrop, hnone]
        exact hrest
      · have hmem : request ∈ before ++ request :: after :=
          List.mem_append_right _ List.mem_cons_self
        have hsome : (((before ++ request :: after).map Finished.event).find? fun event =>
            event.EndsRead) = some request.event := by
          rw [List.map_append, List.map_cons, List.find?_eq_some_iff_append]
          refine ⟨by simpa using (ends_iff (hasks request hmem)).1 hends, _, _, rfl, ?_⟩
          rw [List.forall_mem_map]
          intro other hother
          have hgone := hasks other (List.mem_append_left _ hother)
          simpa using (ends_iff hgone).not.1 (hgoes other hother)
        rw [hdrop, hsome]
        dsimp only
        split
        · rename_i haccepted
          -- the parser pauses behind the upgrade, which is the last request of its read
          have hupgrade := (hends.resolve_left haccepted.1).1
          have hleftover := hasks request hmem hupgrade
          obtain rfl := hlast _ List.mem_cons_self before request after rfl ⟨hupgrade, hleftover⟩
          refine iff_of_true ⟨rfl, fun hleft => ?_⟩ (Or.inl haccepted)
          cases hleftover.symm.trans hleft
        · rename_i hnot
          exact (or_iff_right hnot).symm

theorem finished_eq {p : graph.Parser} {handler : HttpHandler} (hempty : handler.events = [])
    {reads : List Bytes} {batches : List FinishedRead}
    (h : finishes p handler reads = .ok batches) :
    parser.finished p handler reads = .ok (batches.map FinishedRead.batch) := by
  induction reads generalizing p handler batches with
  | nil =>
      obtain rfl := Except.ok.inj h
      rfl
  | cons data reads ih =>
      obtain ⟨last, requests, rest, hfold, _, hevents, hrest, rfl⟩ := finishes_cons hempty h
      rw [HttpParser.finished, hfold, ok_bind, ih rfl hrest, List.map_cons, FinishedRead.batch, hevents]
      rfl

/-- What the handler gets of its reads, and what the parser holds with it. -/
theorem exists_of_finished {p : graph.Parser} {handler : HttpHandler} (hempty : handler.events = [])
    {reads : List Bytes} {batches : List Batch} (h : parser.finished p handler reads = .ok batches) :
    ∃ finished, finishes p handler reads = .ok finished ∧
      batches = finished.map FinishedRead.batch := by
  obtain ⟨finished, hfinishes⟩ := exists_finishes p handler hempty reads
  exact ⟨finished, hfinishes, Except.ok.inj (h.symm.trans (finished_eq hempty hfinishes))⟩

/-- With its own parser, and as long as no length is left over behind a request that asks for an
upgrade: however the bytes are cut into reads, refusals are final and the requests served are those
of one read exactly if refused requests stay refused. -/
theorem parser_refusesForGood_iff (accepts : Bytes → Bool) (first : Bytes) (reads : List Bytes)
    (hclean : Clean parser.init (first :: reads)) :
    RefusesForGood parser accepts (first :: reads) ↔
      ∃ batches, parser.finished parser.init .init (first :: reads) = .ok batches ∧
        StaysRefused accepts (batches.map Batch.events) := by
  obtain ⟨batches, hfinishes⟩ := exists_finishes parser.init .init rfl (first :: reads)
  have hlast := pausesLast_of_finishes Ready.init rfl hfinishes
  have hasks := asksCleanly_of_finishes Ready.init rfl hclean hfinishes
  have hfinished := finished_eq rfl hfinishes
  have hends : EndsForGood accepts (batches.map FinishedRead.requests) ↔
      StaysRefused accepts ((batches.map FinishedRead.batch).map Batch.events) := by
    rw [endsForGood_iff (List.forall_mem_map.2 hasks) (List.forall_mem_map.2 hlast), List.map_map,
      List.map_map]
    rfl
  rw [refusesForGood_iff_asOneRead accepts hfinishes,
    asOneRead_iff hlast (errorLast_of_finishes rfl hfinishes), hends]
  constructor
  · intro hstays
    exact ⟨_, hfinished, hstays⟩
  · rintro ⟨others, hothers, hstays⟩
    obtain rfl := Except.ok.inj (hfinished.symm.trans hothers)
    exact hstays

/-- A GET and behind it a POST, cut inside of a word. -/
theorem parser_refusesForGood_get_post :
    RefusesForGood parser (fun _ => false)
      [ascii "GET /json HT", ascii "TP/1.1\r\n\r\nPOST / HTTP/1.1\r\n\r\n"] := by
  refine (parser_refusesForGood_iff (fun _ => false) _ _ (by decide +kernel)).2 ?_
  -- both requests are finished in the second read, and the second one is refused
  refine ⟨[⟨[], false⟩,
    ⟨[⟨ascii "/json", false, true, [], []⟩, ⟨ascii "/", false, false, [], []⟩], false⟩],
    by decide +kernel, ?_⟩
  have hfirst : ([] : List HttpEvent).find? (fun event => event.EndsRead) = none := rfl
  have hsecond : [HttpEvent.mk (ascii "/json") false true [] [],
      HttpEvent.mk (ascii "/") false false [] []].find? (fun event => event.EndsRead) =
        some ⟨ascii "/", false, false, [], []⟩ := by
    decide +kernel
  rw [List.map_cons, StaysRefused, hfirst, List.map_cons, StaysRefused, hsecond]
  exact Or.inr fun _ hmem => absurd hmem List.not_mem_nil

end Llhttp
end Inspector
end V8JsiRuntime
