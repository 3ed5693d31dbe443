import V8JsiRuntime.Inspector.HttpHandler

/-!
# HostGate — which requests get past the host check

The callbacks of a list of requests are cut into reads in any way; the requests finished in one read
are looked at together.  `onDataReads_gate_iff` says for which requests none with a refused `Host`
header is served.
-/

namespace V8JsiRuntime
namespace Inspector

namespace HttpHandler

/-! ## One read at a time -/

/-- The lookup in the map never leaves a string. -/
theorem headerValue_ok (handler : HttpHandler) (header : Bytes) (hnul : ∀ c ∈ header, c ≠ 0) :
    ∃ value, handler.headerValue header = .ok value :=
  ⟨_, headerValueLoop_eq header [] hnul handler.headers.entries⟩

/-- The messages that a callback finishes. -/
def completed : Callback → Nat
  | .onMessageComplete _ _ => 1
  | _ => 0

/-- The messages finished in a read. -/
def completions (read : HttpRead) : Nat :=
  (read.callbacks.map completed).sum

/-- Callbacks only add to the events, whatever events are waiting. -/
theorem callback_events (handler : HttpHandler) (c : Callback) :
    ∃ (handler' : HttpHandler) (new : List HttpEvent), new.length = completed c ∧
      ∀ events, callback { handler with events := events } c =
        .ok { handler' with events := events ++ new } := by
  cases c with
  | onPath fragment =>
      exact ⟨{ handler with path := handler.path ++ fragment }, [], rfl, fun events => by
        simp [callback]⟩
  | onHeaderField fragment =>
      cases hvalue : handler.parsingValue with
      | true =>
          exact ⟨{ handler with parsingValue := false, currentHeader := fragment }, [], rfl,
            fun events => by simp [callback]⟩
      | false =>
          exact ⟨{ handler with currentHeader := handler.currentHeader ++ fragment }, [], rfl,
            fun events => by simp [callback, hvalue]⟩
  | onHeaderValue fragment =>
      refine ⟨{ handler with
        parsingValue := true
        headers := handler.headers.insert handler.currentHeader
          ((handler.headers.lookup handler.currentHeader).getD [] ++ fragment) }, [], rfl, ?_⟩
      intro events
      simp [callback]
  | onMessageComplete upgrade isGET =>
      -- the only callback that adds an event; the lookups do not depend on those waiting
      obtain ⟨wsKey, hkey⟩ := handler.headerValue_ok (ascii "Sec-WebSocket-Key") (by decide +kernel)
      obtain ⟨host, hhost⟩ := handler.headerValue_ok (ascii "Host") (by decide +kernel)
      refine ⟨init, [⟨handler.path, upgrade, isGET, wsKey, host⟩], rfl, ?_⟩
      intro events
      have hkey' : headerValue { handler with events := events } (ascii "Sec-WebSocket-Key") =
          .ok wsKey := hkey
      have hhost' : headerValue { handler with events := events } (ascii "Host") = .ok host := hhost
      rw [callback, hkey', ok_bind, hhost', ok_bind]
      rfl

theorem foldlM_events (callbacks : List Callback) (handler : HttpHandler) :
    ∃ (handler' : HttpHandler) (new : List HttpEvent), new.length = (callbacks.map completed).sum ∧
      ∀ events, callbacks.foldlM callback { handler with events := events } =
        .ok { handler' with events := events ++ new } := by
  induction callbacks generalizing handler with
  | nil => exact ⟨handler, [], rfl, fun events => by simp [pure, Except.pure]⟩
  | cons c callbacks ih =>
      obtain ⟨handler₁, new₁, hlen₁, hstep⟩ := callback_events handler c
      obtain ⟨handler₂, new₂, hlen₂, hrest⟩ := ih handler₁
      refine ⟨handler₂, new₁ ++ new₂, by simp [hlen₁, hlen₂], ?_⟩
      intro events
      rw [List.foldlM_cons, hstep, ok_bind, hrest, List.append_assoc]

/-- The reads of a connection handle the events of the whole stream, read by read. -/
theorem onDataReads_eq (reads : List HttpRead) (handler : HttpHandler) :
    ∃ (handler' : HttpHandler) (new : List HttpEvent),
      new.length = (reads.map completions).sum ∧
        (∀ events, (reads.flatMap HttpRead.callbacks).foldlM callback
          { handler with events := events } = .ok { handler' with events := events ++ new }) ∧
        onDataReads { handler with events := [] } reads =
          .ok (((reads.map completions).splitLengths new).flatMap handleEvents) := by
  induction reads generalizing handler with
  | nil => exact ⟨handler, [], rfl, fun events => by simp [pure, Except.pure], rfl⟩
  | cons read reads ih =>
      obtain ⟨handler₁, new₁, hlen₁, hread⟩ := foldlM_events read.callbacks handler
      obtain ⟨handler₂, new₂, hlen₂, hrest, hreads⟩ := ih handler₁
      refine ⟨handler₂, new₁ ++ new₂, ?_, ?_, ?_⟩
      · simp [completions, hlen₁, hlen₂]
      · intro events
        rw [List.flatMap_cons, List.foldlM_append, hread, ok_bind, hrest, List.append_assoc]
      · -- the events of this read are the first ones, and the loop clears them
        have htake : (new₁ ++ new₂).take (completions read) = new₁ := by
          rw [completions, ← hlen₁, List.take_left]
        have hdrop : (new₁ ++ new₂).drop (completions read) = new₂ := by
          rw [completions, ← hlen₁, List.drop_left]
        rw [onDataReads, onData, hread, ok_bind]
        simp only [pure, Except.pure, ok_bind, hreads, List.map_cons, List.splitLengths_cons, htake,
          hdrop, List.flatMap_cons, List.nil_append]

end HttpHandler

/-! ## Requests with a refused host -/

namespace Request

/-- The request carries a non-empty `Host` header, in any letter case, that `IsAllowedHost`
rejects. -/
def HasRefusedHost (request : Request) : Prop :=
  ∃ field ∈ request.fields, field.1.map toLower = ascii "host" ∧ field.2 ≠ [] ∧
    isAllowedHost field.2 = false

/-- The headers of the request themselves make the handler refuse it. -/
def IsRefused (request : Request) : Prop :=
  isAllowedHost (headerLookup request.fields (ascii "Host")) = false ∨ request.isGET = false ∨
    (request.upgrade = true ∧ headerLookup request.fields (ascii "Sec-WebSocket-Key") = [])

instance (request : Request) : Decidable request.HasRefusedHost :=
  inferInstanceAs (Decidable (∃ field ∈ request.fields, _))

instance (request : Request) : Decidable request.IsRefused :=
  inferInstanceAs (Decidable (_ ∨ _ ∨ _))

end Request

/-- The request reached `delegate()->OnHttpGet` or `delegate()->OnSocketUpgrade`. -/
def Disposition.Served : Disposition → Prop
  | .onHttpGet _ _ => True
  | .onSocketUpgrade _ _ _ => True
  | .cancelHandshake => False
  | .dropped => False

/-- No request with a refused host is served. -/
def GateHolds (requests : List Request) (dispositions : List Disposition) : Prop :=
  ∀ request disposition, (request, disposition) ∈ requests.zip dispositions →
    request.HasRefusedHost → ¬ disposition.Served

/-- In a batch of requests finished in one read, every request with a refused host is refused by its
own headers or comes after a request that is. -/
def RefusedInTime (batch : List Request) : Prop :=
  ∀ before request after, batch = before ++ request :: after → request.HasRefusedHost →
    ∃ refused ∈ before ++ [request], refused.IsRefused

@[simp] theorem length_handleEvents (events : List HttpEvent) :
    (handleEvents events).length = events.length := by
  induction events with
  | nil => rfl
  | cons event events ih =>
      unfold handleEvents
      split
      · simp
      · split
        · simp [ih]
        · split
          · simp
          · simp [ih]

/-- The loop refuses the event: a host, a method or an upgrade that it does not take. -/
def HttpEvent.IsRefused (event : HttpEvent) : Prop :=
  isAllowedHost event.host = false ∨ event.isGET = false ∨ (event.upgrade = true ∧ event.wsKey = [])

instance (event : HttpEvent) : Decidable event.IsRefused :=
  inferInstanceAs (Decidable (_ ∨ _ ∨ _))

/-- What the loop makes of an event that it does not refuse. -/
def HttpEvent.served (event : HttpEvent) : Disposition :=
  if event.upgrade then
    .onSocketUpgrade event.host event.path event.wsKey
  else
    .onHttpGet event.host event.path

theorem HttpEvent.served_served (event : HttpEvent) : event.served.Served := by
  unfold HttpEvent.served
  split
  · trivial
  · trivial

/-- A refused event ends the loop. -/
theorem handleEvents_of_isRefused {event : HttpEvent} (h : event.IsRefused) (rest : List HttpEvent) :
    handleEvents (event :: rest) = .cancelHandshake :: rest.map fun _ => .dropped := by
  rcases h with hhost | hget | ⟨hupgrade, hkey⟩
  · simp [handleEvents, hhost]
  · simp [handleEvents, hget]
  · by_cases hfirst : (!isAllowedHost event.host || !event.isGET) = true
    · rw [handleEvents, if_pos hfirst]
    · have hempty : event.wsKey.isEmpty = true := by
        simp [hkey]
      rw [handleEvents, if_neg hfirst, if_neg (by simp [hupgrade]), if_pos hempty]

/-- Any other event is served. -/
theorem handleEvents_of_not_isRefused {event : HttpEvent} (h : ¬ event.IsRefused)
    (rest : List HttpEvent) : handleEvents (event :: rest) = event.served :: handleEvents rest := by
  simp only [HttpEvent.IsRefused, not_or, not_and, Bool.not_eq_false] at h
  obtain ⟨hhost, hget, hkey⟩ := h
  cases hupgrade : event.upgrade with
  | false => simp [handleEvents, HttpEvent.served, hhost, hget, hupgrade]
  | true => simp [handleEvents, HttpEvent.served, hhost, hget, hupgrade, hkey hupgrade]

theorem gateHolds_cons (request : Request) (requests : List Request) (disposition : Disposition)
    (dispositions : List Disposition) :
    GateHolds (request :: requests) (disposition :: dispositions) ↔
      (request.HasRefusedHost → ¬ disposition.Served) ∧ GateHolds requests dispositions := by
  simp only [GateHolds, List.zip_cons_cons, List.mem_cons, Prod.mk.injEq]
  constructor
  · intro h
    exact ⟨h request disposition (Or.inl ⟨rfl, rfl⟩), fun r d hmem => h r d (Or.inr hmem)⟩
  · rintro ⟨hhead, htail⟩ r d (⟨rfl, rfl⟩ | hmem)
    · exact hhead
    · exact htail r d hmem

theorem gateHolds_append {requests requests' : List Request}
    {dispositions dispositions' : List Disposition} (hlen : requests.length = dispositions.length) :
    GateHolds (requests ++ requests') (dispositions ++ dispositions') ↔
      GateHolds requests dispositions ∧ GateHolds requests' dispositions' := by
  simp only [GateHolds, List.zip_append hlen, List.mem_append]
  constructor
  · intro h
    exact ⟨fun r d hmem => h r d (Or.inl hmem), fun r d hmem => h r d (Or.inr hmem)⟩
  · rintro ⟨hleft, hright⟩ r d (hmem | hmem)
    · exact hleft r d hmem
    · exact hright r d hmem

/-- Nothing behind a refused request is served. -/
theorem gateHolds_dropped (requests : List Request) (events : List HttpEvent) :
    GateHolds requests (events.map fun _ => .dropped) := by
  intro request disposition hmem _
  obtain ⟨_, _, rfl⟩ := List.mem_map.1 (List.of_mem_zip hmem).2
  exact id

theorem refusedInTime_cons_of_isRefused {request : Request} (h : request.IsRefused)
    (rest : List Request) : RefusedInTime (request :: rest) := by
  intro before r after hbatch _
  cases before with
  | nil =>
      obtain ⟨rfl, _⟩ := List.cons.inj hbatch
      exact ⟨request, by simp, h⟩
  | cons first before =>
      obtain ⟨rfl, _⟩ := List.cons.inj hbatch
      exact ⟨request, by simp, h⟩

theorem refusedInTime_cons_of_not_isRefused {request : Request} (h : ¬ request.IsRefused)
    (rest : List Request) :
    RefusedInTime (request :: rest) ↔ ¬ request.HasRefusedHost ∧ RefusedInTime rest := by
  constructor
  · intro hall
    constructor
    · intro hhost
      obtain ⟨refused, hmem, hrefused⟩ := hall [] request rest rfl hhost
      obtain rfl : refused = request := by simpa using hmem
      exact h hrefused
    · intro before r after hbatch hhost
      obtain ⟨refused, hmem, hrefused⟩ :=
        hall (request :: before) r after (by rw [hbatch, List.cons_append]) hhost
      rcases List.mem_cons.1 hmem with rfl | hmem
      · exact absurd hrefused h
      · exact ⟨refused, hmem, hrefused⟩
  · rintro ⟨hhost, hrest⟩ before r after hbatch hr
    cases before with
    | nil =>
        obtain ⟨rfl, _⟩ := List.cons.inj hbatch
        exact absurd hr hhost
    | cons first before =>
        obtain ⟨rfl, hrestEq⟩ := List.cons.inj hbatch
        obtain ⟨refused, hmem, hrefused⟩ := hrest before r after hrestEq hr
        exact ⟨refused, List.mem_cons_of_mem _ hmem, hrefused⟩

/-- One batch: the gate holds exactly if every refused host is refused in time. -/
theorem handleEvents_gate_iff (batch : List Request) :
    GateHolds batch (handleEvents (batch.map Request.event)) ↔ RefusedInTime batch := by
  induction batch with
  | nil => simp [GateHolds, RefusedInTime]
  | cons request rest ih =>
      rw [List.map_cons]
      -- a refused request settles the batch; any other one is served, so that its host matters
      by_cases hrefused : request.IsRefused
      · have hevent : request.event.IsRefused := hrefused
        rw [handleEvents_of_isRefused hevent, gateHolds_cons]
        exact ⟨fun _ => refusedInTime_cons_of_isRefused hrefused rest,
          fun _ => ⟨fun _ => id, gateHolds_dropped rest _⟩⟩
      · have hevent : ¬ request.event.IsRefused := hrefused
        rw [handleEvents_of_not_isRefused hevent, gateHolds_cons, ih,
          refusedInTime_cons_of_not_isRefused hrefused]
        simp [request.event.served_served]

theorem handleEvents_gate_batches (batches : List (List Request)) :
    GateHolds batches.flatten (batches.flatMap fun batch => handleEvents (batch.map Request.event)) ↔
      ∀ batch ∈ batches, RefusedInTime batch := by
  induction batches with
  | nil => simp [GateHolds]
  | cons batch batches ih =>
      rw [List.flatten_cons, List.flatMap_cons, gateHolds_append (by simp), handleEvents_gate_iff, ih,
        List.forall_mem_cons]

/-! ## The gate over a connection -/

/-- The requests of the connection by the read that finishes them. -/
def batches (requests : List Request) (reads : List HttpRead) : List (List Request) :=
  (reads.map HttpHandler.completions).splitLengths requests

theorem splitLengths_map {α β : Type} (f : α → β) (sizes : List Nat) (l : List α) :
    sizes.splitLengths (l.map f) = (sizes.splitLengths l).map (List.map f) := by
  induction sizes generalizing l with
  | nil => rfl
  | cons size sizes ih =>
      simp only [List.splitLengths_cons, List.map_cons, ← List.map_take, ← List.map_drop, ih]

/-- The reads of a connection serve or refuse its requests batch by batch. -/
theorem onDataReads_requests {requests : List Request} {tail : List Callback}
    {reads : List HttpRead} (htail : ∀ c ∈ tail, HttpHandler.completed c = 0)
    (hstream : reads.flatMap HttpRead.callbacks = requests.flatMap Request.callbacks ++ tail) :
    HttpHandler.init.onDataReads reads = .ok ((batches requests reads).flatMap fun batch =>
        handleEvents (batch.map Request.event)) ∧
      (batches requests reads).flatten = requests := by
  obtain ⟨handler', new, hlen, hfold, hreads⟩ := HttpHandler.onDataReads_eq reads .init
  -- the unfinished request at the end adds no event
  obtain ⟨handler₂, new₂, hlen₂, hfold₂⟩ := HttpHandler.foldlM_events tail .init
  have hnone : new₂ = [] := by
    rw [← List.length_eq_zero_iff, hlen₂, List.sum_eq_zero_iff_forall_eq_nat]
    intro n hn
    obtain ⟨c, hc, rfl⟩ := List.mem_map.1 hn
    exact htail c hc
  have hall := hfold []
  rw [hstream, List.foldlM_append] at hall
  have hrequests : (requests.flatMap Request.callbacks).foldlM HttpHandler.callback
      { HttpHandler.init with events := [] } = .ok (.idle (requests.map Request.event)) :=
    HttpHandler.foldlM_requests requests []
  rw [hrequests, ok_bind] at hall
  have hlast := hfold₂ (requests.map Request.event)
  -- the handler runs over the same callbacks either way, so the events agree
  have hnew : new = requests.map Request.event := by
    have hevents := congrArg HttpHandler.events (Except.ok.inj (hall.symm.trans hlast))
    simpa [hnone] using hevents
  constructor
  · have hinit : { HttpHandler.init with events := [] } = HttpHandler.init := rfl
    rw [hinit, hnew, splitLengths_map, List.flatMap_map] at hreads
    exact hreads
  · apply List.flatten_splitLengths
    rw [← hlen, hnew, List.length_map]

/-- Over all requests and all ways of cutting their callbacks into reads, no request with a refused
host is served exactly if in every read each of them is refused in time. -/
theorem onDataReads_gate_iff (requests : List Request) (tail : List Callback)
    (reads : List HttpRead) (htail : ∀ c ∈ tail, HttpHandler.completed c = 0)
    (hstream : reads.flatMap HttpRead.callbacks = requests.flatMap Request.callbacks ++ tail) :
    (∃ dispositions, HttpHandler.init.onDataReads reads = .ok dispositions ∧
        GateHolds requests dispositions) ↔
      ∀ batch ∈ batches requests reads, RefusedInTime batch := by
  obtain ⟨hrun, hflat⟩ := onDataReads_requests htail hstream
  have hgate := handleEvents_gate_batches (batches requests reads)
  rw [hflat] at hgate
  rw [← hgate, hrun]
  constructor
  · rintro ⟨dispositions, hok, hholds⟩
    rw [Except.ok.inj hok]
    exact hholds
  · intro hholds
    exact ⟨_, rfl, hholds⟩

/-- A plain GET request for `/json` with the given headers. -/
def jsonRequest (headers : List HeaderLine) : Request where
  url := [ascii "/json"]
  headers := headers
  upgrade := false
  isGET := true

def evilHost : HeaderLine :=
  ⟨[ascii "Host"], [ascii "evil.com"], by decide, by decide⟩

def otherHeader : HeaderLine :=
  ⟨[ascii "Host2"], [ascii "x"], by decide, by decide⟩

/-- With `Host: evil.com` alone, cut into two reads, the request is refused. -/
theorem onDataReads_gate_evil :
    ∃ dispositions, HttpHandler.init.onDataReads
        [⟨[.onPath (ascii "/json"), .onHeaderField (ascii "Host")], false⟩,
          ⟨[.onHeaderValue (ascii "evil.com"), .onMessageComplete false true], false⟩] =
          .ok dispositions ∧
        GateHolds [jsonRequest [evilHost]] dispositions := by
  refine (onDataReads_gate_iff [jsonRequest [evilHost]] [] _ (by simp) rfl).2 ?_
  intro batch hbatch before request after hsplit _
  have hmem : request ∈ batch := by
    simp [hsplit]
  have hflat := List.mem_flatten.2 ⟨batch, hbatch, hmem⟩
  have htail : ∀ c ∈ ([] : List Callback), HttpHandler.completed c = 0 := nofun
  rw [(onDataReads_requests htail rfl).2, List.mem_singleton] at hflat
  exact ⟨request, by simp, by rw [hflat]; decide⟩

/-- A second header `Host2` makes the lookup of `Host` ambiguous, hence empty, hence allowed: the
request is served in spite of `Host: evil.com`. -/
theorem onDataReads_serves_evil :
    ¬ ∀ (requests : List Request) (tail : List Callback) (reads : List HttpRead),
      (∀ c ∈ tail, HttpHandler.completed c = 0) →
        reads.flatMap HttpRead.callbacks = requests.flatMap Request.callbacks ++ tail →
          ∃ dispositions, HttpHandler.init.onDataReads reads = .ok dispositions ∧
            GateHolds requests dispositions := by
  intro h
  obtain ⟨dispositions, hrun, hgate⟩ := h [jsonRequest [evilHost, otherHeader]] []
    [⟨(jsonRequest [evilHost, otherHeader]).callbacks, false⟩] (by simp) (by simp)
  have hserved : HttpHandler.init.onDataReads
      [⟨(jsonRequest [evilHost, otherHeader]).callbacks, false⟩] =
        .ok [.onHttpGet [] (ascii "/json")] := by
    decide
  obtain rfl := Except.ok.inj (hserved.symm.trans hrun)
  exact hgate _ _ (List.mem_singleton.2 rfl) (by decide) trivial

end Inspector
end V8JsiRuntime
