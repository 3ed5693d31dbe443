import Mathlib.Data.List.AList
import Mathlib.Data.List.SplitLengths
import V8JsiRuntime.Inspector.Utils

/-!
# HttpHandler — request assembly and the host check

`HttpHandler` collects what the HTTP parser reports piece by piece: fragments of the path, of header
names and of header values, and the end of a message.  A finished message becomes an `HttpEvent`;
the events of one read are served, or refused, when the parser is done with that read.
-/

namespace V8JsiRuntime
namespace Inspector

/-! ## The host check -/

/-- `s.rfind(c)`; `none` is `npos`. -/
def rfind (s : Bytes) (c : UInt8) : Option Nat :=
  (s.reverse.findIdx? (· == c)).map fun i => s.length - 1 - i

def trimPort (host : Bytes) : Bytes :=
  match rfind host 58 with
  | none => host
  | some lastColonPos =>
      match rfind host 93 with
      | none => host.take lastColonPos
      | some bracket => if lastColonPos > bracket then host.take lastColonPos else host

example : trimPort (ascii "localhost:9229") = ascii "localhost" := by decide

/-- The loop of `IsIPAddress` over the characters, with the dots counted so far. -/
def isIPAddressLoop (quads : Nat) : Bytes → Bool
  | [] => quads == 3
  | c :: cs =>
      if c = 46 then
        isIPAddressLoop (quads + 1) cs
      else if 48 ≤ c ∧ c ≤ 57 then
        isIPAddressLoop quads cs
      else
        false

/-- Anything in brackets counts, and so does any word of digits and three dots. -/
def isIPAddress (host : Bytes) : Bool :=
  if host.length ≥ 4 ∧ host.head? = some 91 ∧ host.getLast? = some 93 then
    true
  else
    isIPAddressLoop 0 host

def isAllowedHost (hostWithPort : Bytes) : Bool :=
  let host := trimPort hostWithPort
  host.isEmpty || isIPAddress host || stringEqualNoCase host (ascii "localhost") ||
    stringEqualNoCase host (ascii "localhost6")

/-! ## The handler -/

/-- The fields of an `HttpEvent`. -/
structure HttpEvent where
  path : Bytes
  upgrade : Bool
  isGET : Bool
  wsKey : Bytes
  host : Bytes
  deriving DecidableEq, Repr

/-- The settings callbacks that `llhttp_execute` makes. -/
inductive Callback
  | onPath (fragment : Bytes)
  | onHeaderField (fragment : Bytes)
  | onHeaderValue (fragment : Bytes)
  /-- `upgrade` and `isGET` are what the parser holds at that moment. -/
  | onMessageComplete (upgrade isGET : Bool)
  deriving DecidableEq, Repr

/-- The members of `HttpHandler` besides the parser; `headers` is a `std::map`. -/
structure HttpHandler where
  parsingValue : Bool
  events : List HttpEvent
  currentHeader : Bytes
  headers : AList fun _ : Bytes => Bytes
  path : Bytes

/-- The handler as constructed. -/
def HttpHandler.init : HttpHandler where
  parsingValue := false
  events := []
  currentHeader := []
  headers := ∅
  path := []

/-- The loop of `HeaderValue` over the map; the order of the entries does not matter to it. -/
def headerValueLoop (header : Bytes) (headerFound : Bool) (value : Bytes) :
    List (Sigma fun _ : Bytes => Bytes) → Except Fault Bytes
  | [] => .ok value
  | ⟨name, entry⟩ :: rest => do
      if ← stringEqualNoCaseN name header header.length then
        if headerFound then
          return []
        else
          headerValueLoop header true entry rest
      else
        headerValueLoop header headerFound value rest

namespace HttpHandler

def headerValue (handler : HttpHandler) (header : Bytes) : Except Fault Bytes :=
  headerValueLoop header false [] handler.headers.entries

/-- The callbacks `OnPath`, `OnHeaderField`, `OnHeaderValue` and `OnMessageComplete`. -/
def callback (handler : HttpHandler) : Callback → Except Fault HttpHandler
  | .onPath fragment => .ok { handler with path := handler.path ++ fragment }
  | .onHeaderField fragment =>
      -- a name that follows a value starts a new header
      if handler.parsingValue then
        .ok { handler with parsingValue := false, currentHeader := fragment }
      else
        .ok { handler with currentHeader := handler.currentHeader ++ fragment }
  | .onHeaderValue fragment =>
      let value := (handler.headers.lookup handler.currentHeader).getD []
      .ok { handler with
        parsingValue := true
        headers := handler.headers.insert handler.currentHeader (value ++ fragment) }
  | .onMessageComplete upgrade isGET => do
      let wsKey ← handler.headerValue (ascii "Sec-WebSocket-Key")
      let host ← handler.headerValue (ascii "Host")
      return { init with events := handler.events ++ [⟨handler.path, upgrade, isGET, wsKey, host⟩] }

end HttpHandler

/-- What becomes of an event of a read. -/
inductive Disposition
  | onHttpGet (host path : Bytes)
  | onSocketUpgrade (host path acceptKey : Bytes)
  | cancelHandshake
  /-- The loop had returned before it came to this event. -/
  | dropped
  deriving DecidableEq, Repr

/-- The loop of `HttpHandler::OnData` over the swapped-out events, one disposition per event. -/
def handleEvents : List HttpEvent → List Disposition
  | [] => []
  | event :: events =>
      if !isAllowedHost event.host || !event.isGET then
        .cancelHandshake :: events.map fun _ => .dropped
      else if !event.upgrade then
        .onHttpGet event.host event.path :: handleEvents events
      else if event.wsKey.isEmpty then
        .cancelHandshake :: events.map fun _ => .dropped
      else
        .onSocketUpgrade event.host event.path event.wsKey :: handleEvents events

/-- A read as the parser sees it: the callbacks it makes, and whether it reports an error. -/
structure HttpRead where
  callbacks : List Callback
  isError : Bool

/-- The HTTP parser as `OnData` uses it: what one `llhttp_execute` does, with the call of
`llhttp_resume_after_upgrade` after a pause. -/
structure HttpParser (State : Type) where
  init : State
  execute : State → Bytes → State × HttpRead

/-- What one call of `HttpHandler::OnData` does. -/
structure HttpDataResult where
  handler : HttpHandler
  /-- The answer to a parse error, sent before any event is looked at. -/
  cancelHandshake : Bool
  dispositions : List Disposition

namespace HttpHandler

/-- `HttpHandler::OnData`: a parse error does not keep the finished messages from being served. -/
def onData (handler : HttpHandler) (read : HttpRead) : Except Fault HttpDataResult := do
  let handler ← read.callbacks.foldlM callback handler
  return ⟨{ handler with events := [] }, read.isError, handleEvents handler.events⟩

/-- Successive reads, as long as the connection stays with this handler. -/
def onDataReads (handler : HttpHandler) : List HttpRead → Except Fault (List Disposition)
  | [] => .ok []
  | read :: reads => do
      let result ← handler.onData read
      let rest ← result.handler.onDataReads reads
      return result.dispositions ++ rest

end HttpHandler

/-! ## Header lookup -/

/-- The headers whose name begins with the looked-up one, up to letter case. -/
def matching (fields : List (Bytes × Bytes)) (header : Bytes) : List (Bytes × Bytes) :=
  fields.filter fun field => isPrefixNoCase field.1 header

/-- What a lookup gives in terms of the headers as sent: the values of all matching headers, put
together, if these spell their name in one way, and the empty string otherwise. -/
def headerLookup (fields : List (Bytes × Bytes)) (header : Bytes) : Bytes :=
  if ∀ f ∈ matching fields header, ∀ g ∈ matching fields header, f.1 = g.1 then
    (matching fields header).flatMap Prod.snd
  else
    []

/-- The map after the headers `fields`: each spelling holds its values, put together. -/
def Collects (headers : AList fun _ : Bytes => Bytes) (fields : List (Bytes × Bytes)) : Prop :=
  ∀ name, headers.lookup name =
    if name ∈ fields.map Prod.fst then
      some ((fields.filter fun f => f.1 = name).flatMap Prod.snd)
    else
      none

theorem collects_empty : Collects ∅ [] := by
  intro name
  simp

theorem filter_eq_nil_of_not_mem {fields : List (Bytes × Bytes)} {name : Bytes}
    (h : name ∉ fields.map Prod.fst) : (fields.filter fun f => f.1 = name) = [] := by
  rw [List.filter_eq_nil_iff]
  intro f hf hname
  exact h (List.mem_map.2 ⟨f, hf, by simpa using hname⟩)

theorem Collects.insert {headers : AList fun _ : Bytes => Bytes} {fields : List (Bytes × Bytes)}
    (h : Collects headers fields) (name value : Bytes) :
    Collects (headers.insert name ((headers.lookup name).getD [] ++ value))
      (fields ++ [(name, value)]) := by
  intro other
  by_cases hother : other = name
  · subst hother
    -- an earlier value of this spelling, or the empty string, comes first
    have hold : (headers.lookup other).getD [] =
        (fields.filter fun f => f.1 = other).flatMap Prod.snd := by
      rw [h other]
      split
      · rfl
      · rename_i hnone
        rw [filter_eq_nil_of_not_mem hnone]
        rfl
    rw [AList.lookup_insert, if_pos (by simp), hold]
    simp
  · have hne : ¬ name = other := fun heq => hother heq.symm
    rw [AList.lookup_insert_ne hother, h other]
    simp only [List.map_append, List.map_cons, List.map_nil, List.mem_append, List.mem_singleton,
      hother, or_false, List.filter_append, List.filter_cons, hne, decide_false, List.filter_nil,
      Bool.false_eq_true, if_false, List.append_nil]

theorem Collects.mem_entries_iff {headers : AList fun _ : Bytes => Bytes}
    {fields : List (Bytes × Bytes)} (h : Collects headers fields) (name value : Bytes) :
    (⟨name, value⟩ : Sigma fun _ : Bytes => Bytes) ∈ headers.entries ↔
      name ∈ fields.map Prod.fst ∧
        (fields.filter fun f => f.1 = name).flatMap Prod.snd = value := by
  rw [← AList.mem_lookup_iff, h name]
  split
  · rename_i hsome
    rw [Option.mem_some_iff]
    exact ⟨fun hvalue => ⟨hsome, hvalue⟩, fun hboth => hboth.2⟩
  · rename_i hnone
    exact ⟨fun hmem => absurd hmem (by simp), fun hboth => absurd hboth.1 hnone⟩

theorem headerValueLoop_found (header value : Bytes) (hnul : ∀ c ∈ header, c ≠ 0)
    (entries : List (Sigma fun _ : Bytes => Bytes)) :
    headerValueLoop header true value entries =
      .ok (if entries.filter (fun e => isPrefixNoCase e.1 header) = [] then value else []) := by
  induction entries with
  | nil => simp [headerValueLoop]
  | cons e entries ih =>
      rw [headerValueLoop, stringEqualNoCaseN_eq e.1 header hnul, ok_bind]
      cases hmatch : isPrefixNoCase e.1 header with
      | true => simp [hmatch, pure, Except.pure]
      | false => simp [hmatch, ih]

theorem headerValueLoop_eq (header value : Bytes) (hnul : ∀ c ∈ header, c ≠ 0)
    (entries : List (Sigma fun _ : Bytes => Bytes)) :
    headerValueLoop header false value entries =
      .ok (match entries.filter fun e => isPrefixNoCase e.1 header with
        | [] => value
        | [e] => e.2
        | _ => []) := by
  induction entries with
  | nil => simp [headerValueLoop]
  | cons e entries ih =>
      rw [headerValueLoop, stringEqualNoCaseN_eq e.1 header hnul, ok_bind]
      cases hmatch : isPrefixNoCase e.1 header with
      | true =>
          -- the entry found is kept exactly when no other one matches
          simp only [hmatch, if_true, Bool.false_eq_true, if_false,
            headerValueLoop_found header e.2 hnul, List.filter_cons_of_pos]
          cases entries.filter fun e => isPrefixNoCase e.1 header with
          | nil => rfl
          | cons f rest => rfl
      | false => simp [hmatch, ih]

section Filed

variable {headers : AList fun _ : Bytes => Bytes} {fields : List (Bytes × Bytes)} {header : Bytes}

/-- The entries of the map that a lookup looks at. -/
def filed (headers : AList fun _ : Bytes => Bytes) (header : Bytes) :
    List (Sigma fun _ : Bytes => Bytes) :=
  headers.entries.filter fun e => isPrefixNoCase e.1 header

/-- Every matching header is filed under its own spelling. -/
theorem Collects.mem_filed (h : Collects headers fields) {f : Bytes × Bytes}
    (hf : f ∈ matching fields header) :
    ⟨f.1, (fields.filter fun g => g.1 = f.1).flatMap Prod.snd⟩ ∈ filed headers header := by
  obtain ⟨hfield, hmatch⟩ := List.mem_filter.1 hf
  exact List.mem_filter.2
    ⟨(h.mem_entries_iff _ _).2 ⟨List.mem_map.2 ⟨f, hfield, rfl⟩, rfl⟩, hmatch⟩

/-- What is filed was sent. -/
theorem Collects.of_mem_filed (h : Collects headers fields) {e : Sigma fun _ : Bytes => Bytes}
    (he : e ∈ filed headers header) : (∃ f ∈ matching fields header, f.1 = e.1) ∧
      (fields.filter fun g => g.1 = e.1).flatMap Prod.snd = e.2 := by
  obtain ⟨hmem, hmatch⟩ := List.mem_filter.1 he
  obtain ⟨hname, hvalue⟩ := (h.mem_entries_iff e.1 e.2).1 hmem
  obtain ⟨f, hf, hfname⟩ := List.mem_map.1 hname
  refine ⟨⟨f, List.mem_filter.2 ⟨hf, ?_⟩, hfname⟩, hvalue⟩
  rw [hfname]
  exact hmatch

theorem Collects.lookup_of_filed_nil (h : Collects headers fields)
    (hfiled : filed headers header = []) : headerLookup fields header = [] := by
  have hnone : matching fields header = [] := by
    rw [List.eq_nil_iff_forall_not_mem]
    intro f hf
    have hmem := h.mem_filed hf
    rw [hfiled] at hmem
    cases hmem
  simp [headerLookup, hnone]

theorem Collects.lookup_of_filed_singleton (h : Collects headers fields)
    {e : Sigma fun _ : Bytes => Bytes} (hfiled : filed headers header = [e]) :
    headerLookup fields header = e.2 := by
  obtain ⟨⟨f, hf, hname⟩, hvalue⟩ := h.of_mem_filed (hfiled ▸ List.mem_singleton_self e)
  have hsame : ∀ g ∈ matching fields header, g.1 = e.1 := by
    intro g hg
    have hmem := h.mem_filed hg
    rw [hfiled, List.mem_singleton] at hmem
    rw [← hmem]
  have hall : ∀ g ∈ matching fields header, ∀ g' ∈ matching fields header, g.1 = g'.1 := by
    intro g hg g' hg'
    rw [hsame g hg, hsame g' hg']
  rw [headerLookup, if_pos hall, ← hvalue]
  congr 1
  apply List.filter_congr
  intro g hg
  rw [Bool.eq_iff_iff, decide_eq_true_iff]
  constructor
  · exact fun hmatch => hsame g (List.mem_filter.2 ⟨hg, hmatch⟩)
  · intro heq
    rw [heq, ← hname]
    exact (List.mem_filter.1 hf).2

/-- Two entries are two spellings, because the keys of the map are distinct. -/
theorem Collects.lookup_of_filed_two (h : Collects headers fields)
    {e e' : Sigma fun _ : Bytes => Bytes} {rest : List (Sigma fun _ : Bytes => Bytes)}
    (hfiled : filed headers header = e :: e' :: rest) : headerLookup fields header = [] := by
  rw [headerLookup, if_neg]
  intro hall
  have hkeys : ((filed headers header).map Sigma.fst).Nodup :=
    headers.nodupKeys.sublist List.filter_sublist
  have hmem : e ∈ filed headers header := by simp [hfiled]
  have hmem' : e' ∈ filed headers header := by simp [hfiled]
  obtain ⟨⟨f, hf, hname⟩, _⟩ := h.of_mem_filed hmem
  obtain ⟨⟨f', hf', hname'⟩, _⟩ := h.of_mem_filed hmem'
  have heq : e.1 = e'.1 := by
    rw [← hname, ← hname', hall f hf f' hf']
  simp [hfiled, heq] at hkeys

end Filed

/-- The code's lookup in the map, in terms of the headers as sent. -/
theorem HttpHandler.headerValue_eq {handler : HttpHandler} {fields : List (Bytes × Bytes)}
    (h : Collects handler.headers fields) (header : Bytes) (hnul : ∀ c ∈ header, c ≠ 0) :
    handler.headerValue header = .ok (headerLookup fields header) := by
  rw [headerValue, headerValueLoop_eq header [] hnul, ← filed]
  cases hfiled : filed handler.headers header with
  | nil => rw [h.lookup_of_filed_nil hfiled]
  | cons e rest =>
      cases rest with
      | nil => rw [h.lookup_of_filed_singleton hfiled]
      | cons e' rest => rw [h.lookup_of_filed_two hfiled]

/-! ## Requests on the connection -/

/-- A header as the parser reports it: at least one callback for the name and one for the value. -/
structure HeaderLine where
  name : List Bytes
  value : List Bytes
  name_ne_nil : name ≠ []
  value_ne_nil : value ≠ []

/-- A request, in the pieces in which the parser reports it. -/
structure Request where
  url : List Bytes
  headers : List HeaderLine
  upgrade : Bool
  isGET : Bool

def HeaderLine.callbacks (line : HeaderLine) : List Callback :=
  line.name.map .onHeaderField ++ line.value.map .onHeaderValue

def HeaderLine.field (line : HeaderLine) : Bytes × Bytes :=
  (line.name.flatten, line.value.flatten)

namespace Request

def callbacks (request : Request) : List Callback :=
  request.url.map .onPath ++ request.headers.flatMap HeaderLine.callbacks ++
    [.onMessageComplete request.upgrade request.isGET]

/-- The headers of the request as pairs of name and value. -/
def fields (request : Request) : List (Bytes × Bytes) :=
  request.headers.map HeaderLine.field

/-- The event that the handler makes of the request. -/
def event (request : Request) : HttpEvent where
  path := request.url.flatten
  upgrade := request.upgrade
  isGET := request.isGET
  wsKey := headerLookup request.fields (ascii "Sec-WebSocket-Key")
  host := headerLookup request.fields (ascii "Host")

end Request

namespace HttpHandler

/-- A request of the run has just ended, or none has begun. -/
def idle (events : List HttpEvent) : HttpHandler :=
  { init with events := events }

theorem foldlM_onPath (fragments : List Bytes) (handler : HttpHandler) :
    (fragments.map Callback.onPath).foldlM callback handler =
      .ok { handler with path := handler.path ++ fragments.flatten } := by
  induction fragments generalizing handler with
  | nil => simp [pure, Except.pure]
  | cons fragment fragments ih => simp [callback, ih]

theorem foldlM_onHeaderField_more (fragments : List Bytes) (handler : HttpHandler)
    (hname : handler.parsingValue = false) :
    (fragments.map Callback.onHeaderField).foldlM callback handler =
      .ok { handler with currentHeader := handler.currentHeader ++ fragments.flatten } := by
  induction fragments generalizing handler with
  | nil => simp [pure, Except.pure]
  | cons fragment fragments ih => simp [callback, hname, ih]

/-- The name of a header, from the end of a value or the start of a request. -/
theorem foldlM_onHeaderField {fragments : List Bytes} (hne : fragments ≠ [])
    (handler : HttpHandler) (hready : handler.parsingValue = true ∨ handler.currentHeader = []) :
    (fragments.map Callback.onHeaderField).foldlM callback handler =
      .ok { handler with parsingValue := false, currentHeader := fragments.flatten } := by
  cases fragments with
  | nil => exact absurd rfl hne
  | cons fragment fragments =>
      cases hvalue : handler.parsingValue with
      | true => simp [callback, hvalue, foldlM_onHeaderField_more]
      | false =>
          have hempty : handler.currentHeader = [] := by
            simpa [hvalue] using hready
          simp [callback, hvalue, hempty, foldlM_onHeaderField_more]

theorem foldlM_onHeaderValue {fragments : List Bytes} (hne : fragments ≠ [])
    (handler : HttpHandler) :
    (fragments.map Callback.onHeaderValue).foldlM callback handler =
      .ok { handler with
        parsingValue := true
        headers := handler.headers.insert handler.currentHeader
          ((handler.headers.lookup handler.currentHeader).getD [] ++ fragments.flatten) } := by
  induction fragments generalizing handler with
  | nil => exact absurd rfl hne
  | cons fragment fragments ih =>
      rw [List.map_cons, List.foldlM_cons, callback, ok_bind]
      cases hrest : fragments with
      | nil => simp [pure, Except.pure]
      | cons next rest =>
          -- the next fragment is appended to what the last one filed
          rw [← hrest, ih (by simp [hrest])]
          simp [AList.lookup_insert, AList.insert_insert]

theorem foldlM_headerLine (line : HeaderLine) (handler : HttpHandler)
    (hready : handler.parsingValue = true ∨ handler.currentHeader = []) :
    line.callbacks.foldlM callback handler =
      .ok { handler with
        parsingValue := true
        currentHeader := line.field.1
        headers := handler.headers.insert line.field.1
          ((handler.headers.lookup line.field.1).getD [] ++ line.field.2) } := by
  rw [HeaderLine.callbacks, List.foldlM_append, foldlM_onHeaderField line.name_ne_nil handler hready,
    ok_bind, foldlM_onHeaderValue line.value_ne_nil]
  rfl

/-- All headers of a request are collected. -/
theorem foldlM_headers (lines : List HeaderLine) (handler : HttpHandler)
    (fields : List (Bytes × Bytes))
    (hready : handler.parsingValue = true ∨ handler.currentHeader = [])
    (hfields : Collects handler.headers fields) :
    ∃ handler', (lines.flatMap HeaderLine.callbacks).foldlM callback handler = .ok handler' ∧
      handler'.path = handler.path ∧ handler'.events = handler.events ∧
        Collects handler'.headers (fields ++ lines.map HeaderLine.field) := by
  induction lines generalizing handler fields with
  | nil => exact ⟨handler, rfl, rfl, rfl, by simpa using hfields⟩
  | cons line lines ih =>
      have hline := foldlM_headerLine line handler hready
      obtain ⟨handler', hrun, hpath, hevents, hcollects⟩ := ih
        { handler with
          parsingValue := true
          currentHeader := line.field.1
          headers := handler.headers.insert line.field.1
            ((handler.headers.lookup line.field.1).getD [] ++ line.field.2) }
        (fields ++ [line.field]) (Or.inl rfl) (hfields.insert line.field.1 line.field.2)
      refine ⟨handler', ?_, hpath, hevents, by simpa using hcollects⟩
      rw [List.flatMap_cons, List.foldlM_append, hline, ok_bind]
      exact hrun

/-- A request becomes its event, and the handler is idle again. -/
theorem foldlM_request (request : Request) (events : List HttpEvent) :
    request.callbacks.foldlM callback (idle events) = .ok (idle (events ++ [request.event])) := by
  rw [Request.callbacks, List.foldlM_append, List.foldlM_append, foldlM_onPath, ok_bind]
  obtain ⟨handler', hrun, hpath, hevents, hcollects⟩ := foldlM_headers request.headers
    { idle events with path := (idle events).path ++ request.url.flatten } [] (Or.inr rfl)
    collects_empty
  rw [hrun, ok_bind, List.foldlM_cons, callback,
    headerValue_eq hcollects (ascii "Sec-WebSocket-Key") (by decide +kernel),
    headerValue_eq hcollects (ascii "Host") (by decide +kernel), hpath, hevents]
  rfl

theorem foldlM_requests (requests : List Request) (events : List HttpEvent) :
    (requests.flatMap Request.callbacks).foldlM callback (idle events) =
      .ok (idle (events ++ requests.map Request.event)) := by
  induction requests generalizing events with
  | nil => simp [pure, Except.pure]
  | cons request requests ih =>
      rw [List.flatMap_cons, List.foldlM_append, foldlM_request, ok_bind, ih]
      simp

end HttpHandler

end Inspector
end V8JsiRuntime
