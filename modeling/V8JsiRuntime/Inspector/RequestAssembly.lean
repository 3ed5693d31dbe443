import V8JsiRuntime.Inspector.HostGate

/-!
# RequestAssembly — what the handler holds when a message is complete

A request is cut into fragments by the parser and into reads by the connection.  When its
`OnMessageComplete` comes, the handler holds the path and the headers of that request and nothing of
the ones before, of which only their events are left.
-/

namespace V8JsiRuntime
namespace Inspector

/-- The callbacks for a request before its `OnMessageComplete`. -/
def Request.pieces (request : Request) : List Callback :=
  request.url.map .onPath ++ request.headers.flatMap HeaderLine.callbacks

namespace HttpHandler

/-- The handler after a read. -/
def afterRead (handler : HttpHandler) (read : HttpRead) : Except Fault HttpHandler := do
  let result ← handler.onData read
  return result.handler

/-- The handler in the middle of a read, with the callbacks that the parser has made in it. -/
def duringRead (reads : List HttpRead) (current : List Callback) : Except Fault HttpHandler := do
  let handler ← reads.foldlM afterRead init
  current.foldlM callback handler

/-- Between two reads only the events are cleared. -/
theorem foldlM_afterRead (reads : List HttpRead) (handler : HttpHandler) :
    ∃ (handler' : HttpHandler) (new : List HttpEvent),
      new.length = (reads.map completions).sum ∧
        (∀ events, (reads.flatMap HttpRead.callbacks).foldlM callback
          { handler with events := events } = .ok { handler' with events := events ++ new }) ∧
        reads.foldlM afterRead { handler with events := [] } =
          .ok { handler' with events := [] } := by
  induction reads generalizing handler with
  | nil => exact ⟨handler, [], rfl, fun events => by simp [pure, Except.pure], rfl⟩
  -- the events of the first read are taken away before the second one
  | cons read reads ih =>
      obtain ⟨handler₁, new₁, hlen₁, hread⟩ := foldlM_events read.callbacks handler
      obtain ⟨handler₂, new₂, hlen₂, hrest, hreads⟩ := ih handler₁
      refine ⟨handler₂, new₁ ++ new₂, by simp [completions, hlen₁, hlen₂], ?_, ?_⟩
      · intro events
        rw [List.flatMap_cons, List.foldlM_append, hread, ok_bind, hrest, List.append_assoc]
      · have hafter : afterRead { handler with events := [] } read =
            .ok { handler₁ with events := [] } := by
          rw [afterRead, onData, hread]
          rfl
        rw [List.foldlM_cons, hafter, ok_bind, hreads]

/-- Cutting the callbacks into reads changes the events that are waiting, and nothing else. -/
theorem duringRead_eq (reads : List HttpRead) (current : List Callback) :
    ∃ (handler : HttpHandler) (events : List HttpEvent),
      (reads.flatMap HttpRead.callbacks ++ current).foldlM callback init =
        .ok { handler with events := events } ∧
      duringRead reads current =
        .ok { handler with events := events.drop (reads.map completions).sum } := by
  obtain ⟨handler₁, new₁, hlen₁, hreads, hafter⟩ := foldlM_afterRead reads init
  obtain ⟨handler₂, new₂, _, hcurrent⟩ := foldlM_events current handler₁
  refine ⟨handler₂, new₁ ++ new₂, ?_, ?_⟩
  · have hflat : (reads.flatMap HttpRead.callbacks).foldlM callback init =
        .ok { handler₁ with events := new₁ } := hreads []
    rw [List.foldlM_append, hflat, ok_bind, hcurrent]
  · have hdrop : (new₁ ++ new₂).drop (reads.map completions).sum = new₂ := by
      rw [← hlen₁, List.drop_left]
    have hinit : init = { init with events := [] } := rfl
    rw [hdrop, duringRead, hinit, hafter, ok_bind, hcurrent, List.nil_append]

/-- When the pieces of a request have come in, the handler holds them and nothing else. -/
theorem foldlM_pieces (before : List Request) (request : Request) :
    ∃ handler,
      (before.flatMap Request.callbacks ++ request.pieces).foldlM callback init = .ok handler ∧
        handler.path = request.url.flatten ∧ Collects handler.headers request.fields ∧
          handler.events = before.map Request.event := by
  -- the requests before leave the handler idle, with their events
  have hbefore := foldlM_requests before []
  rw [List.nil_append] at hbefore
  obtain ⟨handler, hrun, hpath, hevents, hcollects⟩ := foldlM_headers request.headers
    { idle (before.map Request.event) with
      path := (idle (before.map Request.event)).path ++ request.url.flatten } [] (Or.inr rfl)
    collects_empty
  refine ⟨handler, ?_, hpath, hcollects, hevents⟩
  have hinit : init = idle [] := rfl
  rw [List.foldlM_append, hinit, hbefore, ok_bind, Request.pieces, List.foldlM_append,
    foldlM_onPath, ok_bind]
  exact hrun

/-- The handler as it is when the parser comes to the end of a request. -/
structure Assembled (request : Request) (handler : HttpHandler) : Prop where
  path : handler.path = request.url.flatten
  /-- Each name of a header has its values, put together, and no other name has any. -/
  headers : Collects handler.headers request.fields
  /-- The end of the message adds one event, with that path, and clears everything else. -/
  event : ∃ event, event.path = request.url.flatten ∧
    handler.callback (.onMessageComplete request.upgrade request.isGET) =
      .ok { init with events := handler.events ++ [event] }

theorem callback_onMessageComplete_of_collects {handler : HttpHandler} {request : Request}
    (hpath : handler.path = request.url.flatten) (hheaders : Collects handler.headers request.fields) :
    handler.callback (.onMessageComplete request.upgrade request.isGET) =
      .ok { init with events := handler.events ++ [request.event] } := by
  rw [callback, headerValue_eq hheaders (ascii "Sec-WebSocket-Key") (by decide +kernel), ok_bind,
    headerValue_eq hheaders (ascii "Host") (by decide +kernel), ok_bind, hpath]
  rfl

/-- Whatever requests came before, and however the fragments are cut into reads, at the end of a
request the handler holds that request; the events that wait are those of the requests finished in
the same read. -/
theorem assembles (before : List Request) (request : Request) (reads : List HttpRead)
    (current : List Callback)
    (hcut : reads.flatMap HttpRead.callbacks ++ current =
      before.flatMap Request.callbacks ++ request.pieces) :
    ∃ handler, duringRead reads current = .ok handler ∧ handler.Assembled request ∧
      handler.events = (before.map Request.event).drop (reads.map completions).sum := by
  obtain ⟨whole, hwhole, hpath, hheaders, hevents⟩ := foldlM_pieces before request
  obtain ⟨handler, events, hflat, hduring⟩ := duringRead_eq reads current
  rw [hcut, hwhole] at hflat
  -- both folds end in the same handler, up to the events that were taken away
  obtain rfl := Except.ok.inj hflat
  refine ⟨_, hduring, ⟨hpath, hheaders, request.event, rfl, ?_⟩, ?_⟩
  · exact callback_onMessageComplete_of_collects hpath hheaders
  · rw [← hevents]

/-- A header in one piece. -/
def wholeHeader (name value : Bytes) : HeaderLine where
  name := [name]
  value := [value]
  name_ne_nil := List.cons_ne_nil _ _
  value_ne_nil := List.cons_ne_nil _ _

def listRequest : Request :=
  ⟨[ascii "/json"], [wholeHeader (ascii "Cookie") (ascii "a")], false, true⟩

/-- A request in fragments, with a header that comes twice. -/
def versionRequest : Request :=
  ⟨[ascii "/json", ascii "/version"],
    [⟨[ascii "Ho", ascii "st"], [ascii "[::1]", ascii ":80"], by simp, by simp⟩,
      wholeHeader (ascii "Host") []], false, true⟩

/-- Both requests on one connection, with a cut in the name of the header. -/
theorem assembles_versionRequest :
    ∃ handler, duringRead [⟨listRequest.callbacks ++ versionRequest.pieces.take 3, false⟩]
      (versionRequest.pieces.drop 3) = .ok handler ∧ handler.Assembled versionRequest := by
  obtain ⟨handler, hrun, hassembled, _⟩ := assembles [listRequest] versionRequest
    [⟨listRequest.callbacks ++ versionRequest.pieces.take 3, false⟩]
    (versionRequest.pieces.drop 3) (by decide +kernel)
  exact ⟨handler, hrun, hassembled⟩

end HttpHandler

end Inspector
end V8JsiRuntime
