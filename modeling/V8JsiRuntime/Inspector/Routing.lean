import V8JsiRuntime.Inspector.SocketServer
import V8JsiRuntime.Inspector.ListResponse

/-!
# Routing — which requests are answered, and with what

`HandleGetRequest` matches the path segment by segment, and the segment that it finds decides which
response is written to the socket.
-/

namespace V8JsiRuntime
namespace Inspector

/-! ## The responses -/

/-- `SendHttpResponse`, with the calls of `Write` on the socket; the buffer of the header has room
for all digits of a `size_t`. -/
def sendHttpResponse (response : Bytes) : List Bytes :=
  [ascii "HTTP/1.0 200 OK\r\n" ++ ascii "Content-Type: application/json; charset=UTF-8\r\n" ++
      ascii "Cache-Control: no-cache\r\n" ++ ascii "Content-Length: " ++
      ascii (toString response.length) ++ ascii "\r\n" ++ ascii "\r\n",
    response]

def sendVersionResponse : List Bytes :=
  let response := StringMap.assign (ascii "Browser") (ascii "node.js v12.0.0") []
  let response := response.assign (ascii "Protocol-Version") (ascii "1.1")
  sendHttpResponse (mapToString response)

def sendProtocolJson : List Bytes :=
  sendHttpResponse (ascii "TBD")

/-- What `HandleGetRequest` returns, and what it has written to the socket. -/
structure GetRequestResult where
  handled : Bool
  written : List Bytes

/-- `HandleGetRequest`; `none` is a null pointer. -/
def handleGetRequest (delegate : Option SocketServerDelegate) (session : Option SocketSession)
    (host path : Bytes) : Except ServerFault GetRequestResult :=
  match session with
  | none => .error .nullSession
  | some session =>
      match routeGetRequest path with
      | .error fault => .error (.memory fault)
      | .ok none => .ok ⟨false, []⟩
      | .ok (some .list) =>
          -- only the list asks the delegate
          match delegate with
          | none => .error .nullDelegate
          | some delegate =>
              .ok ⟨true, sendHttpResponse (sendListResponse delegate host session.serverPort)⟩
      | .ok (some .protocol) => .ok ⟨true, sendProtocolJson⟩
      | .ok (some .version) => .ok ⟨true, sendVersionResponse⟩

/-! ## The grammar -/

namespace HttpResponse

/-- The endpoint in a path. -/
def name : HttpResponse → Bytes
  | list => ascii "list"
  | protocol => ascii "protocol"
  | version => ascii "version"

end HttpResponse

/-- Paths and their endpoints, up to letter case. -/
inductive Routes : Bytes → HttpResponse → Prop
  | json {path : Bytes} : path.map toLower = ascii "/json" ∨ path.map toLower = ascii "/json/" →
      Routes path .list
  | endpoint {json name rest : Bytes} {response : HttpResponse} :
      json.map toLower = ascii "/json/" → name.map toLower = response.name →
        (rest = [] ∨ ∃ anything, rest = 47 :: anything) → Routes (json ++ name ++ rest) response

/-! ## What the client gets -/

/-- A member of a JSON object. -/
def memberText (member : Bytes × Bytes) : Bytes :=
  ascii "  \"" ++ member.1 ++ ascii "\": \"" ++ member.2 ++ ascii "\""

/-- A JSON object with the given members, each on a line of its own. -/
def objectText (members : List (Bytes × Bytes)) : Bytes :=
  ascii "\x7b\n" ++ (ascii ",\n").intercalate (members.map memberText) ++ ascii "\n\x7d "

/-- The members of the object for a target. -/
def targetEntries (delegate : SocketServerDelegate) (address id : Bytes) : List (Bytes × Bytes) :=
  [(ascii "description", ascii "node.js instance"),
    (ascii "devtoolsFrontendUrl", ascii
      "chrome-devtools://devtools/bundled/js_app.html?experiments=true&v8only=true&ws=" ++ address),
    (ascii "devtoolsFrontendUrlCompat", ascii
      "chrome-devtools://devtools/bundled/inspector.html?experiments=true&v8only=true&ws=" ++ address),
    (ascii "faviconUrl", ascii "https://nodejs.org/static/favicon.ico"),
    (ascii "id", id),
    (ascii "title", escape (delegate.getTargetTitle id)),
    (ascii "type", ascii "node"),
    (ascii "url", escape (delegate.getTargetUrl id)),
    (ascii "webSocketDebuggerUrl", ascii "ws://" ++ address)]

namespace HttpResponse

/-- The body of the response. -/
def body (delegate : SocketServerDelegate) (host : Bytes) (serverPort : Nat) : HttpResponse → Bytes
  | list =>
      -- without a `Host` the port alone stands for the server
      let server := if host = [] then ascii ":" ++ ascii (toString serverPort) else host
      ascii "[ " ++
        (ascii ", ").intercalate (delegate.getTargetIds.map fun id =>
          objectText (targetEntries delegate (server ++ ascii "/" ++ id) id)) ++
        ascii "]\n\n"
  | protocol => ascii "TBD"
  | version => objectText [(ascii "Browser", ascii "node.js v12.0.0"),
      (ascii "Protocol-Version", ascii "1.1")]

end HttpResponse

/-- A header can be read back from its line. -/
def IsHeader (header : Bytes × Bytes) : Prop :=
  header.1 ≠ [] ∧ (∀ b ∈ header.1, b ≠ 58 ∧ b ≠ 13 ∧ b ≠ 10) ∧ ∀ b ∈ header.2, b ≠ 13 ∧ b ≠ 10

instance (header : Bytes × Bytes) : Decidable (IsHeader header) :=
  inferInstanceAs (Decidable (_ ∧ _ ∧ _))

def headerLine (header : Bytes × Bytes) : Bytes :=
  header.1 ++ ascii ": " ++ header.2 ++ ascii "\r\n"

/-- The bytes are one response that succeeds, with JSON as its body, and nothing else: one header
says how many bytes are behind the empty line, and these are the body. -/
def IsResponse (bytes body : Bytes) : Prop :=
  ∃ headers : List (Bytes × Bytes),
    bytes = ascii "HTTP/1.0 200 OK\r\n" ++ headers.flatMap headerLine ++ ascii "\r\n" ++ body ∧
      (∀ header ∈ headers, IsHeader header) ∧
        (ascii "Content-Type", ascii "application/json; charset=UTF-8") ∈ headers ∧
          headers.filter (fun header => header.1 = ascii "Content-Length") =
            [(ascii "Content-Length", ascii (toString body.length))]

theorem isHeader_contentLength (n : Nat) :
    IsHeader (ascii "Content-Length", ascii (toString n)) := by
  have hname : ascii "Content-Length" ≠ [] ∧
      ∀ b ∈ ascii "Content-Length", b ≠ 58 ∧ b ≠ 13 ∧ b ≠ 10 := by decide +kernel
  refine ⟨hname.1, hname.2, fun b hb => ?_⟩
  -- digits are no control characters
  have hprintable := ((clean_decimal n).2 b hb).1
  constructor
  · rintro rfl
    exact hprintable (by decide)
  · rintro rfl
    exact hprintable (by decide)

/-- Both writes together are one response. -/
theorem isResponse_sendHttpResponse (response : Bytes) :
    IsResponse (sendHttpResponse response).flatten response := by
  refine ⟨[(ascii "Content-Type", ascii "application/json; charset=UTF-8"),
    (ascii "Cache-Control", ascii "no-cache"),
    (ascii "Content-Length", ascii (toString response.length))], ?_, ?_, List.mem_cons_self, ?_⟩
  · have hlines : ascii "HTTP/1.0 200 OK\r\n" ++
        ascii "Content-Type: application/json; charset=UTF-8\r\n" ++
          ascii "Cache-Control: no-cache\r\n" ++ ascii "Content-Length: " =
        ascii "HTTP/1.0 200 OK\r\n" ++
          headerLine (ascii "Content-Type", ascii "application/json; charset=UTF-8") ++
            headerLine (ascii "Cache-Control", ascii "no-cache") ++ ascii "Content-Length" ++
              ascii ": " := by
      decide +kernel
    rw [sendHttpResponse, hlines]
    simp only [headerLine, List.flatten_cons, List.flatten_nil, List.flatMap_cons,
      List.flatMap_nil, List.append_assoc, List.append_nil]
  · refine List.forall_mem_cons.2 ⟨by decide +kernel, List.forall_mem_cons.2 ⟨by decide +kernel, ?_⟩⟩
    exact List.forall_mem_singleton.2 (isHeader_contentLength _)
  · have hothers : ascii "Content-Type" ≠ ascii "Content-Length" ∧
        ascii "Cache-Control" ≠ ascii "Content-Length" := by decide +kernel
    simp [hothers.1, hothers.2]

theorem mapToStringLoop_eq (map : StringMap) :
    mapToStringLoop true map = (ascii ",\n").intercalate (map.map memberText) := by
  induction map with
  | nil => rfl
  | cons entry map ih =>
      cases map with
      | nil => simp [mapToStringLoop, memberText]
      | cons next map =>
          rw [mapToStringLoop, mapToStringLoop_false, ih]
          simp [memberText]

theorem mapToString_eq (map : StringMap) : mapToString map = objectText map := by
  rw [mapToString, mapToStringLoop_eq, objectText]

theorem mapsToStringLoop_eq (array : List StringMap) :
    mapsToStringLoop true array = (ascii ", ").intercalate (array.map objectText) := by
  induction array with
  | nil => rfl
  | cons map array ih =>
      cases array with
      | nil => simp [mapsToStringLoop, mapToString_eq]
      | cons next array =>
          rw [mapsToStringLoop, mapsToStringLoop_false, ih]
          simp [mapToString_eq]

theorem targetMap_eq_targetEntries (delegate : SocketServerDelegate) (host : Bytes)
    (serverPort : Nat) (id : Bytes) : targetMap delegate host serverPort id =
      targetEntries delegate (formatAddress (detectedHost host serverPort) id false) id := by
  rw [targetMap_eq, formatAddress_true]
  rfl

theorem isResponse_sendVersionResponse (delegate : SocketServerDelegate) (host : Bytes)
    (serverPort : Nat) :
    IsResponse sendVersionResponse.flatten (HttpResponse.version.body delegate host serverPort) := by
  rw [sendVersionResponse, mapToString_eq]
  exact isResponse_sendHttpResponse _

theorem sendListResponse_eq (delegate : SocketServerDelegate) (host : Bytes) (serverPort : Nat) :
    sendListResponse delegate host serverPort =
      HttpResponse.list.body delegate host serverPort := by
  have hserver : detectedHost host serverPort =
      if host = [] then ascii ":" ++ ascii (toString serverPort) else host := by
    cases host <;> rfl
  rw [sendListResponse, mapsToString, mapsToStringLoop_eq, List.map_map, HttpResponse.body,
    ← hserver]
  simp only [Function.comp_def, targetMap_eq_targetEntries]
  rfl

/-! ## Segments -/

/-- The path is the segment with nothing behind it, or with a slash and the rest. -/
def Segment (path expected rest : Bytes) : Prop :=
  ∃ segment, segment.map toLower = expected ∧
    (path = segment ∧ rest = [] ∨ path = segment ++ 47 :: rest)

theorem slash_notMem {segment expected : Bytes} (h : segment.map toLower = expected)
    (hexpected : 47 ∉ expected) : 47 ∉ segment := by
  intro hmem
  exact hexpected (h ▸ List.mem_map.2 ⟨47, hmem, rfl⟩)

/-- The segment is what is in front of the first slash. -/
theorem head_splitOn {path segment rest : Bytes} (hslash : 47 ∉ segment)
    (h : path = segment ∧ rest = [] ∨ path = segment ++ 47 :: rest) :
    (path.splitOn 47).head? = some segment := by
  rcases h with ⟨rfl, _⟩ | rfl
  · rw [List.splitOn_eq_singleton hslash, List.head?_cons]
  · rw [List.splitOn_append_cons_self_of_not_mem hslash, List.head?_cons]

/-- A path begins with one segment only. -/
theorem Segment.unique {path expected expected' rest rest' : Bytes}
    (h : Segment path expected rest) (h' : Segment path expected' rest')
    (hexpected : 47 ∉ expected) (hexpected' : 47 ∉ expected') : expected = expected' := by
  obtain ⟨segment, rfl, hpath⟩ := h
  obtain ⟨segment', rfl, hpath'⟩ := h'
  obtain rfl : segment = segment' := Option.some.inj
    ((head_splitOn (slash_notMem rfl hexpected) hpath).symm.trans
      (head_splitOn (slash_notMem rfl hexpected') hpath'))
  rfl

/-- The rest is what is left behind the length of the segment. -/
theorem Segment.rest_eq {path expected rest : Bytes} (h : Segment path expected rest) :
    rest = path.drop (expected.length + 1) := by
  obtain ⟨segment, rfl, ⟨rfl, rfl⟩ | rfl⟩ := h
  · rw [List.length_map, List.drop_of_length_le (Nat.le_succ _)]
  · rw [List.length_map, ← List.drop_drop, List.drop_left, List.drop_one, List.tail_cons]

theorem isPrefixNoCase_iff {expected : Bytes} (hlower : expected.map toLower = expected)
    (path : Bytes) : isPrefixNoCase path expected = true ↔
      ∃ segment tail, path = segment ++ tail ∧ segment.map toLower = expected := by
  rw [isPrefixNoCase, hlower, beq_iff_eq]
  constructor
  · intro h
    exact ⟨_, _, (List.take_append_drop expected.length path).symm, h⟩
  · rintro ⟨segment, tail, rfl, rfl⟩
    rw [List.length_map, List.take_left]

theorem Segment.isPrefixNoCase {path expected rest : Bytes} (h : Segment path expected rest)
    (hlower : expected.map toLower = expected) : isPrefixNoCase path expected = true := by
  obtain ⟨segment, hsegment, ⟨rfl, _⟩ | rfl⟩ := h
  · exact (isPrefixNoCase_iff hlower _).2 ⟨path, [], (List.append_nil path).symm, hsegment⟩
  · exact (isPrefixNoCase_iff hlower _).2 ⟨segment, _, rfl, hsegment⟩

/-- `MatchPathSegment` finds the segment that the path begins with, and reads nothing behind the
terminator. -/
theorem matchPathSegment_cases {path expected : Bytes} (hpath : 0 ∉ path) (hnul : 0 ∉ expected)
    (hlower : expected.map toLower = expected) :
    (∃ rest, matchPathSegment path expected = .ok (some rest) ∧ Segment path expected rest) ∨
      matchPathSegment path expected = .ok none ∧ ∀ rest, ¬ Segment path expected rest := by
  rw [matchPathSegment, stringEqualNoCaseN_eq path expected fun c hc h => hnul (h ▸ hc), ok_bind]
  by_cases hbegins : isPrefixNoCase path expected = true
  · rw [if_pos hbegins]
    obtain ⟨segment, tail, rfl, rfl⟩ := (isPrefixNoCase_iff hlower path).1 hbegins
    rw [List.length_map]
    cases tail with
    | nil =>
        rw [List.append_nil, charAt_length, List.drop_length]
        exact Or.inl ⟨[], rfl, segment, rfl, Or.inl ⟨rfl, rfl⟩⟩
    | cons c tail =>
        rw [charAt_append_cons, ok_bind]
        by_cases hslash : c = 47
        · rw [if_pos hslash, hslash]
          have hsegment : Segment (segment ++ 47 :: tail) (segment.map toLower) tail :=
            ⟨segment, rfl, Or.inr rfl⟩
          rw [← List.length_map toLower, ← hsegment.rest_eq]
          exact Or.inl ⟨tail, rfl, hsegment⟩
        · have hend : c ≠ 0 := by
            rintro rfl
            exact hpath (List.mem_append_right _ List.mem_cons_self)
          rw [if_neg hslash, if_neg hend]
          refine Or.inr ⟨rfl, ?_⟩
          rintro rest ⟨segment', hsegment, hsplit⟩
          -- the other segment is as long, and so it is the same one
          have hlength : segment'.length = segment.length := by
            rw [← List.length_map toLower, hsegment, List.length_map]
          rcases hsplit with ⟨rfl, _⟩ | hsplit
          · rw [List.length_append, List.length_cons] at hlength
            omega
          · obtain ⟨_, htail⟩ := List.append_inj hsplit hlength.symm
            exact hslash (List.cons.inj htail).1
  · rw [if_neg hbegins]
    exact Or.inr ⟨rfl, fun rest h => hbegins (h.isPrefixNoCase hlower)⟩

/-! ## The routing -/

theorem lower_slash_iff (json : Bytes) : json.map toLower = ascii "/json/" ↔
    ∃ segment, json = segment ++ [47] ∧ segment.map toLower = ascii "/json" := by
  have hsplit : ascii "/json/" = ascii "/json" ++ [47] := by decide +kernel
  rw [hsplit, List.map_eq_append_iff]
  constructor
  · rintro ⟨segment, last, rfl, hsegment, hlast⟩
    obtain ⟨c, rfl, hc⟩ := List.map_eq_singleton_iff.1 hlast
    rw [(toLower_eq_iff (by decide) c).1 hc]
    exact ⟨segment, rfl, hsegment⟩
  · rintro ⟨segment, rfl, hsegment⟩
    exact ⟨segment, [47], rfl, hsegment, rfl⟩

theorem HttpResponse.name_ne_nil (response : HttpResponse) : response.name ≠ [] := by
  cases response <;> decide +kernel

/-- A path that ends with `/json` names no endpoint. -/
theorem not_segment_nil (response : HttpResponse) (rest : Bytes) :
    ¬ Segment [] response.name rest := by
  rintro ⟨segment, hsegment, ⟨rfl, _⟩ | hnil⟩
  · exact response.name_ne_nil hsegment.symm
  · exact absurd hnil.symm (by simp)

/-- The endpoints begin where `/json` ends. -/
theorem routes_iff (path : Bytes) (response : HttpResponse) :
    Routes path response ↔ ∃ command, Segment path (ascii "/json") command ∧
      (response = .list ∧ command = [] ∨ ∃ rest, Segment command response.name rest) := by
  constructor
  · intro h
    cases h with
    | json hpath =>
        refine ⟨[], ?_, Or.inl ⟨rfl, rfl⟩⟩
        rcases hpath with hjson | hjson
        · exact ⟨path, hjson, Or.inl ⟨rfl, rfl⟩⟩
        · obtain ⟨segment, rfl, hsegment⟩ := (lower_slash_iff path).1 hjson
          exact ⟨segment, hsegment, Or.inr rfl⟩
    | @endpoint json name rest _ hjson hname hrest =>
        obtain ⟨segment, rfl, hsegment⟩ := (lower_slash_iff json).1 hjson
        refine ⟨name ++ rest, ⟨segment, hsegment, Or.inr (by simp)⟩, Or.inr ?_⟩
        rcases hrest with rfl | ⟨anything, rfl⟩
        · exact ⟨[], name, hname, Or.inl ⟨List.append_nil name, rfl⟩⟩
        · exact ⟨anything, name, hname, Or.inr rfl⟩
  · rintro ⟨command, ⟨segment, hsegment, hpath⟩, ⟨rfl, rfl⟩ | ⟨rest, name, hname, hcommand⟩⟩
    · refine .json ?_
      rcases hpath with ⟨rfl, _⟩ | rfl
      · exact Or.inl hsegment
      · exact Or.inr ((lower_slash_iff _).2 ⟨segment, rfl, hsegment⟩)
    · have hjson : (segment ++ [47]).map toLower = ascii "/json/" :=
        (lower_slash_iff _).2 ⟨segment, rfl, hsegment⟩
      rcases hpath with ⟨_, rfl⟩ | rfl
      · exact absurd ⟨name, hname, hcommand⟩ (not_segment_nil response rest)
      · rcases hcommand with ⟨rfl, rfl⟩ | rfl
        · have hroute : Routes (segment ++ [47] ++ command ++ []) response :=
            .endpoint hjson hname (Or.inl rfl)
          simpa using hroute
        · have hroute : Routes (segment ++ [47] ++ name ++ 47 :: rest) response :=
            .endpoint hjson hname (Or.inr ⟨rest, rfl⟩)
          simpa using hroute

/-- Once `/json` is matched, the rest alone decides. -/
theorem Segment.routes_iff {path command : Bytes} (h : Segment path (ascii "/json") command)
    (response : HttpResponse) : Routes path response ↔
      response = .list ∧ command = [] ∨ ∃ rest, Segment command response.name rest := by
  rw [Inspector.routes_iff]
  constructor
  · rintro ⟨command', hcommand', hname⟩
    rwa [h.rest_eq, ← hcommand'.rest_eq]
  · exact fun hname => ⟨command, h, hname⟩

/-- The names are plain, so that they can be matched and are told apart. -/
theorem HttpResponse.name_plain (response : HttpResponse) :
    0 ∉ response.name ∧ 47 ∉ response.name ∧ response.name.map toLower = response.name := by
  cases response <;> decide +kernel

theorem HttpResponse.name_injective {response response' : HttpResponse}
    (h : response.name = response'.name) : response = response' := by
  cases response <;> cases response' <;> first | rfl | exact absurd h (by decide +kernel)

/-- A path has one endpoint. -/
theorem Routes.unique {path : Bytes} {response response' : HttpResponse} (h : Routes path response)
    (h' : Routes path response') : response = response' := by
  obtain ⟨command, hcommand, hname⟩ := (routes_iff path response).1 h
  have hname' := (hcommand.routes_iff response').1 h'
  rcases hname with ⟨rfl, rfl⟩ | ⟨rest, hname⟩
  · rcases hname' with ⟨rfl, _⟩ | ⟨rest', hname'⟩
    · rfl
    · exact absurd hname' (not_segment_nil response' rest')
  · rcases hname' with ⟨_, rfl⟩ | ⟨rest', hname'⟩
    · exact absurd hname (not_segment_nil response rest)
    · exact HttpResponse.name_injective
        (hname.unique hname' response.name_plain.2.1 response'.name_plain.2.1)

theorem notMem_of_segment {path expected rest : Bytes} (h : Segment path expected rest)
    (hpath : 0 ∉ path) : 0 ∉ rest := by
  obtain ⟨segment, _, ⟨_, rfl⟩ | rfl⟩ := h
  · exact List.not_mem_nil
  · exact fun hmem => hpath (List.mem_append_right _ (List.mem_cons_of_mem _ hmem))

/-- Matching the name of an endpoint. -/
theorem matchPathSegment_name {command : Bytes} (hcommand : 0 ∉ command)
    (response : HttpResponse) : ∃ found, matchPathSegment command response.name = .ok found ∧
      (found.isSome = true ↔ ∃ rest, Segment command response.name rest) := by
  obtain ⟨hnul, _, hlower⟩ := response.name_plain
  rcases matchPathSegment_cases hcommand hnul hlower with ⟨rest, heq, h⟩ | ⟨heq, h⟩
  · exact ⟨some rest, heq, iff_of_true rfl ⟨rest, h⟩⟩
  · exact ⟨none, heq, iff_of_false nofun fun ⟨rest, hrest⟩ => h rest hrest⟩

/-- The command is looked at up to its first character. -/
theorem charAt_zero {command : Bytes} (hcommand : 0 ∉ command) :
    ∃ first, charAt command 0 = .ok first ∧ (first = 0 ↔ command = []) := by
  cases command with
  | nil => exact ⟨0, rfl, iff_of_true rfl rfl⟩
  | cons c command =>
      refine ⟨c, rfl, iff_of_false ?_ (List.cons_ne_nil c command)⟩
      rintro rfl
      exact hcommand List.mem_cons_self

/-- The checks that follow `/json`, in the order in which they are made. -/
theorem routeGetRequest_of_json {path command : Bytes} {list protocol version : Option Bytes}
    {first : UInt8} (hjson : matchPathSegment path (ascii "/json") = .ok (some command))
    (hlist : matchPathSegment command HttpResponse.list.name = .ok list)
    (hprotocol : matchPathSegment command HttpResponse.protocol.name = .ok protocol)
    (hversion : matchPathSegment command HttpResponse.version.name = .ok version)
    (hfirst : charAt command 0 = .ok first) :
    routeGetRequest path = .ok (if list.isSome ∨ first = 0 then some .list
      else if protocol.isSome then some .protocol
      else if version.isSome then some .version else none) := by
  simp only [HttpResponse.name] at hlist hprotocol hversion
  rw [routeGetRequest, hjson, ok_bind]
  dsimp only
  rw [hfirst, hlist, hprotocol, hversion]
  simp only [ok_bind, pure, Except.pure]
  split_ifs <;> rfl

/-- The routing ends with the endpoint of the path, or finds that there is none. -/
theorem routeGetRequest_cases {path : Bytes} (hpath : 0 ∉ path) :
    (∃ response, routeGetRequest path = .ok (some response) ∧ Routes path response) ∨
      routeGetRequest path = .ok none ∧ ∀ response, ¬ Routes path response := by
  have hcases := @matchPathSegment_cases path (ascii "/json") hpath (by decide +kernel)
    (by decide +kernel)
  rcases hcases with ⟨command, hjson, hsegment⟩ | ⟨hjson, hnone⟩
  · have hcommand := notMem_of_segment hsegment hpath
    obtain ⟨list, hlist, hlist'⟩ := matchPathSegment_name hcommand .list
    obtain ⟨protocol, hprotocol, hprotocol'⟩ := matchPathSegment_name hcommand .protocol
    obtain ⟨version, hversion, hversion'⟩ := matchPathSegment_name hcommand .version
    obtain ⟨first, hfirst, hfirst'⟩ := charAt_zero hcommand
    have hlistRoute : Routes path .list ↔ list.isSome = true ∨ first = 0 := by
      rw [hsegment.routes_iff, hlist', hfirst', or_comm]
      exact or_congr_right (and_iff_right rfl)
    have hprotocolRoute : Routes path .protocol ↔ protocol.isSome = true := by
      rw [hsegment.routes_iff, hprotocol']
      exact or_iff_right fun h => nomatch h.1
    have hversionRoute : Routes path .version ↔ version.isSome = true := by
      rw [hsegment.routes_iff, hversion']
      exact or_iff_right fun h => nomatch h.1
    rw [routeGetRequest_of_json hjson hlist hprotocol hversion hfirst]
    by_cases hfound : list.isSome = true ∨ first = 0
    · rw [if_pos hfound]
      exact Or.inl ⟨.list, rfl, hlistRoute.2 hfound⟩
    · rw [if_neg hfound]
      by_cases hfound' : protocol.isSome = true
      · rw [if_pos hfound']
        exact Or.inl ⟨.protocol, rfl, hprotocolRoute.2 hfound'⟩
      · rw [if_neg hfound']
        by_cases hfound'' : version.isSome = true
        · rw [if_pos hfound'']
          exact Or.inl ⟨.version, rfl, hversionRoute.2 hfound''⟩
        · rw [if_neg hfound'']
          refine Or.inr ⟨rfl, fun response h => ?_⟩
          -- a path of the grammar would have been found by one of the three checks
          cases response with
          | list => exact hfound (hlistRoute.1 h)
          | protocol => exact hfound' (hprotocolRoute.1 h)
          | version => exact hfound'' (hversionRoute.1 h)
  · refine Or.inr ⟨?_, ?_⟩
    · rw [routeGetRequest, hjson]
      rfl
    · intro response h
      obtain ⟨command, hsegment, _⟩ := (routes_iff path response).1 h
      exact hnone command hsegment

/-! ## Requests -/

/-- What the server does with a request is what `HandleGetRequest` decides. -/
theorem onHttpGet_eq {server : InspectorSocketServer} {delegate : Option SocketServerDelegate}
    (hdelegate : server.hasDelegate = delegate.isSome) {sessionId : Nat} {host path : Bytes}
    {result : GetRequestResult}
    (h : handleGetRequest delegate (server.session sessionId) host path = .ok result) :
    if result.handled then
      ∃ response, server.onHttpGet sessionId host path =
        .ok (server.act (.sendResponse sessionId host response))
    else
      server.onHttpGet sessionId host path = .ok (server.act (.cancelHandshake sessionId)) := by
  unfold handleGetRequest at h
  rw [InspectorSocketServer.onHttpGet]
  cases hsession : server.session sessionId with
  | none =>
      rw [hsession] at h
      cases h
  | some session =>
      rw [hsession] at h
      dsimp only at h ⊢
      cases hroute : routeGetRequest path with
      | error fault =>
          rw [hroute] at h
          cases h
      | ok found =>
          rw [hroute] at h
          cases found with
          | none =>
              obtain rfl := Except.ok.inj h
              rfl
          | some response =>
              cases response with
              | list =>
                  cases delegate with
                  | none => cases h
                  | some delegate =>
                      obtain rfl := Except.ok.inj h
                      exact ⟨.list, if_pos hdelegate⟩
              | protocol =>
                  obtain rfl := Except.ok.inj h
                  exact ⟨.protocol, rfl⟩
              | version =>
                  obtain rfl := Except.ok.inj h
                  exact ⟨.version, rfl⟩

/-- `HandleGetRequest` returns, without a read behind the path: `true` exactly for the paths of the
grammar, after it has written the response of their endpoint, and `false` for all others, after it
has written nothing. -/
theorem handleGetRequest_iff (delegate : SocketServerDelegate) (session : SocketSession)
    (host : Bytes) {path : Bytes} (hpath : 0 ∉ path) :
    ∃ result, handleGetRequest (some delegate) (some session) host path = .ok result ∧
      (result.handled = true ↔ ∃ response, Routes path response) ∧
      (∀ response, Routes path response →
        IsResponse result.written.flatten (response.body delegate host session.serverPort)) ∧
      (result.handled = false → result.written = []) := by
  rcases routeGetRequest_cases hpath with ⟨response, hroute, hroutes⟩ | ⟨hroute, hnone⟩
  · have hsends : ∃ written, handleGetRequest (some delegate) (some session) host path =
        .ok ⟨true, written⟩ ∧
          IsResponse written.flatten (response.body delegate host session.serverPort) := by
      rw [handleGetRequest, hroute]
      cases response with
      | list => exact ⟨_, rfl, sendListResponse_eq delegate host _ ▸ isResponse_sendHttpResponse _⟩
      | protocol => exact ⟨_, rfl, isResponse_sendHttpResponse _⟩
      | version => exact ⟨_, rfl, isResponse_sendVersionResponse delegate host _⟩
    obtain ⟨written, hresult, hwritten⟩ := hsends
    refine ⟨_, hresult, iff_of_true rfl ⟨response, hroutes⟩, ?_, nofun⟩
    intro other hother
    rwa [← hroutes.unique hother]
  · refine ⟨⟨false, []⟩, ?_, ?_, ?_, fun _ => rfl⟩
    · rw [handleGetRequest, hroute]
    · exact iff_of_false nofun fun ⟨response, h⟩ => hnone response h
    · exact fun response h => absurd h (hnone response)

/-- The version, asked for in capitals and with more behind it. -/
theorem handleGetRequest_version :
    ∃ result, handleGetRequest (some ⟨[], fun id => id, fun id => id⟩) (some ⟨0, 9229, .http⟩)
      (ascii "localhost") (ascii "/JSON/Version/x") = .ok result ∧ result.handled = true ∧
        IsResponse result.written.flatten (ascii
          "\x7b\n  \"Browser\": \"node.js v12.0.0\",\n  \"Protocol-Version\": \"1.1\"\n\x7d ") := by
  have hroutes : Routes (ascii "/JSON/Version/x") .version :=
    @Routes.endpoint (ascii "/JSON/") (ascii "Version") (ascii "/x") .version (by decide +kernel)
      (by decide +kernel) (Or.inr ⟨ascii "x", rfl⟩)
  have hnul : 0 ∉ ascii "/JSON/Version/x" := by decide +kernel
  obtain ⟨result, hresult, hhandled, hwritten, _⟩ := handleGetRequest_iff
    ⟨[], fun id => id, fun id => id⟩ ⟨0, 9229, .http⟩ (ascii "localhost") hnul
  exact ⟨result, hresult, hhandled.2 ⟨.version, hroutes⟩, hwritten .version hroutes⟩

end Inspector
end V8JsiRuntime
