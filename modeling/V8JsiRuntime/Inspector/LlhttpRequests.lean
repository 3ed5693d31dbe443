import V8JsiRuntime.Inspector.LlhttpFields

/-!
# LlhttpRequests — requests as text

A request is written down as a client does it: its method, its path, its header lines and a body that
is given by its length or comes in chunks.  The parser is followed through the text, from one request
to the next.
-/

namespace V8JsiRuntime
namespace Inspector
namespace Llhttp

open Lib Lib.ParserGraph

/-! ## The text of a request -/

/-- A header line that gives no length and no encoding.  The last option of `Connection` is not
`keep`: the parser would take the end of the line for a minus. -/
structure PlainField extends FieldText where
  name_state : headerStateOf name = 0 ∨ headerStateOf name = 1 ∨ headerStateOf name = 4
  last_option : headerStateOf name = 1 →
    lower ((lastOption value).dropWhile (· == 32)) ≠ ascii "keep"

/-- The line that gives the length of the body, with the body. -/
structure LengthField extends FieldText where
  body : Bytes
  name_state : headerStateOf name = 2
  value_ne_nil : value ≠ []
  value_digit : ∀ byte ∈ value, isDigit byte = true
  value_eq : decimal value = body.length
  body_lt : body.length < 2 ^ 64

def isHexDigit : UInt8 → Bool := within [(48, 57), (65, 70), (97, 102)]

def hexDigit (byte : UInt8) : Nat :=
  if byte ≥ 97 then byte.toNat - 87 else if byte ≥ 65 then byte.toNat - 55 else byte.toNat - 48

def hexadecimal (text : Bytes) : Nat := numberFrom 16 hexDigit 0 text

example : hexadecimal (ascii "4fA") = 1274 := by decide

/-- A part of a body, with its size. -/
structure ChunkText where
  size : Bytes
  data : Bytes
  size_digit : ∀ byte ∈ size, isHexDigit byte = true
  size_eq : hexadecimal size = data.length
  data_ne_nil : data ≠ []
  data_lt : data.length < 2 ^ 64

/-- The line that says that the body comes in chunks, with these. -/
structure ChunkedField extends FieldText where
  chunks : List ChunkText
  name_state : headerStateOf name = 3
  value_eq : lower value = ascii "chunked"

/-- How a request says where its body ends. -/
inductive Framing
  | none
  | length (field : LengthField)
  | chunked (field : ChunkedField)

/-- A path, with or without a query. -/
structure UrlText where
  first : UInt8
  path : Bytes
  query : Option Bytes
  first_start : isStarOrSlash first = true
  path_byte : ∀ byte ∈ path, isPathByte byte = true
  query_byte : ∀ query' ∈ query, ∀ byte ∈ query', isQueryByte byte = true

/-- The methods but CONNECT, with their `llhttp_method_t`. -/
def methods : List (Bytes × UInt8) :=
  [(ascii "DELETE", 0), (ascii "GET", 1), (ascii "HEAD", 2), (ascii "POST", 3), (ascii "PUT", 4),
    (ascii "OPTIONS", 6), (ascii "TRACE", 7), (ascii "COPY", 8), (ascii "LOCK", 9),
    (ascii "MKCOL", 10), (ascii "MOVE", 11), (ascii "PROPFIND", 12), (ascii "PROPPATCH", 13),
    (ascii "SEARCH", 14), (ascii "UNLOCK", 15), (ascii "BIND", 16), (ascii "REBIND", 17),
    (ascii "UNBIND", 18), (ascii "ACL", 19), (ascii "REPORT", 20), (ascii "MKACTIVITY", 21),
    (ascii "CHECKOUT", 22), (ascii "MERGE", 23), (ascii "M-SEARCH", 24), (ascii "NOTIFY", 25),
    (ascii "SUBSCRIBE", 26), (ascii "UNSUBSCRIBE", 27), (ascii "PATCH", 28), (ascii "PURGE", 29),
    (ascii "MKCALENDAR", 30), (ascii "LINK", 31), (ascii "UNLINK", 32), (ascii "SOURCE", 33)]

/-- The line of the framing stands between the others. -/
structure RequestText where
  method : Bytes × UInt8
  url : UrlText
  fields : List PlainField
  framing : Framing
  later : List PlainField
  method_mem : method ∈ methods

namespace PlainField

/-- The header `Upgrade`; without a value it does not count. -/
def isUpgrade (field : PlainField) : Bool :=
  headerStateOf field.name == 4 && !field.value.isEmpty

/-- The header `Connection` with the option `upgrade`. -/
def connectionUpgrades (field : PlainField) : Bool :=
  headerStateOf field.name == 1 &&
    (field.value.splitOn 44).any fun part => optionName part == ascii "upgrade"

end PlainField

def FieldText.line (field : FieldText) : HeaderLine where
  name := [field.name]
  value := [field.value]
  name_ne_nil := List.cons_ne_nil _ _
  value_ne_nil := List.cons_ne_nil _ _

def ChunkText.text (chunk : ChunkText) : Bytes :=
  chunk.size ++ [13, 10] ++ chunk.data ++ [13, 10]

namespace Framing

def line : Framing → List FieldText
  | none => []
  | length field => [field.toFieldText]
  | chunked field => [field.toFieldText]

/-- What comes behind the headers. -/
def body : Framing → Bytes
  | none => []
  | length field => field.body
  | chunked field => field.chunks.flatMap ChunkText.text ++ ascii "0\r\n\r\n"

end Framing

def UrlText.text (url : UrlText) : Bytes :=
  url.first :: (url.path ++ url.query.elim [] fun query => 63 :: query)

namespace RequestText

/-- All header lines. -/
def lines (request : RequestText) : List FieldText :=
  request.fields.map PlainField.toFieldText ++ request.framing.line ++
    request.later.map PlainField.toFieldText

def text (request : RequestText) : Bytes :=
  request.method.1 ++ [32] ++ request.url.text ++ ascii " HTTP/1.1\r\n" ++
    request.lines.flatMap FieldText.text ++ [13, 10] ++ request.framing.body

def upgrade (request : RequestText) : Bool :=
  (request.fields ++ request.later).any PlainField.isUpgrade &&
    (request.fields ++ request.later).any PlainField.connectionUpgrades

/-- What the handler is to see of it. -/
def request (request : RequestText) : Request where
  url := [request.url.text]
  headers := request.lines.map FieldText.line
  upgrade := request.upgrade
  isGET := request.method.2 == 1

end RequestText

/-! ## The request line -/

/-- Between two requests. -/
def startState (s : Store) : State Label Store Span :=
  ⟨some .start, 0, none, s, 0⟩

theorem feeds_method {method : Bytes × UInt8} (h : method ∈ methods) (s : Store) :
    Feeds graph (startState s) (method.1 ++ [32]) []
      ⟨some .reqSpacesBeforeUrl, 0, none, { s with finish := 2, method := method.2 }, 0⟩ := by
  suffices hall : ∀ method ∈ methods, graph.execute (startState s) (method.1 ++ [32]) =
      some ⟨⟨some .reqSpacesBeforeUrl, 0, none, { s with finish := 2, method := method.2 }, 0⟩,
        [], []⟩ from .of_execute (hall method h) rfl
  simp only [methods, List.forall_mem_cons]
  repeat' constructor
  all_goals first | rfl | exact nofun

section Url

variable (url : UrlText) (s : Store)

/-- Inside of the URL, which is the chunk. -/
def urlConfig (label : Label) (s : Store) (p : Nat) : Config Label Store Span :=
  ⟨label, 0, some (.onUrl, 0), s, p⟩

/-- From the blank in front of it to the end of the path. -/
theorem reaches_path (hmethod : s.method ≠ 5) (rest : Bytes) :
    Reaches graph (url.first :: (url.path ++ rest)) ⟨.reqSpacesBeforeUrl, 0, none, s, 0⟩ []
      (urlConfig .urlPath s (1 + url.path.length)) := by
  have hdrop : (url.first :: (url.path ++ rest)).drop 0 = url.first :: (url.path ++ rest) := rfl
  have hclass : ∀ byte, isStarOrSlash byte = true → is ' ' byte = false ∧ isBlank byte = false :=
    forall_byte (by decide +kernel)
  obtain ⟨hspace, hblank⟩ := hclass _ url.first_start
  have hgoes : Reaches graph (url.first :: (url.path ++ rest))
      ⟨.reqSpacesBeforeUrl, 0, none, s, 0⟩ [] ⟨.invokeIsEqualMethod, 0, none, s, 0⟩ := by
    refine .goto rfl hdrop ?_
    rw [choose_cons_of_neg hspace, choose_nil]
  have htest : Reaches graph (url.first :: (url.path ++ rest))
      ⟨.invokeIsEqualMethod, 0, none, s, 0⟩ [] ⟨.spanStartOnUrl1, 0, none, s, 0⟩ := by
    refine .invoke rfl rfl ?_
    change chooseCode _ _ (if s.method == 5 then 1 else 0) = _
    rw [beq_eq_false_iff_ne.2 hmethod]
    rfl
  have hopen : Reaches graph (url.first :: (url.path ++ rest))
      ⟨.spanStartOnUrl1, 0, none, s, 0⟩ [] (urlConfig .urlStart s 0) :=
    .spanStart rfl hdrop
  have hfirst : Reaches graph (url.first :: (url.path ++ rest)) (urlConfig .urlStart s 0) []
      (urlConfig .spanStartStubPath2 s 0) := by
    refine .goto rfl hdrop ?_
    rw [choose_cons_of_neg hblank, choose_cons_of_pos url.first_start]
  have hstub : Reaches graph (url.first :: (url.path ++ rest)) (urlConfig .spanStartStubPath2 s 0) []
      (urlConfig .urlPath s 1) :=
    .advance rfl hdrop rfl
  have hloop : Reaches graph (url.first :: (url.path ++ rest)) (urlConfig .urlPath s 1) []
      (urlConfig .urlPath s (1 + url.path.length)) :=
    .loop rfl rfl fun byte hbyte => choose_cons_of_pos (url.path_byte byte hbyte)
  exact hgoes.silent_trans (htest.silent_trans (hopen.silent_trans (hfirst.silent_trans
    (hstub.silent_trans hloop))))

theorem feeds_url (hmethod : s.method ≠ 5) :
    Feeds graph ⟨some .reqSpacesBeforeUrl, 0, none, s, 0⟩ (url.text ++ ascii " HTTP/1.1\r\n")
      [.fragment .onUrl url.text]
      ⟨some .headerFieldStart, 0, none, { s with httpMajor := 1, httpMinor := 1 }, 0⟩ := by
  have hjoin : Regrouped
      ([.fragment .onUrl url.text, .fragment .onUrl []] : List (Event Span Store))
      [.fragment .onUrl (url.text ++ [])] :=
    .join Span.onUrl url.text []
  rw [List.append_nil] at hjoin
  -- the rest of the line is the same behind a path and behind a query
  suffices hurl : ∃ label, (label = .urlPath ∨ label = .urlQuery) ∧
      Feeds graph ⟨some .reqSpacesBeforeUrl, 0, none, s, 0⟩ url.text [.fragment .onUrl url.text]
        ⟨some label, 0, some .onUrl, s, 0⟩ by
    obtain ⟨label, hlabel, hfeeds⟩ := hurl
    have hrest : Feeds graph ⟨some label, 0, some .onUrl, s, 0⟩ (ascii " HTTP/1.1\r\n")
        ([.fragment .onUrl []] ++ [])
        ⟨some .headerFieldStart, 0, none, { s with httpMajor := 1, httpMinor := 1 }, 0⟩ := by
      rcases hlabel with rfl | rfl
      · exact .of_execute rfl rfl
      · exact .of_execute rfl rfl
    exact (hfeeds.append hrest).regroup hjoin
  rw [UrlText.text]
  cases hquery : url.query with
  | none =>
      refine ⟨_, Or.inl rfl, ?_⟩
      have hpath := reaches_path url s hmethod []
      rw [Nat.add_comm] at hpath
      have hlength : url.path.length + 1 = (url.first :: (url.path ++ [])).length := by simp
      rw [hlength] at hpath
      exact Feeds.of_reaches_open (g := graph) (s := ⟨some .reqSpacesBeforeUrl, 0, none, s, 0⟩) rfl
        rfl hpath rfl
  | some query =>
      refine ⟨_, Or.inr rfl, ?_⟩
      have hpath := reaches_path url s hmethod (63 :: query)
      have hdrop : (url.first :: (url.path ++ 63 :: query)).drop (1 + url.path.length) =
          63 :: query := by simp [Nat.add_comm]
      have hgoes : Reaches graph (url.first :: (url.path ++ 63 :: query))
          (urlConfig .urlPath s (1 + url.path.length)) []
          (urlConfig .urlQueryOrFragment s (1 + url.path.length)) :=
        .goto rfl hdrop rfl
      have hmark : Reaches graph (url.first :: (url.path ++ 63 :: query))
          (urlConfig .urlQueryOrFragment s (1 + url.path.length)) []
          (urlConfig .urlQuery s (1 + url.path.length + 1)) :=
        .advance rfl hdrop rfl
      have hdrop' : (url.first :: (url.path ++ 63 :: query)).drop
          (1 + url.path.length + [(63 : UInt8)].length) = query ++ [] := by
        rw [List.append_nil]
        exact drop_of_drop hdrop
      have hloop : Reaches graph (url.first :: (url.path ++ 63 :: query))
          (urlConfig .urlQuery s (1 + url.path.length + 1)) []
          (urlConfig .urlQuery s (1 + url.path.length + 1 + query.length)) :=
        .loop rfl hdrop' fun byte hbyte =>
          choose_cons_of_pos (url.query_byte query (hquery ▸ rfl) byte hbyte)
      have hlength : 1 + url.path.length + 1 + query.length =
          (url.first :: (url.path ++ 63 :: query)).length := by
        simp
        omega
      rw [hlength] at hloop
      exact Feeds.of_reaches_open (g := graph) (s := ⟨some .reqSpacesBeforeUrl, 0, none, s, 0⟩) rfl
        rfl (hpath.silent_trans (hgoes.silent_trans (hmark.silent_trans hloop))) rfl

end Url

/-! ## The headers -/

def PlainField.flags (field : PlainField) : UInt8 :=
  if field.value = [] then 0 else fieldFlags (headerStateOf field.name) field.value

def plainFlags (fields : List PlainField) : UInt8 :=
  fields.foldr (fun field flags => field.flags ||| flags) 0

namespace Framing

def flags : Framing → UInt8
  | none => 0
  | length _ => 32
  | chunked _ => 8

/-- The content length at the end of the headers. -/
def contentLength : Framing → Nat
  | none => 0
  | length field => field.body.length
  | chunked _ => 0

end Framing

/-! ### Flags -/

section Flags

variable {bit : UInt8}

theorem or_and (x y mask : UInt8) : (x ||| y) &&& mask = (x &&& mask) ||| (y &&& mask) :=
  UInt8.toBitVec_inj.1 BitVec.and_or_distrib_right

/-- The flags of `Connection: upgrade` and of `Upgrade` are single bits. -/
theorem beq_or (hbit : bit = 4 ∨ bit = 16) (x y : UInt8) :
    ((x ||| y) &&& bit == bit) = ((x &&& bit == bit) || (y &&& bit == bit)) := by
  have hone (x : UInt8) : x &&& bit = 0 ∨ x &&& bit = bit := by
    rcases hbit with rfl | rfl
    · exact (forall_byte (by decide +kernel) : ∀ x : UInt8, x &&& 4 = 0 ∨ x &&& 4 = 4) x
    · exact (forall_byte (by decide +kernel) : ∀ x : UInt8, x &&& 16 = 0 ∨ x &&& 16 = 16) x
  rw [or_and]
  rcases hone x with hx | hx <;> rcases hone y with hy | hy <;> rw [hx, hy] <;>
    rcases hbit with rfl | rfl <;> rfl

/-- No other bits than those of the three options, and the one of `upgrade` if it is that. -/
theorem optionFlag_bits (part : Bytes) : optionFlag part &&& 248 = 0 ∧
    (optionFlag part &&& 4 == 4) = (optionName part == ascii "upgrade") := by
  by_cases hmem : optionName part ∈ options.map Prod.fst
  · obtain ⟨⟨word, flag⟩, hword, hname⟩ := List.mem_map.1 hmem
    have hall : ∀ entry ∈ options, entry.2 &&& 248 = 0 ∧
        (entry.2 &&& 4 == 4) = (entry.1 == ascii "upgrade") := by decide
    rw [optionFlag_of_name hword hname.symm, ← hname]
    exact hall _ hword
  · have hupgrade : optionName part ≠ ascii "upgrade" := by
      intro heq
      rw [heq] at hmem
      exact hmem (by decide)
    rw [optionFlag_of_none fun word hword heq => hmem (heq ▸ hword),
      beq_eq_false_iff_ne.2 hupgrade]
    exact ⟨rfl, rfl⟩

theorem connectionFlags_bits (value : Bytes) : connectionFlags value &&& 248 = 0 ∧
    (connectionFlags value &&& 4 == 4) =
      (value.splitOn 44).any fun part => optionName part == ascii "upgrade" := by
  have hfold (parts : List Bytes) (init : UInt8) :
      parts.foldl (fun flags part => flags ||| optionFlag part) init &&& 248 = init &&& 248 ∧
        (parts.foldl (fun flags part => flags ||| optionFlag part) init &&& 4 == 4) =
          ((init &&& 4 == 4) || parts.any fun part => optionName part == ascii "upgrade") := by
    induction parts generalizing init with
    | nil => exact ⟨rfl, (Bool.or_false _).symm⟩
    | cons part parts ih =>
        obtain ⟨hmask, hbit⟩ := ih (init ||| optionFlag part)
        obtain ⟨hzero, hupgrade⟩ := optionFlag_bits part
        rw [List.foldl_cons, List.any_cons]
        constructor
        · rw [hmask, or_and, hzero, UInt8.or_zero]
        · rw [hbit, beq_or (Or.inl rfl), hupgrade, Bool.or_assoc]
  exact hfold _ 0

theorem PlainField.flags_bits (field : PlainField) : field.flags &&& 232 = 0 ∧
    (field.flags &&& 16 == 16) = field.isUpgrade ∧
      (field.flags &&& 4 == 4) = field.connectionUpgrades := by
  rw [PlainField.flags, isUpgrade, connectionUpgrades]
  cases hvalue : field.value with
  | nil =>
      have hnone : ((([] : Bytes).splitOn 44).any fun part => optionName part == ascii "upgrade") =
          false := by decide
      rw [if_pos rfl, hnone, Bool.and_false, List.isEmpty_nil, Bool.not_true, Bool.and_false]
      exact ⟨rfl, rfl, rfl⟩
  | cons byte rest =>
      rw [if_neg (List.cons_ne_nil _ _), List.isEmpty_cons, Bool.not_false, Bool.and_true]
      rcases field.name_state with h | h | h
      · have hflags : fieldFlags 0 (byte :: rest) = 0 := rfl
        rw [h, hflags, beq_eq_false_iff_ne.2 (by decide : (0 : UInt8) ≠ 1), Bool.false_and]
        exact ⟨rfl, rfl, rfl⟩
      · obtain ⟨hmask, hbit⟩ := connectionFlags_bits (byte :: rest)
        have hpart (mask : UInt8) (hmask' : mask = 248 &&& mask) :
            connectionFlags (byte :: rest) &&& mask = 0 := by
          rw [hmask', ← UInt8.and_assoc, hmask, UInt8.zero_and]
        rw [h, fieldFlags, if_pos rfl, hbit, hpart 232 rfl, hpart 16 rfl]
        exact ⟨rfl, rfl, rfl⟩
      · have hflags : fieldFlags 4 (byte :: rest) = 16 := rfl
        rw [h, hflags, beq_eq_false_iff_ne.2 (by decide : (4 : UInt8) ≠ 1), Bool.false_and]
        exact ⟨rfl, rfl, rfl⟩

theorem plainFlags_bits (fields : List PlainField) : plainFlags fields &&& 232 = 0 ∧
    (plainFlags fields &&& 16 == 16) = fields.any PlainField.isUpgrade ∧
      (plainFlags fields &&& 4 == 4) = fields.any PlainField.connectionUpgrades := by
  induction fields with
  | nil => exact ⟨rfl, rfl, rfl⟩
  | cons field fields ih =>
      obtain ⟨hmask, hupgrade, hconnection⟩ := field.flags_bits
      obtain ⟨hmask', hupgrade', hconnection'⟩ := ih
      rw [plainFlags, List.foldr_cons, ← plainFlags, List.any_cons, List.any_cons]
      refine ⟨?_, ?_, ?_⟩
      · rw [or_and, hmask, hmask', UInt8.or_zero]
      · rw [beq_or (Or.inr rfl), hupgrade, hupgrade']
      · rw [beq_or (Or.inl rfl), hconnection, hconnection']

end Flags

/-! ### Lines -/

section Headers

variable (s : Store)

theorem takes_plain (field : PlainField) :
    ∃ state, Takes field.value { s with headerState := headerStateOf field.name }
      { s with flags := s.flags ||| field.flags, headerState := state } := by
  have hhead := field.value_head
  have hbytes := field.value_byte
  have hlast := field.last_option
  rw [PlainField.flags]
  cases hvalue : field.value with
  | nil =>
      rw [if_pos rfl, UInt8.or_zero]
      refine ⟨_, takes_nil ?_⟩
      rcases field.name_state with h | h | h
      · rw [h]; rfl
      · rw [h]; rfl
      · rw [h]; rfl
  | cons byte rest =>
      rw [hvalue] at hhead hbytes hlast
      obtain ⟨htab, hblank⟩ := hhead byte rfl
      rw [if_neg (List.cons_ne_nil _ _)]
      exact takes_value hbytes htab hblank field.name_state hlast

theorem takesLines_plain (fields : List PlainField) :
    ∃ state, TakesLines ((fields.map PlainField.toFieldText).flatMap FieldText.text)
      ((fields.map PlainField.toFieldText).flatMap FieldText.events) s
      { s with flags := s.flags ||| plainFlags fields, headerState := state } := by
  induction fields generalizing s with
  | nil =>
      refine ⟨s.headerState, ?_⟩
      rw [plainFlags, List.foldr_nil, UInt8.or_zero]
      exact takesLines_nil s
  | cons field fields ih =>
      obtain ⟨state, htakes⟩ := takes_plain s field
      obtain ⟨state', hlines⟩ := ih { s with
        flags := s.flags ||| field.flags, headerState := state }
      refine ⟨state', ?_⟩
      have hall := (takesLines_field field.toFieldText htakes).append hlines
      rw [UInt8.or_assoc] at hall
      exact hall

/-- The line of the framing. -/
theorem takesLines_framing (framing : Framing) (hflags : hasFlags 32 s = false)
    (hzero : s.contentLength = 0) :
    ∃ state, TakesLines (framing.line.flatMap FieldText.text)
      (framing.line.flatMap FieldText.events) s (contentLength.set framing.contentLength
        { s with flags := s.flags ||| framing.flags, headerState := state }) := by
  have hset (s' : Store) (hs' : s'.contentLength = 0) : contentLength.set 0 s' = s' := by
    have hsame := contentLength_set_get s'
    rwa [hs'] at hsame
  cases framing with
  | none =>
      refine ⟨s.headerState, ?_⟩
      rw [Framing.contentLength, Framing.flags, UInt8.or_zero, hset _ hzero]
      exact takesLines_nil s
  | length field =>
      have hdigits := field.value_digit
      have hvalue := field.value_eq
      have hfits := field.body_lt
      obtain ⟨byte, rest, hcons⟩ := List.exists_cons_of_ne_nil field.value_ne_nil
      rw [hcons] at hdigits hvalue
      have hreach := reaches_length (s := { s with headerState := headerStateOf field.name }) hdigits
        field.name_state hflags hzero
      rw [hvalue, if_pos hfits] at hreach
      obtain ⟨state, htakes⟩ := takes_of_reaches hreach
      have hpending : (s.flags ||| 32) ||| pendingFlag (headerStateOf field.name) =
          s.flags ||| 32 := by
        rw [field.name_state]
        exact UInt8.or_zero
      change Takes _ _ (contentLength.set field.body.length { s with
        flags := (s.flags ||| 32) ||| pendingFlag (headerStateOf field.name)
        headerState := state }) at htakes
      rw [hpending, ← hcons] at htakes
      refine ⟨state, ?_⟩
      have hline := takesLines_field field.toFieldText htakes
      rw [Framing.line, List.flatMap_singleton, List.flatMap_singleton]
      exact hline
  | chunked field =>
      have hreach := reaches_encoding (s := { s with headerState := headerStateOf field.name })
        field.value_eq field.name_state
      obtain ⟨state, htakes⟩ := takes_of_reaches hreach
      refine ⟨state, ?_⟩
      rw [Framing.contentLength, Framing.flags,
        hset { s with flags := s.flags ||| 8, headerState := state } hzero]
      have hline := takesLines_field field.toFieldText htakes
      rw [Framing.line, List.flatMap_singleton, List.flatMap_singleton]
      exact hline

end Headers

/-! ## The end of a request -/

def pausedState (s : Store) : State Label Store Span :=
  ⟨some .invokeAfterMessageComplete, 0, none, s, 21⟩

/-- Behind a request: the parser is between two requests, or it pauses. -/
def requestEnd (s : Store) : State Label Store Span :=
  if s.upgrade = 1 then pausedState s else startState { s with flags := 0, finish := 0 }

/-- The labels at which `on_message_complete` is called. -/
def Completes (label : Label) (s : Store) : Prop :=
  label = .invokeOnMessageComplete1 ∧ s.upgrade = 1 ∨
    label = .invokeOnMessageComplete ∧ s.upgrade ≠ 1 ∨ label = .invokeOnMessageComplete2

theorem feeds_complete {state : State Label Store Span} {label label' : Label} {text : Bytes}
    {events : List (Event Span Store)} {s : Store} {p : Nat} (hok : state.error = 0)
    (hcurrent : state.current = some label)
    (h : Reaches graph text (state.config label) events ⟨label', 0, none, s, p⟩)
    (hend : p = text.length) (hlabel : Completes label' s) :
    Feeds graph state text (events ++ [.signal s]) (requestEnd s) := by
  subst hend
  have hequal {target : Label}
      (htarget : chooseCode [(0, Label.invokeAfterMessageComplete)] .pause1
        (if s.upgrade == 1 then 1 else 0) = target) :
      Reaches graph text ⟨.invokeOnMessageComplete2, 0, none, s, text.length⟩ [.signal s]
        ⟨target, 0, none, s, text.length⟩ := by
    have hsignal : Reaches graph text ⟨.invokeOnMessageComplete2, 0, none, s, text.length⟩
        [.signal s] ⟨.invokeIsEqualUpgrade, 0, none, s, text.length⟩ := .signal rfl rfl
    exact hsignal.trans (.invoke rfl rfl htarget)
  by_cases hupgrade : s.upgrade = 1
  · have hpause : Reaches graph text ⟨label', 0, none, s, text.length⟩ [.signal s]
        ⟨.pause1, 0, none, s, text.length⟩ := by
      rcases hlabel with ⟨rfl, _⟩ | ⟨_, hnot⟩ | rfl
      · exact .signal rfl rfl
      · exact absurd hupgrade hnot
      · exact hequal (by rw [hupgrade]; rfl)
    rw [requestEnd, if_pos hupgrade]
    exact .of_reaches_pause hok hcurrent (h.trans hpause) rfl
  · have hafter : Reaches graph text ⟨label', 0, none, s, text.length⟩ [.signal s]
        ⟨.invokeAfterMessageComplete, 0, none, s, text.length⟩ := by
      rcases hlabel with ⟨_, hyes⟩ | ⟨rfl, _⟩ | rfl
      · exact absurd hyes hupgrade
      · exact .signal rfl rfl
      · exact hequal (by rw [beq_eq_false_iff_ne.2 hupgrade]; rfl)
    have hstart : Reaches graph text ⟨.invokeAfterMessageComplete, 0, none, s, text.length⟩ []
        ⟨.start, 0, none, { s with flags := 0, finish := 0 }, text.length⟩ :=
      .invoke rfl rfl rfl
    rw [requestEnd, if_neg hupgrade]
    have hfeeds := Feeds.of_reaches hok hcurrent ((h.trans hafter).trans hstart) rfl
    rwa [List.append_nil] at hfeeds

section Body

variable {state : State Label Store Span} {s : Store} {owed : List (Event Span Store)}
  {framing : Framing}

/-- What the parser holds at the end of the headers. -/
structure Framed (framing : Framing) (s : Store) : Prop where
  flags : s.flags &&& 232 = framing.flags
  contentLength : s.contentLength.toNat = framing.contentLength
  method : s.method ≠ 5

theorem Framed.hasFlags_eq (h : Framed framing s) (bits : UInt8) (hbits : bits = 232 &&& bits) :
    hasFlags bits s = (framing.flags &&& bits == bits) := by
  rw [hasFlags, ← h.flags, UInt8.and_assoc, ← hbits]

theorem Framing.flags_cases (framing : Framing) :
    framing.flags = 0 ∨ framing.flags = 32 ∨ framing.flags = 8 := by
  cases framing with
  | none => exact Or.inl rfl
  | length field => exact Or.inr (Or.inl rfl)
  | chunked field => exact Or.inr (Or.inr rfl)

/-- With the end of the headers the parser knows whether there is an upgrade. -/
def withUpgrade (s : Store) : Store :=
  { s with upgrade := if hasFlags 16 s && hasFlags 4 s then 1 else 0 }

theorem Framed.reaches_test (h : Framed framing s) (text : Bytes) (p : Nat) :
    Reaches graph text ⟨.invokeTestFlags, 0, none, s, p⟩ []
      ⟨.invokeAfterHeadersComplete, 0, none, withUpgrade s, p⟩ := by
  have htrailing : hasFlags 128 s = false := by
    rw [h.hasFlags_eq 128 rfl]
    rcases framing.flags_cases with hflags | hflags | hflags <;> rw [hflags] <;> rfl
  have hboth : hasFlags 40 s = false := by
    rw [h.hasFlags_eq 40 rfl]
    rcases framing.flags_cases with hflags | hflags | hflags <;> rw [hflags] <;> rfl
  have hfirst : Reaches graph text ⟨.invokeTestFlags, 0, none, s, p⟩ []
      ⟨.invokeTestFlags1, 0, none, s, p⟩ :=
    .invoke rfl rfl (by change chooseCode _ _ (if hasFlags 128 s then 1 else 0) = _; rw [htrailing]; rfl)
  have hsecond : Reaches graph text ⟨.invokeTestFlags1, 0, none, s, p⟩ []
      ⟨.invokeBeforeHeadersComplete, 0, none, s, p⟩ :=
    .invoke rfl rfl (by change chooseCode _ _ (if hasFlags 40 s then 1 else 0) = _; rw [hboth]; rfl)
  have hbefore : (beforeHeadersComplete s).1 = withUpgrade s := by
    rw [beforeHeadersComplete, withUpgrade]
    split
    · rfl
    · rw [beq_eq_false_iff_ne.2 h.method]
      rfl
  have hthird : Reaches graph text ⟨.invokeBeforeHeadersComplete, 0, none, s, p⟩ []
      ⟨.invokeOnHeadersComplete, 0, none, withUpgrade s, p⟩ :=
    .invoke rfl hbefore rfl
  exact hfirst.silent_trans (hsecond.silent_trans (hthird.silent_trans (.invoke rfl rfl rfl)))

/-- Which way the parser goes behind the headers. -/
def Framing.code : Framing → Store → Nat
  | none, s => if s.upgrade = 1 then 1 else 0
  | length field, s => if field.body = [] then if s.upgrade = 1 then 1 else 0 else 3
  | chunked _, _ => 2

theorem Framed.code_eq (h : Framed framing s) :
    (afterHeadersComplete (withUpgrade s)).2 = framing.code (withUpgrade s) := by
  have hmethod : ((withUpgrade s).method == 5) = false := beq_eq_false_iff_ne.2 h.method
  have hflags (bits : UInt8) (hbits : bits = 232 &&& bits) :
      hasFlags bits (withUpgrade s) = (framing.flags &&& bits == bits) := h.hasFlags_eq bits hbits
  have hupgrade : ((withUpgrade s).upgrade != 0) = decide ((withUpgrade s).upgrade = 1) := by
    rw [withUpgrade]
    dsimp only
    split <;> rfl
  have hlength : (withUpgrade s).contentLength = UInt64.ofNat framing.contentLength := by
    rw [← h.contentLength]
    exact UInt64.ofNat_toNat.symm
  have h64 : hasFlags 64 (withUpgrade s) = false := by
    rw [hflags 64 rfl]
    rcases framing.flags_cases with hflags | hflags | hflags <;> rw [hflags] <;> rfl
  rw [afterHeadersComplete, hasBody, hmethod, h64, hflags 8 rfl, hflags 32 rfl, hupgrade, hlength,
    messageNeedsEof]
  cases framing with
  | none =>
      have hbits : Framing.none.flags = 0 := rfl
      rw [hbits, Framing.code, Framing.contentLength]
      by_cases hone : (withUpgrade s).upgrade = 1
      · simp [hone]
      · simp [hone]
  | length field =>
      have hbits : (Framing.length field).flags = 32 := rfl
      have h8 : ((32 : UInt8) &&& 8 == 8) = false := by decide
      rw [hbits, h8, Framing.code, Framing.contentLength]
      by_cases hnil : field.body = []
      · rw [hnil]
        by_cases hone : (withUpgrade s).upgrade = 1
        · simp [hone]
        · simp [hone]
      · have hne : UInt64.ofNat field.body.length ≠ 0 := by
          intro hzero
          have htoNat := congrArg UInt64.toNat hzero
          rw [UInt64.toNat_ofNat', Nat.mod_eq_of_lt field.body_lt] at htoNat
          exact hnil (List.eq_nil_of_length_eq_zero htoNat)
        have hpos : UInt64.ofNat field.body.length > 0 := UInt64.pos_iff_ne_zero.2 hne
        simp [hnil, hne, hpos]
  | chunked field =>
      have hbits : (Framing.chunked field).flags = 8 := rfl
      rw [hbits, Framing.code]
      simp

theorem AtLine.reaches_end (h : AtLine state s owed) :
    ∃ label store, state = ⟨some label, 0, none, store, 0⟩ ∧ ∀ rest,
      Reaches graph (13 :: 10 :: rest) ⟨label, 0, none, store, 0⟩ owed
        ⟨.invokeTestFlags, 0, none, s, 2⟩ := by
  obtain ⟨label, store, rfl, _, hstart⟩ := h
  refine ⟨label, store, rfl, fun rest => ?_⟩
  have hreturn : Reaches graph (13 :: 10 :: rest) ⟨.headerFieldStart, 0, none, s, 0⟩ []
      ⟨.headersAlmostDone, 0, none, s, 1⟩ := .advance rfl rfl rfl
  have hline : Reaches graph (13 :: 10 :: rest) ⟨.headersAlmostDone, 0, none, s, 1⟩ []
      ⟨.invokeTestFlags, 0, none, s, 2⟩ := .advance rfl rfl rfl
  rw [← List.append_nil owed]
  exact (hstart 13 (10 :: rest) (by decide) (by decide)).trans (hreturn.silent_trans hline)

/-! ### Chunks -/

theorem choose_hexDigits {byte : UInt8} (h : isHexDigit byte = true) (move : Nat → Move Label)
    (otherwise : Move Label) : choose (hexDigits move) otherwise byte = move (hexDigit byte) := by
  have hmem : ∀ byte, isHexDigit byte = true → byte ∈ ascii "0123456789ABCDEFabcdef" :=
    forall_byte (by decide +kernel)
  have hall : ∀ byte ∈ ascii "0123456789ABCDEFabcdef",
      choose (hexDigits move) otherwise byte = move (hexDigit byte) := by
    have hascii : ascii "0123456789ABCDEFabcdef" = [48, 49, 50, 51, 52, 53, 54, 55, 56, 57, 65, 66,
        67, 68, 69, 70, 97, 98, 99, 100, 101, 102] := by decide +kernel
    simp only [hascii, List.forall_mem_cons]
    repeat' constructor
    exact nofun
  exact hall byte (hmem byte h)

theorem adds_chunkSize : Adds .chunkSize .error4 16 hexDigit isHexDigit where
  base_pos := by decide
  node := by
    refine ⟨_, _, .invokeMulAddContentLength, rfl, fun _ => rfl, fun byte hbyte => ?_⟩
    have hsmall : ∀ byte, isHexDigit byte = true → hexDigit byte < 2 ^ 64 :=
      forall_byte (by decide +kernel)
    exact ⟨choose_hexDigits hbyte _ _, hsmall byte hbyte⟩

/-- The line of a chunk's size. -/
theorem reaches_chunkSize {size : Bytes} (rest : Bytes) {n : Nat}
    (hsize : ∀ byte ∈ size, isHexDigit byte = true) (hvalue : hexadecimal size = n)
    (hfits : n < 2 ^ 64) (hzero : s.contentLength = 0) :
    Reaches graph (size ++ 13 :: 10 :: rest) ⟨.chunkSize, 0, none, s, 0⟩ []
      ⟨.invokeIsEqualContentLength, 0, none, contentLength.set n s, size.length + 2⟩ := by
  have hnumber := adds_chunkSize.reaches hsize 0 none s
    (p := 0) (rfl : (size ++ 13 :: 10 :: rest).drop 0 = size ++ 13 :: 10 :: rest)
  rw [hzero] at hnumber
  change if hexadecimal size < 2 ^ 64 then Reaches graph _ _ []
    ⟨.chunkSize, 0, none, contentLength.set (hexadecimal size) s, 0 + size.length⟩ else _ at hnumber
  rw [hvalue, if_pos hfits, Nat.zero_add] at hnumber
  have hdrop : (size ++ 13 :: 10 :: rest).drop size.length = 13 :: 10 :: rest := List.drop_left
  have hdrop' : (size ++ 13 :: 10 :: rest).drop (size.length + [(13 : UInt8)].length) =
      10 :: rest := drop_of_drop hdrop
  have hother : Reaches graph (size ++ 13 :: 10 :: rest)
      ⟨.chunkSize, 0, none, contentLength.set n s, size.length⟩ []
      ⟨.chunkSizeOtherwise, 0, none, contentLength.set n s, size.length⟩ :=
    .goto rfl hdrop rfl
  have hreturn : Reaches graph (size ++ 13 :: 10 :: rest)
      ⟨.chunkSizeOtherwise, 0, none, contentLength.set n s, size.length⟩ []
      ⟨.chunkSizeAlmostDone, 0, none, contentLength.set n s, size.length + 1⟩ :=
    .advance rfl hdrop rfl
  have hline : Reaches graph (size ++ 13 :: 10 :: rest)
      ⟨.chunkSizeAlmostDone, 0, none, contentLength.set n s, size.length + 1⟩ []
      ⟨.invokeOnChunkHeader, 0, none, contentLength.set n s, size.length + 2⟩ :=
    .advance rfl hdrop' rfl
  exact hnumber.silent_trans (hother.silent_trans (hreturn.silent_trans (hline.silent_trans
    (.invoke rfl rfl rfl))))

/-- The bytes of a body, as many as the parser waits for. -/
theorem reaches_body {first consume last next : Label} {text body rest : Bytes} {p : Nat}
    (hfirst : graph.node first = .spanStart .onBody consume)
    (hconsume : graph.node consume = .consume contentLength last)
    (hlast : graph.node last = .spanEnd .onBody false next) (hne : body ≠ [])
    (hdrop : text.drop p = body ++ rest) (hlength : s.contentLength.toNat = body.length) :
    Reaches graph text ⟨first, 0, none, s, p⟩ [.fragment .onBody body]
      ⟨next, 0, none, contentLength.set 0 s, p + body.length⟩ := by
  have hopen : Reaches graph text ⟨first, 0, none, s, p⟩ []
      ⟨consume, 0, some (.onBody, p), s, p⟩ := by
    obtain ⟨byte, others, rfl⟩ := List.exists_cons_of_ne_nil hne
    exact .spanStart hfirst hdrop
  have htake : Reaches graph text ⟨consume, 0, some (.onBody, p), s, p⟩ []
      ⟨last, 0, some (.onBody, p), contentLength.set 0 s, p + body.length⟩ :=
    .consume hconsume hdrop hlength.symm
  have hslice : slice text p (p + body.length) = body := by
    rw [slice, List.drop_take, hdrop, Nat.add_sub_cancel_left, List.take_left]
  exact hopen.silent_trans (htake.silent_trans (.spanEnd hlast rfl hslice))

theorem feeds_chunk (chunk : ChunkText) (hzero : s.contentLength = 0) :
    Feeds graph ⟨some .chunkSize, 0, none, s, 0⟩ chunk.text [.fragment .onBody chunk.data]
      ⟨some .chunkSize, 0, none, s, 0⟩ := by
  have htext : chunk.text = chunk.size ++ 13 :: 10 :: (chunk.data ++ [13, 10]) := by
    simp [ChunkText.text]
  have hsize := reaches_chunkSize (chunk.data ++ [13, 10]) chunk.size_digit chunk.size_eq
    chunk.data_lt hzero
  rw [← htext] at hsize
  have hdrop : chunk.text.drop (chunk.size.length + 2) = chunk.data ++ [13, 10] := by
    rw [htext]
    simp
  have hdrop' := drop_of_drop hdrop
  have hdrop'' : chunk.text.drop
      (chunk.size.length + 2 + chunk.data.length + [(13 : UInt8)].length) = [10] :=
    drop_of_drop hdrop'
  have hlength := contentLength_set chunk.data_lt s
  have htest : Reaches graph chunk.text
      ⟨.invokeIsEqualContentLength, 0, none, contentLength.set chunk.data.length s,
        chunk.size.length + 2⟩ []
      ⟨.spanStartOnBody, 0, none, contentLength.set chunk.data.length s, chunk.size.length + 2⟩ := by
    refine .invoke rfl rfl ?_
    have hne : (contentLength.set chunk.data.length s).contentLength ≠ 0 := by
      intro hzero
      rw [hzero] at hlength
      exact chunk.data_ne_nil (List.eq_nil_of_length_eq_zero hlength.symm)
    change chooseCode _ _
      (if (contentLength.set chunk.data.length s).contentLength == 0 then 1 else 0) = _
    rw [beq_eq_false_iff_ne.2 hne]
    rfl
  have hbody : Reaches graph chunk.text
      ⟨.spanStartOnBody, 0, none, contentLength.set chunk.data.length s, chunk.size.length + 2⟩
      [.fragment .onBody chunk.data]
      ⟨.chunkDataAlmostDone, 0, none, contentLength.set 0 s,
        chunk.size.length + 2 + chunk.data.length⟩ :=
    reaches_body rfl rfl rfl chunk.data_ne_nil hdrop hlength
  have hreturn : Reaches graph chunk.text
      ⟨.chunkDataAlmostDone, 0, none, contentLength.set 0 s,
        chunk.size.length + 2 + chunk.data.length⟩ []
      ⟨.chunkDataAlmostDoneSkip, 0, none, contentLength.set 0 s,
        chunk.size.length + 2 + chunk.data.length + 1⟩ :=
    .advance rfl hdrop' rfl
  have hline : Reaches graph chunk.text
      ⟨.chunkDataAlmostDoneSkip, 0, none, contentLength.set 0 s,
        chunk.size.length + 2 + chunk.data.length + 1⟩ []
      ⟨.invokeOnChunkComplete, 0, none, contentLength.set 0 s,
        chunk.size.length + 2 + chunk.data.length + 2⟩ :=
    .advance rfl hdrop'' rfl
  have hsame : contentLength.set 0 s = s := by
    have hget := contentLength_set_get s
    rwa [hzero] at hget
  have hcode : Reaches graph chunk.text
      ⟨.invokeOnChunkComplete, 0, none, contentLength.set 0 s,
        chunk.size.length + 2 + chunk.data.length + 2⟩ []
      ⟨.invokeUpdateContentLength, 0, none, contentLength.set 0 s,
        chunk.size.length + 2 + chunk.data.length + 2⟩ :=
    .invoke rfl rfl rfl
  have hreset : Reaches graph chunk.text
      ⟨.invokeUpdateContentLength, 0, none, contentLength.set 0 s,
        chunk.size.length + 2 + chunk.data.length + 2⟩ []
      ⟨.chunkSize, 0, none, s, chunk.size.length + 2 + chunk.data.length + 2⟩ :=
    .invoke rfl hsame rfl
  have hall := hsize.silent_trans (htest.silent_trans (hbody.trans
    (hreturn.silent_trans (hline.silent_trans (hcode.silent_trans hreset)))))
  have hend : chunk.size.length + 2 + chunk.data.length + 2 = chunk.text.length := by
    rw [htext]
    simp
    omega
  rw [hend] at hall
  exact .of_reaches rfl rfl hall rfl

theorem feeds_chunks (chunks : List ChunkText) (hzero : s.contentLength = 0) :
    Feeds graph ⟨some .chunkSize, 0, none, s, 0⟩ (chunks.flatMap ChunkText.text)
      (chunks.map fun chunk => .fragment .onBody chunk.data) ⟨some .chunkSize, 0, none, s, 0⟩ := by
  induction chunks with
  | nil => exact .of_reaches rfl rfl (.refl _) rfl
  | cons chunk chunks ih =>
      rw [List.flatMap_cons, List.map_cons, ← List.singleton_append]
      exact (feeds_chunk chunk hzero).append ih

/-- The chunk without data, and no trailer behind it. -/
theorem feeds_lastChunk (hzero : s.contentLength = 0) :
    Feeds graph ⟨some .chunkSize, 0, none, s, 0⟩ (ascii "0\r\n\r\n")
      [.signal { s with flags := s.flags ||| 128 }]
      (requestEnd { s with flags := s.flags ||| 128 }) := by
  have htext : ascii "0\r\n\r\n" = [48, 13, 10, 13, 10] := by decide +kernel
  have hdigit : ∀ byte ∈ [(48 : UInt8)], isHexDigit byte = true := by decide +kernel
  have hsize : Reaches graph [48, 13, 10, 13, 10] ⟨.chunkSize, 0, none, s, 0⟩ []
      ⟨.invokeIsEqualContentLength, 0, none, s, 3⟩ := by
    have hreach := reaches_chunkSize [13, 10] hdigit rfl (by decide) hzero
    have hsame := contentLength_set_get s
    rw [hzero] at hsame
    rwa [show hexadecimal [48] = (0 : UInt64).toNat from rfl, hsame] at hreach
  have htest : Reaches graph [48, 13, 10, 13, 10] ⟨.invokeIsEqualContentLength, 0, none, s, 3⟩ []
      ⟨.invokeOrFlags, 0, none, s, 3⟩ := by
    refine .invoke rfl rfl ?_
    change chooseCode _ _ (if s.contentLength == 0 then 1 else 0) = _
    rw [hzero]
    rfl
  have hor : Reaches graph [48, 13, 10, 13, 10] ⟨.invokeOrFlags, 0, none, s, 3⟩ []
      ⟨.headerFieldStart, 0, none, { s with flags := s.flags ||| 128 }, 3⟩ := .invoke rfl rfl rfl
  have hreturn : Reaches graph [48, 13, 10, 13, 10]
      ⟨.headerFieldStart, 0, none, { s with flags := s.flags ||| 128 }, 3⟩ []
      ⟨.headersAlmostDone, 0, none, { s with flags := s.flags ||| 128 }, 4⟩ :=
    .advance rfl rfl rfl
  have hline : Reaches graph [48, 13, 10, 13, 10]
      ⟨.headersAlmostDone, 0, none, { s with flags := s.flags ||| 128 }, 4⟩ []
      ⟨.invokeTestFlags, 0, none, { s with flags := s.flags ||| 128 }, 5⟩ :=
    .advance rfl rfl rfl
  have htrailing : Reaches graph [48, 13, 10, 13, 10]
      ⟨.invokeTestFlags, 0, none, { s with flags := s.flags ||| 128 }, 5⟩ []
      ⟨.invokeOnChunkComplete1, 0, none, { s with flags := s.flags ||| 128 }, 5⟩ := by
    have hall : ∀ flags : UInt8, ((flags ||| 128) &&& 128 == 128) = true :=
      forall_byte (by decide +kernel)
    refine .invoke rfl rfl ?_
    change chooseCode _ _ (if (s.flags ||| 128) &&& 128 == 128 then 1 else 0) = _
    rw [hall]
    rfl
  have hcode : Reaches graph [48, 13, 10, 13, 10]
      ⟨.invokeOnChunkComplete1, 0, none, { s with flags := s.flags ||| 128 }, 5⟩ []
      ⟨.invokeOnMessageComplete2, 0, none, { s with flags := s.flags ||| 128 }, 5⟩ :=
    .invoke rfl rfl rfl
  rw [htext, ← List.nil_append [Event.signal _]]
  exact feeds_complete rfl rfl (hsize.silent_trans (htest.silent_trans (hor.silent_trans
    (hreturn.silent_trans (hline.silent_trans (htrailing.silent_trans hcode)))))) rfl
    (Or.inr (Or.inr rfl))

/-! ### All bodies -/

/-- What is reported of the body. -/
def Framing.events : Framing → List (Event Span Store)
  | none => []
  | length field => if field.body = [] then [] else [.fragment .onBody field.body]
  | chunked field => field.chunks.map fun chunk => .fragment .onBody chunk.data

/-- From the end of the headers to the end of the request. -/
theorem feeds_body (h : Framed framing s) (hline : AtLine state s owed) :
    ∃ s', Feeds graph state ([13, 10] ++ framing.body)
        (owed ++ framing.events ++ [.signal s']) (requestEnd s') ∧
      s'.upgrade = (withUpgrade s).upgrade ∧ s'.method = s.method ∧ s'.contentLength = 0 := by
  obtain ⟨label, store, rfl, hreach⟩ := hline.reaches_end
  have hcode := h.code_eq
  have hlength := h.contentLength
  have hempty (hzero : s.contentLength.toNat = 0) : s.contentLength = 0 := UInt64.toNat_inj.1 hzero
  have hafter {target : Label} (htarget : chooseCode [(1, .invokeOnMessageComplete1),
      (2, .invokeUpdateContentLength), (3, .spanStartOnBody1), (4, .spanStartOnBody2)]
      .invokeOnMessageComplete (framing.code (withUpgrade s)) = target) (rest : Bytes) :
      Reaches graph (13 :: 10 :: rest) ⟨label, 0, none, store, 0⟩ owed
        ⟨target, 0, none, withUpgrade s, 2⟩ := by
    have hstore : (afterHeadersComplete (withUpgrade s)).1 = withUpgrade s := by
      rw [afterHeadersComplete]
      repeat' split
      all_goals rfl
    have hgoes : Reaches graph (13 :: 10 :: rest)
        ⟨.invokeAfterHeadersComplete, 0, none, withUpgrade s, 2⟩ []
        ⟨target, 0, none, withUpgrade s, 2⟩ := .invoke rfl hstore (hcode ▸ htarget)
    rw [← List.append_nil owed]
    exact (hreach rest).trans ((h.reaches_test _ 2).silent_trans hgoes)
  -- nothing behind the headers
  have hdone (hcodes : framing.code (withUpgrade s) =
      if (withUpgrade s).upgrade = 1 then 1 else 0) :
      Feeds graph ⟨some label, 0, none, store, 0⟩ [13, 10] (owed ++ [.signal (withUpgrade s)])
        (requestEnd (withUpgrade s)) := by
    rw [hcodes] at hafter
    by_cases hone : (withUpgrade s).upgrade = 1
    · rw [if_pos hone] at hafter
      exact feeds_complete rfl rfl (hafter rfl []) rfl (Or.inl ⟨rfl, hone⟩)
    · rw [if_neg hone] at hafter
      exact feeds_complete rfl rfl (hafter rfl []) rfl (Or.inr (Or.inl ⟨rfl, hone⟩))
  cases framing with
  | none =>
      refine ⟨withUpgrade s, ?_, rfl, rfl, hempty hlength⟩
      have hfeeds := hdone rfl
      rwa [Framing.events, List.append_nil]
  | length field =>
      by_cases hnil : field.body = []
      · refine ⟨withUpgrade s, ?_, rfl, rfl, hempty (hlength.trans (congrArg List.length hnil))⟩
        have hfeeds := hdone (by rw [Framing.code, if_pos hnil])
        rwa [Framing.events, if_pos hnil, List.append_nil, Framing.body, hnil]
      · refine ⟨contentLength.set 0 (withUpgrade s), ?_, rfl, rfl, rfl⟩
        rw [Framing.code, if_neg hnil] at hafter
        have hbody : Reaches graph (13 :: 10 :: field.body)
            ⟨.spanStartOnBody1, 0, none, withUpgrade s, 2⟩ [.fragment .onBody field.body]
            ⟨.invokeOnMessageComplete2, 0, none, contentLength.set 0 (withUpgrade s),
              2 + field.body.length⟩ :=
          reaches_body rfl rfl rfl hnil (List.append_nil field.body).symm hlength
        rw [Framing.events, if_neg hnil]
        exact feeds_complete rfl rfl ((hafter rfl _).trans hbody) (Nat.add_comm 2 _)
          (Or.inr (Or.inr rfl))
  | chunked field =>
      have hzero : (withUpgrade s).contentLength = 0 := hempty hlength
      refine ⟨{ withUpgrade s with flags := (withUpgrade s).flags ||| 128 }, ?_, rfl, rfl, hzero⟩
      have hreset : Reaches graph [13, 10] ⟨.invokeUpdateContentLength, 0, none, withUpgrade s, 2⟩ []
          ⟨.chunkSize, 0, none, withUpgrade s, 2⟩ :=
        .invoke rfl (congrArg (fun n => ({ withUpgrade s with contentLength := n } : Store))
          hzero.symm) rfl
      have hchunks : Feeds graph ⟨some label, 0, none, store, 0⟩ [13, 10] (owed ++ [])
          ⟨some .chunkSize, 0, none, withUpgrade s, 0⟩ :=
        .of_reaches rfl rfl ((hafter rfl []).trans hreset) rfl
      rw [List.append_nil] at hchunks
      have hfeeds := (hchunks.append (feeds_chunks field.chunks hzero)).append (feeds_lastChunk hzero)
      rwa [List.append_assoc [13, 10]] at hfeeds

end Body

/-! ## Requests in a row -/

section Requests

variable {s : Store}

/-- All header lines of a request. -/
theorem takesLines_request (request : RequestText) (hflags : s.flags = 0)
    (hzero : s.contentLength = 0) (hmethod : s.method ≠ 5) :
    ∃ s', TakesLines (request.lines.flatMap FieldText.text)
        (request.lines.flatMap FieldText.events) s s' ∧
      Framed request.framing s' ∧ s'.method = s.method ∧
        (hasFlags 16 s' && hasFlags 4 s') = request.upgrade := by
  obtain ⟨hmask, hupgrade, hconnection⟩ := plainFlags_bits request.fields
  obtain ⟨hmask', hupgrade', hconnection'⟩ := plainFlags_bits request.later
  obtain ⟨state, hfields⟩ := takesLines_plain s request.fields
  rw [hflags, UInt8.zero_or] at hfields
  have hlength : hasFlags 32 { s with flags := plainFlags request.fields, headerState := state } =
      false := by
    change (plainFlags request.fields &&& (232 &&& 32) == 32) = false
    rw [← UInt8.and_assoc, hmask]
    rfl
  obtain ⟨state', hframing⟩ := takesLines_framing
    { s with flags := plainFlags request.fields, headerState := state } request.framing hlength hzero
  obtain ⟨state'', hlater⟩ := takesLines_plain (contentLength.set request.framing.contentLength
    { s with flags := plainFlags request.fields ||| request.framing.flags, headerState := state' })
    request.later
  refine ⟨_, ?_, ⟨?_, contentLength_set (n := request.framing.contentLength) ?_
    { s with
      flags := (plainFlags request.fields ||| request.framing.flags) ||| plainFlags request.later
      headerState := state'' }, hmethod⟩, rfl, ?_⟩
  · rw [RequestText.lines, List.flatMap_append, List.flatMap_append, List.flatMap_append,
      List.flatMap_append]
    exact (hfields.append hframing).append hlater
  · change ((plainFlags request.fields ||| request.framing.flags) ||| plainFlags request.later) &&&
      232 = request.framing.flags
    rw [or_and, or_and, hmask, hmask', UInt8.zero_or, UInt8.or_zero]
    rcases request.framing.flags_cases with h | h | h <;> rw [h] <;> rfl
  · cases hf : request.framing with
    | none => exact Nat.two_pow_pos 64
    | length field => exact field.body_lt
    | chunked field => exact Nat.two_pow_pos 64
  · change (((plainFlags request.fields ||| request.framing.flags) ||| plainFlags request.later) &&&
        16 == 16 && ((plainFlags request.fields ||| request.framing.flags) |||
          plainFlags request.later) &&& 4 == 4) = request.upgrade
    have hframed : (request.framing.flags &&& 16 == 16) = false ∧
        (request.framing.flags &&& 4 == 4) = false := by
      rcases request.framing.flags_cases with h | h | h <;> rw [h] <;> exact ⟨rfl, rfl⟩
    rw [beq_or (Or.inr rfl), beq_or (Or.inr rfl), beq_or (Or.inl rfl), beq_or (Or.inl rfl),
      hframed.1, hframed.2, hupgrade, hconnection, hupgrade', hconnection', Bool.or_false,
      Bool.or_false, RequestText.upgrade, List.any_append, List.any_append]

/-- No callback is set for a body. -/
theorem callbacks_body (framing : Framing) : framing.events.flatMap callbacks = [] := by
  cases framing with
  | none => rfl
  | length field =>
      rw [Framing.events]
      split <;> rfl
  | chunked field =>
      rw [Framing.events, List.flatMap_map]
      exact List.flatMap_eq_nil_iff.2 fun _ _ => rfl

theorem callbacks_lines (lines : List FieldText) :
    (lines.flatMap FieldText.events).flatMap callbacks =
      (lines.map FieldText.line).flatMap HeaderLine.callbacks := by
  rw [List.flatMap_assoc, List.flatMap_map]
  rfl

/-- A request between two others: the parser reports it, and is at a start again or pauses. -/
theorem feeds_request (request : RequestText) (hflags : s.flags = 0) (hzero : s.contentLength = 0) :
    ∃ m events, Feeds graph (startState s) request.text events (requestEnd m) ∧
      events.flatMap callbacks = request.request.callbacks ∧ m.contentLength = 0 ∧
        m.upgrade = if request.upgrade then 1 else 0 := by
  have hmethods : ∀ method ∈ methods, method.2 ≠ 5 := by decide
  have hmethod := hmethods _ request.method_mem
  have hline := (feeds_method request.method_mem s).append (feeds_url request.url
    { s with finish := 2, method := request.method.2 } hmethod)
  obtain ⟨s', hlines, hframed, hsame, hupgrade⟩ := takesLines_request
    (s := { s with finish := 2, method := request.method.2, httpMajor := 1, httpMinor := 1 })
    request hflags hzero hmethod
  obtain ⟨state, owed, reported, hheaders, hat, howed⟩ := hlines _ [] (atLine_fieldStart _)
  obtain ⟨m, hbody, hm, hmm, hmzero⟩ := feeds_body hframed hat
  rw [List.nil_append] at howed
  have hfeeds := (hline.append hheaders).append hbody
  have htext : request.method.1 ++ [32] ++ (request.url.text ++ ascii " HTTP/1.1\r\n") ++
      request.lines.flatMap FieldText.text ++ ([13, 10] ++ request.framing.body) = request.text := by
    simp only [RequestText.text, List.append_assoc]
  rw [htext] at hfeeds
  refine ⟨m, _, hfeeds, ?_, hmzero, ?_⟩
  · -- the fragments that are owed when the headers end belong to the last line
    have hsplit : [] ++ [.fragment .onUrl request.url.text] ++ reported ++
        (owed ++ request.framing.events ++ [.signal m]) =
          [.fragment .onUrl request.url.text] ++ (reported ++ owed) ++
            (request.framing.events ++ [Event.signal m]) := by
      simp only [List.nil_append, List.append_assoc]
    have hget : m.method = request.method.2 := hmm.trans hsame
    have hasks : (m.upgrade != 0) = request.upgrade := by
      rw [hm, withUpgrade, hupgrade]
      cases request.upgrade <;> rfl
    rw [hsplit, howed, List.flatMap_append, List.flatMap_append, List.flatMap_append,
      callbacks_lines, callbacks_body, List.flatMap_singleton, List.flatMap_singleton, callbacks,
      callbacks, hasks, hget]
    rfl
  · rw [hm, withUpgrade, hupgrade]

/-- Only the last request may ask for an upgrade: the parser pauses behind it. -/
theorem feeds_requests (requests : List RequestText)
    (hplain : ∀ request ∈ requests.dropLast, request.upgrade = false) (hflags : s.flags = 0)
    (hzero : s.contentLength = 0) :
    ∃ s' events, Feeds graph (startState s) (requests.flatMap RequestText.text) events s' ∧
      events.flatMap callbacks =
        requests.flatMap (fun request => request.request.callbacks) ∧
      ((∃ m, s' = startState m ∧ m.flags = 0 ∧ m.contentLength = 0) ∨
        (∃ m, s' = pausedState m) ∧ ∃ request ∈ requests, request.upgrade = true) := by
  induction requests generalizing s with
  | nil => exact ⟨_, [], .of_reaches rfl rfl (.refl _) rfl, rfl, Or.inl ⟨s, rfl, hflags, hzero⟩⟩
  | cons request requests ih =>
      obtain ⟨m, events, hfeeds, hevents, hmzero, hupgrade⟩ := feeds_request request hflags hzero
      have hend (hno : request.upgrade = false) :
          requestEnd m = startState { m with flags := 0, finish := 0 } := by
        rw [hno] at hupgrade
        exact if_neg (by rw [hupgrade]; decide)
      rw [List.flatMap_cons, List.flatMap_cons]
      cases requests with
      | nil =>
          refine ⟨requestEnd m, events, ?_, ?_, ?_⟩
          · rw [List.flatMap_nil, List.append_nil]
            exact hfeeds
          · rw [hevents, List.flatMap_nil, List.append_nil]
          · cases hasks : request.upgrade with
            | false => exact Or.inl ⟨_, hend hasks, rfl, hmzero⟩
            | true =>
                rw [hasks] at hupgrade
                exact Or.inr ⟨⟨m, if_pos hupgrade⟩, request, List.mem_cons_self, hasks⟩
      | cons second requests =>
          rw [List.dropLast_cons_cons] at hplain
          obtain ⟨hfirst, hrest⟩ := List.forall_mem_cons.1 hplain
          rw [hend hfirst] at hfeeds
          obtain ⟨s', events', hfeeds', hevents', hs'⟩ :=
            ih (s := { m with flags := 0, finish := 0 }) hrest rfl hmzero
          refine ⟨s', events ++ events', hfeeds.append hfeeds', ?_, hs'.imp_right ?_⟩
          · rw [List.flatMap_append, hevents, hevents']
          · rintro ⟨hpaused, asking, hmem, hasks⟩
            exact ⟨hpaused, asking, List.mem_cons_of_mem request hmem, hasks⟩

end Requests

end Llhttp
end Inspector
end V8JsiRuntime
