import V8JsiRuntime.Lib.ParserGraph
import V8JsiRuntime.Inspector.Utils

/-!
# Llhttp — the HTTP parser

The part of `llhttp` that reads requests, as a graph of nodes under the labels of `llhttp.c`.  The
handler makes its parser for requests, and its callbacks return 0, so the nodes that read responses
or take up a callback's error are not there.
-/

namespace V8JsiRuntime
namespace Inspector
namespace Llhttp

open Lib

/-! ## The parser's own data -/

/-- The fields of `llhttp__internal_t` besides those that every generated parser has. -/
structure Store where
  contentLength : UInt64
  method : UInt8
  httpMajor : UInt8
  httpMinor : UInt8
  headerState : UInt8
  flags : UInt8
  upgrade : UInt8
  finish : UInt8
  deriving DecidableEq, Repr

/-- After `llhttp_init`. -/
def Store.init : Store :=
  ⟨0, 0, 0, 0, 0, 0, 0, 0⟩

/-- The callbacks that take a text. -/
inductive Span
  | onUrl
  | onHeaderField
  | onHeaderValue
  | onBody
  deriving DecidableEq, Repr

/-! ### Code on the data

What a function returns comes second. -/

def setFlags (bits : UInt8) (s : Store) : Store × Nat :=
  ({ s with flags := s.flags ||| bits }, 0)

def hasFlags (bits : UInt8) (s : Store) : Bool :=
  s.flags &&& bits == bits

def test (p : Store → Bool) (s : Store) : Store × Nat :=
  (s, if p s then 1 else 0)

def setHeaderState (state : UInt8) (s : Store) : Store × Nat :=
  ({ s with headerState := state }, 0)

/-- A callback that is not set. -/
def noCallback (s : Store) : Store × Nat :=
  (s, 0)

/-- `content_length * base + value`, or 1 if it does not fit. -/
def mulAdd (base : UInt64) (value : Nat) (s : Store) : Store × Nat :=
  if s.contentLength > 0xffffffffffffffff / base then
    (s, 1)
  else if s.contentLength * base > 0xffffffffffffffff - UInt64.ofNat value then
    ({ s with contentLength := s.contentLength * base }, 1)
  else
    ({ s with contentLength := s.contentLength * base + UInt64.ofNat value }, 0)

def updateFinish (s : Store) : Store × Nat := ({ s with finish := 2 }, 0)

def updateFinish1 (s : Store) : Store × Nat := ({ s with finish := 1 }, 0)

def onMessageBegin : Store → Store × Nat := noCallback

def onHeadersComplete : Store → Store × Nat := noCallback

def onChunkHeader : Store → Store × Nat := noCallback

def onChunkComplete : Store → Store × Nat := noCallback

/-- `HTTP_REQUEST`, as given to `llhttp_init`. -/
def loadType (s : Store) : Store × Nat := (s, 1)

def storeMethod (value : Nat) (s : Store) : Store × Nat :=
  ({ s with method := UInt8.ofNat value }, 0)

def isEqualMethod : Store → Store × Nat := test fun s => s.method == 5

def isEqualMethod1 : Store → Store × Nat := test fun s => s.method == 33

def updateHttpMajor (s : Store) : Store × Nat := ({ s with httpMajor := 0 }, 0)

def updateHttpMinor (s : Store) : Store × Nat := ({ s with httpMinor := 9 }, 0)

def storeHttpMajor (value : Nat) (s : Store) : Store × Nat :=
  ({ s with httpMajor := UInt8.ofNat value }, 0)

def storeHttpMinor (value : Nat) (s : Store) : Store × Nat :=
  ({ s with httpMinor := UInt8.ofNat value }, 0)

def testFlags : Store → Store × Nat := test (hasFlags 128)

def testFlags1 : Store → Store × Nat := test (hasFlags 40)

def testFlags2 : Store → Store × Nat := test (hasFlags 32)

def orFlags : Store → Store × Nat := setFlags 128

def orFlags3 : Store → Store × Nat := setFlags 1

def orFlags4 : Store → Store × Nat := setFlags 2

def orFlags5 : Store → Store × Nat := setFlags 4

def orFlags6 : Store → Store × Nat := setFlags 8

def orFlags15 : Store → Store × Nat := setFlags 32

def orFlags16 : Store → Store × Nat := setFlags 16

def storeHeaderState (value : Nat) : Store → Store × Nat := setHeaderState (UInt8.ofNat value)

def loadHeaderState (s : Store) : Store × Nat := (s, s.headerState.toNat)

def updateHeaderState : Store → Store × Nat := setHeaderState 1

def updateHeaderState2 : Store → Store × Nat := setHeaderState 6

def updateHeaderState4 : Store → Store × Nat := setHeaderState 0

def updateHeaderState5 : Store → Store × Nat := setHeaderState 5

def updateHeaderState6 : Store → Store × Nat := setHeaderState 7

def updateHeaderState8 : Store → Store × Nat := setHeaderState 8

def updateContentLength (s : Store) : Store × Nat := ({ s with contentLength := 0 }, 0)

/-- The size of a chunk. -/
def mulAddContentLength : Nat → Store → Store × Nat := mulAdd 16

def mulAddContentLength1 : Nat → Store → Store × Nat := mulAdd 10

def isEqualContentLength : Store → Store × Nat := test fun s => s.contentLength == 0

def isEqualUpgrade : Store → Store × Nat := test fun s => s.upgrade == 1

/-- `llhttp__before_headers_complete`. -/
def beforeHeadersComplete (s : Store) : Store × Nat :=
  if hasFlags 16 s && hasFlags 4 s then
    ({ s with upgrade := 1 }, 0)
  else
    ({ s with upgrade := if s.method == 5 then 1 else 0 }, 0)

/-- `llhttp_message_needs_eof`: a request does not. -/
def messageNeedsEof (_ : Store) : Bool := false

def hasBody (s : Store) : Bool := hasFlags 8 s || s.contentLength > 0

/-- `llhttp__after_headers_complete`. -/
def afterHeadersComplete (s : Store) : Store × Nat :=
  if s.upgrade != 0 && (s.method == 5 || hasFlags 64 s || !hasBody s) then
    (s, 1)
  else if hasFlags 64 s then
    (s, 0)
  else if hasFlags 8 s then
    (s, 2)
  else if !hasFlags 32 s then
    (s, if messageNeedsEof s then 4 else 0)
  else
    (s, if s.contentLength == 0 then 0 else 3)

/-- `llhttp_should_keep_alive`. -/
def shouldKeepAlive (s : Store) : Bool :=
  if s.httpMajor > 0 && s.httpMinor > 0 then
    !hasFlags 2 s && !messageNeedsEof s
  else
    hasFlags 1 s && !messageNeedsEof s

/-- `llhttp__after_message_complete`: the content length stays as it is. -/
def afterMessageComplete (s : Store) : Store × Nat :=
  ({ s with flags := 0, finish := 0 }, if shouldKeepAlive s then 1 else 0)

/-- `content_length` as the number of bytes that are left. -/
def contentLength : ParserGraph.Counter Store where
  get s := s.contentLength.toNat
  set n s := { s with contentLength := UInt64.ofNat n }
  get_set n s h := by
    have hlt : n < 2 ^ 64 := Nat.lt_of_le_of_lt h s.contentLength.toNat_lt
    simpa using Nat.mod_eq_of_lt hlt
  set_set _ _ _ := rfl

/-! ## Bytes -/

def is (c : Char) (byte : UInt8) : Bool := byte == c.toUInt8

/-- A case on `(*p) | 0x20`. -/
def isLower (c : Char) (byte : UInt8) : Bool := byte ||| 0x20 == c.toUInt8

/-- `llparse__match_sequence_to_lower_unsafe`. -/
def toLowerUnsafe (byte : UInt8) : UInt8 := byte ||| 0x20

def within (ranges : List (UInt8 × UInt8)) (byte : UInt8) : Bool :=
  ranges.any fun range => range.1 ≤ byte && byte ≤ range.2

/-! The lookup tables, as the ranges of their entries. -/

def isBlank : UInt8 → Bool := within [(10, 10), (13, 13), (32, 32)]

def isStarOrSlash : UInt8 → Bool := within [(42, 42), (47, 47)]

def isAlpha : UInt8 → Bool := within [(65, 90), (97, 122)]

def isPathByte : UInt8 → Bool :=
  within [(9, 9), (12, 12), (33, 34), (36, 62), (64, 123), (125, 126), (128, 255)]

def isQueryByte : UInt8 → Bool :=
  within [(9, 9), (12, 12), (33, 34), (36, 123), (125, 126), (128, 255)]

def isFragmentByte : UInt8 → Bool :=
  within [(9, 9), (12, 12), (33, 123), (125, 126), (128, 255)]

def isServerByte : UInt8 → Bool :=
  within [(33, 33), (36, 46), (48, 59), (61, 61), (65, 91), (93, 93), (95, 95), (97, 122),
    (126, 126)]

def isFieldByte : UInt8 → Bool :=
  within [(32, 33), (35, 39), (42, 43), (45, 46), (48, 57), (65, 90), (94, 122), (124, 124),
    (126, 126)]

def isValueByte : UInt8 → Bool := within [(9, 9), (32, 126), (128, 254)]

def isConnectionByte : UInt8 → Bool := within [(9, 9), (32, 43), (45, 126), (128, 254)]

/-! ## Labels -/

/-- `llparse_state_t`, with the labels at which the parser does not stop; a label with a value is
reached with this value in `match`. -/
inductive Label
  | start | invokeUpdateFinish | invokeOnMessageBegin | invokeLoadType | startReq | startReq1
  | invokeStoreMethod1 (value : Nat) | reqFirstSpaceBeforeUrl | reqSpacesBeforeUrl
  | invokeIsEqualMethod | error34 | error42 | startReq2 | startReq3 | startReq4 | startReq5
  | startReq6 | startReq7 | startReq8 | startReq9 | startReq10 | startReq11 | startReq12
  | startReq13 | startReq14 | startReq15 | startReq16 | startReq17 | startReq18 | startReq19
  | startReq20 | startReq21 | startReq22 | startReq23 | startReq24 | startReq25 | startReq26
  | startReq27 | startReq28 | startReq29 | startReq30 | startReq31 | startReq32 | startReq33
  | startReq34 | startReq35 | startReq36 | startReq37 | startReq38 | startReq39 | startReq40
  | startReq41 | startReq42 | startReq43 | startReq44 | startReq45 | startReq46 | startReq47
  | startReq48 | startReq49
  | spanStartOnUrl1 | urlStart | error30 | spanStartStubPath2 | urlPath | urlQueryOrFragment
  | spanEndOnUrl3 | spanEndOnUrl4 | spanEndOnUrl5 | urlFragment | spanEndOnUrl6 | spanEndOnUrl7
  | spanEndOnUrl8 | error24 | urlQuery | spanEndOnUrl9 | spanEndOnUrl10 | spanEndOnUrl11
  | spanEndStubQuery3 | error25 | error26 | urlSchema | spanEndStubSchema | urlSchemaDelim
  | urlSchemaDelim1 | urlServer | spanEndOnUrl | spanEndOnUrl1 | spanEndOnUrl2 | spanStartStubPath
  | urlServerWithAt | spanEndOnUrl12 | spanEndOnUrl13 | spanEndOnUrl14 | spanStartStubPath1
  | error27 | error28 | error29 | error31 | error32 | error33 | spanStartOnUrl
  | urlSkipToHttp09 | invokeUpdateHttpMajor | invokeUpdateHttpMinor | urlSkipLfToHttp09 | error17
  | urlSkipToHttp | reqHttpStart | reqHttpStart1 | reqHttpMajor
  | invokeStoreHttpMajor (value : Nat) | reqHttpDot | reqHttpMinor
  | invokeStoreHttpMinor (value : Nat) | reqHttpEnd | reqHttpEnd1 | error18 | error19 | error20
  | error21 | error23 | reqHttpStart2 | invokeIsEqualMethod1 | error22
  | headerFieldStart | spanStartOnHeaderField | headerField | headerField1 | headerField2
  | headerField3 | invokeStoreHeaderState (value : Nat) | headerFieldColon | spanEndOnHeaderField
  | invokeUpdateHeaderState9 | headerFieldGeneral | headerFieldGeneralOtherwise
  | spanEndOnHeaderField1 | error16 | invokeUpdateHeaderState10 | headerField4 | headerField5
  | headerField6 | headerField7
  | headerValueDiscardWs | headerValueDiscardLws | invokeLoadHeaderState | invokeOrFlags3
  | invokeUpdateHeaderState | spanStartOnHeaderValue | spanEndOnHeaderValue | invokeOrFlags4
  | invokeOrFlags5 | invokeOrFlags6 | headerValueDiscardWsAlmostDone | spanStartOnHeaderValue1
  | invokeLoadHeaderState1 | headerValueConnection | headerValueConnection1
  | invokeUpdateHeaderState2 | headerValueConnectionWs | headerValueOtherwise
  | spanEndOnHeaderValue1 | headerValueAlmostDone | headerValueLws | invokeLoadHeaderState2
  | invokeOrFlags7 | invokeUpdateHeaderState1 | invokeOrFlags8 | invokeOrFlags9 | invokeOrFlags10
  | error11 | spanEndOnHeaderValue2 | error12 | invokeLoadHeaderState3 | invokeOrFlags11
  | invokeUpdateHeaderState3 | invokeOrFlags12 | invokeOrFlags13 | invokeOrFlags14
  | invokeUpdateHeaderState4 | headerValueConnectionToken | headerValueConnection2
  | invokeUpdateHeaderState5 | headerValueConnection3 | invokeUpdateHeaderState6 | invokeTestFlags2
  | headerValueContentLength | invokeMulAddContentLength1 (value : Nat) | spanEndOnHeaderValue3
  | error14 | headerValueContentLengthWs | invokeOrFlags15 | headerValueDiscardRws
  | invokeUpdateHeaderState7 | headerValue | spanEndOnHeaderValue4 | error15 | error13
  | headerValueTeChunked | headerValueTeChunked1 | invokeUpdateHeaderState8 | invokeOrFlags16
  | headersAlmostDone | invokeTestFlags | invokeTestFlags1 | error9 | invokeBeforeHeadersComplete
  | invokeOnHeadersComplete | invokeAfterHeadersComplete
  | invokeUpdateContentLength | chunkSize | invokeMulAddContentLength (value : Nat) | error4
  | chunkSizeOtherwise | chunkSizeAlmostDone | invokeOnChunkHeader | invokeIsEqualContentLength
  | spanStartOnBody | consumeContentLength | spanEndOnBody | chunkDataAlmostDone
  | chunkDataAlmostDoneSkip | invokeOnChunkComplete | invokeOrFlags | chunkParameters | error7
  | spanStartOnBody1 | consumeContentLength1 | spanEndOnBody1 | spanStartOnBody2
  | invokeUpdateFinish1 | eof
  | invokeOnChunkComplete1 | invokeOnMessageComplete2 | invokeIsEqualUpgrade
  | invokeAfterMessageComplete | pause1 | invokeOnMessageComplete1 | invokeOnMessageComplete

/-- The cases `'0'` to `'9'`. -/
def digits (move : Nat → ParserGraph.Move Label) :
    List ((UInt8 → Bool) × ParserGraph.Move Label) :=
  (List.range 10).map fun value => (is (Char.ofNat (48 + value)), move value)

/-- The cases of the hexadecimal digits, `'A'` to `'F'` before `'a'` to `'f'`. -/
def hexDigits (move : Nat → ParserGraph.Move Label) :
    List ((UInt8 → Bool) × ParserGraph.Move Label) :=
  digits move ++
    ((List.range 6).map fun value => (is (Char.ofNat (65 + value)), move (10 + value))) ++
    (List.range 6).map fun value => (is (Char.ofNat (97 + value)), move (10 + value))

/-! ## Nodes -/

/-- `on_message_complete` is called with the parser as it is. -/
def node : Label → ParserGraph.Node Label Store Span Store
  -- the method
  | .start =>
      .switch [(is '\n', .advance .start), (is '\r', .advance .start)] (.goto .invokeUpdateFinish)
  | .invokeUpdateFinish => .invoke updateFinish [] .invokeOnMessageBegin
  | .invokeOnMessageBegin => .invoke onMessageBegin [] .invokeLoadType
  | .invokeLoadType => .invoke loadType [] .startReq
  | .startReq =>
      .switch [(is 'A', .advance .startReq1), (is 'B', .advance .startReq2),
        (is 'C', .advance .startReq3), (is 'D', .advance .startReq8), (is 'G', .advance .startReq9),
        (is 'H', .advance .startReq10), (is 'L', .advance .startReq11),
        (is 'M', .advance .startReq14), (is 'N', .advance .startReq23),
        (is 'O', .advance .startReq24), (is 'P', .advance .startReq25),
        (is 'R', .advance .startReq34), (is 'S', .advance .startReq38),
        (is 'T', .advance .startReq42), (is 'U', .advance .startReq43)] (.goto .error42)
  | .startReq1 => .sequence id (ascii "CL") (.invokeStoreMethod1 19) .error42
  | .invokeStoreMethod1 value => .invoke (storeMethod value) [] .reqFirstSpaceBeforeUrl
  | .reqFirstSpaceBeforeUrl => .switch [(is ' ', .advance .reqSpacesBeforeUrl)] (.goto .error34)
  | .reqSpacesBeforeUrl =>
      .switch [(is ' ', .advance .reqSpacesBeforeUrl)] (.goto .invokeIsEqualMethod)
  | .invokeIsEqualMethod => .invoke isEqualMethod [(0, .spanStartOnUrl1)] .spanStartOnUrl
  | .error34 => .error 6
  | .error42 => .error 6
  | .startReq2 => .sequence id (ascii "IND") (.invokeStoreMethod1 16) .error42
  | .startReq3 =>
      .switch [(is 'H', .advance .startReq4), (is 'O', .advance .startReq5)] (.goto .error42)
  | .startReq4 => .sequence id (ascii "ECKOUT") (.invokeStoreMethod1 22) .error42
  | .startReq5 =>
      .switch [(is 'N', .advance .startReq6), (is 'P', .advance .startReq7)] (.goto .error42)
  | .startReq6 => .sequence id (ascii "NECT") (.invokeStoreMethod1 5) .error42
  | .startReq7 => .switch [(is 'Y', .advance (.invokeStoreMethod1 8))] (.goto .error42)
  | .startReq8 => .sequence id (ascii "ELETE") (.invokeStoreMethod1 0) .error42
  | .startReq9 => .sequence id (ascii "ET") (.invokeStoreMethod1 1) .error42
  | .startReq10 => .sequence id (ascii "EAD") (.invokeStoreMethod1 2) .error42
  | .startReq11 =>
      .switch [(is 'I', .advance .startReq12), (is 'O', .advance .startReq13)] (.goto .error42)
  | .startReq12 => .sequence id (ascii "NK") (.invokeStoreMethod1 31) .error42
  | .startReq13 => .sequence id (ascii "CK") (.invokeStoreMethod1 9) .error42
  | .startReq14 =>
      .switch [(is '-', .advance .startReq15), (is 'E', .advance .startReq16),
        (is 'K', .advance .startReq17), (is 'O', .advance .startReq22)] (.goto .error42)
  | .startReq15 => .sequence id (ascii "SEARCH") (.invokeStoreMethod1 24) .error42
  | .startReq16 => .sequence id (ascii "RGE") (.invokeStoreMethod1 23) .error42
  | .startReq17 =>
      .switch [(is 'A', .advance .startReq18), (is 'C', .advance .startReq19)] (.goto .error42)
  | .startReq18 => .sequence id (ascii "CTIVITY") (.invokeStoreMethod1 21) .error42
  | .startReq19 =>
      .switch [(is 'A', .advance .startReq20), (is 'O', .advance .startReq21)] (.goto .error42)
  | .startReq20 => .sequence id (ascii "LENDAR") (.invokeStoreMethod1 30) .error42
  | .startReq21 => .switch [(is 'L', .advance (.invokeStoreMethod1 10))] (.goto .error42)
  | .startReq22 => .sequence id (ascii "VE") (.invokeStoreMethod1 11) .error42
  | .startReq23 => .sequence id (ascii "OTIFY") (.invokeStoreMethod1 25) .error42
  | .startReq24 => .sequence id (ascii "PTIONS") (.invokeStoreMethod1 6) .error42
  | .startReq25 =>
      .switch [(is 'A', .advance .startReq26), (is 'O', .advance .startReq27),
        (is 'R', .advance .startReq28), (is 'U', .advance .startReq32)] (.goto .error42)
  | .startReq26 => .sequence id (ascii "TCH") (.invokeStoreMethod1 28) .error42
  | .startReq27 => .sequence id (ascii "ST") (.invokeStoreMethod1 3) .error42
  | .startReq28 => .sequence id (ascii "OP") .startReq29 .error42
  | .startReq29 =>
      .switch [(is 'F', .advance .startReq30), (is 'P', .advance .startReq31)] (.goto .error42)
  | .startReq30 => .sequence id (ascii "IND") (.invokeStoreMethod1 12) .error42
  | .startReq31 => .sequence id (ascii "ATCH") (.invokeStoreMethod1 13) .error42
  | .startReq32 =>
      .switch [(is 'R', .advance .startReq33), (is 'T', .advance (.invokeStoreMethod1 4))]
        (.goto .error42)
  | .startReq33 => .sequence id (ascii "GE") (.invokeStoreMethod1 29) .error42
  | .startReq34 => .switch [(is 'E', .advance .startReq35)] (.goto .error42)
  | .startReq35 =>
      .switch [(is 'B', .advance .startReq36), (is 'P', .advance .startReq37)] (.goto .error42)
  | .startReq36 => .sequence id (ascii "IND") (.invokeStoreMethod1 17) .error42
  | .startReq37 => .sequence id (ascii "ORT") (.invokeStoreMethod1 20) .error42
  | .startReq38 =>
      .switch [(is 'E', .advance .startReq39), (is 'O', .advance .startReq40),
        (is 'U', .advance .startReq41)] (.goto .error42)
  | .startReq39 => .sequence id (ascii "ARCH") (.invokeStoreMethod1 14) .error42
  | .startReq40 => .sequence id (ascii "URCE") (.invokeStoreMethod1 33) .error42
  | .startReq41 => .sequence id (ascii "BSCRIBE") (.invokeStoreMethod1 26) .error42
  | .startReq42 => .sequence id (ascii "RACE") (.invokeStoreMethod1 7) .error42
  | .startReq43 => .switch [(is 'N', .advance .startReq44)] (.goto .error42)
  | .startReq44 =>
      .switch [(is 'B', .advance .startReq45), (is 'L', .advance .startReq46),
        (is 'S', .advance .startReq49)] (.goto .error42)
  | .startReq45 => .sequence id (ascii "IND") (.invokeStoreMethod1 18) .error42
  | .startReq46 =>
      .switch [(is 'I', .advance .startReq47), (is 'O', .advance .startReq48)] (.goto .error42)
  | .startReq47 => .sequence id (ascii "NK") (.invokeStoreMethod1 32) .error42
  | .startReq48 => .sequence id (ascii "CK") (.invokeStoreMethod1 15) .error42
  | .startReq49 => .sequence id (ascii "UBSCRIBE") (.invokeStoreMethod1 27) .error42
  -- the URL
  | .spanStartOnUrl1 => .spanStart .onUrl .urlStart
  | .urlStart =>
      .switch [(isBlank, .advance .error30), (isStarOrSlash, .goto .spanStartStubPath2),
        (isAlpha, .goto .urlSchema)] (.goto .error33)
  | .error30 => .error 7
  | .spanStartStubPath2 => .switch [] (.advance .urlPath)
  | .urlPath => .switch [(isPathByte, .advance .urlPath)] (.goto .urlQueryOrFragment)
  | .urlQueryOrFragment =>
      .switch [(is '\n', .goto .spanEndOnUrl3), (is '\r', .goto .spanEndOnUrl4),
        (is ' ', .goto .spanEndOnUrl5), (is '#', .advance .urlFragment),
        (is '?', .advance .urlQuery)] (.goto .error26)
  | .spanEndOnUrl3 => .spanEnd .onUrl false .urlSkipToHttp09
  | .spanEndOnUrl4 => .spanEnd .onUrl false .urlSkipLfToHttp09
  | .spanEndOnUrl5 => .spanEnd .onUrl false .urlSkipToHttp
  | .urlFragment =>
      .switch [(isFragmentByte, .advance .urlFragment), (is '\n', .goto .spanEndOnUrl6),
        (is '\r', .goto .spanEndOnUrl7), (is ' ', .goto .spanEndOnUrl8)] (.goto .error24)
  | .spanEndOnUrl6 => .spanEnd .onUrl false .urlSkipToHttp09
  | .spanEndOnUrl7 => .spanEnd .onUrl false .urlSkipLfToHttp09
  | .spanEndOnUrl8 => .spanEnd .onUrl false .urlSkipToHttp
  | .error24 => .error 7
  | .urlQuery =>
      .switch [(isQueryByte, .advance .urlQuery), (is '\n', .goto .spanEndOnUrl9),
        (is '\r', .goto .spanEndOnUrl10), (is ' ', .goto .spanEndOnUrl11),
        (is '#', .goto .spanEndStubQuery3)] (.goto .error25)
  | .spanEndOnUrl9 => .spanEnd .onUrl false .urlSkipToHttp09
  | .spanEndOnUrl10 => .spanEnd .onUrl false .urlSkipLfToHttp09
  | .spanEndOnUrl11 => .spanEnd .onUrl false .urlSkipToHttp
  | .spanEndStubQuery3 => .switch [] (.advance .urlFragment)
  | .error25 => .error 7
  | .error26 => .error 7
  | .urlSchema =>
      .switch [(isBlank, .advance .error30), (is ':', .goto .spanEndStubSchema),
        (isAlpha, .advance .urlSchema)] (.goto .error32)
  | .spanEndStubSchema => .switch [] (.advance .urlSchemaDelim)
  | .urlSchemaDelim =>
      .switch [(is '\n', .advance .error30), (is '\r', .advance .error30),
        (is ' ', .advance .error30), (is '/', .advance .urlSchemaDelim1)] (.goto .error31)
  | .urlSchemaDelim1 => .switch [(is '/', .advance .urlServer)] (.goto .error31)
  | .urlServer =>
      .switch [(is '\n', .goto .spanEndOnUrl), (is '\r', .goto .spanEndOnUrl1),
        (is ' ', .goto .spanEndOnUrl2), (isServerByte, .advance .urlServer),
        (is '/', .goto .spanStartStubPath), (is '?', .advance .urlQuery),
        (is '@', .advance .urlServerWithAt)] (.goto .error29)
  | .spanEndOnUrl => .spanEnd .onUrl false .urlSkipToHttp09
  | .spanEndOnUrl1 => .spanEnd .onUrl false .urlSkipLfToHttp09
  | .spanEndOnUrl2 => .spanEnd .onUrl false .urlSkipToHttp
  | .spanStartStubPath => .switch [] (.advance .urlPath)
  | .urlServerWithAt =>
      .switch [(is '\n', .goto .spanEndOnUrl12), (is '\r', .goto .spanEndOnUrl13),
        (is ' ', .goto .spanEndOnUrl14), (isServerByte, .advance .urlServer),
        (is '/', .goto .spanStartStubPath1), (is '?', .advance .urlQuery),
        (is '@', .advance .error27)] (.goto .error28)
  | .spanEndOnUrl12 => .spanEnd .onUrl false .urlSkipToHttp09
  | .spanEndOnUrl13 => .spanEnd .onUrl false .urlSkipLfToHttp09
  | .spanEndOnUrl14 => .spanEnd .onUrl false .urlSkipToHttp
  | .spanStartStubPath1 => .switch [] (.advance .urlPath)
  | .error27 => .error 7
  | .error28 => .error 7
  | .error29 => .error 7
  | .error31 => .error 7
  | .error32 => .error 7
  | .error33 => .error 7
  | .spanStartOnUrl => .spanStart .onUrl .urlServer
  -- the version
  | .urlSkipToHttp09 => .switch [] (.advance .invokeUpdateHttpMajor)
  | .invokeUpdateHttpMajor => .invoke updateHttpMajor [] .invokeUpdateHttpMinor
  | .invokeUpdateHttpMinor => .invoke updateHttpMinor [] .headerFieldStart
  | .urlSkipLfToHttp09 => .sequence id [13, 10] .invokeUpdateHttpMajor .error17
  | .error17 => .error 7
  | .urlSkipToHttp => .switch [] (.advance .reqHttpStart)
  | .reqHttpStart =>
      .switch [(is ' ', .advance .reqHttpStart), (is 'H', .advance .reqHttpStart1),
        (is 'I', .advance .reqHttpStart2)] (.goto .error23)
  | .reqHttpStart1 => .sequence id (ascii "TTP/") .reqHttpMajor .error23
  | .reqHttpMajor =>
      .switch (digits fun value => .advance (.invokeStoreHttpMajor value)) (.goto .error21)
  | .invokeStoreHttpMajor value => .invoke (storeHttpMajor value) [] .reqHttpDot
  | .reqHttpDot => .switch [(is '.', .advance .reqHttpMinor)] (.goto .error20)
  | .reqHttpMinor =>
      .switch (digits fun value => .advance (.invokeStoreHttpMinor value)) (.goto .error19)
  | .invokeStoreHttpMinor value => .invoke (storeHttpMinor value) [] .reqHttpEnd
  | .reqHttpEnd =>
      .switch [(is '\n', .advance .headerFieldStart), (is '\r', .advance .reqHttpEnd1)]
        (.goto .error18)
  | .reqHttpEnd1 => .switch [(is '\n', .advance .headerFieldStart)] (.goto .error18)
  | .error18 => .error 9
  | .error19 => .error 9
  | .error20 => .error 9
  | .error21 => .error 9
  | .error23 => .error 8
  | .reqHttpStart2 => .sequence id (ascii "CE/") .invokeIsEqualMethod1 .error23
  | .invokeIsEqualMethod1 => .invoke isEqualMethod1 [(0, .error22)] .reqHttpMajor
  | .error22 => .error 8
  -- the name of a header
  | .headerFieldStart =>
      .switch [(is '\n', .goto .headersAlmostDone), (is '\r', .advance .headersAlmostDone)]
        (.goto .spanStartOnHeaderField)
  | .spanStartOnHeaderField => .spanStart .onHeaderField .headerField
  | .headerField =>
      .switch [(isLower 'c', .advance .headerField1), (isLower 'p', .advance .headerField5),
        (isLower 't', .advance .headerField6), (isLower 'u', .advance .headerField7)]
        (.goto .invokeUpdateHeaderState10)
  | .headerField1 => .sequence toLowerUnsafe (ascii "on") .headerField2 .invokeUpdateHeaderState10
  | .headerField2 =>
      .switch [(isLower 'n', .advance .headerField3), (isLower 't', .advance .headerField4)]
        (.goto .invokeUpdateHeaderState10)
  | .headerField3 =>
      .sequence toLowerUnsafe (ascii "ection") (.invokeStoreHeaderState 1)
        .invokeUpdateHeaderState10
  | .invokeStoreHeaderState value => .invoke (storeHeaderState value) [] .headerFieldColon
  | .headerFieldColon =>
      .switch [(is ' ', .advance .headerFieldColon), (is ':', .goto .spanEndOnHeaderField)]
        (.goto .invokeUpdateHeaderState9)
  | .spanEndOnHeaderField => .spanEnd .onHeaderField true .headerValueDiscardWs
  | .invokeUpdateHeaderState9 => .invoke updateHeaderState4 [] .headerFieldGeneral
  | .headerFieldGeneral =>
      .switch [(isFieldByte, .advance .headerFieldGeneral)] (.goto .headerFieldGeneralOtherwise)
  | .headerFieldGeneralOtherwise =>
      .switch [(is ':', .goto .spanEndOnHeaderField1)] (.goto .error16)
  | .spanEndOnHeaderField1 => .spanEnd .onHeaderField true .headerValueDiscardWs
  | .error16 => .error 10
  | .invokeUpdateHeaderState10 => .invoke updateHeaderState4 [] .headerFieldGeneral
  | .headerField4 =>
      .sequence toLowerUnsafe (ascii "ent-length") (.invokeStoreHeaderState 2)
        .invokeUpdateHeaderState10
  | .headerField5 =>
      .sequence toLowerUnsafe (ascii "roxy-connection") (.invokeStoreHeaderState 1)
        .invokeUpdateHeaderState10
  | .headerField6 =>
      .sequence toLowerUnsafe (ascii "ransfer-encoding") (.invokeStoreHeaderState 3)
        .invokeUpdateHeaderState10
  | .headerField7 =>
      .sequence toLowerUnsafe (ascii "pgrade") (.invokeStoreHeaderState 4)
        .invokeUpdateHeaderState10
  -- the value of a header
  | .headerValueDiscardWs =>
      .switch [(is '\t', .advance .headerValueDiscardWs),
        (is '\n', .advance .headerValueDiscardLws),
        (is '\r', .advance .headerValueDiscardWsAlmostDone),
        (is ' ', .advance .headerValueDiscardWs)] (.goto .spanStartOnHeaderValue1)
  | .headerValueDiscardLws =>
      .switch [(is '\t', .advance .headerValueDiscardWs), (is ' ', .advance .headerValueDiscardWs)]
        (.goto .invokeLoadHeaderState)
  | .invokeLoadHeaderState =>
      .invoke loadHeaderState [(5, .invokeOrFlags3), (6, .invokeOrFlags4), (7, .invokeOrFlags5),
        (8, .invokeOrFlags6)] .spanStartOnHeaderValue
  | .invokeOrFlags3 => .invoke orFlags3 [] .invokeUpdateHeaderState
  | .invokeUpdateHeaderState => .invoke updateHeaderState [] .spanStartOnHeaderValue
  | .spanStartOnHeaderValue => .spanStart .onHeaderValue .spanEndOnHeaderValue
  | .spanEndOnHeaderValue => .spanEnd .onHeaderValue false .headerFieldStart
  | .invokeOrFlags4 => .invoke orFlags4 [] .invokeUpdateHeaderState
  | .invokeOrFlags5 => .invoke orFlags5 [] .invokeUpdateHeaderState
  | .invokeOrFlags6 => .invoke orFlags6 [] .spanStartOnHeaderValue
  | .headerValueDiscardWsAlmostDone => .switch [] (.advance .headerValueDiscardLws)
  | .spanStartOnHeaderValue1 => .spanStart .onHeaderValue .invokeLoadHeaderState1
  | .invokeLoadHeaderState1 =>
      .invoke loadHeaderState [(1, .headerValueConnection), (2, .invokeTestFlags2),
        (3, .headerValueTeChunked), (4, .invokeOrFlags16)] .headerValue
  | .headerValueConnection =>
      .switch [(isLower '\t', .advance .headerValueConnection),
        (isLower ' ', .advance .headerValueConnection),
        (isLower 'c', .advance .headerValueConnection1),
        (isLower 'k', .advance .headerValueConnection2),
        (isLower 'u', .advance .headerValueConnection3)] (.goto .headerValueConnectionToken)
  | .headerValueConnection1 =>
      .sequence toLowerUnsafe (ascii "lose") .invokeUpdateHeaderState2 .headerValueConnectionToken
  | .invokeUpdateHeaderState2 => .invoke updateHeaderState2 [] .headerValueConnectionWs
  | .headerValueConnectionWs =>
      .switch [(is '\n', .goto .headerValueOtherwise), (is '\r', .goto .headerValueOtherwise),
        (is ' ', .advance .headerValueConnectionWs), (is ',', .advance .invokeLoadHeaderState3)]
        (.goto .invokeUpdateHeaderState4)
  | .headerValueOtherwise =>
      .switch [(is '\n', .goto .spanEndOnHeaderValue1), (is '\r', .goto .spanEndOnHeaderValue2)]
        (.goto .error12)
  | .spanEndOnHeaderValue1 => .spanEnd .onHeaderValue false .headerValueAlmostDone
  | .headerValueAlmostDone => .switch [(is '\n', .advance .headerValueLws)] (.goto .error11)
  | .headerValueLws =>
      .switch [(is '\t', .goto .spanStartOnHeaderValue1), (is ' ', .goto .spanStartOnHeaderValue1)]
        (.goto .invokeLoadHeaderState2)
  | .invokeLoadHeaderState2 =>
      .invoke loadHeaderState [(5, .invokeOrFlags7), (6, .invokeOrFlags8), (7, .invokeOrFlags9),
        (8, .invokeOrFlags10)] .headerFieldStart
  | .invokeOrFlags7 => .invoke orFlags3 [] .invokeUpdateHeaderState1
  | .invokeUpdateHeaderState1 => .invoke updateHeaderState [] .headerFieldStart
  | .invokeOrFlags8 => .invoke orFlags4 [] .invokeUpdateHeaderState1
  | .invokeOrFlags9 => .invoke orFlags5 [] .invokeUpdateHeaderState1
  | .invokeOrFlags10 => .invoke orFlags6 [] .headerFieldStart
  | .error11 => .error 3
  | .spanEndOnHeaderValue2 => .spanEnd .onHeaderValue true .headerValueAlmostDone
  | .error12 => .error 10
  | .invokeLoadHeaderState3 =>
      .invoke loadHeaderState [(5, .invokeOrFlags11), (6, .invokeOrFlags12), (7, .invokeOrFlags13),
        (8, .invokeOrFlags14)] .headerValueConnection
  | .invokeOrFlags11 => .invoke orFlags3 [] .invokeUpdateHeaderState3
  | .invokeUpdateHeaderState3 => .invoke updateHeaderState [] .headerValueConnection
  | .invokeOrFlags12 => .invoke orFlags4 [] .invokeUpdateHeaderState3
  | .invokeOrFlags13 => .invoke orFlags5 [] .invokeUpdateHeaderState3
  | .invokeOrFlags14 => .invoke orFlags6 [] .headerValueConnection
  | .invokeUpdateHeaderState4 => .invoke updateHeaderState4 [] .headerValueConnectionToken
  | .headerValueConnectionToken =>
      .switch [(isConnectionByte, .advance .headerValueConnectionToken),
        (is ',', .advance .headerValueConnection)] (.goto .headerValueOtherwise)
  | .headerValueConnection2 =>
      .sequence toLowerUnsafe (ascii "eep-alive") .invokeUpdateHeaderState5
        .headerValueConnectionToken
  | .invokeUpdateHeaderState5 => .invoke updateHeaderState5 [] .headerValueConnectionWs
  | .headerValueConnection3 =>
      .sequence toLowerUnsafe (ascii "pgrade") .invokeUpdateHeaderState6 .headerValueConnectionToken
  | .invokeUpdateHeaderState6 => .invoke updateHeaderState6 [] .headerValueConnectionWs
  | .invokeTestFlags2 => .invoke testFlags2 [(0, .headerValueContentLength)] .error13
  | .headerValueContentLength =>
      .switch (digits fun value => .advance (.invokeMulAddContentLength1 value))
        (.goto .headerValueContentLengthWs)
  | .invokeMulAddContentLength1 value =>
      .invoke (mulAddContentLength1 value) [(1, .spanEndOnHeaderValue3)] .headerValueContentLength
  | .spanEndOnHeaderValue3 => .spanEnd .onHeaderValue false .error14
  | .error14 => .error 11
  | .headerValueContentLengthWs =>
      .switch [(is '\n', .goto .invokeOrFlags15), (is '\r', .goto .invokeOrFlags15),
        (is ' ', .advance .headerValueContentLengthWs)] (.goto .spanEndOnHeaderValue4)
  | .invokeOrFlags15 => .invoke orFlags15 [] .headerValueDiscardRws
  | .headerValueDiscardRws =>
      .switch [(is '\n', .goto .headerValueOtherwise), (is '\r', .goto .headerValueOtherwise),
        (is ' ', .advance .headerValueDiscardRws)] (.goto .invokeUpdateHeaderState7)
  | .invokeUpdateHeaderState7 => .invoke updateHeaderState4 [] .headerValue
  | .headerValue => .switch [(isValueByte, .advance .headerValue)] (.goto .headerValueOtherwise)
  | .spanEndOnHeaderValue4 => .spanEnd .onHeaderValue false .error15
  | .error15 => .error 11
  | .error13 => .error 4
  | .headerValueTeChunked =>
      .switch [(isLower '\n', .goto .headerValueDiscardRws),
        (isLower '\r', .goto .headerValueDiscardRws), (isLower ' ', .goto .headerValueDiscardRws),
        (isLower 'c', .advance .headerValueTeChunked1)] (.goto .invokeUpdateHeaderState7)
  | .headerValueTeChunked1 =>
      .sequence toLowerUnsafe (ascii "hunked") .invokeUpdateHeaderState8 .invokeUpdateHeaderState7
  | .invokeUpdateHeaderState8 => .invoke updateHeaderState8 [] .headerValueDiscardRws
  | .invokeOrFlags16 => .invoke orFlags16 [] .invokeUpdateHeaderState7
  -- the end of the headers
  | .headersAlmostDone => .switch [] (.advance .invokeTestFlags)
  | .invokeTestFlags => .invoke testFlags [(1, .invokeOnChunkComplete1)] .invokeTestFlags1
  | .invokeTestFlags1 => .invoke testFlags1 [(1, .error9)] .invokeBeforeHeadersComplete
  | .error9 => .error 4
  | .invokeBeforeHeadersComplete => .invoke beforeHeadersComplete [] .invokeOnHeadersComplete
  | .invokeOnHeadersComplete => .invoke onHeadersComplete [] .invokeAfterHeadersComplete
  | .invokeAfterHeadersComplete =>
      .invoke afterHeadersComplete [(1, .invokeOnMessageComplete1), (2, .invokeUpdateContentLength),
        (3, .spanStartOnBody1), (4, .spanStartOnBody2)] .invokeOnMessageComplete
  -- the body
  | .invokeUpdateContentLength => .invoke updateContentLength [] .chunkSize
  | .chunkSize =>
      .switch (hexDigits fun value => .advance (.invokeMulAddContentLength value)) (.goto
        .chunkSizeOtherwise)
  | .invokeMulAddContentLength value =>
      .invoke (mulAddContentLength value) [(1, .error4)] .chunkSize
  | .error4 => .error 12
  | .chunkSizeOtherwise =>
      .switch [(is '\r', .advance .chunkSizeAlmostDone), (is ' ', .advance .chunkParameters),
        (is ';', .advance .chunkParameters)] (.goto .error7)
  | .chunkSizeAlmostDone => .switch [] (.advance .invokeOnChunkHeader)
  | .invokeOnChunkHeader => .invoke onChunkHeader [] .invokeIsEqualContentLength
  | .invokeIsEqualContentLength =>
      .invoke isEqualContentLength [(0, .spanStartOnBody)] .invokeOrFlags
  | .spanStartOnBody => .spanStart .onBody .consumeContentLength
  | .consumeContentLength => .consume contentLength .spanEndOnBody
  | .spanEndOnBody => .spanEnd .onBody false .chunkDataAlmostDone
  | .chunkDataAlmostDone => .switch [] (.advance .chunkDataAlmostDoneSkip)
  | .chunkDataAlmostDoneSkip => .switch [] (.advance .invokeOnChunkComplete)
  | .invokeOnChunkComplete => .invoke onChunkComplete [] .invokeUpdateContentLength
  | .invokeOrFlags => .invoke orFlags [] .headerFieldStart
  | .chunkParameters =>
      .switch [(is '\r', .advance .chunkSizeAlmostDone)] (.advance .chunkParameters)
  | .error7 => .error 12
  | .spanStartOnBody1 => .spanStart .onBody .consumeContentLength1
  | .consumeContentLength1 => .consume contentLength .spanEndOnBody1
  | .spanEndOnBody1 => .spanEnd .onBody false .invokeOnMessageComplete2
  | .spanStartOnBody2 => .spanStart .onBody .invokeUpdateFinish1
  | .invokeUpdateFinish1 => .invoke updateFinish1 [] .eof
  | .eof => .switch [] (.advance .eof)
  -- the end of a message
  | .invokeOnChunkComplete1 => .invoke onChunkComplete [] .invokeOnMessageComplete2
  | .invokeOnMessageComplete2 => .signal id .invokeIsEqualUpgrade
  | .invokeIsEqualUpgrade => .invoke isEqualUpgrade [(0, .invokeAfterMessageComplete)] .pause1
  | .invokeAfterMessageComplete => .invoke afterMessageComplete [] .start
  | .pause1 => .pause 21 .invokeAfterMessageComplete
  | .invokeOnMessageComplete1 => .signal id .pause1
  | .invokeOnMessageComplete => .signal id .invokeAfterMessageComplete

/-- The labels inside of a span. -/
def spanOf : Label → Option Span
  | .urlStart | .error30 | .spanStartStubPath2 | .urlPath | .urlQueryOrFragment | .spanEndOnUrl3
  | .spanEndOnUrl4 | .spanEndOnUrl5 | .urlFragment | .spanEndOnUrl6 | .spanEndOnUrl7
  | .spanEndOnUrl8 | .error24 | .urlQuery | .spanEndOnUrl9 | .spanEndOnUrl10 | .spanEndOnUrl11
  | .spanEndStubQuery3 | .error25 | .error26 | .urlSchema | .spanEndStubSchema | .urlSchemaDelim
  | .urlSchemaDelim1 | .urlServer | .spanEndOnUrl | .spanEndOnUrl1 | .spanEndOnUrl2
  | .spanStartStubPath | .urlServerWithAt | .spanEndOnUrl12 | .spanEndOnUrl13 | .spanEndOnUrl14
  | .spanStartStubPath1 | .error27 | .error28 | .error29 | .error31 | .error32
  | .error33 => some .onUrl
  | .headerField | .headerField1 | .headerField2 | .headerField3 | .invokeStoreHeaderState _
  | .headerFieldColon | .spanEndOnHeaderField | .invokeUpdateHeaderState9 | .headerFieldGeneral
  | .headerFieldGeneralOtherwise | .spanEndOnHeaderField1 | .error16 | .invokeUpdateHeaderState10
  | .headerField4 | .headerField5 | .headerField6 | .headerField7 => some .onHeaderField
  | .spanEndOnHeaderValue | .invokeLoadHeaderState1 | .headerValueConnection
  | .headerValueConnection1 | .invokeUpdateHeaderState2 | .headerValueConnectionWs
  | .headerValueOtherwise | .spanEndOnHeaderValue1 | .spanEndOnHeaderValue2 | .error12
  | .invokeLoadHeaderState3 | .invokeOrFlags11 | .invokeUpdateHeaderState3 | .invokeOrFlags12
  | .invokeOrFlags13 | .invokeOrFlags14 | .invokeUpdateHeaderState4 | .headerValueConnectionToken
  | .headerValueConnection2 | .invokeUpdateHeaderState5 | .headerValueConnection3
  | .invokeUpdateHeaderState6 | .invokeTestFlags2 | .headerValueContentLength
  | .invokeMulAddContentLength1 _ | .spanEndOnHeaderValue3 | .headerValueContentLengthWs
  | .invokeOrFlags15 | .headerValueDiscardRws | .invokeUpdateHeaderState7 | .headerValue
  | .spanEndOnHeaderValue4 | .error13 | .headerValueTeChunked | .headerValueTeChunked1
  | .invokeUpdateHeaderState8 | .invokeOrFlags16 => some .onHeaderValue
  | .consumeContentLength | .spanEndOnBody | .consumeContentLength1 | .spanEndOnBody1
  | .invokeUpdateFinish1 | .eof => some .onBody
  | _ => none

/-- The labels at which the next byte has been looked at. -/
def atByte : Label → Bool
  | .spanEndOnHeaderField | .spanEndOnHeaderField1 | .spanEndOnHeaderValue2 => true
  | _ => false

/-- The graph of `llhttp`; its checks go label by label. -/
def graph : ParserGraph Label Store Span Store where
  node := node
  start := .start
  spanOf := spanOf
  atByte := atByte
  pauseCode := 21
  bound := 16
  pauseCode_ne_zero := by decide
  spanOf_start := rfl
  atByte_start := rfl
  accepts label := by cases label <;> rfl
  follows label := by cases label <;> rfl
  settles label := by cases label <;> rfl

end Llhttp
end Inspector
end V8JsiRuntime
