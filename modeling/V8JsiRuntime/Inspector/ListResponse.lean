import V8JsiRuntime.Lib.JsonValues
import V8JsiRuntime.Inspector.HttpHandler

/-!
# ListResponse — the targets that the server lists

`SendListResponse` answers a request for `/json/list` with a JSON array that it puts together from
strings of the client, of the embedder and of its own.
-/

namespace V8JsiRuntime
namespace Inspector

open Lib

/-! ## Texts -/

/-- `std::map<std::string, std::string>`, in the order of its keys. -/
abbrev StringMap := List (Bytes × Bytes)

/-- The assignment `map[name] = value`. -/
def StringMap.assign (name value : Bytes) : StringMap → StringMap
  | [] => [(name, value)]
  | entry :: map =>
      if name = entry.1 then
        (name, value) :: map
      else if name < entry.1 then
        (name, value) :: entry :: map
      else
        entry :: assign name value map

/-- `Escape` -/
def escape (string : Bytes) : Bytes :=
  string.map fun c => if c = 34 ∨ c = 92 then 95 else c

def formatHostPort (host : Bytes) (port : Int) : Bytes :=
  -- a colon means that it is a v6 address
  let v6 := host.contains 58
  (if v6 then ascii "[" else []) ++ host ++ (if v6 then ascii "]" else []) ++ ascii ":" ++
    ascii (toString port)

def formatAddress (host targetId : Bytes) (includeProtocol : Bool) : Bytes :=
  (if includeProtocol then ascii "ws://" else []) ++ host ++ ascii "/" ++ targetId

/-- The loop of `MapToString`. -/
def mapToStringLoop (first : Bool) : StringMap → Bytes
  | [] => []
  | nameValue :: object =>
      (if first then [] else ascii ",\n") ++ ascii "  \"" ++ nameValue.1 ++ ascii "\": \"" ++
        nameValue.2 ++ ascii "\"" ++ mapToStringLoop false object

def mapToString (object : StringMap) : Bytes :=
  ascii "\x7b\n" ++ mapToStringLoop true object ++ ascii "\n\x7d "

/-- The loop of `MapsToString`. -/
def mapsToStringLoop (first : Bool) : List StringMap → Bytes
  | [] => []
  | object :: array =>
      (if first then [] else ascii ", ") ++ mapToString object ++ mapsToStringLoop false array

def mapsToString (array : List StringMap) : Bytes :=
  ascii "[ " ++ mapsToStringLoop true array ++ ascii "]\n\n"

def getFrontendURL (isCompat : Bool) (formattedAddress : Bytes) : Bytes :=
  ascii "chrome-devtools://devtools/bundled/" ++
    (if isCompat then ascii "inspector" else ascii "js_app") ++
      ascii ".html?experiments=true&v8only=true&ws=" ++ formattedAddress

/-! ## The response -/

/-- The methods of `SocketServerDelegate` that the response is made from. -/
structure SocketServerDelegate where
  getTargetIds : List Bytes
  getTargetTitle : Bytes → Bytes
  getTargetUrl : Bytes → Bytes

/-- `ProtocolHandler::GetHost` -/
def getHost : Bytes :=
  []

def detectedHost (host : Bytes) (serverPort : Nat) : Bytes :=
  if host.isEmpty then formatHostPort getHost serverPort else host

/-- The entries of one target, in the order of the assignments. -/
def targetMap (delegate : SocketServerDelegate) (host : Bytes) (serverPort : Nat) (id : Bytes) :
    StringMap :=
  let formattedAddress := formatAddress (detectedHost host serverPort) id false
  -- the assignments of the source, which the map keeps in the order of the names
  let map := StringMap.assign (ascii "description") (ascii "node.js instance") []
  let map := map.assign (ascii "faviconUrl") (ascii "https://nodejs.org/static/favicon.ico")
  let map := map.assign (ascii "id") id
  let map := map.assign (ascii "title") (escape (delegate.getTargetTitle id))
  let map := map.assign (ascii "type") (ascii "node")
  let map := map.assign (ascii "url") (escape (delegate.getTargetUrl id))
  let map := map.assign (ascii "devtoolsFrontendUrl") (getFrontendURL false formattedAddress)
  let map := map.assign (ascii "devtoolsFrontendUrlCompat") (getFrontendURL true formattedAddress)
  map.assign (ascii "webSocketDebuggerUrl") (formatAddress (detectedHost host serverPort) id true)

/-- `SendListResponse`, with the body that it sends. -/
def sendListResponse (delegate : SocketServerDelegate) (host : Bytes) (serverPort : Nat) : Bytes :=
  mapsToString (delegate.getTargetIds.map (targetMap delegate host serverPort))

/-! ## How the texts are read -/

open Json (Token join)

open Json.Lexer

/-- Every name stands for itself between quotes. -/
def Named (map : StringMap) : Prop :=
  map ≠ [] ∧ ∀ entry ∈ map, ∀ b ∈ entry.1, Json.IsUnescaped b

/-- The tokens of an entry. -/
def MemberReads (entry : Bytes × Bytes) (ts : List Token) : Prop :=
  ∃ us, ReadsString entry.2 us ∧ ts = .string entry.1 :: .nameSeparator :: us

/-- The tokens of a map. -/
def ObjectReads (map : StringMap) (ts : List Token) : Prop :=
  ∃ mss, List.Forall₂ MemberReads map mss ∧ ts = .beginObject :: (join mss ++ [.endObject])

section Reads

variable {final : Json.Lexer} {ts : List Token} {rest between : Bytes} {entry : Bytes × Bytes}
  {map : StringMap} {array : List StringMap}

theorem mapToStringLoop_false (entry : Bytes × Bytes) (map : StringMap) :
    mapToStringLoop false (entry :: map) = ascii ",
" ++ mapToStringLoop true (entry :: map) := by
  simp [mapToStringLoop]

theorem mapsToStringLoop_false (map : StringMap) (array : List StringMap) :
    mapsToStringLoop false (map :: array) = ascii ", " ++ mapsToStringLoop true (map :: array) := by
  simp [mapsToStringLoop]

theorem reads_name {name : Bytes} (hname : ∀ b ∈ name, Json.IsUnescaped b) :
    Reads (outside []) (ascii "  \"" ++ name ++ ascii "\": \"") (inside [])
      [.string name, .nameSeparator] := by
  have hopen : Reads (outside []) (ascii "  \"") (inside []) [] :=
    rfl
  have hclose : Reads (inside name) (ascii "\": \"") (inside []) [.string name, .nameSeparator] :=
    rfl
  exact (hopen.append (.unescaped hname)).append hclose

/-- An entry at the end of a line. -/
theorem reads_entry_iff (hname : ∀ b ∈ entry.1, Json.IsUnescaped b)
    (hbetween : ∀ b ∈ between, b ≠ 0x22 ∧ b ≠ 0x5C) :
    Reads (outside []) (ascii "  \"" ++ entry.1 ++ ascii "\": \"" ++ entry.2 ++ ascii "\"" ++
        (between ++ 0x0A :: rest)) final ts ↔
      ∃ us vs, MemberReads entry us ∧ Reads (outside []) (between ++ 0x0A :: rest) final vs ∧
        ts = us ++ vs := by
  have hline : ascii "  \"" ++ entry.1 ++ ascii "\": \"" ++ entry.2 ++ ascii "\"" ++
      (between ++ 0x0A :: rest) = ascii "  \"" ++ entry.1 ++ ascii "\": \"" ++
        (entry.2 ++ 0x22 :: (between ++ 0x0A :: rest)) := by
    rw [List.append_assoc, List.append_assoc]
    rfl
  rw [hline, (reads_name hname).behind]
  simp only [reads_string_line_iff hbetween]
  constructor
  · rintro ⟨_, ⟨us, vs, hvalue, hrest, rfl⟩, rfl⟩
    exact ⟨_, vs, ⟨us, hvalue, rfl⟩, hrest, rfl⟩
  · rintro ⟨_, vs, ⟨us, hvalue, rfl⟩, hrest, rfl⟩
    exact ⟨_, ⟨us, vs, hvalue, hrest, rfl⟩, rfl⟩

theorem reads_mapToStringLoop_iff (hnames : ∀ e ∈ entry :: map, ∀ b ∈ e.1, Json.IsUnescaped b) :
    Reads (outside []) (mapToStringLoop true (entry :: map) ++ (ascii "\n\x7d " ++ rest)) final ts ↔
      ∃ mss vs, List.Forall₂ MemberReads (entry :: map) mss ∧ Reads (outside []) rest final vs ∧
        ts = join mss ++ .endObject :: vs := by
  induction map generalizing entry ts with
  | nil =>
      have hend : Reads (outside []) (ascii "\n\x7d ") (outside []) [.endObject] := rfl
      have hrest : ([] : Bytes) ++ 0x0A :: (ascii "\x7d " ++ rest) = ascii "\n\x7d " ++ rest := rfl
      have hline : mapToStringLoop true [entry] ++ (ascii "\n\x7d " ++ rest) =
          ascii "  \"" ++ entry.1 ++ ascii "\": \"" ++ entry.2 ++ ascii "\"" ++
            ([] ++ 0x0A :: (ascii "\x7d " ++ rest)) := by
        rw [hrest]
        simp [mapToStringLoop]
      -- the newline behind the value makes its quotes end in the line
      rw [hline, reads_entry_iff (hnames entry List.mem_cons_self) (by simp), hrest]
      simp only [hend.behind]
      constructor
      · rintro ⟨us, _, hus, ⟨vs, hvs, rfl⟩, rfl⟩
        exact ⟨[us], vs, .cons hus .nil, hvs, rfl⟩
      · rintro ⟨mss, vs, hmss, hvs, rfl⟩
        obtain ⟨us, _, hus, hnil, rfl⟩ := List.forall₂_cons_left_iff.1 hmss
        cases hnil
        exact ⟨us, _, hus, ⟨vs, hvs, rfl⟩, rfl⟩
  | cons next map ih =>
      obtain ⟨hname, hnames⟩ := List.forall_mem_cons.1 hnames
      have hcomma : Reads (outside []) (ascii ",\n") (outside []) [.valueSeparator] := rfl
      have hrest : [0x2C] ++ 0x0A ::
            (mapToStringLoop true (next :: map) ++ (ascii "\n\x7d " ++ rest)) =
          ascii ",\n" ++ (mapToStringLoop true (next :: map) ++ (ascii "\n\x7d " ++ rest)) := rfl
      have hline : mapToStringLoop true (entry :: next :: map) ++ (ascii "\n\x7d " ++ rest) =
          ascii "  \"" ++ entry.1 ++ ascii "\": \"" ++ entry.2 ++ ascii "\"" ++
            ([0x2C] ++ 0x0A ::
              (mapToStringLoop true (next :: map) ++ (ascii "\n\x7d " ++ rest))) := by
        rw [hrest, mapToStringLoop, mapToStringLoop_false]
        simp
      -- the rest of the entries is read from outside of a string again
      rw [hline, reads_entry_iff hname (by simp), hrest]
      simp only [hcomma.behind, ih hnames]
      constructor
      · rintro ⟨us, _, hus, ⟨_, ⟨mss, vs, hmss, hvs, rfl⟩, rfl⟩, rfl⟩
        refine ⟨us :: mss, vs, .cons hus hmss, hvs, ?_⟩
        rw [Json.join_cons_of_forall₂ hmss]
        simp
      · rintro ⟨_, vs, hall, hvs, rfl⟩
        obtain ⟨us, mss, hus, hmss, rfl⟩ := List.forall₂_cons_left_iff.1 hall
        refine ⟨us, _, hus, ⟨_, ⟨mss, vs, hmss, hvs, rfl⟩, rfl⟩, ?_⟩
        rw [Json.join_cons_of_forall₂ hmss]
        simp

theorem reads_mapToString_iff (hmap : Named map) :
    Reads (outside []) (mapToString map ++ rest) final ts ↔
      ∃ os vs, ObjectReads map os ∧ Reads (outside []) rest final vs ∧ ts = os ++ vs := by
  obtain ⟨hsome, hnames⟩ := hmap
  obtain ⟨entry, map, rfl⟩ := List.exists_cons_of_ne_nil hsome
  have hopen : Reads (outside []) (ascii "\x7b\n") (outside []) [.beginObject] := rfl
  rw [mapToString, List.append_assoc, List.append_assoc, hopen.behind]
  simp only [reads_mapToStringLoop_iff hnames]
  constructor
  · rintro ⟨_, ⟨mss, vs, hmss, hvs, rfl⟩, rfl⟩
    exact ⟨_, vs, ⟨mss, hmss, rfl⟩, hvs, by simp⟩
  · rintro ⟨_, vs, ⟨mss, hmss, rfl⟩, hvs, rfl⟩
    exact ⟨_, ⟨mss, vs, hmss, hvs, rfl⟩, by simp⟩

theorem reads_mapsToStringLoop_iff (hmaps : ∀ m ∈ map :: array, Named m) :
    Reads (outside []) (mapsToStringLoop true (map :: array) ++ ascii "]\n\n") final ts ↔
      ∃ oss, List.Forall₂ ObjectReads (map :: array) oss ∧ outside [] = final ∧
        ts = join oss ++ [.endArray] := by
  induction array generalizing map ts with
  | nil =>
      have hend : Reads (outside []) (ascii "]\n\n") (outside []) [.endArray] := rfl
      have hlast : mapsToStringLoop true [map] ++ ascii "]\n\n" =
          mapToString map ++ (ascii "]\n\n" ++ []) := by
        simp [mapsToStringLoop]
      rw [hlast, reads_mapToString_iff (hmaps map List.mem_cons_self)]
      simp only [hend.behind, Reads.nil_iff]
      constructor
      · rintro ⟨os, _, hos, ⟨_, ⟨hfinal, rfl⟩, rfl⟩, rfl⟩
        exact ⟨[os], .cons hos .nil, hfinal, rfl⟩
      · rintro ⟨oss, hoss, hfinal, rfl⟩
        obtain ⟨os, _, hos, hnil, rfl⟩ := List.forall₂_cons_left_iff.1 hoss
        cases hnil
        exact ⟨os, _, hos, ⟨[], ⟨hfinal, rfl⟩, rfl⟩, rfl⟩
  | cons next array ih =>
      obtain ⟨hmap, hmaps⟩ := List.forall_mem_cons.1 hmaps
      have hcomma : Reads (outside []) (ascii ", ") (outside []) [.valueSeparator] := rfl
      have hfirst : mapsToStringLoop true (map :: next :: array) ++ ascii "]\n\n" =
          mapToString map ++ (ascii ", " ++ (mapsToStringLoop true (next :: array) ++ ascii "]\n\n")) := by
        rw [mapsToStringLoop, mapsToStringLoop_false]
        simp
      rw [hfirst, reads_mapToString_iff hmap]
      simp only [hcomma.behind, ih hmaps]
      constructor
      · rintro ⟨os, _, hos, ⟨_, ⟨oss, hoss, hfinal, rfl⟩, rfl⟩, rfl⟩
        refine ⟨os :: oss, .cons hos hoss, hfinal, ?_⟩
        rw [Json.join_cons_of_forall₂ hoss]
        simp
      · rintro ⟨_, hall, hfinal, rfl⟩
        obtain ⟨os, oss, hos, hoss, rfl⟩ := List.forall₂_cons_left_iff.1 hall
        refine ⟨os, _, hos, ⟨_, ⟨oss, hoss, hfinal, rfl⟩, rfl⟩, ?_⟩
        rw [Json.join_cons_of_forall₂ hoss]
        simp

/-- The tokens of the response are those of its maps. -/
theorem tokens_mapsToString_iff (hmaps : ∀ m ∈ array, Named m) :
    Json.tokens (mapsToString array) = some ts ↔
      ∃ oss, List.Forall₂ ObjectReads array oss ∧
        ts = .beginArray :: (join oss ++ [.endArray]) := by
  have hopen : Reads (outside []) (ascii "[ ") (outside []) [.beginArray] := rfl
  have hreads : ∀ final us, Reads (outside []) (mapsToString array) final us ↔
      ∃ oss, List.Forall₂ ObjectReads array oss ∧ outside [] = final ∧
        us = .beginArray :: (join oss ++ [.endArray]) := by
    intro final us
    rw [mapsToString, List.append_assoc, hopen.behind]
    cases array with
    | nil =>
        have hend : Reads (outside []) (ascii "]\n\n") (outside []) [.endArray] := rfl
        have hlast : mapsToStringLoop true [] ++ ascii "]\n\n" = ascii "]\n\n" ++ [] := rfl
        rw [hlast]
        simp only [hend.behind, Reads.nil_iff]
        constructor
        · rintro ⟨_, ⟨_, ⟨hfinal, rfl⟩, rfl⟩, rfl⟩
          exact ⟨[], .nil, hfinal, rfl⟩
        · rintro ⟨oss, hoss, hfinal, rfl⟩
          cases hoss
          exact ⟨_, ⟨[], ⟨hfinal, rfl⟩, rfl⟩, rfl⟩
    | cons map array =>
        simp only [reads_mapsToStringLoop_iff hmaps]
        constructor
        · rintro ⟨_, ⟨oss, hoss, hfinal, rfl⟩, rfl⟩
          exact ⟨oss, hoss, hfinal, rfl⟩
        · rintro ⟨oss, hoss, hfinal, rfl⟩
          exact ⟨_, ⟨oss, hoss, hfinal, rfl⟩, rfl⟩
  rw [Json.tokens_eq_some_iff]
  simp only [hreads]
  constructor
  · rintro ⟨word, us, ⟨oss, hoss, hword, rfl⟩, rfl⟩
    obtain rfl := outside.inj hword
    exact ⟨oss, hoss, by simp [flush]⟩
  · rintro ⟨oss, hoss, rfl⟩
    exact ⟨[], _, ⟨oss, hoss, rfl, rfl⟩, by simp [flush]⟩

/-- A name and a string in the tokens of an entry: either the name of the entry and what its first
string is, or something behind a quote in its value. -/
theorem occurs_member {value name text : Bytes} {us : List Token} (hvalue : ReadsString value us)
    (h : Json.Occurs (.string entry.1 :: .nameSeparator :: us) name text) :
    (Json.unescape entry.1 = some name ∧
      ((Json.unescape value = some text ∧ (0x5C ∈ value ∨ ∀ b ∈ value, Json.IsUnescaped b)) ∨
        0x22 ∈ value ∧ text.length < value.length)) ∨
      ∃ front back, value = front ++ 0x22 :: back ∧ text.length ≤ back.length := by
  obtain ⟨k, v, hinfix, hk, hv⟩ := h
  have hlength := Json.length_unescape_le hv
  rcases hvalue.cases with ⟨rfl, hall⟩ | ⟨front, back, us, rfl, rfl, hback⟩
  · -- three tokens, which can only be these
    have heq := hinfix.eq_of_length rfl
    simp only [List.cons.injEq, Token.string.injEq] at heq
    obtain ⟨rfl, _, rfl, _⟩ := heq
    exact Or.inl ⟨hk, Or.inl ⟨hv, hall⟩⟩
  · rcases List.infix_cons_iff.1 hinfix with hprefix | hinfix
    · simp only [List.cons_prefix_cons, Token.string.injEq] at hprefix
      obtain ⟨rfl, _, rfl, _⟩ := hprefix
      refine Or.inl ⟨hk, Or.inr ⟨by simp, ?_⟩⟩
      rw [List.length_append]
      exact Nat.lt_of_le_of_lt hlength (Nat.lt_add_of_pos_right (by simp))
    · -- the string is behind the first quote
      refine Or.inr ⟨front, back, rfl, Nat.le_trans hlength (hback v ?_)⟩
      rcases List.infix_cons_iff.1 hinfix with hprefix | hinfix
      · cases (List.cons_prefix_cons.1 hprefix).1
      · rcases List.infix_cons_iff.1 hinfix with hprefix | hinfix
        · exact (List.cons_prefix_cons.1 hprefix).2.subset (by simp)
        · exact hinfix.subset (by simp)

/-- What parsing a response says about each of its entries, and where its members come from. -/
theorem parse_mapsToString_inv {value : Json} (hmaps : ∀ m ∈ array, Named m)
    (h : Json.parse (mapsToString array) = some value) :
    (∀ map ∈ array, ∀ entry ∈ map, ∃ us, ReadsString entry.2 us ∧
      ∀ raw, .string raw ∈ us → ∃ text, Json.unescape raw = some text) ∧
    ∀ name text, Json.HasMember value name (.string text) →
      ∃ map ∈ array, ∃ entry ∈ map, ∃ us, ReadsString entry.2 us ∧
        Json.Occurs (.string entry.1 :: .nameSeparator :: us) name text := by
  obtain ⟨ts, htokens, hrun⟩ := Json.parse_eq_some_iff.1 h
  obtain ⟨oss, hoss, rfl⟩ := (tokens_mapsToString_iff hmaps).1 htokens
  constructor
  · intro map hmap entry hentry
    obtain ⟨os, hos, mss, hmss, rfl⟩ := exists_of_mem_left hoss hmap
    obtain ⟨_, hms, us, hus, rfl⟩ := exists_of_mem_left hmss hentry
    refine ⟨us, hus, fun raw hraw => Json.Parser.unescape_of_run hrun ?_⟩
    have hmember : .string raw ∈ join mss :=
      Json.mem_join hms (List.mem_cons_of_mem _ (List.mem_cons_of_mem _ hraw))
    have hobject : .string raw ∈ join oss :=
      Json.mem_join hos (List.mem_cons_of_mem _ (List.mem_append_left _ hmember))
    exact List.mem_cons_of_mem _ (List.mem_append_left _ hobject)
  · intro name text hmember
    obtain ⟨k, v, hinfix, hk, hv⟩ :=
      (Json.Parser.sound_of_run hrun).members value List.mem_cons_self name text hmember
    -- brackets, braces and commas are no part of a member
    have hjoin := infix_of_bracketed hinfix (by simp) (by simp)
    obtain ⟨os, hos, hinfix⟩ := Json.infix_of_join hjoin (by simp) (by simp)
    obtain ⟨map, hmap, mss, hmss, rfl⟩ := exists_of_mem_right hoss hos
    have hjoin := infix_of_bracketed hinfix (by simp) (by simp)
    obtain ⟨ms, hms, hinfix⟩ := Json.infix_of_join hjoin (by simp) (by simp)
    obtain ⟨entry, hentry, us, hus, rfl⟩ := exists_of_mem_right hmss hms
    exact ⟨map, hmap, entry, hentry, us, hus, k, v, hinfix, hk, hv⟩

/-! ## Clean strings -/

/-- The string stands for itself between quotes. -/
def Clean (string : Bytes) : Prop :=
  IsUtf8 string ∧ ∀ b ∈ string, Json.IsUnescaped b

theorem Clean.unescape {string : Bytes} (h : Clean string) :
    Json.unescape string = some string :=
  Json.unescape_of_unescaped (fun hmem => (h.2 _ hmem).2.2 rfl) h.1

def memberTokens (entry : Bytes × Bytes) : List Token :=
  [.string entry.1, .nameSeparator, .string entry.2]

def objectTokens (map : StringMap) : List Token :=
  .beginObject :: (join (map.map memberTokens) ++ [.endObject])

/-- Maps of clean strings are parsed as what they are. -/
theorem parse_mapsToString (hmaps : ∀ m ∈ array, Named m)
    (hclean : ∀ map ∈ array, ∀ entry ∈ map, Clean entry.1 ∧ Clean entry.2) :
    Json.parse (mapsToString array) = some (.array (array.map fun map =>
      .object (map.map fun entry => (entry.1, .string entry.2)))) := by
  refine Json.parse_eq_some_iff.2
    ⟨.beginArray :: (join (array.map objectTokens) ++ [.endArray]), ?_, ?_⟩
  · refine (tokens_mapsToString_iff hmaps).2 ⟨array.map objectTokens, ?_, rfl⟩
    -- every string is one token
    refine List.forall₂_map_right_iff.2 (List.forall₂_same.2 fun map hmap => ?_)
    refine ⟨map.map memberTokens, ?_, rfl⟩
    refine List.forall₂_map_right_iff.2 (List.forall₂_same.2 fun entry hentry => ?_)
    exact ⟨[.string entry.2], .unescaped (hclean map hmap entry hentry).2.2, rfl⟩
  -- and the tokens denote what they were made from
  · refine Json.denotes_array ?_ []
    refine List.forall₂_map_left_iff.2
      (List.forall₂_map_right_iff.2 (List.forall₂_same.2 fun map hmap => Json.denotes_object ?_))
    refine List.forall₂_map_left_iff.2
      (List.forall₂_map_right_iff.2 (List.forall₂_same.2 fun entry hentry => ?_))
    obtain ⟨hname, hvalue⟩ := hclean map hmap entry hentry
    exact ⟨entry.1, [.string entry.2], rfl, hname.unescape, Json.denotes_string hvalue.unescape⟩

end Reads

/-! ## The targets in the response -/

/-- The response is a JSON array with an object for each target, whose only member
`webSocketDebuggerUrl` is the address of the target. -/
def ListsTargets (delegate : SocketServerDelegate) (host : Bytes) (serverPort : Nat) : Prop :=
  ∃ objects : List (List (Bytes × Json)),
    Json.parse (sendListResponse delegate host serverPort) =
      some (.array (objects.map .object)) ∧
    List.Forall₂ (fun id members =>
      members.filter (fun member => member.1 = ascii "webSocketDebuggerUrl") =
        [(ascii "webSocketDebuggerUrl",
          .string (formatAddress (detectedHost host serverPort) id true))])
      delegate.getTargetIds objects

/-- The string has no control character. -/
def Printable (string : Bytes) : Prop :=
  IsUtf8 string ∧ ∀ b ∈ string, ¬ b < 0x20

/-- If there is a target, the host is clean, and so are the strings of every target; in titles and
URLs, which are escaped, quotes and backslashes do no harm. -/
def CleanTargets (delegate : SocketServerDelegate) (host : Bytes) : Prop :=
  ∀ id ∈ delegate.getTargetIds, Clean host ∧ Clean id ∧ Printable (delegate.getTargetTitle id) ∧
    Printable (delegate.getTargetUrl id)

section Targets

variable {delegate : SocketServerDelegate} {host id : Bytes} {serverPort : Nat}

theorem targetMap_eq (delegate : SocketServerDelegate) (host : Bytes) (serverPort : Nat)
    (id : Bytes) : targetMap delegate host serverPort id =
      [(ascii "description", ascii "node.js instance"),
        (ascii "devtoolsFrontendUrl",
          getFrontendURL false (formatAddress (detectedHost host serverPort) id false)),
        (ascii "devtoolsFrontendUrlCompat",
          getFrontendURL true (formatAddress (detectedHost host serverPort) id false)),
        (ascii "faviconUrl", ascii "https://nodejs.org/static/favicon.ico"),
        (ascii "id", id),
        (ascii "title", escape (delegate.getTargetTitle id)),
        (ascii "type", ascii "node"),
        (ascii "url", escape (delegate.getTargetUrl id)),
        (ascii "webSocketDebuggerUrl",
          formatAddress (detectedHost host serverPort) id true)] :=
  rfl

theorem clean_ascii {s : String} (h : ∀ b ∈ ascii s, b < 0x80 ∧ Json.IsUnescaped b) :
    Clean (ascii s) :=
  ⟨.of_ascii fun b hb => (h b hb).1, fun b hb => (h b hb).2⟩

theorem Clean.append {s t : Bytes} (hs : Clean s) (ht : Clean t) : Clean (s ++ t) :=
  ⟨hs.1.append ht.1, List.forall_mem_append.2 ⟨hs.2, ht.2⟩⟩

/-! ### Escaped strings -/

theorem escape_lt {c : UInt8} : (if c = 34 ∨ c = 92 then 95 else c) < 0x80 ↔ c < 0x80 := by
  split
  · rename_i h
    rcases h with rfl | rfl
    · decide
    · decide
  · rfl

theorem isUtf8_escape (s : Bytes) : IsUtf8 (escape s) ↔ IsUtf8 s := by
  refine IsUtf8.map_iff (fun b hb => escape_lt.2 hb) fun b hb => if_neg ?_
  rintro (rfl | rfl)
  · exact hb (by decide)
  · exact hb (by decide)

/-- Escaping leaves only control characters to break a string. -/
theorem unescaped_escape_iff (s : Bytes) :
    (∀ b ∈ escape s, Json.IsUnescaped b) ↔ ∀ b ∈ s, ¬ b < 0x20 := by
  rw [escape, List.forall_mem_map]
  refine forall₂_congr fun c _ => ?_
  split
  · rename_i h
    rcases h with rfl | rfl
    · decide
    · decide
  · rename_i h
    rw [not_or] at h
    exact ⟨fun hc => hc.1, fun hc => ⟨hc, h.1, h.2⟩⟩

theorem clean_escape_iff (s : Bytes) : Clean (escape s) ↔ Printable s :=
  and_congr (isUtf8_escape s) (unescaped_escape_iff s)

/-! ### Clean targets are listed -/

theorem clean_decimal (n : Nat) : Clean (ascii (toString n)) := by
  have hdigits : ∀ v < 58, 48 ≤ v → UInt8.ofNat v < 0x80 ∧ Json.IsUnescaped (UInt8.ofNat v) := by
    decide
  refine clean_ascii fun b hb => ?_
  obtain ⟨c, hc, rfl⟩ := List.mem_map.1 hb
  have hmem : c ∈ Nat.toDigits 10 n := by
    simpa using hc
  have hdigit := Nat.isDigit_of_mem_toDigits (by decide) (by decide) hmem
  rw [Char.isDigit, Bool.and_eq_true, decide_eq_true_eq, decide_eq_true_eq] at hdigit
  exact hdigits c.toNat (Nat.lt_succ_of_le hdigit.2) hdigit.1

theorem Clean.detectedHost (h : Clean host) (serverPort : Nat) :
    Clean (detectedHost host serverPort) := by
  rw [Inspector.detectedHost]
  split
  · exact (clean_ascii (s := ":") (by decide +kernel)).append (clean_decimal serverPort)
  · exact h

theorem Clean.formatAddress (hhost : Clean host) (hid : Clean id) (includeProtocol : Bool) :
    Clean (formatAddress host id includeProtocol) := by
  have hslash : Clean (ascii "/") := clean_ascii (by decide +kernel)
  rw [Inspector.formatAddress]
  refine Clean.append (Clean.append (Clean.append ?_ hhost) hslash) hid
  split
  · exact clean_ascii (by decide +kernel)
  · exact ⟨⟨[], rfl⟩, nofun⟩

theorem Clean.getFrontendURL {address : Bytes} (h : Clean address) (isCompat : Bool) :
    Clean (getFrontendURL isCompat address) := by
  rw [Inspector.getFrontendURL]
  refine Clean.append (Clean.append (Clean.append (clean_ascii (by decide +kernel)) ?_)
    (clean_ascii (by decide +kernel))) h
  split
  · exact clean_ascii (by decide +kernel)
  · exact clean_ascii (by decide +kernel)

theorem clean_name_targetMap :
    ∀ entry ∈ targetMap delegate host serverPort id, Clean entry.1 := by
  rw [targetMap_eq]
  simp only [List.forall_mem_cons, List.not_mem_nil, false_imp_iff, implies_true, and_true]
  refine ⟨?_, ?_, ?_, ?_, ?_, ?_, ?_, ?_, ?_⟩
  all_goals exact clean_ascii (by decide +kernel)

theorem named_targetMap (delegate : SocketServerDelegate) (host : Bytes) (serverPort : Nat)
    (id : Bytes) : Named (targetMap delegate host serverPort id) :=
  ⟨by rw [targetMap_eq]; exact List.cons_ne_nil _ _,
    fun entry hentry => (clean_name_targetMap entry hentry).2⟩

theorem clean_targetMap (hhost : Clean host) (hid : Clean id)
    (htitle : Printable (delegate.getTargetTitle id))
    (hurl : Printable (delegate.getTargetUrl id)) :
    ∀ entry ∈ targetMap delegate host serverPort id, Clean entry.1 ∧ Clean entry.2 := by
  have haddress := fun includeProtocol =>
    (hhost.detectedHost serverPort).formatAddress hid includeProtocol
  have hvalue : ∀ entry ∈ targetMap delegate host serverPort id, Clean entry.2 := by
    rw [targetMap_eq]
    simp only [List.forall_mem_cons, List.not_mem_nil, false_imp_iff, implies_true, and_true]
    exact ⟨clean_ascii (by decide +kernel), (haddress false).getFrontendURL false,
      (haddress false).getFrontendURL true, clean_ascii (by decide +kernel), hid,
      (clean_escape_iff _).2 htitle, clean_ascii (by decide +kernel), (clean_escape_iff _).2 hurl,
      haddress true⟩
  exact fun entry hentry => ⟨clean_name_targetMap entry hentry, hvalue entry hentry⟩

def targetMembers (delegate : SocketServerDelegate) (host : Bytes) (serverPort : Nat) (id : Bytes) :
    List (Bytes × Json) :=
  (targetMap delegate host serverPort id).map fun entry => (entry.1, .string entry.2)

theorem listsTargets_of_clean (h : CleanTargets delegate host) :
    ListsTargets delegate host serverPort := by
  refine ⟨delegate.getTargetIds.map (targetMembers delegate host serverPort), ?_, ?_⟩
  · rw [sendListResponse, parse_mapsToString, List.map_map, List.map_map]
    · rfl
    · intro map hmap
      obtain ⟨id, _, rfl⟩ := List.mem_map.1 hmap
      exact named_targetMap delegate host serverPort id
    · intro map hmap
      obtain ⟨id, hid, rfl⟩ := List.mem_map.1 hmap
      obtain ⟨hhost, hclean, htitle, hurl⟩ := h id hid
      exact clean_targetMap hhost hclean htitle hurl
  · refine List.forall₂_map_right_iff.2 (List.forall₂_same.2 fun id _ => ?_)
    rfl

/-! ### Other targets are not -/

theorem Clean.of_formatAddress (h : Clean (Inspector.formatAddress host id true)) :
    Clean host ∧ Clean id := by
  have haddress : Inspector.formatAddress host id true = ascii "ws://" ++ (host ++ 0x2F :: id) := by
    simp [Inspector.formatAddress, ascii]
  rw [haddress] at h
  obtain ⟨hhost, hid⟩ := IsUtf8.of_append_cons (by decide)
    ((IsUtf8.append_of_ascii_iff (by decide +kernel)).1 h.1)
  have hunescaped : ∀ b ∈ host ++ 0x2F :: id, Json.IsUnescaped b :=
    fun b hb => h.2 b (List.mem_append_right _ hb)
  exact ⟨⟨hhost, fun b hb => hunescaped b (List.mem_append_left _ hb)⟩,
    ⟨hid, fun b hb => hunescaped b (List.mem_append_right _ (List.mem_cons_of_mem _ hb))⟩⟩

theorem Clean.of_detectedHost (h : Clean (Inspector.detectedHost host serverPort)) :
    Clean host := by
  cases host with
  | nil => exact ⟨⟨[], rfl⟩, nofun⟩
  | cons b host => exact h

/-- Some byte of the address of the target does not stand for itself. -/
def Dirty (host : Bytes) (serverPort : Nat) (id : Bytes) : Prop :=
  ¬ ∀ b ∈ formatAddress (detectedHost host serverPort) id true, Json.IsUnescaped b

theorem length_formatAddress (host id : Bytes) (includeProtocol : Bool) :
    (formatAddress host id includeProtocol).length =
      (if includeProtocol then 5 else 0) + host.length + 1 + id.length := by
  have hprotocol : (ascii "ws://").length = 5 := by decide
  have hslash : (ascii "/").length = 1 := by decide
  rw [formatAddress, List.length_append, List.length_append, List.length_append, hslash]
  split
  · rw [hprotocol]
  · rfl

theorem formatAddress_true (host id : Bytes) :
    formatAddress host id true = ascii "ws://" ++ formatAddress host id false := by
  simp [formatAddress]

theorem not_mem_escape (s : Bytes) : 0x22 ∉ escape s ∧ 0x5C ∉ escape s := by
  have hall : ∀ b ∈ escape s, b ≠ 0x22 ∧ b ≠ 0x5C := by
    rw [escape, List.forall_mem_map]
    intro c _
    split
    · decide
    · rename_i h
      exact not_or.1 h
  exact ⟨fun hmem => (hall _ hmem).1 rfl, fun hmem => (hall _ hmem).2 rfl⟩

/-- Quotes in a value are quotes in the end of the address. -/
theorem tail_targetMap : ∀ entry ∈ targetMap delegate host serverPort id, ∃ y z,
    entry.2 = y ++ z ∧ 0x22 ∉ y ∧ z <:+ formatAddress (detectedHost host serverPort) id false := by
  have hown : ∀ value : Bytes, 0x22 ∉ value → ∃ y z, value = y ++ z ∧ 0x22 ∉ y ∧
      z <:+ formatAddress (detectedHost host serverPort) id false :=
    fun value hvalue => ⟨value, [], (List.append_nil value).symm, hvalue, List.nil_suffix⟩
  rw [targetMap_eq]
  simp only [List.forall_mem_cons, List.not_mem_nil, false_imp_iff, implies_true, and_true]
  refine ⟨hown _ (by decide +kernel), ?_, ?_, hown _ (by decide +kernel), ?_,
    hown _ (not_mem_escape _).1, hown _ (by decide +kernel), hown _ (not_mem_escape _).1, ?_⟩
  · exact ⟨_, _, rfl, by decide +kernel, List.suffix_rfl⟩
  · exact ⟨_, _, rfl, by decide +kernel, List.suffix_rfl⟩
  · exact ⟨[], id, rfl, List.not_mem_nil, List.suffix_append _ _⟩
  · exact ⟨_, _, formatAddress_true _ _, by decide +kernel, List.suffix_rfl⟩

theorem value_of_name : ∀ entry ∈ targetMap delegate host serverPort id,
    entry.1 = ascii "webSocketDebuggerUrl" →
      entry.2 = formatAddress (detectedHost host serverPort) id true := by
  rw [targetMap_eq]
  simp only [List.forall_mem_cons, List.not_mem_nil, false_imp_iff, implies_true, and_true]
  refine ⟨?_, ?_, ?_, ?_, ?_, ?_, ?_, ?_⟩
  all_goals exact fun h => absurd h (by decide +kernel)

/-- A quote is behind the part that has none. -/
theorem quote_in_tail {y z front back : Bytes} (h : y ++ z = front ++ 0x22 :: back)
    (hy : 0x22 ∉ y) : 0x22 ∈ z ∧ back.length < z.length := by
  rcases List.append_eq_append_iff.1 h with ⟨rest, _, rfl⟩ | ⟨rest, rfl, hback⟩
  · refine ⟨by simp, ?_⟩
    rw [List.length_append, List.length_cons]
    omega
  · cases rest with
    | nil =>
        obtain rfl := hback
        exact ⟨List.mem_cons_self, Nat.lt_succ_self _⟩
    | cons b rest =>
        obtain ⟨rfl, _⟩ := List.cons.inj hback
        exact absurd (by simp) hy

/-- Where an address can come from: a target with that address, which is clean, or one with a dirty
address that is longer. -/
theorem address_of_occurs {target : Bytes} {entry : Bytes × Bytes} {us : List Token}
    (hentry : entry ∈ targetMap delegate host serverPort id) (hvalue : ReadsString entry.2 us)
    (h : Json.Occurs (.string entry.1 :: .nameSeparator :: us) (ascii "webSocketDebuggerUrl")
      (formatAddress (detectedHost host serverPort) target true)) :
    (target = id ∧ ¬ Dirty host serverPort id) ∨
      (Dirty host serverPort id ∧ target.length < id.length) := by
  have hlength := length_formatAddress (detectedHost host serverPort)
  have hclean := clean_name_targetMap entry hentry
  -- longer than the address of the target is longer than that of the other one
  have hlonger : ∀ includeProtocol,
      (formatAddress (detectedHost host serverPort) target true).length <
        (formatAddress (detectedHost host serverPort) id includeProtocol).length →
          target.length < id.length := by
    intro includeProtocol hlt
    rw [hlength, hlength, if_pos rfl] at hlt
    split at hlt
    · omega
    · omega
  rcases occurs_member hvalue h with ⟨hname, hfirst⟩ | ⟨front, back, hquote, hback⟩
  · have hown := value_of_name entry hentry (Option.some.inj (hclean.unescape.symm.trans hname))
    rw [hown] at hfirst
    rcases hfirst with ⟨htext, hall⟩ | ⟨hquote, hlt⟩
    · by_cases hbackslash :
          0x5C ∈ formatAddress (detectedHost host serverPort) id true
      · exact Or.inr ⟨fun hunescaped => (hunescaped _ hbackslash).2.2 rfl,
          hlonger true (Json.length_unescape_lt htext hbackslash)⟩
      · -- the address as it is
        have hsame := Option.some.inj ((Json.unescape_of_unescaped hbackslash
          (Json.isUtf8_of_unescape htext)).symm.trans htext)
        -- two addresses of one host are the same only if their targets are
        refine Or.inl ⟨?_, fun hdirty => hdirty (hall.resolve_left hbackslash)⟩
        simpa [formatAddress] using hsame.symm
    · exact Or.inr ⟨fun hunescaped => (hunescaped _ hquote).2.1 rfl, hlonger true hlt⟩
  -- the quote comes from the address, and what is behind it is shorter than that
  · obtain ⟨y, z, hsplit, hy, hz⟩ := tail_targetMap entry hentry
    obtain ⟨hmem, hlt⟩ := quote_in_tail (hsplit.symm.trans hquote) hy
    refine Or.inr ⟨fun hunescaped => ?_, hlonger false ?_⟩
    · refine (hunescaped 0x22 ?_).2.1 rfl
      rw [formatAddress_true]
      exact List.mem_append_right _ (hz.subset hmem)
    · exact Nat.lt_of_le_of_lt hback (Nat.lt_of_lt_of_le hlt hz.length_le)

theorem cleanTargets_of_listsTargets (h : ListsTargets delegate host serverPort) :
    CleanTargets delegate host := by
  obtain ⟨objects, hparse, hobjects⟩ := h
  have hnamed : ∀ map ∈ delegate.getTargetIds.map (targetMap delegate host serverPort),
      Named map := by
    intro map hmap
    obtain ⟨id, _, rfl⟩ := List.mem_map.1 hmap
    exact named_targetMap delegate host serverPort id
  obtain ⟨hentries, hmembers⟩ := parse_mapsToString_inv hnamed hparse
  -- every address is found somewhere, so no dirty one is the longest
  have hclean : ∀ id ∈ delegate.getTargetIds, ¬ Dirty host serverPort id := by
    refine forall_not_of_larger List.length fun id hid hdirty => ?_
    -- the address of a dirty target occurs in the tokens, hence in those of an entry
    obtain ⟨members, hmem, hfilter⟩ := exists_of_mem_left hobjects hid
    have hmember : (ascii "webSocketDebuggerUrl",
        Json.string (formatAddress (detectedHost host serverPort) id true)) ∈ members :=
      List.mem_of_mem_filter (hfilter ▸ List.mem_singleton_self _)
    obtain ⟨_, hmap, entry, hentry, us, hus, hoccurs⟩ := hmembers _ _
      (.element (List.mem_map_of_mem hmem) (.here hmember))
    obtain ⟨other, hother, rfl⟩ := List.mem_map.1 hmap
    rcases address_of_occurs hentry hus hoccurs with ⟨rfl, hnot⟩ | ⟨hdirty', hlt⟩
    · exact absurd hdirty hnot
    · exact ⟨other, hother, hdirty', hlt⟩
  intro id hid
  have hvalues : ∀ entry ∈ targetMap delegate host serverPort id, 0x22 ∉ entry.2 → 0x5C ∉ entry.2 →
      Clean entry.2 := by
    intro entry hentry hquote hbackslash
    obtain ⟨us, hus, hstrings⟩ := hentries _ (List.mem_map_of_mem hid) entry hentry
    rcases hus.cases with ⟨rfl, hall⟩ | ⟨front, back, _, heq, _⟩
    -- without a quote the value is one string, which the parser has accepted
    · obtain ⟨text, htext⟩ := hstrings entry.2 List.mem_cons_self
      exact ⟨Json.isUtf8_of_unescape htext, hall.resolve_left hbackslash⟩
    · exact absurd (by rw [heq]; simp) hquote
  rw [targetMap_eq] at hvalues
  simp only [List.forall_mem_cons] at hvalues
  obtain ⟨_, _, _, _, _, htitle, _, hurl, haddress, _⟩ := hvalues
  have hunescaped := not_not.1 (hclean id hid)
  have haddress := haddress (fun hmem => (hunescaped _ hmem).2.1 rfl)
    fun hmem => (hunescaped _ hmem).2.2 rfl
  have htitle := (clean_escape_iff _).1 (htitle (not_mem_escape _).1 (not_mem_escape _).2)
  have hurl := (clean_escape_iff _).1 (hurl (not_mem_escape _).1 (not_mem_escape _).2)
  obtain ⟨hdetected, hid⟩ := haddress.of_formatAddress
  exact ⟨hdetected.of_detectedHost, hid, htitle, hurl⟩

/-- For every host and all targets, the response lists the targets if and only if the host and the
strings of the targets are clean. -/
theorem listsTargets_iff (delegate : SocketServerDelegate) (host : Bytes) (serverPort : Nat) :
    ListsTargets delegate host serverPort ↔ CleanTargets delegate host :=
  ⟨cleanTargets_of_listsTargets, listsTargets_of_clean⟩

/-- The check of the host leaves out what is behind the last colon, which can be a quote. -/
theorem not_listsTargets_quotePort :
    ¬ ∀ (delegate : SocketServerDelegate) (host : Bytes) (serverPort : Nat),
      isAllowedHost host = true → ListsTargets delegate host serverPort := by
  intro h
  let delegate : SocketServerDelegate :=
    ⟨[ascii "0"], fun _ => ascii "title", fun _ => ascii "file://"⟩
  obtain ⟨objects, hparse, _⟩ := h delegate (ascii "localhost:\"") 9229 (by decide)
  have hnone : (Json.parse
      (sendListResponse delegate (ascii "localhost:\"") 9229)).isSome = false := by
    decide +kernel
  rw [hparse] at hnone
  cases hnone

end Targets

end Inspector
end V8JsiRuntime
