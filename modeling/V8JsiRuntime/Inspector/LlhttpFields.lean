import V8JsiRuntime.Inspector.LlhttpValues
import V8JsiRuntime.Inspector.LlhttpReads

/-!
# LlhttpFields — header lines

What the parser takes from a line of its headers.  It makes up its mind about a value only at the
first byte behind the line, so that a line is followed to where the next one begins.
-/

namespace V8JsiRuntime
namespace Inspector
namespace Llhttp

open Lib Lib.ParserGraph

/-! ## The text of a line -/

structure FieldText where
  name : Bytes
  blanks : Bytes
  value : Bytes
  name_ne_nil : name ≠ []
  name_token : ∀ byte ∈ name, isTokenByte byte = true
  blanks_blank : ∀ byte ∈ blanks, byte = 32 ∨ byte = 9
  value_byte : ∀ byte ∈ value, isValueByte byte = true
  value_head : ∀ byte ∈ value.head?, byte ≠ 9 ∧ byte ≠ 32

def FieldText.text (field : FieldText) : Bytes :=
  field.name ++ [58] ++ field.blanks ++ (field.value ++ [13, 10])

/-- What is reported of it. -/
def FieldText.events (field : FieldText) : List (Event Span Store) :=
  [.fragment .onHeaderField field.name, .fragment .onHeaderValue field.value]

/-! ## At the beginning of a line -/

/-- The parser will take the next byte, which is no blank, as the first one of a line; it still has
to report `owed`. -/
def AtLine (state : State Label Store Span) (s : Store) (owed : List (Event Span Store)) : Prop :=
  ∃ label store, state = ⟨some label, 0, none, store, 0⟩ ∧
    (∃ cases otherwise, graph.node label = .switch cases otherwise) ∧
      ∀ byte rest, byte ≠ 9 → byte ≠ 32 →
        Reaches graph (byte :: rest) ⟨label, 0, none, store, 0⟩ owed
          ⟨.headerFieldStart, 0, none, s, 0⟩

theorem atLine_fieldStart (s : Store) : AtLine ⟨some .headerFieldStart, 0, none, s, 0⟩ s [] :=
  ⟨_, _, rfl, ⟨_, _, rfl⟩, fun _ _ _ _ => .refl _⟩

theorem chooseCode_of_not_pending {state : UInt8} (h : pendingFlag state = 0)
    {first second third fourth otherwise : Label} :
    chooseCode [(5, first), (6, second), (7, third), (8, fourth)] otherwise state.toNat =
      otherwise := by
  have hne (n : Nat) (value : UInt8) (hn : value.toNat = n) (hvalue : pendingFlag value ≠ 0) :
      (n == state.toNat) = false := by
    refine beq_eq_false_iff_ne.2 fun heq => hvalue ?_
    rwa [UInt8.toNat_inj.1 (hn.trans heq)]
  simp only [chooseCode, List.find?_cons]
  rw [hne 5 5 rfl (by decide), hne 6 6 rfl (by decide), hne 7 7 rfl (by decide),
    hne 8 8 rfl (by decide)]
  rfl

/-- Behind a value that ends with an option, this option counts. -/
theorem atLine_lws (s : Store) : ∃ state, AtLine ⟨some .headerValueLws, 0, none, s, 0⟩
    { s with flags := s.flags ||| pendingFlag s.headerState, headerState := state } [] := by
  have hload {target : Label} (h : chooseCode [(5, .invokeOrFlags7), (6, .invokeOrFlags8),
      (7, .invokeOrFlags9), (8, .invokeOrFlags10)] .headerFieldStart s.headerState.toNat = target)
      {byte : UInt8} (rest : Bytes) (htab : byte ≠ 9) (hblank : byte ≠ 32) :
      Reaches graph (byte :: rest) ⟨.headerValueLws, 0, none, s, 0⟩ [] ⟨target, 0, none, s, 0⟩ := by
    have hgoes : Reaches graph (byte :: rest) ⟨.headerValueLws, 0, none, s, 0⟩ []
        ⟨.invokeLoadHeaderState2, 0, none, s, 0⟩ := by
      refine .goto rfl rfl ?_
      rw [choose_cons_of_neg (is_of_ne htab), choose_cons_of_neg (is_of_ne hblank), choose_nil]
    exact hgoes.silent_trans (.invoke rfl rfl h)
  by_cases h5 : s.headerState = 5
  · rw [h5]
    exact ⟨1, _, _, rfl, ⟨_, _, rfl⟩, fun _ rest htab hblank =>
      (hload (by rw [h5]) rest htab hblank).silent_trans (reaches_update rfl rfl)⟩
  by_cases h6 : s.headerState = 6
  · rw [h6]
    exact ⟨1, _, _, rfl, ⟨_, _, rfl⟩, fun _ rest htab hblank =>
      (hload (by rw [h6]) rest htab hblank).silent_trans (reaches_update rfl rfl)⟩
  by_cases h7 : s.headerState = 7
  · rw [h7]
    exact ⟨1, _, _, rfl, ⟨_, _, rfl⟩, fun _ rest htab hblank =>
      (hload (by rw [h7]) rest htab hblank).silent_trans (reaches_update rfl rfl)⟩
  by_cases h8 : s.headerState = 8
  · rw [h8]
    exact ⟨s.headerState, _, _, rfl, ⟨_, _, rfl⟩, fun _ rest htab hblank =>
      (hload (by rw [h8]) rest htab hblank).silent_trans
        (.invoke rfl rfl rfl)⟩
  · have hnone : pendingFlag s.headerState = 0 := by
      simp [pendingFlag, h5, h6, h7, h8]
    rw [hnone, UInt8.or_zero]
    exact ⟨s.headerState, _, _, rfl, ⟨_, _, rfl⟩, fun _ rest htab hblank =>
      hload (chooseCode_of_not_pending hnone) rest htab hblank⟩

/-! ## Values -/

section Values

variable {value : Bytes} {s : Store}

/-- From behind the colon on, the parser takes the value and goes on to the next line with `s'`. -/
def Takes (value : Bytes) (s s' : Store) : Prop :=
  ∃ state events owed,
    Feeds graph ⟨some .headerValueDiscardWs, 0, none, s, 0⟩ (value ++ [13, 10]) events state ∧
      AtLine state s' owed ∧ events ++ owed = [.fragment .onHeaderValue value]

/-- Nothing but the end of the line: it is the next byte that makes the value an empty one. -/
theorem takes_nil (h : pendingFlag s.headerState = 0) : Takes [] s s := by
  have hfeeds : Feeds graph ⟨some .headerValueDiscardWs, 0, none, s, 0⟩ [13, 10] ([] ++ [])
      ⟨some .headerValueDiscardLws, 0, none, s, 0⟩ := .of_execute rfl rfl
  refine ⟨_, _, [.fragment .onHeaderValue []], hfeeds,
    ⟨_, _, rfl, ⟨_, _, rfl⟩, fun byte rest htab hblank => ?_⟩, rfl⟩
  have hgoes : Reaches graph (byte :: rest) ⟨.headerValueDiscardLws, 0, none, s, 0⟩ []
      ⟨.invokeLoadHeaderState, 0, none, s, 0⟩ := by
    refine .goto rfl rfl ?_
    rw [choose_cons_of_neg (is_of_ne htab), choose_cons_of_neg (is_of_ne hblank), choose_nil]
  have hload : Reaches graph (byte :: rest) ⟨.invokeLoadHeaderState, 0, none, s, 0⟩ []
      ⟨.spanStartOnHeaderValue, 0, none, s, 0⟩ :=
    .invoke rfl rfl (chooseCode_of_not_pending h)
  have hopen : Reaches graph (byte :: rest) ⟨.spanStartOnHeaderValue, 0, none, s, 0⟩ []
      ⟨.spanEndOnHeaderValue, 0, some (.onHeaderValue, 0), s, 0⟩ :=
    .spanStart rfl rfl
  have hclose : Reaches graph (byte :: rest)
      ⟨.spanEndOnHeaderValue, 0, some (.onHeaderValue, 0), s, 0⟩ [.fragment .onHeaderValue []]
      ⟨.headerFieldStart, 0, none, s, 0⟩ :=
    .spanEnd rfl rfl rfl
  exact hgoes.silent_trans (hload.silent_trans (hopen.silent_trans hclose))

/-- A value that the parser has come to the end of. -/
theorem takes_of_reaches {s' : Store}
    (h : Reaches graph (value ++ [13, 10]) ⟨.headerValueDiscardWs, 0, none, s, 0⟩
      [.fragment .onHeaderValue value] (valueEnd value s')) :
    ∃ state, Takes value s
      { s' with flags := s'.flags ||| pendingFlag s'.headerState, headerState := state } := by
  obtain ⟨state, hline⟩ := atLine_lws s'
  have hend : value.length + 2 = (value ++ [13, 10]).length := by
    rw [List.length_append]
    rfl
  rw [valueEnd, hend] at h
  have hfeeds : Feeds graph ⟨some .headerValueDiscardWs, 0, none, s, 0⟩ (value ++ [13, 10])
      [.fragment .onHeaderValue value] ⟨some .headerValueLws, 0, none, s', 0⟩ :=
    .of_reaches rfl rfl h rfl
  exact ⟨state, _, _, _, hfeeds, hline, rfl⟩

theorem takes_value {byte : UInt8} {rest : Bytes}
    (hvalue : ∀ other ∈ byte :: rest, isValueByte other = true) (htab : byte ≠ 9)
    (hblank : byte ≠ 32)
    (hstate : s.headerState = 0 ∨ s.headerState = 1 ∨ s.headerState = 4)
    (hlast : s.headerState = 1 →
      lower ((lastOption (byte :: rest)).dropWhile (· == 32)) ≠ ascii "keep") :
    ∃ state, Takes (byte :: rest) s { s with
      flags := s.flags ||| fieldFlags s.headerState (byte :: rest), headerState := state } := by
  obtain ⟨_, hreach, flags, state, rfl, hflags⟩ :=
    reaches_fieldValue hvalue htab hblank hstate hlast
  obtain ⟨state', htakes⟩ := takes_of_reaches hreach
  rw [hflags] at htakes
  exact ⟨state', htakes⟩

/-! ### Numbers -/

/-- The number that the digits stand for, behind `n`. -/
def numberFrom (base : Nat) (digit : UInt8 → Nat) (n : Nat) (text : Bytes) : Nat :=
  text.foldl (fun n byte => n * base + digit byte) n

theorem le_numberFrom {base : Nat} (hbase : 0 < base) (digit : UInt8 → Nat) (n : Nat)
    (text : Bytes) : n ≤ numberFrom base digit n text := by
  induction text generalizing n with
  | nil => exact Nat.le_refl n
  | cons byte text ih =>
      have hstep : n ≤ n * base + digit byte :=
        (Nat.le_mul_of_pos_right n hbase).trans (Nat.le_add_right _ _)
      exact hstep.trans (ih _)

/-- The addition is exact, and fails if the result does not fit. -/
theorem mulAdd_eq {base : UInt64} (hbase : 0 < base.toNat) {value : Nat} (hvalue : value < 2 ^ 64)
    (s : Store) :
    if s.contentLength.toNat * base.toNat + value < 2 ^ 64 then
      mulAdd base value s = ({ s with
        contentLength := UInt64.ofNat (s.contentLength.toNat * base.toNat + value) }, 0)
    else
      (mulAdd base value s).2 = 1 := by
  have hmax : (0xffffffffffffffff : UInt64).toNat = 2 ^ 64 - 1 := rfl
  have hlarge : s.contentLength > 0xffffffffffffffff / base ↔
      2 ^ 64 ≤ s.contentLength.toNat * base.toNat := by
    rw [gt_iff_lt, UInt64.lt_iff_toNat_lt, UInt64.toNat_div, hmax, Nat.div_lt_iff_lt_mul hbase]
    omega
  by_cases hfirst : s.contentLength > 0xffffffffffffffff / base
  · have hle := hlarge.1 hfirst
    rw [if_neg (by omega), mulAdd, if_pos hfirst]
  · have hlt := mt hlarge.2 hfirst
    have hmul : (s.contentLength * base).toNat = s.contentLength.toNat * base.toNat := by
      rw [UInt64.toNat_mul]
      exact Nat.mod_eq_of_lt (by omega)
    have hofNat : (UInt64.ofNat value).toNat = value := by
      rw [UInt64.toNat_ofNat']
      exact Nat.mod_eq_of_lt hvalue
    have hsub : (0xffffffffffffffff - UInt64.ofNat value : UInt64).toNat = 2 ^ 64 - 1 - value := by
      rw [UInt64.toNat_sub_of_le _ _ (by rw [UInt64.le_iff_toNat_le, hmax, hofNat]; omega), hmax,
        hofNat]
    have hsecond : s.contentLength * base > 0xffffffffffffffff - UInt64.ofNat value ↔
        2 ^ 64 ≤ s.contentLength.toNat * base.toNat + value := by
      rw [gt_iff_lt, UInt64.lt_iff_toNat_lt, hsub, hmul]
      omega
    rw [mulAdd, if_neg hfirst]
    split
    · rename_i hfits
      rw [if_neg (by rw [hsecond]; omega)]
      refine Prod.ext (congrArg (fun n => ({ s with contentLength := n } : Store)) ?_) rfl
      refine UInt64.toNat_inj.1 ?_
      rw [UInt64.toNat_add, hmul, hofNat, UInt64.toNat_ofNat']
    · rename_i hnot
      rw [if_pos (by rw [hsecond]; omega)]

theorem contentLength_set_get (s : Store) : contentLength.set s.contentLength.toNat s = s :=
  congrArg (fun n => ({ s with contentLength := n } : Store))
    (UInt64.toNat_inj.1 (Nat.mod_eq_of_lt s.contentLength.toNat_lt))

theorem contentLength_set {n : Nat} (h : n < 2 ^ 64) (s : Store) :
    (contentLength.set n s).contentLength.toNat = n := by
  change (UInt64.ofNat n).toNat = n
  rw [UInt64.toNat_ofNat']
  exact Nat.mod_eq_of_lt h

/-- At `label` digits are added up, and a number that is too large leads to `bad`. -/
structure Adds (label bad : Label) (base : UInt64) (digit : UInt8 → Nat)
    (isDigit : UInt8 → Bool) : Prop where
  base_pos : 0 < base.toNat
  node : ∃ cases otherwise, ∃ add : Nat → Label, graph.node label = .switch cases otherwise ∧
    (∀ n, graph.node (add n) = .invoke (mulAdd base n) [(1, bad)] label) ∧
      ∀ byte, isDigit byte = true →
        choose cases otherwise byte = .advance (add (digit byte)) ∧ digit byte < 2 ^ 64

theorem Adds.reaches {data text rest : Bytes} {label bad : Label} {base : UInt64}
    {digit : UInt8 → Nat} {isDigit : UInt8 → Bool} (h : Adds label bad base digit isDigit)
    (hdigits : ∀ byte ∈ text, isDigit byte = true) (index : Nat) (span : Option (Span × Nat))
    (s : Store) {p : Nat} (hrest : data.drop p = text ++ rest) :
    if numberFrom base.toNat digit s.contentLength.toNat text < 2 ^ 64 then
      Reaches graph data ⟨label, index, span, s, p⟩ []
        ⟨label, index, span,
          contentLength.set (numberFrom base.toNat digit s.contentLength.toNat text) s,
          p + text.length⟩
    else
      ∃ s' k, k ≤ text.length ∧
        Reaches graph data ⟨label, index, span, s, p⟩ [] ⟨bad, index, span, s', p + k⟩ := by
  obtain ⟨cases, otherwise, add, hnode, hadd, hclass⟩ := h.node
  induction text generalizing s p with
  | nil =>
      rw [numberFrom, List.foldl_nil, if_pos s.contentLength.toNat_lt, contentLength_set_get]
      exact .refl _
  | cons byte text ih =>
      obtain ⟨hbyte, htext⟩ := List.forall_mem_cons.1 hdigits
      obtain ⟨hchoose, hdigit⟩ := hclass byte hbyte
      have hfirst : Reaches graph data ⟨label, index, span, s, p⟩ []
          ⟨add (digit byte), index, span, s, p + 1⟩ := .advance hnode hrest hchoose
      have hmul := mulAdd_eq h.base_pos hdigit s
      split at hmul
      · rename_i hfits
        have hcode : Reaches graph data ⟨add (digit byte), index, span, s, p + 1⟩ []
            ⟨label, index, span,
              contentLength.set (s.contentLength.toNat * base.toNat + digit byte) s, p + 1⟩ :=
          .invoke (hadd _) (by rw [hmul]; rfl) (by rw [hmul]; rfl)
        have hfront := hfirst.silent_trans hcode
        have hnext : data.drop (p + [byte].length) = text ++ rest := drop_of_drop hrest
        have hloop := ih htext
          (contentLength.set (s.contentLength.toNat * base.toNat + digit byte) s) hnext
        rw [contentLength_set hfits, List.length_singleton] at hloop
        change if numberFrom base.toNat digit (s.contentLength.toNat * base.toNat + digit byte)
          text < 2 ^ 64 then _ else _
        split at hloop
        · rename_i hall
          rw [if_pos hall, List.length_cons, Nat.add_comm text.length 1, ← Nat.add_assoc]
          exact hfront.silent_trans hloop
        · rename_i hall
          obtain ⟨s', k, hk, hbad⟩ := hloop
          rw [if_neg hall]
          refine ⟨s', 1 + k, by rw [List.length_cons]; omega, ?_⟩
          rw [← Nat.add_assoc]
          exact hfront.silent_trans hbad
      · rename_i hlarge
        have hall : ¬ numberFrom base.toNat digit s.contentLength.toNat (byte :: text) <
            2 ^ 64 := by
          have hle := le_numberFrom h.base_pos digit
            (s.contentLength.toNat * base.toNat + digit byte) text
          exact fun hlt => hlarge (Nat.lt_of_le_of_lt hle hlt)
        rw [if_neg hall]
        refine ⟨(mulAdd base (digit byte) s).1, 1, by simp, hfirst.silent_trans ?_⟩
        exact .invoke (hadd _) rfl (by rw [hmul]; rfl)

/-! ### Content-Length -/

def isDigit : UInt8 → Bool := within [(48, 57)]

def decimalDigit (byte : UInt8) : Nat := byte.toNat - 48

def decimal (text : Bytes) : Nat := numberFrom 10 decimalDigit 0 text

example : decimal (ascii "1024") = 1024 := by decide

theorem choose_digits {byte : UInt8} (h : isDigit byte = true) (move : Nat → Move Label)
    (otherwise : Move Label) : choose (digits move) otherwise byte = move (decimalDigit byte) := by
  have hmem : ∀ byte, isDigit byte = true → byte ∈ ascii "0123456789" :=
    forall_byte (by decide +kernel)
  have hall : ∀ byte ∈ ascii "0123456789",
      choose (digits move) otherwise byte = move (decimalDigit byte) := by
    have hascii : ascii "0123456789" = [48, 49, 50, 51, 52, 53, 54, 55, 56, 57] := by
      decide +kernel
    simp only [hascii, List.forall_mem_cons]
    repeat' constructor
    exact nofun
  exact hall byte (hmem byte h)

theorem adds_length :
    Adds .headerValueContentLength .spanEndOnHeaderValue3 10 decimalDigit isDigit where
  base_pos := by decide
  node := by
    refine ⟨_, _, .invokeMulAddContentLength1, rfl, fun _ => rfl, fun byte hbyte => ?_⟩
    have hsmall : ∀ byte, isDigit byte = true → decimalDigit byte < 2 ^ 64 :=
      forall_byte (by decide +kernel)
    exact ⟨choose_digits hbyte _ _, hsmall byte hbyte⟩

/-- A length that fits is taken, and one that does not is refused. -/
theorem reaches_length {byte : UInt8} {rest : Bytes}
    (hdigits : ∀ other ∈ byte :: rest, isDigit other = true) (hstate : s.headerState = 2)
    (hflags : hasFlags 32 s = false) (hzero : s.contentLength = 0) :
    if decimal (byte :: rest) < 2 ^ 64 then
      Reaches graph ((byte :: rest) ++ [13, 10]) ⟨.headerValueDiscardWs, 0, none, s, 0⟩
        [.fragment .onHeaderValue (byte :: rest)]
        (valueEnd (byte :: rest) (contentLength.set (decimal (byte :: rest))
          { s with flags := s.flags ||| 32 }))
    else
      ∃ s' k, k ≤ (byte :: rest).length ∧
        Reaches graph ((byte :: rest) ++ [13, 10]) ⟨.headerValueDiscardWs, 0, none, s, 0⟩ []
          (valueConfig .spanEndOnHeaderValue3 s' k) := by
  have hdrop : ((byte :: rest) ++ [13, 10]).drop 0 = byte :: (rest ++ [13, 10]) := rfl
  have hopen := reaches_valueStart s byte rest fun blank hmem => by
    have hnone : ∀ blank ∈ [(9 : UInt8), 10, 13, 32], isDigit blank = false := by decide +kernel
    rintro rfl
    exact Bool.false_ne_true ((hnone _ hmem).symm.trans (hdigits _ List.mem_cons_self))
  have hload : Reaches graph ((byte :: rest) ++ [13, 10])
      (valueConfig .invokeLoadHeaderState1 s 0) [] (valueConfig .invokeTestFlags2 s 0) :=
    .invoke rfl rfl (by change chooseCode _ _ s.headerState.toNat = _; rw [hstate]; rfl)
  have htest : Reaches graph ((byte :: rest) ++ [13, 10])
      (valueConfig .invokeTestFlags2 s 0) [] (valueConfig .headerValueContentLength s 0) :=
    .invoke rfl rfl (by change chooseCode _ _ (if hasFlags 32 s then 1 else 0) = _; rw [hflags]; rfl)
  have hfront := hopen.silent_trans (hload.silent_trans htest)
  have hnumber := adds_length.reaches hdigits 0 (some (.onHeaderValue, 0)) s hdrop
  rw [hzero] at hnumber
  change if decimal (byte :: rest) < 2 ^ 64 then _ else _ at hnumber
  split at hnumber
  · rename_i hfits
    rw [if_pos hfits]
    refine hfront.silent_trans (hnumber.silent_trans ?_)
    change Reaches graph _
      (valueConfig .headerValueContentLength (contentLength.set (decimal (byte :: rest)) s)
        (0 + (byte :: rest).length)) _ _
    rw [Nat.zero_add]
    generalize hvalue : byte :: rest = value
    have hblank : Reaches graph (value ++ [13, 10])
        (valueConfig .headerValueContentLength (contentLength.set (decimal value) s) value.length) []
        (valueConfig .headerValueContentLengthWs (contentLength.set (decimal value) s)
          value.length) :=
      .goto rfl drop_value rfl
    have hline : Reaches graph (value ++ [13, 10])
        (valueConfig .headerValueContentLengthWs (contentLength.set (decimal value) s) value.length)
        []
        (valueConfig .invokeOrFlags15 (contentLength.set (decimal value) s) value.length) :=
      .goto rfl drop_value rfl
    have hor : Reaches graph (value ++ [13, 10])
        (valueConfig .invokeOrFlags15 (contentLength.set (decimal value) s) value.length) []
        (valueConfig .headerValueDiscardRws
          (contentLength.set (decimal value) { s with flags := s.flags ||| 32 }) value.length) :=
      .invoke rfl rfl rfl
    have hlast : Reaches graph (value ++ [13, 10])
        (valueConfig .headerValueDiscardRws
          (contentLength.set (decimal value) { s with flags := s.flags ||| 32 }) value.length) []
        (valueConfig .headerValueOtherwise
          (contentLength.set (decimal value) { s with flags := s.flags ||| 32 }) value.length) :=
      .goto rfl drop_value rfl
    exact hblank.silent_trans (hline.silent_trans (hor.silent_trans (hlast.silent_trans
      (reaches_crlf value _))))
  · rename_i hlarge
    rw [if_neg hlarge]
    obtain ⟨s', k, hk, hbad⟩ := hnumber
    rw [Nat.zero_add] at hbad
    exact ⟨s', k, hk, hfront.silent_trans hbad⟩

/-! ### Transfer-Encoding -/

theorem reaches_encoding (hvalue : lower value = ascii "chunked") (hstate : s.headerState = 3) :
    Reaches graph (value ++ [13, 10]) ⟨.headerValueDiscardWs, 0, none, s, 0⟩
      [.fragment .onHeaderValue value] (valueEnd value { s with headerState := 8 }) := by
  obtain ⟨byte, rest, rfl, hbyte, hrest⟩ : ∃ byte rest, value = byte :: rest ∧
      toLowerUnsafe byte = 99 ∧ lower rest = ascii "hunked" := by
    cases value with
    | nil => cases hvalue
    | cons byte rest =>
        obtain ⟨hbyte, hrest⟩ := List.cons.inj hvalue
        exact ⟨byte, rest, rfl, hbyte, hrest⟩
  have hdrop : ((byte :: rest) ++ [13, 10]).drop 0 = byte :: (rest ++ [13, 10]) := rfl
  have hopen := reaches_valueStart s byte rest fun blank hmem => by
    have hnone : ∀ blank ∈ [(9 : UInt8), 10, 13, 32], toLowerUnsafe blank ≠ 99 := by decide +kernel
    rintro rfl
    exact hnone _ hmem hbyte
  have hload : Reaches graph ((byte :: rest) ++ [13, 10])
      (valueConfig .invokeLoadHeaderState1 s 0) [] (valueConfig .headerValueTeChunked s 0) :=
    .invoke rfl rfl (by change chooseCode _ _ s.headerState.toNat = _; rw [hstate]; rfl)
  have hfirst : Reaches graph ((byte :: rest) ++ [13, 10])
      (valueConfig .headerValueTeChunked s 0) [] (valueConfig .headerValueTeChunked1 s 1) := by
    refine .advance rfl hdrop ?_
    have hlower (c : Char) : isLower c byte = ((99 : UInt8) == c.toUInt8) :=
      congrArg (· == c.toUInt8) hbyte
    rw [choose_cons_of_neg (hlower _), choose_cons_of_neg (hlower _), choose_cons_of_neg (hlower _),
      choose_cons_of_pos (hlower _)]
  have hdrop' : ((byte :: rest) ++ [13, 10]).drop 1 = rest ++ [13, 10] := rfl
  have hlength : rest.length = 6 := by
    have heq := congrArg List.length hrest
    rwa [lower, List.length_map] at heq
  have hword : Reaches graph ((byte :: rest) ++ [13, 10]) (valueConfig .headerValueTeChunked1 s 1) []
      (valueConfig .invokeUpdateHeaderState8 s (1 + rest.length)) :=
    .word rfl rfl (by rintro rfl; cases hlength) hdrop' hrest
  rw [Nat.add_comm 1 rest.length, ← List.length_cons (a := byte)] at hword
  have hcode : Reaches graph ((byte :: rest) ++ [13, 10])
      (valueConfig .invokeUpdateHeaderState8 s (byte :: rest).length) []
      (valueConfig .headerValueDiscardRws { s with headerState := 8 } (byte :: rest).length) :=
    .invoke rfl rfl rfl
  have hlast : Reaches graph ((byte :: rest) ++ [13, 10])
      (valueConfig .headerValueDiscardRws { s with headerState := 8 } (byte :: rest).length) []
      (valueConfig .headerValueOtherwise { s with headerState := 8 } (byte :: rest).length) :=
    .goto rfl drop_value rfl
  exact hopen.silent_trans (hload.silent_trans (hfirst.silent_trans (hword.silent_trans
    (hcode.silent_trans (hlast.silent_trans (reaches_crlf _ _))))))

end Values

/-! ## Lines in a row -/

/-- Lines that take the parser from the beginning of a line to the beginning of another one. -/
def TakesLines (text : Bytes) (events : List (Event Span Store)) (s s' : Store) : Prop :=
  ∀ state owed, AtLine state s owed → ∃ state' owed' reported,
    Feeds graph state text reported state' ∧ AtLine state' s' owed' ∧
      reported ++ owed' = owed ++ events

section Lines

variable {text text' : Bytes} {events events' : List (Event Span Store)} {s s' s'' : Store}

theorem TakesLines.append (h : TakesLines text events s s')
    (h' : TakesLines text' events' s' s'') :
    TakesLines (text ++ text') (events ++ events') s s'' := by
  intro state owed hline
  obtain ⟨state', owed', reported, hfeeds, hline', hreported⟩ := h state owed hline
  obtain ⟨state'', owed'', reported', hfeeds', hline'', hreported'⟩ := h' state' owed' hline'
  refine ⟨state'', owed'', reported ++ reported', hfeeds.append hfeeds', hline'', ?_⟩
  rw [List.append_assoc, hreported', ← List.append_assoc, hreported, List.append_assoc]

theorem takesLines_nil (s : Store) : TakesLines [] [] s s := by
  rintro _ owed ⟨label, store, rfl, ⟨cases, otherwise, hnode⟩, hstart⟩
  refine ⟨_, owed, [], ?_, ⟨label, store, rfl, ⟨cases, otherwise, hnode⟩, hstart⟩,
    (List.append_nil owed).symm⟩
  exact .of_reaches rfl rfl (.refl _) hnode

theorem feeds_blanks {blanks : Bytes} (h : ∀ byte ∈ blanks, byte = 32 ∨ byte = 9) (s : Store) :
    Feeds graph ⟨some .headerValueDiscardWs, 0, none, s, 0⟩ blanks []
      ⟨some .headerValueDiscardWs, 0, none, s, 0⟩ := by
  have hloop : Reaches graph blanks ⟨.headerValueDiscardWs, 0, none, s, 0⟩ []
      ⟨.headerValueDiscardWs, 0, none, s, 0 + blanks.length⟩ := by
    refine .loop rfl (List.append_nil blanks).symm fun byte hbyte => ?_
    rcases h byte hbyte with rfl | rfl
    · rfl
    · rfl
  rw [Nat.zero_add] at hloop
  exact .of_reaches rfl rfl hloop rfl

/-- The part of a line in front of the value. -/
theorem feeds_name (field : FieldText) {state : State Label Store Span}
    {owed : List (Event Span Store)} (h : AtLine state s owed) :
    Feeds graph state (field.name ++ [58] ++ field.blanks)
      (owed ++ [.fragment .onHeaderField field.name])
      ⟨some .headerValueDiscardWs, 0, none,
        { s with headerState := headerStateOf field.name }, 0⟩ := by
  obtain ⟨label, store, rfl, _, hstart⟩ := h
  have hfirst : Reaches graph (field.name ++ [58]) ⟨label, 0, none, store, 0⟩ owed
      ⟨.headerFieldStart, 0, none, s, 0⟩ := by
    obtain ⟨byte, rest, hname⟩ := List.exists_cons_of_ne_nil field.name_ne_nil
    have hbyte := field.name_token byte (hname ▸ List.mem_cons_self)
    rw [hname]
    exact hstart byte _ (ne_of_token hbyte rfl) (ne_of_token hbyte rfl)
  have hname : Feeds graph ⟨some label, 0, none, store, 0⟩ (field.name ++ [58])
      (owed ++ [.fragment .onHeaderField field.name])
      ⟨some .headerValueDiscardWs, 0, none,
        { s with headerState := headerStateOf field.name }, 0⟩ := by
    have hreach := hfirst.trans (reaches_name s field.name_token field.name_ne_nil)
    rw [nameEnd, ← List.length_singleton (a := (58 : UInt8)), ← List.length_append] at hreach
    exact .of_reaches rfl rfl hreach rfl
  have hall := hname.append (feeds_blanks field.blanks_blank _)
  rwa [List.append_nil] at hall

theorem takesLines_field (field : FieldText)
    (h : Takes field.value { s with headerState := headerStateOf field.name } s') :
    TakesLines field.text field.events s s' := by
  intro state owed hline
  obtain ⟨state', events, owed', hfeeds, hline', hevents⟩ := h
  refine ⟨state', owed', _, (feeds_name field hline).append hfeeds, hline', ?_⟩
  rw [List.append_assoc, hevents, List.append_assoc]
  rfl

end Lines

end Llhttp
end Inspector
end V8JsiRuntime
