import Mathlib.Data.Nat.Bitwise
import V8JsiRuntime.Lib.Utf
import V8JsiRuntime.Inspector.Utils

/-!
# StringView — texts on their way into and out of the agent

Messages arrive as UTF-8 bytes, wait in the agent's queue as UTF-16 units and are turned back into
UTF-8 to be looked at.  The conversions are those of `inspector_utils`; on valid UTF-8 they come back
to where they started.
-/

namespace V8JsiRuntime
namespace Inspector

open Lib

/-! ## From UTF-16 to UTF-8 -/

def kUtf8OneByteBoundary : UInt16 := 0x80
def kUtf8TwoBytesBoundary : UInt16 := 0x800
def kUtf16HighSubLowBoundary : UInt16 := 0xD800
def kUtf16HighSubHighBoundary : UInt16 := 0xDC00
def kUtf16LowSubHighBoundary : UInt16 := 0xE000

/-- The test of both loops for a surrogate pair; the second unit is there. -/
def isSurrogatePair (ch next : UInt16) : Bool :=
  ch ≥ kUtf16HighSubLowBoundary && ch < kUtf16HighSubHighBoundary &&
    next ≥ kUtf16HighSubHighBoundary && next < kUtf16LowSubHighBoundary

/-- The loop of `utf16toUTF8Length`; the counter is a `uint32_t`. -/
def utf16toUTF8LengthLoop (utf8StringLen : UInt32) : List UInt16 → UInt32
  | [] => utf8StringLen
  | ch :: idx16 =>
      if ch < kUtf8OneByteBoundary then
        utf16toUTF8LengthLoop (utf8StringLen + 1) idx16
      else if ch < kUtf8TwoBytesBoundary then
        utf16toUTF8LengthLoop (utf8StringLen + 2) idx16
      else
        match idx16 with
        | [] => utf8StringLen + 3
        | next :: rest =>
            if isSurrogatePair ch next then
              utf16toUTF8LengthLoop (utf8StringLen + 4) rest
            else
              utf16toUTF8LengthLoop (utf8StringLen + 3) (next :: rest)

def utf16toUTF8Length (utf16String : List UInt16) : Nat :=
  (utf16toUTF8LengthLoop 0 utf16String).toNat

/-- The conversion to `char` when a value is stored. -/
def toChar (value : UInt16) : UInt8 :=
  value.toUInt8

/-- The three bytes stored for a unit on its own. -/
def storeThree (ch : UInt16) : Bytes :=
  [toChar ((0xE0 : UInt16) ||| (ch >>> 12)), toChar ((0x80 : UInt16) ||| ((ch >>> 6) &&& 0x3F)),
    toChar ((0x80 : UInt16) ||| (ch &&& 0x3F))]

/-- The four bytes stored for a surrogate pair. -/
def storeFour (ch ch2 : UInt16) : Bytes :=
  let truncByte := ((ch >>> 6) &&& 0x0F) + 1
  [toChar ((0xF0 : UInt16) ||| (truncByte >>> 2)),
    toChar ((0x80 : UInt16) ||| ((truncByte &&& 0x03) <<< 4) ||| ((ch >>> 2) &&& 0x0F)),
    toChar ((0x80 : UInt16) ||| ((ch &&& 0x03) <<< 4) ||| ((ch2 >>> 6) &&& 0x0F)),
    toChar ((0x80 : UInt16) ||| (ch2 &&& 0x3F))]

/-- The bytes that the loop of `utf16toUTF8` stores, in order. -/
def utf16toUTF8Loop : List UInt16 → Bytes
  | [] => []
  | ch :: idx16 =>
      if ch < kUtf8OneByteBoundary then
        toChar (ch &&& 0x7F) :: utf16toUTF8Loop idx16
      else if ch < kUtf8TwoBytesBoundary then
        toChar ((0xC0 : UInt16) ||| (ch >>> 6)) :: toChar ((0x80 : UInt16) ||| (ch &&& 0x3F)) :: utf16toUTF8Loop idx16
      else
        match idx16 with
        | [] => storeThree ch
        | next :: rest =>
            if isSurrogatePair ch next then
              storeFour ch next ++ utf16toUTF8Loop rest
            else
              storeThree ch ++ utf16toUTF8Loop (next :: rest)

/-- `utf16toUTF8`: the string is made as long as `utf16toUTF8Length` says and then filled; the store
behind its end, if any, is a fault. -/
def utf16toUTF8 (utf16String : List UInt16) : Except Fault Bytes :=
  let stored := utf16toUTF8Loop utf16String
  let length := utf16toUTF8Length utf16String
  if stored.length ≤ length then
    .ok (stored ++ List.replicate (length - stored.length) 0)
  else
    .error (.writeOutOfBounds length)

/-! ## The stored bytes -/

theorem toChar_eq {x : UInt16} {n : Nat} (h : x.toNat % 256 = n % 256) :
    toChar x = UInt8.ofNat n := by
  apply UInt8.toNat_inj.1
  simpa [toChar] using h

theorem toNat_and {m : UInt16} (k : Nat) (hm : m.toNat = 2 ^ k - 1) (x : UInt16) :
    (x &&& m).toNat = x.toNat % 2 ^ k := by
  rw [UInt16.toNat_and, hm, Nat.and_two_pow_sub_one_eq_mod]

theorem toNat_shiftRight {n : UInt16} (k : Nat) (hn : n.toNat % 16 = k) (x : UInt16) :
    (x >>> n).toNat = x.toNat / 2 ^ k := by
  rw [UInt16.toNat_shiftRight, hn, Nat.shiftRight_eq_div_pow]

theorem toNat_shiftLeft_four {x : UInt16} (h : x.toNat < 4) : (x <<< 4).toNat = x.toNat * 16 := by
  rw [UInt16.toNat_shiftLeft]
  have hshift : x.toNat <<< ((4 : UInt16).toNat % 16) = x.toNat * 16 :=
    Nat.shiftLeft_eq x.toNat 4
  rw [hshift]
  exact Nat.mod_eq_of_lt (by omega)

/-- Or-ing in bits below all that are set is adding them. -/
theorem toNat_or {m x : UInt16} (k : Nat) (hm : m.toNat % 2 ^ k = 0) (hx : x.toNat < 2 ^ k) :
    (m ||| x).toNat = m.toNat + x.toNat := by
  obtain ⟨c, hc⟩ := Nat.dvd_of_mod_eq_zero hm
  rw [UInt16.toNat_or, hc]
  exact (Nat.two_pow_add_eq_or_of_lt hx c).symm

theorem storeOne_eq {ch : UInt16} (h : ch.toNat ≤ 0x7F) :
    [toChar (ch &&& 0x7F)] = encodeCodePoint ch.toNat := by
  rw [encodeCodePoint, if_pos h]
  congr 1
  apply toChar_eq
  rw [toNat_and 7 rfl]
  omega

/-- The last byte of every encoding but the one-byte one. -/
theorem storeLast_eq (ch : UInt16) :
    toChar ((0x80 : UInt16) ||| (ch &&& 0x3F)) = UInt8.ofNat (ch.toNat % 64 + 0x80) := by
  apply toChar_eq
  have hlow : (ch &&& 0x3F).toNat = ch.toNat % 64 := toNat_and 6 rfl ch
  have hor : ((0x80 : UInt16) ||| (ch &&& 0x3F)).toNat = 128 + (ch &&& 0x3F).toNat :=
    toNat_or 6 rfl (by omega)
  omega

theorem storeTwo_eq {ch : UInt16} (hlow : 0x7F < ch.toNat) (hhigh : ch.toNat ≤ 0x7FF) :
    [toChar ((0xC0 : UInt16) ||| (ch >>> 6)), toChar ((0x80 : UInt16) ||| (ch &&& 0x3F))] =
      encodeCodePoint ch.toNat := by
  rw [encodeCodePoint, if_neg (Nat.not_le.2 hlow), if_pos hhigh, storeLast_eq]
  congr 1
  apply toChar_eq
  have hshift : (ch >>> 6).toNat = ch.toNat / 64 := toNat_shiftRight 6 rfl ch
  have hor : ((0xC0 : UInt16) ||| (ch >>> 6)).toNat = 192 + (ch >>> 6).toNat :=
    toNat_or 6 rfl (by omega)
  omega

theorem storeThree_eq {ch : UInt16} (hlow : 0x7FF < ch.toNat) :
    storeThree ch = encodeCodePoint ch.toNat := by
  have hmax := ch.toNat_lt
  have hsix : (ch >>> 6).toNat = ch.toNat / 64 := toNat_shiftRight 6 rfl ch
  rw [encodeCodePoint, if_neg (by omega), if_neg (by omega), if_pos (by omega), storeThree,
    storeLast_eq ch, storeLast_eq (ch >>> 6), hsix]
  congr 1
  apply toChar_eq
  have hshift : (ch >>> 12).toNat = ch.toNat / 4096 := toNat_shiftRight 12 rfl ch
  have hor : ((0xE0 : UInt16) ||| (ch >>> 12)).toNat = 224 + (ch >>> 12).toNat :=
    toNat_or 4 rfl (by omega)
  omega

/-- A continuation byte put together from two bits of one value and four of another. -/
theorem storeJoint_eq (x y : UInt16) :
    toChar ((0x80 : UInt16) ||| ((x &&& 0x03) <<< 4) ||| (y &&& 0x0F)) =
      UInt8.ofNat (x.toNat % 4 * 16 + y.toNat % 16 + 0x80) := by
  apply toChar_eq
  have hx : (x &&& 0x03).toNat = x.toNat % 4 := toNat_and 2 rfl x
  have hy : (y &&& 0x0F).toNat = y.toNat % 16 := toNat_and 4 rfl y
  have hshift : ((x &&& 0x03) <<< 4).toNat = (x &&& 0x03).toNat * 16 :=
    toNat_shiftLeft_four (by omega)
  have hinner : ((0x80 : UInt16) ||| ((x &&& 0x03) <<< 4)).toNat =
      128 + ((x &&& 0x03) <<< 4).toNat := toNat_or 6 rfl (by omega)
  have houter : ((0x80 : UInt16) ||| ((x &&& 0x03) <<< 4) ||| (y &&& 0x0F)).toNat =
      ((0x80 : UInt16) ||| ((x &&& 0x03) <<< 4)).toNat + (y &&& 0x0F).toNat :=
    toNat_or 4 (by omega) (by omega)
  omega

theorem storeFour_eq {ch ch2 : UInt16} (hhigh : IsHighSurrogate ch) (hlow : IsLowSurrogate ch2) :
    storeFour ch ch2 = encodeCodePoint (combine ch ch2) := by
  obtain ⟨hhigh₁, hhigh₂⟩ := hhigh
  obtain ⟨hlow₁, hlow₂⟩ := hlow
  have hvalue : combine ch ch2 =
      0x10000 + (ch.toNat - 0xD800) * 0x400 + (ch2.toNat - 0xDC00) := rfl
  generalize combine ch ch2 = v at hvalue
  have hsix : (ch >>> 6).toNat = ch.toNat / 64 := toNat_shiftRight 6 rfl ch
  have htwo : (ch >>> 2).toNat = ch.toNat / 4 := toNat_shiftRight 2 rfl ch
  have hsix₂ : (ch2 >>> 6).toNat = ch2.toNat / 64 := toNat_shiftRight 6 rfl ch2
  -- `trunc_byte` is the plane and the upper bits of the code point
  have hnibble : ((ch >>> 6) &&& 0x0F).toNat = (ch >>> 6).toNat % 16 := toNat_and 4 rfl _
  have htrunc : (((ch >>> 6) &&& 0x0F) + 1).toNat = ((ch >>> 6) &&& 0x0F).toNat + 1 := by
    have hone : (1 : UInt16).toNat = 1 := rfl
    rw [UInt16.toNat_add, hone]
    exact Nat.mod_eq_of_lt (by omega)
  rw [encodeCodePoint, if_neg (by omega), if_neg (by omega), if_neg (by omega), storeFour,
    storeJoint_eq, storeJoint_eq, storeLast_eq, htwo, hsix₂]
  generalize ((ch >>> 6) &&& 0x0F) + 1 = truncByte at htrunc
  have hshift : (truncByte >>> 2).toNat = truncByte.toNat / 4 := toNat_shiftRight 2 rfl _
  have hor : ((0xF0 : UInt16) ||| (truncByte >>> 2)).toNat = 240 + (truncByte >>> 2).toNat :=
    toNat_or 4 rfl (by omega)
  have hfirst : toChar ((0xF0 : UInt16) ||| (truncByte >>> 2)) =
      UInt8.ofNat (v / 262144 % 8 + 0xF0) := by
    apply toChar_eq
    omega
  -- the two middle bytes join bits of different units
  have hsecond : truncByte.toNat % 4 * 16 + ch.toNat / 4 % 16 = v / 4096 % 64 := by
    omega
  have hthird : ch.toNat % 4 * 16 + ch2.toNat / 64 % 16 = v / 64 % 64 := by
    omega
  have hfourth : ch2.toNat % 64 = v % 64 := by
    omega
  rw [hfirst, hsecond, hthird, hfourth]

/-! ## The whole string -/

theorem isSurrogatePair_iff (ch next : UInt16) :
    isSurrogatePair ch next = true ↔ IsHighSurrogate ch ∧ IsLowSurrogate next := by
  simp only [isSurrogatePair, Bool.and_eq_true, decide_eq_true_eq, ge_iff_le,
    UInt16.le_iff_toNat_le, UInt16.lt_iff_toNat_lt, IsHighSurrogate, IsLowSurrogate]
  exact and_assoc

theorem lt_oneByteBoundary_iff (ch : UInt16) : ch < kUtf8OneByteBoundary ↔ ch.toNat ≤ 0x7F := by
  rw [UInt16.lt_iff_toNat_lt]
  exact Nat.lt_succ_iff

theorem lt_twoBytesBoundary_iff (ch : UInt16) : ch < kUtf8TwoBytesBoundary ↔ ch.toNat ≤ 0x7FF := by
  rw [UInt16.lt_iff_toNat_lt]
  exact Nat.lt_succ_iff

/-- The unit begins no surrogate pair. -/
def IsAlone (ch : UInt16) (rest : List UInt16) : Prop :=
  ∀ next ∈ rest.head?, ¬ (IsHighSurrogate ch ∧ IsLowSurrogate next)

theorem codePoints_cons {ch : UInt16} {rest : List UInt16} (h : IsAlone ch rest) :
    codePoints (ch :: rest) = ch.toNat :: codePoints rest := by
  cases rest with
  | nil => rfl
  | cons next rest => rw [codePoints, if_neg (h next rfl)]

theorem IsAlone.not_isSurrogatePair {ch next : UInt16} {rest : List UInt16}
    (h : IsAlone ch (next :: rest)) : ¬ isSurrogatePair ch next = true := by
  rw [isSurrogatePair_iff]
  exact h next rfl

theorem utf16toUTF8Loop_cons {ch : UInt16} {rest : List UInt16} (h : IsAlone ch rest) :
    utf16toUTF8Loop (ch :: rest) = encodeCodePoint ch.toNat ++ utf16toUTF8Loop rest := by
  rw [utf16toUTF8Loop.eq_def (ch :: rest)]
  dsimp only
  by_cases hone : ch < kUtf8OneByteBoundary
  · rw [if_pos hone, ← storeOne_eq ((lt_oneByteBoundary_iff ch).1 hone), List.singleton_append]
  · have hone' := hone
    rw [lt_oneByteBoundary_iff, Nat.not_le] at hone'
    rw [if_neg hone]
    by_cases htwo : ch < kUtf8TwoBytesBoundary
    · rw [if_pos htwo, ← storeTwo_eq hone' ((lt_twoBytesBoundary_iff ch).1 htwo), List.cons_append,
        List.singleton_append]
    · have htwo' := htwo
      rw [lt_twoBytesBoundary_iff, Nat.not_le] at htwo'
      rw [if_neg htwo, ← storeThree_eq htwo']
      cases rest with
      | nil => exact (List.append_nil _).symm
      | cons next rest => exact if_neg h.not_isSurrogatePair

theorem utf16toUTF8Loop_pair {ch next : UInt16} (hhigh : IsHighSurrogate ch)
    (hlow : IsLowSurrogate next) (rest : List UInt16) :
    utf16toUTF8Loop (ch :: next :: rest) =
      encodeCodePoint (combine ch next) ++ utf16toUTF8Loop rest := by
  have hone : ¬ ch < kUtf8OneByteBoundary := by
    rw [lt_oneByteBoundary_iff]
    have := hhigh.1
    omega
  have htwo : ¬ ch < kUtf8TwoBytesBoundary := by
    rw [lt_twoBytesBoundary_iff]
    have := hhigh.1
    omega
  rw [utf16toUTF8Loop, if_neg hone, if_neg htwo, if_pos ((isSurrogatePair_iff ch next).2 ⟨hhigh, hlow⟩),
    storeFour_eq hhigh hlow]

/-- The loop stores the encodings of the code points. -/
theorem utf16toUTF8Loop_eq (units : List UInt16) :
    utf16toUTF8Loop units = (codePoints units).flatMap encodeCodePoint := by
  induction units using codePoints.induct with
  | case1 => rfl
  | case2 unit =>
      rw [utf16toUTF8Loop_cons (by simp [IsAlone])]
      rfl
  | case3 unit next units hpair ih =>
      rw [utf16toUTF8Loop_pair hpair.1 hpair.2, codePoints_pair hpair.1 hpair.2, ih,
        List.flatMap_cons]
  | case4 unit next units hsingle ih =>
      -- a unit alone, a lone surrogate included, is stored by its size
      have halone : IsAlone unit (next :: units) := by
        intro n hn
        obtain rfl := Option.some.inj hn
        exact hsingle
      rw [utf16toUTF8Loop_cons halone, codePoints_cons halone, ih, List.flatMap_cons]

theorem length_encodeCodePoint_of_le {v : Nat} (hlow : 0x7FF < v) (hhigh : v ≤ 0xFFFF) :
    (encodeCodePoint v).length = 3 := by
  rw [encodeCodePoint, if_neg (by omega), if_neg (by omega), if_pos hhigh]
  rfl

theorem utf16toUTF8LengthLoop_cons {ch : UInt16} {rest : List UInt16} (h : IsAlone ch rest)
    (acc : UInt32) : utf16toUTF8LengthLoop acc (ch :: rest) =
      utf16toUTF8LengthLoop (acc + UInt32.ofNat (encodeCodePoint ch.toNat).length) rest := by
  have hmax := ch.toNat_lt
  rw [utf16toUTF8LengthLoop.eq_def acc (ch :: rest)]
  dsimp only
  by_cases hone : ch < kUtf8OneByteBoundary
  · rw [if_pos hone, encodeCodePoint, if_pos ((lt_oneByteBoundary_iff ch).1 hone)]
    rfl
  · have hone' := hone
    rw [lt_oneByteBoundary_iff] at hone'
    rw [if_neg hone]
    by_cases htwo : ch < kUtf8TwoBytesBoundary
    · rw [if_pos htwo, encodeCodePoint, if_neg hone', if_pos ((lt_twoBytesBoundary_iff ch).1 htwo)]
      rfl
    · have htwo' := htwo
      rw [lt_twoBytesBoundary_iff] at htwo'
      rw [if_neg htwo, length_encodeCodePoint_of_le (by omega) (by omega)]
      cases rest with
      | nil => rfl
      | cons next rest => exact if_neg h.not_isSurrogatePair

theorem utf16toUTF8LengthLoop_pair {ch next : UInt16} (hhigh : IsHighSurrogate ch)
    (hlow : IsLowSurrogate next) (rest : List UInt16) (acc : UInt32) :
    utf16toUTF8LengthLoop acc (ch :: next :: rest) = utf16toUTF8LengthLoop (acc + 4) rest := by
  have hfirst := hhigh.1
  have hone : ¬ ch < kUtf8OneByteBoundary := by
    rw [lt_oneByteBoundary_iff]
    omega
  have htwo : ¬ ch < kUtf8TwoBytesBoundary := by
    rw [lt_twoBytesBoundary_iff]
    omega
  rw [utf16toUTF8LengthLoop, if_neg hone, if_neg htwo,
    if_pos ((isSurrogatePair_iff ch next).2 ⟨hhigh, hlow⟩)]

theorem length_encode_combine {ch next : UInt16} :
    (encodeCodePoint (combine ch next)).length = 4 := by
  have hbig : 0xFFFF < combine ch next := by
    unfold combine
    omega
  rw [encodeCodePoint, if_neg (by omega), if_neg (by omega), if_neg (by omega)]
  rfl

/-- The counting loop counts, modulo the width of its counter, the bytes that will be stored. -/
theorem utf16toUTF8LengthLoop_eq (units : List UInt16) (acc : UInt32) :
    utf16toUTF8LengthLoop acc units =
      acc + UInt32.ofNat ((codePoints units).flatMap encodeCodePoint).length := by
  induction units using codePoints.induct generalizing acc with
  | case1 => simp [utf16toUTF8LengthLoop, codePoints]
  | case2 unit =>
      rw [utf16toUTF8LengthLoop_cons (by simp [IsAlone]), utf16toUTF8LengthLoop]
      simp [codePoints]
  | case3 unit next units hpair ih =>
      rw [utf16toUTF8LengthLoop_pair hpair.1 hpair.2, codePoints_pair hpair.1 hpair.2, ih,
        List.flatMap_cons, List.length_append, length_encode_combine, UInt32.ofNat_add,
        UInt32.add_assoc]
      rfl
  | case4 unit next units hsingle ih =>
      have halone : IsAlone unit (next :: units) := by
        intro n hn
        obtain rfl := Option.some.inj hn
        exact hsingle
      rw [utf16toUTF8LengthLoop_cons halone, codePoints_cons halone, ih, List.flatMap_cons,
        List.length_append, UInt32.ofNat_add, UInt32.add_assoc]

/-- Short of 2^32 bytes, `utf16toUTF8` gives exactly the encodings of the code points. -/
theorem utf16toUTF8_eq {units : List UInt16}
    (h : ((codePoints units).flatMap encodeCodePoint).length < 2 ^ 32) :
    utf16toUTF8 units = .ok ((codePoints units).flatMap encodeCodePoint) := by
  have hlength : utf16toUTF8Length units = ((codePoints units).flatMap encodeCodePoint).length := by
    rw [utf16toUTF8Length, utf16toUTF8LengthLoop_eq, UInt32.zero_add]
    exact UInt32.toNat_ofNat_of_lt' h
  simp only [utf16toUTF8, utf16toUTF8Loop_eq, hlength, Nat.le_refl, if_true, Nat.sub_self,
    List.replicate_zero, List.append_nil]

theorem utf16toUTF8_utf16 {text : List Char} (h : (utf8 text).length < 2 ^ 32) :
    utf16toUTF8 (utf16 text) = .ok (utf8 text) := by
  rw [← encode_codePoints_utf16] at h ⊢
  exact utf16toUTF8_eq h

/-! ## From UTF-8 to UTF-16 -/

/-- What `Utf8ToUtf16` throws. -/
inductive ConversionError
  | overflowError
  | runtimeError
  deriving DecidableEq, Repr

/-- `MultiByteToWideChar` for `CP_UTF8` with `MB_ERR_INVALID_CHARS`, which the code takes from
Windows: `none` is the result 0. -/
structure MultiByteToWideChar where
  convert : Bytes → Option (List UInt16)
  /-- Valid UTF-8 is converted to UTF-16. -/
  convert_utf8 : ∀ text : List Char, text ≠ [] → convert (utf8 text) = some (utf16 text)
  /-- Anything else is an error. -/
  convert_invalid : ∀ bytes, (∀ text, utf8 text ≠ bytes) → convert bytes = none

/-- A conversion of this kind: ASCII as it is, and anything else decoded and encoded again. -/
def MultiByteToWideChar.decoding : MultiByteToWideChar where
  convert bytes :=
    if bytes.all (· < 0x80) then
      some (bytes.map UInt8.toUInt16)
    else
      bytes.toByteArray.utf8Decode?.map fun text => utf16 text.toList
  convert_utf8 := by
    intro text _
    split
    · rename_i hascii
      rw [utf16_of_ascii (by simpa using hascii)]
    · rw [utf8Decode_utf8]
      rfl
  convert_invalid := by
    intro bytes hinvalid
    split
    · rename_i hascii
      exact absurd (utf8_of_ascii (by simpa using hascii)) (hinvalid _)
    · cases hdecode : bytes.toByteArray.utf8Decode? with
      | none => rfl
      | some text =>
          obtain ⟨chars, hchars⟩ := isUtf8_of_utf8Decode (by rw [hdecode]; rfl)
          exact absurd hchars (hinvalid chars)

/-- `Utf8ToUtf16`. -/
def utf8ToUtf16 (multiByteToWideChar : MultiByteToWideChar) (utf8 : Bytes) :
    Except ConversionError (List UInt16) :=
  if utf8.length = 0 then
    .ok []
  else if utf8.length > intMax then
    .error .overflowError
  else
    match multiByteToWideChar.convert utf8 with
    | none => .error .runtimeError
    | some utf16 => .ok utf16

/-- A `v8_inspector::StringView` with the characters it shows. -/
inductive StringView
  | view8 (characters8 : Bytes)
  | view16 (characters16 : List UInt16)
  deriving DecidableEq, Repr

namespace StringView

def length : StringView → Nat
  | view8 characters8 => characters8.length
  | view16 characters16 => characters16.length

end StringView

def stringViewToUtf8 : StringView → Except Fault Bytes
  | .view8 characters8 => .ok characters8
  | .view16 characters16 => utf16toUTF8 characters16

def utf8ToStringView (multiByteToWideChar : MultiByteToWideChar) (message : Bytes) :
    Except ConversionError StringView := do
  let wstr ← utf8ToUtf16 multiByteToWideChar message
  return .view16 wstr

/-- A conversion succeeds on valid UTF-8 that is not too long, and on nothing else. -/
theorem utf8ToStringView_cases {multiByteToWideChar : MultiByteToWideChar} {message : Bytes}
    {view : StringView} (h : utf8ToStringView multiByteToWideChar message = .ok view) :
    message.length ≤ intMax ∧ ∃ text, utf8 text = message ∧ view = .view16 (utf16 text) := by
  unfold utf8ToStringView utf8ToUtf16 at h
  by_cases hempty : message.length = 0
  · rw [if_pos hempty] at h
    obtain rfl := Except.ok.inj h
    rw [List.length_eq_zero_iff] at hempty
    subst hempty
    exact ⟨Nat.zero_le _, [], rfl, rfl⟩
  · rw [if_neg hempty] at h
    by_cases hlong : message.length > intMax
    · rw [if_pos hlong] at h
      cases h
    · rw [if_neg hlong] at h
      refine ⟨Nat.not_lt.1 hlong, ?_⟩
      -- valid UTF-8 is converted, and anything else makes the conversion throw
      by_cases hvalid : ∃ text, utf8 text = message
      · obtain ⟨text, rfl⟩ := hvalid
        have hne : text ≠ [] := by
          rintro rfl
          exact hempty rfl
        rw [multiByteToWideChar.convert_utf8 text hne] at h
        obtain rfl := Except.ok.inj h
        exact ⟨text, rfl, rfl⟩
      · rw [multiByteToWideChar.convert_invalid message
          fun text htext => hvalid ⟨text, htext⟩] at h
        cases h

theorem utf8ToStringView_utf8 (multiByteToWideChar : MultiByteToWideChar) {text : List Char}
    (h : (utf8 text).length ≤ intMax) :
    utf8ToStringView multiByteToWideChar (utf8 text) = .ok (.view16 (utf16 text)) := by
  rw [utf8ToStringView, utf8ToUtf16]
  cases text with
  | nil => rfl
  | cons c text =>
      have hpos : 0 < (utf8 (c :: text)).length := by
        rw [utf8, List.flatMap_cons, List.length_append, String.length_utf8EncodeChar]
        exact Nat.add_pos_left c.utf8Size_pos _
      rw [if_neg (Nat.ne_of_gt hpos), if_neg (Nat.not_lt.2 h),
        multiByteToWideChar.convert_utf8 _ (List.cons_ne_nil c text)]
      rfl

/-- What was put into the queue comes out of it. -/
theorem stringViewToUtf8_utf8ToStringView {multiByteToWideChar : MultiByteToWideChar}
    {message : Bytes} {view : StringView}
    (h : utf8ToStringView multiByteToWideChar message = .ok view) :
    stringViewToUtf8 view = .ok message := by
  obtain ⟨hlen, text, rfl, rfl⟩ := utf8ToStringView_cases h
  exact utf16toUTF8_utf16 (Nat.lt_of_le_of_lt hlen (by decide))

/-- An ASCII message has as many units as bytes. -/
theorem length_of_ascii {multiByteToWideChar : MultiByteToWideChar} {message : Bytes}
    {view : StringView} (h : utf8ToStringView multiByteToWideChar message = .ok view)
    (hascii : ∀ b ∈ message, b < 0x80) : view.length = message.length := by
  obtain ⟨_, text, rfl, rfl⟩ := utf8ToStringView_cases h
  rw [StringView.length, utf16_of_ascii hascii, List.length_map]

end Inspector
end V8JsiRuntime
