import Mathlib.Data.List.Basic

/-!
# Utf — code points between UTF-16 and UTF-8

A list of UTF-16 units stands for a list of code points: a surrogate pair is one, and any other
unit, a lone surrogate included, is one by itself.  Code points have a generalised UTF-8 encoding,
which on Unicode scalar values is the standard one.
-/

namespace V8JsiRuntime
namespace Lib

/-! ## Code points -/

/-- The unit is the first of a surrogate pair. -/
def IsHighSurrogate (unit : UInt16) : Prop :=
  0xD800 ≤ unit.toNat ∧ unit.toNat < 0xDC00

/-- The unit is the second of a surrogate pair. -/
def IsLowSurrogate (unit : UInt16) : Prop :=
  0xDC00 ≤ unit.toNat ∧ unit.toNat < 0xE000

instance (unit : UInt16) : Decidable (IsHighSurrogate unit) :=
  inferInstanceAs (Decidable (_ ∧ _))

instance (unit : UInt16) : Decidable (IsLowSurrogate unit) :=
  inferInstanceAs (Decidable (_ ∧ _))

/-- The code point of a surrogate pair. -/
def combine (high low : UInt16) : Nat :=
  0x10000 + (high.toNat - 0xD800) * 0x400 + (low.toNat - 0xDC00)

/-- The code points that a list of units stands for. -/
def codePoints : List UInt16 → List Nat
  | [] => []
  | [unit] => [unit.toNat]
  | unit :: next :: units =>
      if IsHighSurrogate unit ∧ IsLowSurrogate next then
        combine unit next :: codePoints units
      else
        unit.toNat :: codePoints (next :: units)

/-- The UTF-8 encoding of a code point, applied to surrogates as well. -/
def encodeCodePoint (v : Nat) : List UInt8 :=
  if v ≤ 0x7F then
    [UInt8.ofNat v]
  else if v ≤ 0x7FF then
    [UInt8.ofNat (v / 64 % 32 + 0xC0), UInt8.ofNat (v % 64 + 0x80)]
  else if v ≤ 0xFFFF then
    [UInt8.ofNat (v / 4096 % 16 + 0xE0), UInt8.ofNat (v / 64 % 64 + 0x80),
      UInt8.ofNat (v % 64 + 0x80)]
  else
    [UInt8.ofNat (v / 262144 % 8 + 0xF0), UInt8.ofNat (v / 4096 % 64 + 0x80),
      UInt8.ofNat (v / 64 % 64 + 0x80), UInt8.ofNat (v % 64 + 0x80)]

/-! ## Texts -/

/-- The UTF-8 encoding of a text. -/
def utf8 (text : List Char) : List UInt8 :=
  text.flatMap String.utf8EncodeChar

/-- The first unit of the surrogate pair of a code point from 0x10000 on. -/
def highSurrogate (v : Nat) : UInt16 :=
  UInt16.ofNat (0xD800 + (v - 0x10000) / 0x400)

/-- The second one. -/
def lowSurrogate (v : Nat) : UInt16 :=
  UInt16.ofNat (0xDC00 + (v - 0x10000) % 0x400)

def utf16EncodeChar (c : Char) : List UInt16 :=
  if c.toNat < 0x10000 then
    [UInt16.ofNat c.toNat]
  else
    [highSurrogate c.toNat, lowSurrogate c.toNat]

/-- The UTF-16 encoding of a text. -/
def utf16 (text : List Char) : List UInt16 :=
  text.flatMap utf16EncodeChar

theorem encodeCodePoint_char (c : Char) : encodeCodePoint c.toNat = String.utf8EncodeChar c :=
  rfl

theorem codePoints_cons_of_not_high {unit : UInt16} (h : ¬ IsHighSurrogate unit)
    (units : List UInt16) : codePoints (unit :: units) = unit.toNat :: codePoints units := by
  cases units with
  | nil => rfl
  | cons next units => rw [codePoints, if_neg (fun hpair => h hpair.1)]

theorem codePoints_pair {high low : UInt16} (hhigh : IsHighSurrogate high)
    (hlow : IsLowSurrogate low) (units : List UInt16) :
    codePoints (high :: low :: units) = combine high low :: codePoints units := by
  rw [codePoints, if_pos ⟨hhigh, hlow⟩]

theorem toNat_highSurrogate {v : Nat} (h : v < 0x110000) :
    (highSurrogate v).toNat = 0xD800 + (v - 0x10000) / 0x400 := by
  apply UInt16.toNat_ofNat_of_lt'
  show _ < 65536
  omega

theorem toNat_lowSurrogate (v : Nat) :
    (lowSurrogate v).toNat = 0xDC00 + (v - 0x10000) % 0x400 := by
  apply UInt16.toNat_ofNat_of_lt'
  show _ < 65536
  omega

theorem isHighSurrogate_highSurrogate {v : Nat} (h : v < 0x110000) :
    IsHighSurrogate (highSurrogate v) := by
  rw [IsHighSurrogate, toNat_highSurrogate h]
  omega

theorem isLowSurrogate_lowSurrogate (v : Nat) : IsLowSurrogate (lowSurrogate v) := by
  rw [IsLowSurrogate, toNat_lowSurrogate]
  omega

theorem combine_surrogates {v : Nat} (hlow : 0x10000 ≤ v) (hhigh : v < 0x110000) :
    combine (highSurrogate v) (lowSurrogate v) = v := by
  have hfirst := toNat_highSurrogate hhigh
  have hsecond := toNat_lowSurrogate v
  unfold combine
  omega

/-- The units of a character stand for that character alone, whatever follows. -/
theorem codePoints_utf16EncodeChar (c : Char) (units : List UInt16) :
    codePoints (utf16EncodeChar c ++ units) = c.toNat :: codePoints units := by
  have hvalid : c.toNat < 0xD800 ∨ (0xDFFF < c.toNat ∧ c.toNat < 0x110000) := c.valid
  unfold utf16EncodeChar
  split
  · rename_i hbmp
    have hunit : (UInt16.ofNat c.toNat).toNat = c.toNat := UInt16.toNat_ofNat_of_lt' hbmp
    -- a character is no surrogate
    have hscalar : ¬ IsHighSurrogate (UInt16.ofNat c.toNat) := by
      rw [IsHighSurrogate, hunit]
      omega
    rw [List.singleton_append, codePoints_cons_of_not_high hscalar, hunit]
  · rename_i hastral
    have hmax : c.toNat < 0x110000 := by
      omega
    rw [List.cons_append, List.cons_append, List.nil_append,
      codePoints_pair (isHighSurrogate_highSurrogate hmax) (isLowSurrogate_lowSurrogate c.toNat),
      combine_surrogates (Nat.not_lt.1 hastral) hmax]

/-- The UTF-16 encoding of a text stands for the text. -/
theorem codePoints_utf16 (text : List Char) : codePoints (utf16 text) = text.map Char.toNat := by
  induction text with
  | nil => rfl
  | cons c text ih =>
      rw [utf16, List.flatMap_cons, codePoints_utf16EncodeChar]
      exact congrArg (c.toNat :: ·) ih

/-- Going over UTF-16 does not change the UTF-8 encoding of a text. -/
theorem encode_codePoints_utf16 (text : List Char) :
    (codePoints (utf16 text)).flatMap encodeCodePoint = utf8 text := by
  rw [codePoints_utf16, List.flatMap_map]
  rfl

/-- A byte from 0x80 on is no text by itself. -/
theorem utf8_ne_singleton {b : UInt8} (hb : 0x80 ≤ b.toNat) (text : List Char) :
    utf8 text ≠ [b] := by
  intro heq
  cases text with
  | nil => cases heq
  | cons c text =>
      rw [utf8, List.flatMap_cons, ← encodeCodePoint_char, encodeCodePoint] at heq
      split at heq
      · rename_i hone
        -- one byte means the code point itself
        obtain ⟨hbyte, _⟩ := List.cons.inj heq
        rw [← hbyte, UInt8.toNat_ofNat_of_lt' (by show _ < 256; omega)] at hb
        omega
      · split at heq
        · cases heq
        · split at heq
          · cases heq
          · cases heq

/-! ## ASCII -/

/-- A character whose encoding has no byte above 0x7F is one byte and one unit. -/
theorem ascii_char {c : Char} (h : ∀ b ∈ String.utf8EncodeChar c, b < 0x80) :
    utf16EncodeChar c = (String.utf8EncodeChar c).map UInt8.toUInt16 := by
  rw [← encodeCodePoint_char] at h ⊢
  have hone : c.toNat ≤ 0x7F := by
    -- a longer encoding begins with a byte from 0xC0 on
    by_contra hlong
    have hlead : ∃ b ∈ encodeCodePoint c.toNat, ∃ n, n < 256 ∧ 128 ≤ n ∧ b = UInt8.ofNat n := by
      rw [encodeCodePoint, if_neg hlong]
      split
      · exact ⟨_, List.mem_cons_self, _, by omega, by omega, rfl⟩
      · split
        · exact ⟨_, List.mem_cons_self, _, by omega, by omega, rfl⟩
        · exact ⟨_, List.mem_cons_self, _, by omega, by omega, rfl⟩
    obtain ⟨b, hb, n, hn, hhigh, rfl⟩ := hlead
    have hlow := h _ hb
    rw [UInt8.lt_iff_toNat_lt, UInt8.toNat_ofNat_of_lt' hn] at hlow
    exact absurd hlow (Nat.not_lt.2 hhigh)
  rw [encodeCodePoint, if_pos hone, utf16EncodeChar, if_pos (by omega), List.map_singleton]
  congr 1
  apply UInt16.toNat_inj.1
  rw [UInt8.toNat_toUInt16, UInt16.toNat_ofNat_of_lt' (by show _ < 65536; omega),
    UInt8.toNat_ofNat_of_lt' (by show _ < 256; omega)]

theorem utf16_of_ascii {text : List Char} (h : ∀ b ∈ utf8 text, b < 0x80) :
    utf16 text = (utf8 text).map UInt8.toUInt16 := by
  induction text with
  | nil => rfl
  | cons c text ih =>
      rw [utf8, List.flatMap_cons] at h
      rw [utf16, utf8, List.flatMap_cons, List.flatMap_cons, List.map_append,
        ascii_char fun b hb => h b (List.mem_append_left _ hb)]
      exact congrArg _ (ih fun b hb => h b (List.mem_append_right _ hb))

theorem utf8_of_ascii {bytes : List UInt8} (h : ∀ b ∈ bytes, b < 0x80) :
    utf8 (bytes.map fun b => Char.ofNat b.toNat) = bytes := by
  induction bytes with
  | nil => rfl
  | cons b bytes ih =>
      have hb : b.toNat < 0x80 := UInt8.lt_iff_toNat_lt.1 (h b (by simp))
      have hchar : (Char.ofNat b.toNat).toNat = b.toNat := by
        rw [Char.ofNat, dif_pos (Or.inl (by omega))]
        rfl
      have hencode : String.utf8EncodeChar (Char.ofNat b.toNat) = [b] := by
        rw [← encodeCodePoint_char, hchar, encodeCodePoint, if_pos (by omega), UInt8.ofNat_toNat]
      have htail := ih fun c hc => h c (by simp [hc])
      rw [utf8] at htail ⊢
      rw [List.map_cons, List.flatMap_cons, hencode, htail, List.singleton_append]

theorem length_encodeCodePoint (v : Nat) : (encodeCodePoint v).length =
    if v ≤ 0x7F then 1 else if v ≤ 0x7FF then 2 else if v ≤ 0xFFFF then 3 else 4 := by
  unfold encodeCodePoint
  split
  · rfl
  · split
    · rfl
    · split
      · rfl
      · rfl

theorem length_utf16EncodeChar (c : Char) :
    (utf16EncodeChar c).length = if c.toNat < 0x10000 then 1 else 2 := by
  unfold utf16EncodeChar
  split
  · rfl
  · rfl

theorem length_utf16EncodeChar_le (c : Char) :
    (utf16EncodeChar c).length ≤ (String.utf8EncodeChar c).length := by
  rw [← encodeCodePoint_char, length_encodeCodePoint, length_utf16EncodeChar]
  split_ifs <;> omega

/-- No encoding has more units than bytes. -/
theorem length_utf16_le (text : List Char) : (utf16 text).length ≤ (utf8 text).length := by
  induction text with
  | nil => exact Nat.le_refl 0
  | cons c text ih =>
      rw [utf16, utf8, List.flatMap_cons, List.flatMap_cons, List.length_append, List.length_append]
      exact Nat.add_le_add (length_utf16EncodeChar_le c) ih

/-- A character with as many units as bytes is ASCII. -/
theorem ascii_char_of_length {c : Char}
    (h : (String.utf8EncodeChar c).length ≤ (utf16EncodeChar c).length) :
    ∀ b ∈ String.utf8EncodeChar c, b < 0x80 := by
  have hone : c.toNat ≤ 0x7F := by
    rw [← encodeCodePoint_char, length_encodeCodePoint, length_utf16EncodeChar] at h
    split_ifs at h <;> omega
  intro b hb
  rw [← encodeCodePoint_char, encodeCodePoint, if_pos hone, List.mem_singleton] at hb
  rw [hb, UInt8.lt_iff_toNat_lt, UInt8.toNat_ofNat_of_lt' (by show _ < 256; omega)]
  show _ < 128
  omega

/-- A text with as many units as bytes is ASCII. -/
theorem ascii_of_length {text : List Char} (h : (utf8 text).length ≤ (utf16 text).length) :
    ∀ b ∈ utf8 text, b < 0x80 := by
  induction text with
  | nil => nofun
  | cons c text ih =>
      rw [utf16, utf8, List.flatMap_cons, List.flatMap_cons, List.length_append,
        List.length_append] at h
      have hchar := length_utf16EncodeChar_le c
      have htext := length_utf16_le text
      rw [utf16, utf8] at htext
      intro b hb
      rw [utf8, List.flatMap_cons] at hb
      rcases List.mem_append.1 hb with hb | hb
      · exact ascii_char_of_length (by omega) b hb
      · exact ih (by rw [utf16, utf8]; omega) b hb

/-- Reading the bytes of a text as Latin-1 gives its UTF-16 encoding exactly if it is ASCII. -/
theorem map_toUInt16_eq_utf16_iff (text : List Char) :
    (utf8 text).map UInt8.toUInt16 = utf16 text ↔ ∀ b ∈ utf8 text, b < 0x80 := by
  constructor
  · intro h
    have hlength : (utf16 text).length = (utf8 text).length := by
      rw [← h, List.length_map]
    exact ascii_of_length (Nat.le_of_eq hlength.symm)
  · exact fun h => (utf16_of_ascii h).symm

/-! ## Bytes that are a text -/

/-- The bytes are the encoding of a text. -/
def IsUtf8 (bytes : List UInt8) : Prop :=
  ∃ text, utf8 text = bytes

namespace IsUtf8

variable {xs ys : List UInt8} {b : UInt8}

theorem of_ascii (h : ∀ b ∈ xs, b < 0x80) : IsUtf8 xs :=
  ⟨_, utf8_of_ascii h⟩

theorem append (hxs : IsUtf8 xs) (hys : IsUtf8 ys) : IsUtf8 (xs ++ ys) := by
  obtain ⟨text, rfl⟩ := hxs
  obtain ⟨text', rfl⟩ := hys
  exact ⟨text ++ text', List.flatMap_append⟩

/-- A character is one byte below 0x80, or all its bytes are above. -/
theorem encodeChar_cases (c : Char) : (∃ b < 0x80, String.utf8EncodeChar c = [b]) ∨
    String.utf8EncodeChar c ≠ [] ∧ ∀ b ∈ String.utf8EncodeChar c, ¬ b < 0x80 := by
  have hhigh : ∀ n, 128 ≤ n → n < 256 → ¬ UInt8.ofNat n < 0x80 := by
    intro n hn hlt h
    rw [UInt8.lt_iff_toNat_lt, UInt8.toNat_ofNat_of_lt' hlt] at h
    exact absurd h (Nat.not_lt.2 hn)
  rw [← encodeCodePoint_char, encodeCodePoint]
  split
  · rename_i hone
    refine Or.inl ⟨_, ?_, rfl⟩
    rw [UInt8.lt_iff_toNat_lt, UInt8.toNat_ofNat_of_lt' (by show _ < 256; omega)]
    show _ < 128
    omega
  · split
    · refine Or.inr ⟨List.cons_ne_nil _ _, ?_⟩
      simp only [List.forall_mem_cons, List.not_mem_nil, false_imp_iff, implies_true, and_true]
      exact ⟨hhigh _ (by omega) (by omega), hhigh _ (by omega) (by omega)⟩
    · split
      · refine Or.inr ⟨List.cons_ne_nil _ _, ?_⟩
        simp only [List.forall_mem_cons, List.not_mem_nil, false_imp_iff, implies_true, and_true]
        exact ⟨hhigh _ (by omega) (by omega), hhigh _ (by omega) (by omega),
          hhigh _ (by omega) (by omega)⟩
      · refine Or.inr ⟨List.cons_ne_nil _ _, ?_⟩
        simp only [List.forall_mem_cons, List.not_mem_nil, false_imp_iff, implies_true, and_true]
        exact ⟨hhigh _ (by omega) (by omega), hhigh _ (by omega) (by omega),
          hhigh _ (by omega) (by omega), hhigh _ (by omega) (by omega)⟩

/-- An ASCII byte is a character of its own. -/
theorem of_append_cons (hb : b < 0x80) (h : IsUtf8 (xs ++ b :: ys)) : IsUtf8 xs ∧ IsUtf8 ys := by
  obtain ⟨text, htext⟩ := h
  induction text generalizing xs with
  | nil => exact absurd htext.symm (by simp [utf8])
  | cons c text ih =>
      have hsplit : String.utf8EncodeChar c ++ utf8 text = xs ++ b :: ys := by
        rw [← htext, utf8, utf8, List.flatMap_cons]
      rcases List.append_eq_append_iff.1 hsplit with ⟨rest, rfl, hrest⟩ | ⟨rest, hchar, hrest⟩
      · -- the character is in front of the byte
        obtain ⟨⟨before, hbefore⟩, hafter⟩ := ih hrest
        exact ⟨⟨c :: before, by rw [utf8, List.flatMap_cons, ← utf8, hbefore]⟩, hafter⟩
      · cases rest with
        | nil =>
            have hfirst : utf8 text = [] ++ b :: ys := hrest.symm
            obtain ⟨_, hafter⟩ := ih hfirst
            exact ⟨⟨[c], by rw [utf8, List.flatMap_singleton, hchar, List.append_nil]⟩, hafter⟩
        | cons first rest =>
            -- the character begins with the byte
            obtain ⟨rfl, hys⟩ := List.cons.inj hrest
            rcases encodeChar_cases c with ⟨only, _, honly⟩ | ⟨_, hnone⟩
            · rw [honly] at hchar
              cases xs with
              | nil =>
                  obtain ⟨_, hnil⟩ := List.cons.inj hchar
                  subst hnil
                  exact ⟨⟨[], rfl⟩, text, hys.symm⟩
              | cons x xs => exact absurd (congrArg List.length hchar) (by simp)
            · exact absurd hb (hnone b (by rw [hchar]; simp))

theorem append_cons_iff (hb : b < 0x80) : IsUtf8 (xs ++ b :: ys) ↔ IsUtf8 xs ∧ IsUtf8 ys := by
  constructor
  · exact of_append_cons hb
  · intro ⟨hxs, hys⟩
    have hbyte : IsUtf8 [b] := of_ascii fun c hc => List.mem_singleton.1 hc ▸ hb
    exact hxs.append (hbyte.append hys)

theorem append_of_ascii_iff (h : ∀ b ∈ xs, b < 0x80) : IsUtf8 (xs ++ ys) ↔ IsUtf8 ys := by
  induction xs with
  | nil => rfl
  | cons b xs ih =>
      rw [List.cons_append, ← ih fun c hc => h c (List.mem_cons_of_mem b hc)]
      have hb : IsUtf8 ([] ++ b :: (xs ++ ys)) ↔ IsUtf8 [] ∧ IsUtf8 (xs ++ ys) :=
        append_cons_iff (h b List.mem_cons_self)
      exact hb.trans (and_iff_right ⟨[], rfl⟩)

/-- Replacing ASCII bytes by others. -/
theorem map_iff {f : UInt8 → UInt8} (hlow : ∀ b, b < 0x80 → f b < 0x80)
    (hhigh : ∀ b, ¬ b < 0x80 → f b = b) : IsUtf8 (ys.map f) ↔ IsUtf8 ys := by
  -- the bytes before the rest are those since the last one below 0x80
  have hall : ∀ xs, IsUtf8 (xs ++ ys.map f) ↔ IsUtf8 (xs ++ ys) := by
    induction ys with
    | nil => exact fun xs => Iff.rfl
    | cons b ys ih =>
        intro xs
        by_cases hb : b < 0x80
        · rw [List.map_cons, append_cons_iff (hlow b hb), append_cons_iff hb]
          exact and_congr_right fun _ => ih []
        · rw [List.map_cons, hhigh b hb]
          simpa using ih (xs ++ [b])
  exact hall []

end IsUtf8

/-! ## Decoding -/

theorem utf8Decode_utf8 (text : List Char) :
    (utf8 text).toByteArray.utf8Decode? = some text.toArray :=
  List.utf8Decode?_utf8Encode

theorem isUtf8_of_utf8Decode {bytes : List UInt8}
    (h : bytes.toByteArray.utf8Decode?.isSome) : IsUtf8 bytes := by
  obtain ⟨text, htext⟩ := ByteArray.isSome_utf8Decode?_iff.1 h
  have hlist := congrArg (fun bytes => bytes.data.toList) htext
  rw [List.utf8Encode, List.toList_data_toByteArray, List.toList_data_toByteArray] at hlist
  exact ⟨text, hlist.symm⟩

/-- Whether bytes are a text. -/
def isUtf8 (bytes : List UInt8) : Bool :=
  bytes.all (· < 0x80) || bytes.toByteArray.utf8Decode?.isSome

theorem isUtf8_iff (bytes : List UInt8) : isUtf8 bytes = true ↔ IsUtf8 bytes := by
  unfold isUtf8
  rw [Bool.or_eq_true]
  constructor
  · rintro (hascii | hsome)
    · exact .of_ascii (by simpa using hascii)
    · exact isUtf8_of_utf8Decode hsome
  · rintro ⟨text, rfl⟩
    exact Or.inr (by rw [utf8Decode_utf8]; rfl)

end Lib
end V8JsiRuntime
