import V8JsiRuntime.Inspector.StringView

/-!
# SourceText — the string that `evaluateJavaScript` runs

The buffer goes to V8 without a copy, as an external string with one byte a character, or, if V8
does not take it, through `NewFromUtf8`.  `decodes_iff` says for which texts both ways give the same
string.
-/

namespace V8JsiRuntime
namespace Runtime

open Lib
open Inspector

/-- The UTF-16 units of a `v8::String`. -/
abbrev V8String := List UInt16

/-- `v8::String::NewFromUtf8` with a length, which the code takes from V8: `none` is an empty
handle. -/
structure NewFromUtf8 where
  make : Bytes → Int → Option V8String
  /-- `v8::String::kMaxLength`. -/
  kMaxLength : Nat
  le_kMaxLength : 512 ≤ kMaxLength
  kMaxLength_le : 3 * kMaxLength ≤ intMax
  /-- Valid UTF-8 is decoded. -/
  make_utf8 : ∀ (data : Bytes) (length : Nat) (text : List Char), length ≤ data.length →
    length ≤ kMaxLength → data.take length = utf8 text → make data length = some (utf16 text)
  /-- Only what is too long gives an empty handle. -/
  make_long : ∀ (data : Bytes) (length : Nat), kMaxLength < length → length ≤ intMax →
    make data length = none
  /-- What is not valid is replaced, so that a string is a text. -/
  make_text : ∀ data length source, make data length = some source → ∃ text, source = utf16 text
  length_le : ∀ data length source, make data length = some source → source.length ≤ kMaxLength

/-- `NewExternalOneByte` over an `ExternalOwningOneByteStringResource`. -/
def externalOneByte (buffer : Bytes) : V8String :=
  buffer.map UInt8.toUInt16

/-- The string that `evaluateJavaScript` hands to `ExecuteString`, given whether V8 takes the
resource; `none` is `std::abort()`. -/
def sourceString (newFromUtf8 : NewFromUtf8) (external : Bool) (buffer : Bytes) : Option V8String :=
  if external then
    some (externalOneByte buffer)
  else
    newFromUtf8.make buffer (toInt32 buffer.length)

/-- Both ways give the string that the buffer is the UTF-8 encoding of. -/
structure Decodes (newFromUtf8 : NewFromUtf8) (text : List Char) : Prop where
  same : sourceString newFromUtf8 true (utf8 text) = sourceString newFromUtf8 false (utf8 text)
  decoded : sourceString newFromUtf8 false (utf8 text) = some (utf16 text)

theorem sourceString_of_le (newFromUtf8 : NewFromUtf8) {text : List Char}
    (h : (utf8 text).length ≤ newFromUtf8.kMaxLength) :
    sourceString newFromUtf8 false (utf8 text) = some (utf16 text) := by
  have hmax := newFromUtf8.kMaxLength_le
  -- `static_cast<int>` changes no length that a string can have
  have hcast : toInt32 (utf8 text).length = (utf8 text).length :=
    toInt32_of_lt (by unfold intMax at hmax; omega)
  show newFromUtf8.make (utf8 text) (toInt32 (utf8 text).length) = _
  rw [hcast]
  exact newFromUtf8.make_utf8 (utf8 text) _ text (Nat.le_refl _) h (List.take_length)

/-- The two ways agree on the decoding exactly for ASCII, unless it is too long for a string. -/
theorem decodes_iff (newFromUtf8 : NewFromUtf8) (text : List Char) :
    Decodes newFromUtf8 text ↔
      (∀ b ∈ utf8 text, b < 0x80) ∧ (utf8 text).length ≤ newFromUtf8.kMaxLength := by
  constructor
  · intro ⟨hsame, hdecoded⟩
    have hone : externalOneByte (utf8 text) = utf16 text :=
      Option.some.inj (hsame.trans hdecoded)
    refine ⟨(map_toUInt16_eq_utf16_iff text).1 hone, ?_⟩
    -- one unit a byte, and no more units than fit
    have hlength := newFromUtf8.length_le _ _ _ hdecoded
    rw [← hone, externalOneByte, List.length_map] at hlength
    exact hlength
  · intro ⟨hascii, hlength⟩
    have hdecoded := sourceString_of_le newFromUtf8 hlength
    refine ⟨?_, hdecoded⟩
    rw [hdecoded]
    exact congrArg some ((map_toUInt16_eq_utf16_iff text).2 hascii)

/-- The strings that `decoding` makes. -/
def decodeUpTo (kMaxLength : Nat) (data : Bytes) (length : Int) : Option V8String :=
  if 0 ≤ length ∧ length ≤ kMaxLength then
    if data.take length.toNat = [] then
      some []
    else
      MultiByteToWideChar.decoding.convert (data.take length.toNat)
  else
    none

theorem decodeUpTo_eq_some {kMaxLength : Nat} {data : Bytes} {length : Int} {source : V8String}
    (h : decodeUpTo kMaxLength data length = some source) :
    0 ≤ length ∧ length ≤ kMaxLength ∧
      ∃ text, utf8 text = data.take length.toNat ∧ source = utf16 text := by
  unfold decodeUpTo at h
  split at h
  · rename_i hlength
    refine ⟨hlength.1, hlength.2, ?_⟩
    split at h
    · rename_i hnil
      exact ⟨[], hnil.symm, (Option.some.inj h).symm⟩
    · rename_i hne
      by_cases hvalid : ∃ text, utf8 text = data.take length.toNat
      -- the only text that the bytes are the encoding of
      · obtain ⟨text, htext⟩ := hvalid
        rw [← htext, MultiByteToWideChar.decoding.convert_utf8 text
          (by rintro rfl; exact hne htext.symm)] at h
        exact ⟨text, htext, (Option.some.inj h).symm⟩
      · rw [MultiByteToWideChar.decoding.convert_invalid _
          fun text htext => hvalid ⟨text, htext⟩] at h
        cases h
  · cases h

theorem decodeUpTo_utf8 {kMaxLength : Nat} {data : Bytes} {length : Nat} {text : List Char}
    (hmax : length ≤ kMaxLength) (htext : data.take length = utf8 text) :
    decodeUpTo kMaxLength data length = some (utf16 text) := by
  unfold decodeUpTo
  rw [if_pos ⟨Int.natCast_nonneg length, by omega⟩, Int.toNat_natCast, htext]
  cases text with
  | nil => rfl
  | cons c text =>
      -- the conversion is asked about bytes that are there only
      have hne : utf8 (c :: text) ≠ [] := by
        intro hnil
        have hempty := congrArg List.length hnil
        have hchar := length_utf16EncodeChar_le c
        rw [length_utf16EncodeChar] at hchar
        rw [utf8, List.flatMap_cons, List.length_append, List.length_nil] at hempty
        split at hchar <;> omega
      rw [if_neg hne]
      exact MultiByteToWideChar.decoding.convert_utf8 _ (List.cons_ne_nil c text)

/-- A function of this kind; it replaces nothing, and has no string for what is not valid. -/
def NewFromUtf8.decoding : NewFromUtf8 where
  make := decodeUpTo (2 ^ 29 - 24)
  kMaxLength := 2 ^ 29 - 24
  le_kMaxLength := by omega
  kMaxLength_le := by unfold intMax; omega
  make_utf8 _ _ _ _ hmax htext := decodeUpTo_utf8 hmax htext
  make_long data length hlong _ := if_neg (by omega)
  make_text data length source h := by
    obtain ⟨_, _, text, _, hsource⟩ := decodeUpTo_eq_some h
    exact ⟨text, hsource⟩
  length_le data length source h := by
    obtain ⟨_, hmax, text, htext, rfl⟩ := decodeUpTo_eq_some h
    have hunits := length_utf16_le text
    have hbytes := congrArg List.length htext
    rw [List.length_take] at hbytes
    omega

/-- The text `é` becomes two characters on the way without a copy. -/
theorem not_decodes_accent :
    ¬ ∀ newFromUtf8 text, Decodes newFromUtf8 text := by
  intro h
  have hdecodes := h .decoding ['é']
  have hone : externalOneByte (utf8 ['é']) = utf16 ['é'] :=
    Option.some.inj (hdecodes.same.trans hdecodes.decoded)
  exact absurd hone (by decide +kernel)

end Runtime
end V8JsiRuntime
