import V8JsiRuntime.Lib.GeneralUtf8
import V8JsiRuntime.Inspector.Agent

/-!
# Outgoing — texts on their way to the frontend

What V8 sends is converted to UTF-8 by `StringViewToUtf8`, by an encoder if the view has 16-bit
units, and by a copy if it has 8-bit ones.
-/

namespace V8JsiRuntime
namespace Inspector

open Lib

/-! ## Units of 16 bits -/

/-- What becomes of UTF-16: the space that is made is the space that is used, and the bytes are
generalised UTF-8 for the units. -/
structure Encoded (units : List UInt16) : Prop where
  length : utf16toUTF8Length units = (utf16toUTF8Loop units).length
  bytes : utf16toUTF8 units = .ok ((codePoints units).flatMap encodeCodePoint)
  /-- Scalar values as in UTF-8, and every other surrogate in three bytes of its own. -/
  single : ∀ v ∈ codePoints units,
    (∃ c : Char, c.toNat = v ∧ encodeCodePoint v = String.utf8EncodeChar c) ∨
      (0xD800 ≤ v ∧ v ≤ 0xDFFF) ∧ (encodeCodePoint v).length = 3
  decoded : ∀ bytes, utf16toUTF8 units = .ok bytes → decodeUnits bytes = some units

theorem utf16toUTF8Length_eq {units : List UInt16}
    (h : ((codePoints units).flatMap encodeCodePoint).length < 2 ^ 32) :
    utf16toUTF8Length units = ((codePoints units).flatMap encodeCodePoint).length := by
  rw [utf16toUTF8Length, utf16toUTF8LengthLoop_eq, UInt32.zero_add]
  exact UInt32.toNat_ofNat_of_lt' h

/-- From 2^32 bytes on the counter has wrapped around, and the string is too short. -/
theorem utf16toUTF8_of_le {units : List UInt16}
    (h : 2 ^ 32 ≤ ((codePoints units).flatMap encodeCodePoint).length) :
    ∃ fault, utf16toUTF8 units = .error fault := by
  have hlength : utf16toUTF8Length units < 2 ^ 32 := UInt32.toNat_lt _
  have hshort : ¬ (utf16toUTF8Loop units).length ≤ utf16toUTF8Length units := by
    rw [utf16toUTF8Loop_eq]
    omega
  exact ⟨_, if_neg hshort⟩

/-- Any sequence of units, lone and misordered surrogates included, is encoded without a store behind
the end, and can be read back. -/
theorem encoded (units : List UInt16) (h : 3 * units.length < 2 ^ 32) : Encoded units := by
  have hlength : ((codePoints units).flatMap encodeCodePoint).length < 2 ^ 32 :=
    Nat.lt_of_le_of_lt (length_encode_codePoints_le units) h
  have hbytes := utf16toUTF8_eq hlength
  refine ⟨?_, hbytes, ?_, ?_⟩
  · rw [utf16toUTF8Loop_eq, utf16toUTF8Length_eq hlength]
  · intro v hv
    rcases codePoints_cases hv with hvalid | ⟨hlow, hhigh⟩
    · have hchar : (Char.ofNatAux v hvalid).toNat = v := rfl
      exact Or.inl ⟨Char.ofNatAux v hvalid, hchar, encodeCodePoint_char (Char.ofNatAux v hvalid)⟩
    · exact Or.inr ⟨⟨hlow, hhigh⟩, length_encodeCodePoint_of_le (by omega) (by omega)⟩
  · intro bytes heq
    obtain rfl := Except.ok.inj (hbytes.symm.trans heq)
    exact decodeUnits_encode units

/-- A pair, a first surrogate by itself, and a pair in the wrong order. -/
theorem encoded_misordered : Encoded [0xD83D, 0xDE00, 0xD83D, 0x61, 0xDE00, 0xD83D] :=
  encoded _ (by decide)

/-! ## Units of 8 bits -/

/-- The same text is sent for a sequence of characters below 256, however the view holds them. -/
structure WidthIndependent (codes : Bytes) : Prop where
  converted : stringViewToUtf8 (.view8 codes) =
    stringViewToUtf8 (.view16 (codes.map UInt8.toUInt16))
  written : ∀ (s : System) (sessionId : Nat), s.write sessionId (.view8 codes) =
    s.write sessionId (.view16 (codes.map UInt8.toUInt16))

/-- Characters below 256 are no surrogates. -/
theorem codePoints_latin1 (codes : Bytes) :
    codePoints (codes.map UInt8.toUInt16) = codes.map UInt8.toNat := by
  induction codes with
  | nil => rfl
  | cons code codes ih =>
      have hcode := code.toNat_lt
      have hnot : ¬ IsHighSurrogate code.toUInt16 := by
        rw [IsHighSurrogate, UInt8.toNat_toUInt16]
        omega
      rw [List.map_cons, codePoints_cons_of_not_high hnot, ih, UInt8.toNat_toUInt16, List.map_cons]

theorem encodeCodePoint_ascii {code : UInt8} (h : code < 0x80) :
    encodeCodePoint code.toNat = [code] := by
  rw [UInt8.lt_iff_toNat_lt] at h
  have hone : code.toNat ≤ 0x7F := Nat.le_of_lt_succ h
  rw [encodeCodePoint, if_pos hone, UInt8.ofNat_toNat]

/-- No character is encoded in less than a byte. -/
theorem length_le_encode_latin1 (codes : Bytes) :
    codes.length ≤ ((codes.map UInt8.toNat).flatMap encodeCodePoint).length := by
  induction codes with
  | nil => exact Nat.le_refl 0
  | cons code codes ih =>
      have hpos := List.length_pos_iff.2 (encodeCodePoint_ne_nil code.toNat)
      rw [List.map_cons, List.flatMap_cons, List.length_append, List.length_cons]
      omega

/-- Encoding Latin-1 leaves exactly ASCII as it is. -/
theorem encode_latin1_eq_iff (codes : Bytes) :
    (codes.map UInt8.toNat).flatMap encodeCodePoint = codes ↔ ∀ code ∈ codes, code < 0x80 := by
  induction codes with
  | nil => exact iff_of_true rfl nofun
  | cons code codes ih =>
      rw [List.map_cons, List.flatMap_cons, List.forall_mem_cons]
      by_cases hcode : code < 0x80
      · rw [encodeCodePoint_ascii hcode, List.singleton_append, List.cons_inj_right, ih]
        exact (and_iff_right hcode).symm
      · -- from 0x80 on a character takes two bytes, and the text gets longer
        refine iff_of_false (fun heq => ?_) fun h => hcode h.1
        have hlow : ¬ code.toNat ≤ 0x7F := fun hle =>
          hcode (UInt8.lt_iff_toNat_lt.2 (Nat.lt_succ_of_le hle))
        have htwo : (encodeCodePoint code.toNat).length = 2 := by
          rw [length_encodeCodePoint, if_neg hlow, if_pos (by have := code.toNat_lt; omega)]
        have hlength := congrArg List.length heq
        have hrest := length_le_encode_latin1 codes
        rw [List.length_append, List.length_cons] at hlength
        omega

/-- The width of the view does not matter exactly for ASCII, unless the counter of the encoder
wraps around. -/
theorem widthIndependent_iff (codes : Bytes) :
    WidthIndependent codes ↔ (∀ code ∈ codes, code < 0x80) ∧ codes.length < 2 ^ 32 := by
  have hpoints := codePoints_latin1 codes
  constructor
  · intro ⟨hsame, _⟩
    have hcopy : utf16toUTF8 (codes.map UInt8.toUInt16) = .ok codes := hsame.symm
    by_cases hlength : ((codes.map UInt8.toNat).flatMap encodeCodePoint).length < 2 ^ 32
    · rw [utf16toUTF8_eq (by rw [hpoints]; exact hlength), hpoints] at hcopy
      have hequal := Except.ok.inj hcopy
      rw [hequal] at hlength
      exact ⟨(encode_latin1_eq_iff codes).1 hequal, hlength⟩
    · obtain ⟨fault, hfault⟩ := @utf16toUTF8_of_le (codes.map UInt8.toUInt16)
        (by rw [hpoints]; exact Nat.not_lt.1 hlength)
      cases hcopy.symm.trans hfault
  · intro ⟨hascii, hlength⟩
    have hequal := (encode_latin1_eq_iff codes).2 hascii
    have hsame : stringViewToUtf8 (.view8 codes) =
        stringViewToUtf8 (.view16 (codes.map UInt8.toUInt16)) := by
      show Except.ok codes = utf16toUTF8 (codes.map UInt8.toUInt16)
      rw [utf16toUTF8_eq (by rw [hpoints, hequal]; exact hlength), hpoints, hequal]
    refine ⟨hsame, fun s sessionId => ?_⟩
    -- `Write` looks at the length of the view and at the converted text
    have hviews : (StringView.view8 codes).length =
        (StringView.view16 (codes.map UInt8.toUInt16)).length := (List.length_map _).symm
    unfold System.write
    rw [hviews, hsame]

/-- The one character é. -/
theorem not_widthIndependent_accent : ¬ ∀ codes, WidthIndependent codes := by
  intro h
  have hsame := (h [0xE9]).converted
  have hencoded : stringViewToUtf8 (.view16 [0xE9]) = .ok [0xC3, 0xA9] := rfl
  cases hsame.trans hencoded

end Inspector
end V8JsiRuntime
