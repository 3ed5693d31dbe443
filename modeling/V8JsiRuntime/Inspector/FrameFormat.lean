import V8JsiRuntime.Inspector.Frame

/-!
# FrameFormat — the wire format and what the decoder does on it

A `FrameHeader` is the first part of a masked text or close frame, in any of the three length
encodings; a `WireFrame` adds the key and the payload.  This module computes the decoder's first
phase on buffers that begin with a header (`readHeader_bytes`), shows that it stops early on all
others (`readHeader_cases`), and computes the second phase (`unmask_append`, `unmask_mask`).
-/

namespace V8JsiRuntime
namespace Inspector

open Lib

/-! ## The format -/

inductive LengthForm
  | short
  | medium
  | long
  deriving DecidableEq, Repr

namespace LengthForm

/-- Lengths below the bound can be written in this form. -/
def bound : LengthForm → Nat
  | .short => 126
  | .medium => 2 ^ 16
  | .long => 2 ^ 63

/-- Number of extended length bytes. -/
def extended : LengthForm → Nat
  | .short => 0
  | .medium => 2
  | .long => 8

/-- The low seven bits of the second byte. -/
def code : LengthForm → Nat → UInt8
  | .short, n => UInt8.ofNat n
  | .medium, _ => 126
  | .long, _ => 127

/-- The form that the encoder picks, the shortest one. -/
def ofLength (n : Nat) : LengthForm :=
  if n ≤ 125 then
    .short
  else if n ≤ 0xFFFF then
    .medium
  else
    .long

theorem bound_le (form : LengthForm) : form.bound ≤ 2 ^ 63 := by
  cases form <;> decide

theorem lt_pow_extended {form : LengthForm} {n : Nat} (h : n < form.bound) (hne : form ≠ .short) :
    n < 256 ^ form.extended := by
  cases form with
  | short => exact absurd rfl hne
  | medium => simpa [bound, extended] using h
  | long =>
      have : n < 2 ^ 63 := h
      simp only [extended]
      omega

theorem code_lt {form : LengthForm} {n : Nat} (h : n < form.bound) :
    (form.code n).toNat < 128 := by
  cases form with
  | short =>
      have hn : n < 126 := h
      simp only [code, UInt8.toNat_ofNat']
      omega
  | medium => simp [code]
  | long => simp [code]

theorem lt_bound_ofLength {n : Nat} (h : n < 2 ^ 63) : n < (ofLength n).bound := by
  unfold ofLength
  split
  · simp only [bound]
    omega
  · split
    · simp only [bound]
      omega
    · exact h

end LengthForm

/-- The first byte of an accepted frame. -/
def firstByteOf (reserved1 closed : Bool) : UInt8 :=
  kFinalBit ||| (if reserved1 then kReserved1Bit else 0) |||
    (if closed then kOpCodeClose else kOpCodeText)

/-- The header of a masked text or close frame. -/
structure FrameHeader where
  reserved1 : Bool
  closed : Bool
  form : LengthForm
  length : Nat
  fits : length < form.bound
  deriving DecidableEq

namespace FrameHeader

def width (h : FrameHeader) : Nat :=
  2 + h.form.extended

def bytes (h : FrameHeader) : Bytes :=
  firstByteOf h.reserved1 h.closed :: (kMaskBit ||| h.form.code h.length) ::
    beBytes h.form.extended h.length

@[simp] theorem length_bytes (h : FrameHeader) : h.bytes.length = h.width := by
  simp [bytes, width]
  omega

theorem length_lt (h : FrameHeader) : h.length < 2 ^ 63 :=
  Nat.lt_of_lt_of_le h.fits h.form.bound_le

theorem width_le (h : FrameHeader) : h.width ≤ 10 := by
  unfold width
  cases h.form <;> decide

end FrameHeader

/-- The masking key. -/
abbrev MaskingKey := Fin kMaskingKeyWidthInBytes → UInt8

/-- The key byte used at index `i` of the payload. -/
def keyByte (key : MaskingKey) (i : Nat) : UInt8 :=
  key ⟨i % kMaskingKeyWidthInBytes, Nat.mod_lt i (by decide)⟩

/-- The payload xored with the key, cyclically. -/
def mask (key : MaskingKey) (payload : Bytes) : Bytes :=
  payload.mapIdx fun i b => b ^^^ keyByte key i

@[simp] theorem length_mask (key : MaskingKey) (payload : Bytes) :
    (mask key payload).length = payload.length := by
  simp [mask]

theorem mask_mask (key : MaskingKey) (payload : Bytes) : mask key (mask key payload) = payload := by
  apply List.ext_getElem
  · simp
  · intro i h₁ h₂
    simp only [mask, List.getElem_mapIdx, UInt8.xor_assoc, UInt8.xor_self, UInt8.xor_zero]

/-- A whole frame as it stands on the wire; `payload` is the unmasked payload. -/
structure WireFrame where
  header : FrameHeader
  key : MaskingKey
  payload : Bytes
  length_eq : payload.length = header.length

namespace WireFrame

def bytes (f : WireFrame) : Bytes :=
  f.header.bytes ++ (List.ofFn f.key ++ mask f.key f.payload)

@[simp] theorem length_bytes (f : WireFrame) :
    f.bytes.length = f.header.width + kMaskingKeyWidthInBytes + f.header.length := by
  simp [bytes, f.length_eq]
  omega

end WireFrame

/-! ## Bit facts about single bytes -/

/-- A decidable property of bytes, checked on the numbers below 256. -/
theorem forall_byte {p : UInt8 → Prop} (h : ∀ n : Fin 256, p (UInt8.ofNat n)) : ∀ b, p b := by
  intro b
  have hb := h ⟨b.toNat, b.toNat_lt⟩
  simpa using hb

theorem firstByteOf_bits (reserved1 closed : Bool) :
    (firstByteOf reserved1 closed &&& kFinalBit != 0) = true ∧
      (firstByteOf reserved1 closed &&& kReserved1Bit != 0) = reserved1 ∧
      (firstByteOf reserved1 closed &&& kReserved2Bit != 0) = false ∧
      (firstByteOf reserved1 closed &&& kReserved3Bit != 0) = false ∧
      closedOfOpCode (firstByteOf reserved1 closed &&& kOpCodeMask) = some closed := by
  cases reserved1 <;> cases closed <;> decide

/-- The first bytes that the decoder does not reject. -/
theorem eq_firstByteOf : ∀ b : UInt8,
    (b &&& kFinalBit != 0) = true → (b &&& kReserved2Bit != 0) = false →
      (b &&& kReserved3Bit != 0) = false →
        ∀ closed, closedOfOpCode (b &&& kOpCodeMask) = some closed →
          b = firstByteOf (b &&& kReserved1Bit != 0) closed := by
  refine forall_byte ?_
  decide +kernel

theorem masked_code : ∀ c : UInt8, c.toNat < 128 →
    ((kMaskBit ||| c) &&& kMaskBit != 0) = true ∧ (kMaskBit ||| c) &&& kPayloadLengthMask = c := by
  refine forall_byte ?_
  decide +kernel

theorem eq_masked_code : ∀ b : UInt8, (b &&& kMaskBit != 0) = true →
    b = kMaskBit ||| (b &&& kPayloadLengthMask) ∧ (b &&& kPayloadLengthMask).toNat < 128 := by
  refine forall_byte ?_
  decide +kernel

/-! ## The first phase of the decoder -/

/-- The length bytes are folded into a 64-bit word; the induction is on the bytes still to read. -/
theorem readLength_append (bs pre post : Bytes) (acc : UInt64) :
    readLength (pre ++ (bs ++ post)) bs.length pre.length acc =
      .ok (bs.foldl (fun (word : UInt64) (b : UInt8) => (word <<< 8) ||| b.toUInt64) acc) := by
  induction bs generalizing pre acc with
  | nil => rfl
  | cons b bs ih =>
      -- the byte read becomes part of what stands before the position
      have hbyte : readByte (pre ++ (b :: bs ++ post)) pre.length = .ok b := by
        simp
      have hrest := ih (pre ++ [b]) ((acc <<< 8) ||| b.toUInt64)
      simp only [List.length_append, List.length_singleton, List.append_assoc,
        List.singleton_append] at hrest
      simp only [List.length_cons, readLength, hbyte, ok_bind, List.foldl_cons]
      exact hrest

/-- The big-endian length field is read back exactly. -/
theorem readLength_beBytes {k n : Nat} (hk : k ≤ 8) (hn : n < 256 ^ k) (pre post : Bytes) :
    readLength (pre ++ (beBytes k n ++ post)) k pre.length 0 = .ok (UInt64.ofNat n) := by
  have hread := readLength_append (beBytes k n) pre post 0
  rw [length_beBytes] at hread
  rw [hread]
  congr 1
  apply UInt64.toNat_inj.1
  have hword := toNat_foldl_shiftLeft_or (beBytes k n) 0 0 (by decide) (by simpa using hk)
  have hvalue : (beBytes k n).foldl (fun n b => n * 256 + b.toNat) 0 = n := beNat_beBytes_of_lt hn
  -- eight bytes fit the word, so that converting back loses nothing
  have hbound : n < 2 ^ 64 := by
    calc
      n < 256 ^ k := hn
      _ ≤ 256 ^ 8 := Nat.pow_le_pow_right (by decide) hk
      _ = 2 ^ 64 := by decide
  rw [hword, show (0 : UInt64).toNat = 0 from rfl, hvalue, UInt64.toNat_ofNat',
    Nat.mod_eq_of_lt hbound]

/-- Both extended forms take the same path through the length field. -/
theorem LengthForm.extended_code {form : LengthForm} (hne : form ≠ .short) (n : Nat) :
    (form.code n).toUInt64 > kMaxSingleBytePayloadLength ∧
      extendedPayloadLengthSize (form.code n).toUInt64 = some form.extended := by
  cases form with
  | short => exact absurd rfl hne
  | medium => exact ⟨by simp only [code]; decide, by simp only [code]; decide⟩
  | long => exact ⟨by simp only [code]; decide, by simp only [code]; decide⟩

theorem readLengthField_extended {form : LengthForm} {second : UInt8} {n : Nat}
    (hne : form ≠ .short) (hcode : second &&& kPayloadLengthMask = form.code n) (buffer : Bytes)
    (closed compressed : Bool) :
    readLengthField buffer second closed compressed =
      if buffer.length - 2 < form.extended then
        .ok (.stop .frameIncomplete compressed)
      else do
        let extended ← readLength buffer form.extended 2 0
        return .header (2 + form.extended) extended closed compressed := by
  obtain ⟨hlarge, hsize⟩ := LengthForm.extended_code hne n
  simp only [readLengthField, hcode, if_pos hlarge, hsize]

/-- An extended length field whose bytes are all there, whatever value they hold. -/
theorem readLengthField_append {form : LengthForm} {second : UInt8} {n : Nat}
    (hne : form ≠ .short) (hcode : second &&& kPayloadLengthMask = form.code n) (first : UInt8)
    {bs : Bytes} (hbs : bs.length = form.extended) (post : Bytes) (closed compressed : Bool) :
    readLengthField (first :: second :: (bs ++ post)) second closed compressed =
      .ok (.header (2 + form.extended) (UInt64.ofNat (beNat bs)) closed compressed) := by
  have hk : form.extended ≤ 8 := by
    cases form <;> decide
  have hn : beNat bs < 256 ^ form.extended := hbs ▸ beNat_lt bs
  have hread := readLength_beBytes hk hn [first, second] post
  rw [← hbs, beBytes_beNat, hbs] at hread
  simp only [List.cons_append, List.nil_append, List.length_cons, List.length_nil] at hread
  have henough : ¬ (first :: second :: (bs ++ post)).length - 2 < form.extended := by
    simp [hbs]
  rw [readLengthField_extended hne hcode, if_neg henough, hread, ok_bind]
  rfl

theorem readLengthField_bytes (h : FrameHeader) (first : UInt8) (rest : Bytes)
    (closed compressed : Bool) :
    readLengthField (first :: (kMaskBit ||| h.form.code h.length) ::
        (beBytes h.form.extended h.length ++ rest))
        (kMaskBit ||| h.form.code h.length) closed compressed =
      .ok (.header h.width (UInt64.ofNat h.length) closed compressed) := by
  have hcode := (masked_code _ (LengthForm.code_lt h.fits)).2
  by_cases hform : h.form = .short
  · have hn : h.length < 126 := by
      simpa [hform, LengthForm.bound] using h.fits
    have hword : (h.form.code h.length).toUInt64 = UInt64.ofNat h.length := by
      apply UInt64.toNat_inj.1
      simp only [hform, LengthForm.code, UInt8.toNat_toUInt64, UInt8.toNat_ofNat',
        UInt64.toNat_ofNat']
      omega
    -- a short header has no length bytes to read
    have hsmall : ¬ UInt64.ofNat h.length > kMaxSingleBytePayloadLength := by
      rw [gt_iff_lt, UInt64.lt_iff_toNat_lt, UInt64.toNat_ofNat']
      simp only [kMaxSingleBytePayloadLength, UInt64.reduceToNat]
      omega
    simp only [readLengthField, hcode, hword, if_neg hsmall]
    simp [FrameHeader.width, hform, LengthForm.extended]
  · have hn : h.length < 256 ^ h.form.extended := LengthForm.lt_pow_extended h.fits hform
    rw [readLengthField_append hform hcode first (length_beBytes _ _), beNat_beBytes_of_lt hn]
    rfl

/-- On a buffer that begins with a header the first phase returns exactly that header. -/
theorem readHeader_bytes (h : FrameHeader) (rest : Bytes) (clientFrame : Bool) :
    readHeader (h.bytes ++ rest) clientFrame =
      .ok (.header h.width (UInt64.ofNat h.length) h.closed h.reserved1) := by
  obtain ⟨hfinal, hr1, hr2, hr3, hop⟩ := firstByteOf_bits h.reserved1 h.closed
  have hmasked := (masked_code _ (LengthForm.code_lt h.fits)).1
  have hfield := readLengthField_bytes h (firstByteOf h.reserved1 h.closed) rest h.closed
    h.reserved1
  have hfirst : readByte (h.bytes ++ rest) 0 = .ok (firstByteOf h.reserved1 h.closed) := rfl
  have hsecond : readByte (h.bytes ++ rest) 1 = .ok (kMaskBit ||| h.form.code h.length) := rfl
  have hlong : ¬ (h.bytes ++ rest).length < 2 := by
    simp [FrameHeader.width]
    omega
  simp only [readHeader, if_neg hlong, hfirst, hsecond, ok_bind, hfinal, hr1, hr2, hr3, hop, hmasked]
  simpa [FrameHeader.bytes] using hfield

/-- A header is determined by any buffer that begins with it. -/
theorem FrameHeader.eq_of_prefix {h h' : FrameHeader} {buffer : Bytes}
    (hp : h.bytes <+: buffer) (hp' : h'.bytes <+: buffer) : h = h' := by
  obtain ⟨rest, rfl⟩ := hp
  obtain ⟨rest', heq⟩ := hp'
  -- the decoder reads both headers from the same bytes, and returns them
  have hread := readHeader_bytes h rest true
  rw [← heq, readHeader_bytes h' rest' true] at hread
  obtain ⟨reserved1, closed, form, n, fits⟩ := h
  obtain ⟨reserved1', closed', form', n', fits'⟩ := h'
  simp only [Except.ok.injEq, HeaderRead.header.injEq, FrameHeader.width] at hread
  obtain ⟨hwidth, hlen, rfl, rfl⟩ := hread
  have hform : form = form' := by
    cases form <;> cases form' <;> first | rfl | simp [LengthForm.extended] at hwidth
  have hn : n = n' := by
    have hb := Nat.lt_of_lt_of_le fits form.bound_le
    have hb' := Nat.lt_of_lt_of_le fits' form'.bound_le
    have hnat := congrArg UInt64.toNat hlen
    simp only [UInt64.toNat_ofNat'] at hnat
    omega
  subst hform
  subst hn
  rfl

/-- The length field on any buffer: a complete header, a wait for more bytes, or an eight byte
length above `max_payload_length`. -/
theorem readLengthField_cases (reserved1 closed : Bool) (second : UInt8) (rest : Bytes)
    (hmask : (second &&& kMaskBit != 0) = true) (isClosed compressed : Bool) :
    (∃ h : FrameHeader, h.bytes <+: firstByteOf reserved1 closed :: second :: rest) ∨
      readLengthField (firstByteOf reserved1 closed :: second :: rest) second isClosed compressed =
        .ok (.stop .frameIncomplete compressed) ∨
      ∃ it payloadLength64, payloadLength64 > maxPayloadLength ∧
        readLengthField (firstByteOf reserved1 closed :: second :: rest) second isClosed
          compressed = .ok (.header it payloadLength64 isClosed compressed) := by
  obtain ⟨hsecond, hcode⟩ := eq_masked_code second hmask
  by_cases hshort : (second &&& kPayloadLengthMask).toNat < 126
  · left
    refine ⟨⟨reserved1, closed, .short, (second &&& kPayloadLengthMask).toNat, hshort⟩, rest, ?_⟩
    -- the second byte alone is the length field
    simp [FrameHeader.bytes, LengthForm.code, LengthForm.extended, beBytes, ← hsecond]
  · have hform : ∃ form : LengthForm, form ≠ .short ∧
        (∀ n, second &&& kPayloadLengthMask = form.code n) ∧
          (form.bound = 256 ^ form.extended ∨ form = .long) := by
      have hcases : (second &&& kPayloadLengthMask).toNat = 126 ∨
          (second &&& kPayloadLengthMask).toNat = 127 := by
        omega
      rcases hcases with h126 | h127
      · exact ⟨.medium, by decide, fun _ => UInt8.toNat_inj.1 h126, Or.inl (by decide)⟩
      · exact ⟨.long, by decide, fun _ => UInt8.toNat_inj.1 h127, Or.inr rfl⟩
    obtain ⟨form, hne, hbyte, hbound⟩ := hform
    -- not all length bytes are there yet, or their value decides
    by_cases hfew : rest.length < form.extended
    · refine Or.inr (Or.inl ?_)
      rw [readLengthField_extended hne (hbyte 0), if_pos (by simpa using hfew)]
    · obtain ⟨bs, post, rfl, hbs⟩ : ∃ bs post, rest = bs ++ post ∧ bs.length = form.extended :=
        ⟨rest.take form.extended, rest.drop form.extended, (List.take_append_drop _ _).symm,
          by simp; omega⟩
      have hread := readLengthField_append hne (hbyte 0) (firstByteOf reserved1 closed) hbs post
        isClosed compressed
      have hvalue : beNat bs < 256 ^ form.extended := hbs ▸ beNat_lt bs
      by_cases hfits : beNat bs < form.bound
      · refine Or.inl ⟨⟨reserved1, closed, form, beNat bs, hfits⟩, post, ?_⟩
        simp [FrameHeader.bytes, ← hbyte, ← hbs, beBytes_beNat, ← hsecond]
      · refine Or.inr (Or.inr ⟨_, _, ?_, hread⟩)
        -- two bytes always fit their bound; eight bytes may hold a value from 2^63 on
        rcases hbound with hbound | rfl
        · exact absurd (hbound ▸ hvalue) hfits
        · have hlow : 2 ^ 63 ≤ beNat bs := Nat.le_of_not_lt hfits
          have hhigh : beNat bs < 2 ^ 64 := by
            calc
              beNat bs < 256 ^ 8 := hvalue
              _ = 2 ^ 64 := by decide
          rw [gt_iff_lt, UInt64.lt_iff_toNat_lt, UInt64.toNat_ofNat', Nat.mod_eq_of_lt hhigh]
          simp only [maxPayloadLength, UInt64.reduceToNat]
          omega

/-- A buffer that begins with no accepted header is answered without looking at a payload. -/
theorem decode_cases (buffer : Bytes) :
    (∃ h : FrameHeader, h.bytes <+: buffer) ∨
      ∃ result compressed, (result = .frameIncomplete ∨ result = .frameError) ∧
        decodeFrameHybi17 buffer true = .ok (Decoded.stop result compressed) := by
  rcases buffer with _ | ⟨first, _ | ⟨second, rest⟩⟩
  · exact Or.inr ⟨.frameIncomplete, false, Or.inl rfl, rfl⟩
  · exact Or.inr ⟨.frameIncomplete, false, Or.inl rfl, rfl⟩
  · have hlong : ¬ (first :: second :: rest).length < 2 := by
      simp
    have hfirst : readByte (first :: second :: rest) 0 = .ok first := rfl
    have hsecond : readByte (first :: second :: rest) 1 = .ok second := rfl
    simp only [decodeFrameHybi17, readHeader, if_neg hlong, hfirst, hsecond, ok_bind]
    split
    · exact Or.inr ⟨.frameError, _, Or.inr rfl, rfl⟩
    · rename_i hbits
      split
      · exact Or.inr ⟨.frameError, _, Or.inr rfl, rfl⟩
      · rename_i closed hop
        split
        · exact Or.inr ⟨.frameError, _, Or.inr rfl, rfl⟩
        · rename_i hmasked
          have hfinal : (first &&& kFinalBit != 0) = true := by
            cases hf : (first &&& kFinalBit != 0) <;> simp_all
          have hr2 : (first &&& kReserved2Bit != 0) = false := by
            cases hf : (first &&& kReserved2Bit != 0) <;> simp_all
          have hr3 : (first &&& kReserved3Bit != 0) = false := by
            cases hf : (first &&& kReserved3Bit != 0) <;> simp_all
          have hmask : (second &&& kMaskBit != 0) = true := by
            cases hf : (second &&& kMaskBit != 0) <;> simp_all
          have hbyte := eq_firstByteOf first hfinal hr2 hr3 closed hop
          have hcases := readLengthField_cases (first &&& kReserved1Bit != 0) closed second rest hmask
            closed (first &&& kReserved1Bit != 0)
          rw [← hbyte] at hcases
          rcases hcases with hheader | hwait | ⟨it, len, hlen, hread⟩
          · exact Or.inl hheader
          · right
            exact ⟨.frameIncomplete, _, Or.inl rfl, by rw [hwait]; rfl⟩
          · right
            refine ⟨.frameError, first &&& kReserved1Bit != 0, Or.inr rfl, ?_⟩
            rw [hread, ok_bind, readPayload, if_pos (Or.inl hlen)]

/-- A proper prefix of a header makes the decoder wait. -/
theorem decode_of_prefix_header {h : FrameHeader} {buffer : Bytes} (hp : buffer <+: h.bytes)
    (hne : buffer ≠ h.bytes) (clientFrame : Bool) :
    ∃ compressed, decodeFrameHybi17 buffer clientFrame =
      .ok (Decoded.stop .frameIncomplete compressed) := by
  obtain ⟨tail, htail⟩ := hp
  rcases buffer with _ | ⟨first, _ | ⟨second, rest⟩⟩
  · exact ⟨false, rfl⟩
  · exact ⟨false, rfl⟩
  · obtain ⟨rfl, rfl, hrest⟩ : first = firstByteOf h.reserved1 h.closed ∧
        second = (kMaskBit ||| h.form.code h.length) ∧
          rest ++ tail = beBytes h.form.extended h.length := by
      simpa [FrameHeader.bytes] using htail
    have htailne : tail ≠ [] := by
      rintro rfl
      exact hne (by simpa using htail)
    have hfew : rest.length < h.form.extended := by
      have hlen := congrArg List.length hrest
      have hpos := List.length_pos_iff.2 htailne
      simp at hlen
      omega
    obtain ⟨hfinal, hr1, hr2, hr3, hop⟩ := firstByteOf_bits h.reserved1 h.closed
    obtain ⟨hmasked, hcode⟩ := masked_code _ (LengthForm.code_lt h.fits)
    -- a short header of two bytes would be complete
    have hne : h.form ≠ .short := by
      intro hform
      simp [hform, LengthForm.extended] at hfew
    have hwait : ∀ closed compressed, readLengthField
        (firstByteOf h.reserved1 h.closed :: (kMaskBit ||| h.form.code h.length) :: rest)
        (kMaskBit ||| h.form.code h.length) closed compressed =
          .ok (.stop .frameIncomplete compressed) := by
      intro closed compressed
      rw [readLengthField_extended hne hcode, if_pos (by simpa using hfew)]
    refine ⟨h.reserved1, ?_⟩
    have hlong : ¬ (firstByteOf h.reserved1 h.closed ::
        (kMaskBit ||| h.form.code h.length) :: rest).length < 2 := by
      simp
    have hfirst : readByte (firstByteOf h.reserved1 h.closed ::
        (kMaskBit ||| h.form.code h.length) :: rest) 0 =
          .ok (firstByteOf h.reserved1 h.closed) := rfl
    have hsecond : readByte (firstByteOf h.reserved1 h.closed ::
        (kMaskBit ||| h.form.code h.length) :: rest) 1 =
          .ok (kMaskBit ||| h.form.code h.length) := rfl
    simp only [decodeFrameHybi17, readHeader, if_neg hlong, hfirst, hsecond, ok_bind, hfinal, hr1,
      hr2, hr3, hop, hmasked, hwait]
    simp [readPayload]

/-! ## The second phase of the decoder -/

theorem readByte_key (key : MaskingKey) (pre rest : Bytes) (i : Nat) :
    readByte (pre ++ (List.ofFn key ++ rest)) (pre.length + i % kMaskingKeyWidthInBytes) =
      .ok (keyByte key i) := by
  have hlt : i % kMaskingKeyWidthInBytes < (List.ofFn key).length := by
    simpa using Nat.mod_lt i (by decide)
  have hget : (pre ++ (List.ofFn key ++ rest))[pre.length + i % kMaskingKeyWidthInBytes]? =
      some (keyByte key i) := by
    rw [List.getElem?_append_right (Nat.le_add_right _ _), Nat.add_sub_cancel_left,
      List.getElem?_append_left hlt, List.getElem?_eq_getElem hlt]
    simp [keyByte]
  simp [readByte, hget]

/-- The loop over a payload that is there; the induction is on what is left of it. -/
theorem unmask_append (key : MaskingKey) (pre read todo post : Bytes) :
    unmask (pre ++ (List.ofFn key ++ (read ++ (todo ++ post)))) pre.length read.length
        todo.length =
      .ok (todo.mapIdx fun j b => b ^^^ keyByte key (read.length + j)) := by
  induction todo generalizing read with
  | nil => rfl
  | cons b todo ih =>
      have hpayload : readByte (pre ++ (List.ofFn key ++ (read ++ (b :: todo ++ post))))
          (pre.length + kMaskingKeyWidthInBytes + read.length) = .ok b := by
        have hsplit : pre ++ (List.ofFn key ++ (read ++ (b :: todo ++ post))) =
            (pre ++ List.ofFn key ++ read) ++ b :: (todo ++ post) := by
          simp
        have hindex : pre.length + kMaskingKeyWidthInBytes + read.length =
            (pre ++ List.ofFn key ++ read).length := by
          simp only [List.length_append, List.length_ofFn]
        rw [hsplit, hindex, readByte_append_cons]
      have hkey := readByte_key key pre (read ++ (b :: todo ++ post)) read.length
      have hrest := ih (read ++ [b])
      simp only [List.append_assoc, List.singleton_append, List.length_append,
        List.length_singleton] at hrest
      simp only [List.length_cons, unmask, hpayload, hkey, ok_bind]
      rw [show b :: todo ++ post = b :: (todo ++ post) from rfl, hrest]
      simp [List.mapIdx_cons, pure, Except.pure, Nat.add_comm 1, Nat.add_assoc]

/-- Unmasking what stands after a key undoes `mask`. -/
theorem unmask_mask (key : MaskingKey) (pre payload post : Bytes) :
    unmask (pre ++ (List.ofFn key ++ (mask key payload ++ post))) pre.length 0 payload.length =
      .ok payload := by
  have hloop := unmask_append key pre [] (mask key payload) post
  simp only [List.nil_append, List.length_nil, length_mask, Nat.zero_add] at hloop
  rw [hloop]
  exact congrArg Except.ok (mask_mask key payload)

/-- The loop leaves the buffer exactly when the announced payload does. -/
theorem unmask_ok_iff (buffer : Bytes) (it i n : Nat) :
    (∃ output, unmask buffer it i n = .ok output) ↔
      n = 0 ∨ it + kMaskingKeyWidthInBytes + i + n ≤ buffer.length := by
  induction n generalizing i with
  | zero => simp [unmask]
  | succ n ih =>
      by_cases hin : it + kMaskingKeyWidthInBytes + i < buffer.length
      · have hkeyin : it + i % kMaskingKeyWidthInBytes < buffer.length := by
          have := Nat.mod_lt i (show 0 < kMaskingKeyWidthInBytes by decide)
          omega
        have hstep : (∃ output, unmask buffer it i (n + 1) = .ok output) ↔
            ∃ output, unmask buffer it (i + 1) n = .ok output := by
          simp only [unmask, readByte_of_lt hin, readByte_of_lt hkeyin, ok_bind]
          cases unmask buffer it (i + 1) n with
          | error e => simp
          | ok rest => simp [pure, Except.pure]
        rw [hstep, ih]
        omega
      · have hout : buffer.length ≤ it + kMaskingKeyWidthInBytes + i := Nat.le_of_not_lt hin
        simp only [unmask, readByte_of_le hout, error_bind, reduceCtorEq, exists_false, false_iff,
          false_or]
        omega

/-- The length gate of the source. -/
def passesGate (buffer : Bytes) (h : FrameHeader) : Prop :=
  ¬ size buffer - UInt64.ofNat kMaskingKeyWidthInBytes < UInt64.ofNat h.length

instance (buffer : Bytes) (h : FrameHeader) : Decidable (passesGate buffer h) :=
  inferInstanceAs (Decidable (¬ _))

/-- What the wrapping subtraction of the gate decides: it also passes below four bytes. -/
theorem passesGate_iff {buffer : Bytes} (h : FrameHeader) (hsize : buffer.length < 2 ^ 64) :
    passesGate buffer h ↔ buffer.length < kMaskingKeyWidthInBytes ∨
      kMaskingKeyWidthInBytes + h.length ≤ buffer.length := by
  have hlen := h.length_lt
  simp only [passesGate, size, UInt64.lt_iff_toNat_lt, UInt64.toNat_sub, UInt64.toNat_ofNat',
    kMaskingKeyWidthInBytes]
  omega

theorem decode_bytes (h : FrameHeader) (rest : Bytes) (clientFrame : Bool) :
    decodeFrameHybi17 (h.bytes ++ rest) clientFrame =
      if passesGate (h.bytes ++ rest) h then do
        let output ← unmask (h.bytes ++ rest) h.width 0 h.length
        return {
          result := if h.closed then .frameClose else .frameOk
          bytesConsumed := toInt32 (h.width + kMaskingKeyWidthInBytes + h.length)
          output := output
          compressed := h.reserved1 }
      else
        .ok (Decoded.stop .frameIncomplete h.reserved1) := by
  have hlen := h.length_lt
  have hnat : (UInt64.ofNat h.length).toNat = h.length := by
    rw [UInt64.toNat_ofNat']
    exact Nat.mod_eq_of_lt (by omega)
  -- an accepted header passes both length checks, and only the gate is left
  have hfits : ¬ (UInt64.ofNat h.length > maxPayloadLength ∨
      UInt64.ofNat h.length > sizeMax - UInt64.ofNat kMaskingKeyWidthInBytes) := by
    simp only [gt_iff_lt, UInt64.lt_iff_toNat_lt, hnat, not_or, Nat.not_lt]
    constructor
    · simp only [maxPayloadLength, UInt64.reduceToNat]
      omega
    · have hmax : (sizeMax - UInt64.ofNat kMaskingKeyWidthInBytes).toNat = 2 ^ 64 - 5 := by decide
      rw [hmax]
      omega
  rw [decodeFrameHybi17, readHeader_bytes, ok_bind]
  simp only [readPayload, if_neg hfits, hnat]
  by_cases hgate : passesGate (h.bytes ++ rest) h
  · rw [if_pos hgate, if_neg hgate]
  · rw [if_neg hgate, if_pos (not_not.1 hgate)]

end Inspector
end V8JsiRuntime
