import V8JsiRuntime.Lib.Utf

/-!
# GeneralUtf8 — reading generalised UTF-8

The decoder for the encoding of code points in `Utf`: the standard one, but for surrogates, which
are accepted.  Overlong forms and values above 0x10FFFF are rejected.
-/

namespace V8JsiRuntime
namespace Lib

/-! ## The decoder -/

/-- Takes `n` continuation bytes, whose lower six bits go behind the bits of `acc`. -/
def takeContinuation (acc : Nat) : Nat → List UInt8 → Option (Nat × List UInt8)
  | 0, bytes => some (acc, bytes)
  | _ + 1, [] => none
  | n + 1, b :: bytes =>
      if 0x80 ≤ b.toNat ∧ b.toNat < 0xC0 then
        takeContinuation (acc * 64 + b.toNat % 64) n bytes
      else
        none

/-- The code point is one that needs the number of bytes it was written with. -/
def checkRange (low high : Nat) (read : Nat × List UInt8) : Option (Nat × List UInt8) :=
  if low ≤ read.1 ∧ read.1 ≤ high then some read else none

/-- The first code point and the bytes behind it. -/
def decodeCodePoint : List UInt8 → Option (Nat × List UInt8)
  | [] => none
  | b :: bytes =>
      if b.toNat < 0x80 then
        some (b.toNat, bytes)
      else if b.toNat < 0xC0 then
        none
      else if b.toNat < 0xE0 then
        takeContinuation (b.toNat % 32) 1 bytes >>= checkRange 0x80 0x7FF
      else if b.toNat < 0xF0 then
        takeContinuation (b.toNat % 16) 2 bytes >>= checkRange 0x800 0xFFFF
      else if b.toNat < 0xF8 then
        takeContinuation (b.toNat % 8) 3 bytes >>= checkRange 0x10000 0x10FFFF
      else
        none

/-- The code points of at most `n` bytes. -/
def decodeLoop : Nat → List UInt8 → Option (List Nat)
  | 0, bytes => if bytes = [] then some [] else none
  | n + 1, bytes =>
      if bytes = [] then
        some []
      else do
        let (v, rest) ← decodeCodePoint bytes
        let vs ← decodeLoop n rest
        return v :: vs

def decodeCodePoints (bytes : List UInt8) : Option (List Nat) :=
  decodeLoop bytes.length bytes

/-! ## Code points are read back -/

/-- A byte made of a mark and a value below it. -/
theorem toNat_mark {n : Nat} (h : n < 256) : (UInt8.ofNat n).toNat = n :=
  UInt8.toNat_ofNat_of_lt' h

theorem takeContinuation_cons (acc n m : Nat) (rest : List UInt8) :
    takeContinuation acc (n + 1) (UInt8.ofNat (m % 64 + 0x80) :: rest) =
      takeContinuation (acc * 64 + m % 64) n rest := by
  have hbyte : (UInt8.ofNat (m % 64 + 0x80)).toNat = m % 64 + 0x80 := toNat_mark (by omega)
  have hbits : (m % 64 + 0x80) % 64 = m % 64 := by omega
  rw [takeContinuation, hbyte, if_pos (by omega), hbits]

theorem decodeCodePoint_encode {v : Nat} (hv : v ≤ 0x10FFFF) (rest : List UInt8) :
    decodeCodePoint (encodeCodePoint v ++ rest) = some (v, rest) := by
  unfold encodeCodePoint
  split
  · rename_i hone
    have hbyte : (UInt8.ofNat v).toNat = v := toNat_mark (by omega)
    rw [List.singleton_append, decodeCodePoint, hbyte, if_pos (by omega)]
  · split
    · rename_i hlow htwo
      have hbyte : (UInt8.ofNat (v / 64 % 32 + 0xC0)).toNat = v / 64 % 32 + 0xC0 :=
        toNat_mark (by omega)
      have hvalue : (v / 64 % 32 + 0xC0) % 32 * 64 + v % 64 = v := by omega
      rw [List.cons_append, List.singleton_append, decodeCodePoint, hbyte, if_neg (by omega),
        if_neg (by omega), if_pos (by omega), takeContinuation_cons, hvalue]
      exact if_pos ⟨by omega, htwo⟩
    · split
      · rename_i hlow' hlow hthree
        have hbyte : (UInt8.ofNat (v / 4096 % 16 + 0xE0)).toNat = v / 4096 % 16 + 0xE0 :=
          toNat_mark (by omega)
        have hvalue : ((v / 4096 % 16 + 0xE0) % 16 * 64 + v / 64 % 64) * 64 + v % 64 = v := by
          omega
        rw [List.cons_append, List.cons_append, List.singleton_append, decodeCodePoint, hbyte,
          if_neg (by omega), if_neg (by omega), if_neg (by omega), if_pos (by omega),
          takeContinuation_cons, takeContinuation_cons, hvalue]
        exact if_pos ⟨by omega, hthree⟩
      · rename_i hlow'' hlow' hlow
        have hbyte : (UInt8.ofNat (v / 262144 % 8 + 0xF0)).toNat = v / 262144 % 8 + 0xF0 :=
          toNat_mark (by omega)
        have hvalue : (((v / 262144 % 8 + 0xF0) % 8 * 64 + v / 4096 % 64) * 64 + v / 64 % 64) * 64 +
            v % 64 = v := by
          omega
        rw [List.cons_append, List.cons_append, List.cons_append, List.singleton_append,
          decodeCodePoint, hbyte, if_neg (by omega), if_neg (by omega), if_neg (by omega),
          if_neg (by omega), if_pos (by omega), takeContinuation_cons, takeContinuation_cons,
          takeContinuation_cons, hvalue]
        exact if_pos ⟨by omega, hv⟩

theorem encodeCodePoint_ne_nil (v : Nat) : encodeCodePoint v ≠ [] := by
  intro h
  have hlength := length_encodeCodePoint v
  rw [h, List.length_nil] at hlength
  split_ifs at hlength

theorem decodeLoop_encode {vs : List Nat} (hvs : ∀ v ∈ vs, v ≤ 0x10FFFF) {n : Nat}
    (hn : (vs.flatMap encodeCodePoint).length ≤ n) :
    decodeLoop n (vs.flatMap encodeCodePoint) = some vs := by
  induction vs generalizing n with
  | nil => cases n <;> rfl
  | cons v vs ih =>
      have hne := encodeCodePoint_ne_nil v
      have hpos := List.length_pos_iff.2 hne
      rw [List.flatMap_cons, List.length_append] at hn
      cases n with
      | zero => omega
      | succ n =>
          have hrest := ih (n := n) (fun w hw => hvs w (List.mem_cons_of_mem v hw)) (by omega)
          rw [List.flatMap_cons, decodeLoop, if_neg (by simp [hne]),
            decodeCodePoint_encode (hvs v List.mem_cons_self)]
          show (decodeLoop n (vs.flatMap encodeCodePoint)).bind (fun vs => some (v :: vs)) = _
          rw [hrest, Option.bind_some]

theorem decodeCodePoints_encode {vs : List Nat} (hvs : ∀ v ∈ vs, v ≤ 0x10FFFF) :
    decodeCodePoints (vs.flatMap encodeCodePoint) = some vs :=
  decodeLoop_encode hvs (Nat.le_refl _)

/-! ## Back to UTF-16 -/

/-- The units of a code point: the unit itself, or a surrogate pair. -/
def unitsOf (v : Nat) : List UInt16 :=
  if v < 0x10000 then [UInt16.ofNat v] else [highSurrogate v, lowSurrogate v]

theorem unitsOf_toNat (unit : UInt16) : unitsOf unit.toNat = [unit] := by
  rw [unitsOf, if_pos unit.toNat_lt, UInt16.ofNat_toNat]

theorem combine_le {high low : UInt16} (hhigh : IsHighSurrogate high) (hlow : IsLowSurrogate low) :
    combine high low ≤ 0x10FFFF := by
  have hfirst := hhigh.2
  have hsecond := hlow.2
  unfold combine
  omega

theorem unitsOf_combine {high low : UInt16} (hhigh : IsHighSurrogate high)
    (hlow : IsLowSurrogate low) : unitsOf (combine high low) = [high, low] := by
  have hmax := combine_le hhigh hlow
  obtain ⟨hhigh₁, hhigh₂⟩ := hhigh
  obtain ⟨hlow₁, hlow₂⟩ := hlow
  have hvalue : combine high low =
      0x10000 + (high.toNat - 0xD800) * 0x400 + (low.toNat - 0xDC00) := rfl
  have hfirst : highSurrogate (combine high low) = high := by
    apply UInt16.toNat_inj.1
    rw [toNat_highSurrogate (by omega)]
    omega
  have hsecond : lowSurrogate (combine high low) = low := by
    apply UInt16.toNat_inj.1
    rw [toNat_lowSurrogate]
    omega
  rw [unitsOf, if_neg (by omega), hfirst, hsecond]

/-- The code points of a list of units have these units. -/
theorem units_codePoints (units : List UInt16) : (codePoints units).flatMap unitsOf = units := by
  induction units using codePoints.induct with
  | case1 => rfl
  | case2 unit => rw [codePoints, List.flatMap_singleton, unitsOf_toNat]
  | case3 unit next units hpair ih =>
      rw [codePoints_pair hpair.1 hpair.2, List.flatMap_cons, unitsOf_combine hpair.1 hpair.2, ih]
      rfl
  | case4 unit next units hsingle ih =>
      rw [codePoints, if_neg hsingle, List.flatMap_cons, unitsOf_toNat, ih]
      rfl

/-- A code point of a list of units is a scalar value, or a surrogate by itself. -/
theorem codePoints_cases {units : List UInt16} {v : Nat} (hv : v ∈ codePoints units) :
    v.isValidChar ∨ 0xD800 ≤ v ∧ v ≤ 0xDFFF := by
  induction units using codePoints.induct with
  | case1 => cases hv
  | case2 unit =>
      have hmax := unit.toNat_lt
      rw [codePoints, List.mem_singleton] at hv
      rw [Nat.isValidChar]
      omega
  | case3 unit next units hpair ih =>
      rw [codePoints_pair hpair.1 hpair.2] at hv
      rcases List.mem_cons.1 hv with hcombine | hv
      · -- a pair is above all surrogates
        have hmax := combine_le hpair.1 hpair.2
        have hmin : 0x10000 ≤ combine unit next := by
          unfold combine
          omega
        rw [Nat.isValidChar, hcombine]
        omega
      · exact ih hv
  | case4 unit next units hsingle ih =>
      have hmax := unit.toNat_lt
      rw [codePoints, if_neg hsingle] at hv
      rcases List.mem_cons.1 hv with rfl | hv
      · rw [Nat.isValidChar]
        omega
      · exact ih hv

theorem le_of_mem_codePoints {units : List UInt16} {v : Nat} (hv : v ∈ codePoints units) :
    v ≤ 0x10FFFF := by
  rcases codePoints_cases hv with hvalid | ⟨_, hle⟩
  · rw [Nat.isValidChar] at hvalid
    omega
  · omega

/-- UTF-16 units from generalised UTF-8. -/
def decodeUnits (bytes : List UInt8) : Option (List UInt16) :=
  (decodeCodePoints bytes).map fun vs => vs.flatMap unitsOf

theorem decodeUnits_encode (units : List UInt16) :
    decodeUnits ((codePoints units).flatMap encodeCodePoint) = some units := by
  rw [decodeUnits, decodeCodePoints_encode fun v hv => le_of_mem_codePoints hv, Option.map_some,
    units_codePoints]

/-- There are at most three bytes for each unit. -/
theorem length_encode_codePoints_le (units : List UInt16) :
    ((codePoints units).flatMap encodeCodePoint).length ≤ 3 * units.length := by
  induction units using codePoints.induct with
  | case1 => exact Nat.le_refl 0
  | case2 unit =>
      have hmax := unit.toNat_lt
      rw [codePoints, List.flatMap_singleton, length_encodeCodePoint]
      split_ifs <;> simp
      omega
  | case3 unit next units hpair ih =>
      have hpairs : (encodeCodePoint (combine unit next)).length ≤ 4 := by
        rw [length_encodeCodePoint]
        split_ifs <;> omega
      rw [codePoints_pair hpair.1 hpair.2, List.flatMap_cons, List.length_append, List.length_cons,
        List.length_cons]
      omega
  | case4 unit next units hsingle ih =>
      have hmax := unit.toNat_lt
      have hunit : (encodeCodePoint unit.toNat).length ≤ 3 := by
        rw [length_encodeCodePoint]
        split_ifs <;> omega
      rw [codePoints, if_neg hsingle, List.flatMap_cons, List.length_append, List.length_cons]
      omega

end Lib
end V8JsiRuntime
