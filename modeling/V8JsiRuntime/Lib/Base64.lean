import Mathlib.Algebra.Order.Floor.Div
import V8JsiRuntime.Lib.ByteOrder

/-!
# Base64 — six bits a character

Three bytes are a number of 24 bits, and its four digits to the base 64 are the characters that
stand for them.  What is missing of the last three bytes is zero, and the characters that hold
nothing of the rest are replaced by padding.
-/

namespace V8JsiRuntime
namespace Lib
namespace Base64

/-! ## The alphabet -/

/-- The character for a digit: capitals, small letters, decimal digits, `+` and `/`. -/
def digit (v : Nat) : UInt8 :=
  if v < 26 then UInt8.ofNat (65 + v)
  else if v < 52 then UInt8.ofNat (97 + (v - 26))
  else if v < 62 then UInt8.ofNat (48 + (v - 52))
  else if v = 62 then 43
  else 47

/-- The digit that a character stands for. -/
def value? (c : UInt8) : Option Nat :=
  if 65 ≤ c ∧ c ≤ 90 then some (c.toNat - 65)
  else if 97 ≤ c ∧ c ≤ 122 then some (c.toNat - 97 + 26)
  else if 48 ≤ c ∧ c ≤ 57 then some (c.toNat - 48 + 52)
  else if c = 43 then some 62
  else if c = 47 then some 63
  else none

def pad : UInt8 := 61

theorem value?_digit {v : Nat} (h : v < 64) : value? (digit v) = some v := by
  revert v
  decide

theorem value?_pad : value? pad = none := rfl

theorem digit_ne_pad {v : Nat} (h : v < 64) : digit v ≠ pad := by
  intro heq
  have hvalue := value?_digit h
  rw [heq, value?_pad] at hvalue
  cases hvalue

/-! ## Encoding -/

/-- The four digits of a number of 24 bits. -/
def group (n : Nat) : List UInt8 :=
  [digit (n / 64 ^ 3 % 64), digit (n / 64 ^ 2 % 64), digit (n / 64 % 64), digit (n % 64)]

def encode : List UInt8 → List UInt8
  | [] => []
  | [a] => (group (beNat [a, 0, 0])).take 2 ++ [pad, pad]
  | [a, b] => (group (beNat [a, b, 0])).take 3 ++ [pad]
  | a :: b :: c :: rest => group (beNat [a, b, c]) ++ encode rest

@[simp] theorem length_group (n : Nat) : (group n).length = 4 := rfl

theorem length_encode (bytes : List UInt8) :
    (encode bytes).length = 4 * (bytes.length ⌈/⌉ 3) := by
  rw [Nat.ceilDiv_eq_add_pred_div]
  induction bytes using encode.induct with
  | case1 => rfl
  | case2 a => simp [encode]
  | case3 a b => simp [encode]
  | case4 a b c rest ih =>
      rw [encode, List.length_append, length_group, ih]
      simp only [List.length_cons]
      omega

/-- Whole groups are encoded by themselves. -/
theorem encode_append {bytes : List UInt8} (h : 3 ∣ bytes.length) (rest : List UInt8) :
    encode (bytes ++ rest) = encode bytes ++ encode rest := by
  induction bytes using encode.induct with
  | case1 => rfl
  | case2 a => exact absurd h (by decide : ¬ 3 ∣ 1)
  | case3 a b => exact absurd h (by decide : ¬ 3 ∣ 2)
  | case4 a b c bytes ih =>
      have hrest : 3 ∣ bytes.length := (Nat.dvd_add_left (Nat.dvd_refl 3)).1 h
      simp only [List.cons_append, encode, ih hrest, List.append_assoc]

theorem mem_group {n : Nat} {c : UInt8} (h : c ∈ group n) : ∃ v < 64, c = digit v := by
  have hlow (m : Nat) : m % 64 < 64 := Nat.mod_lt m (by decide)
  simp only [group, List.mem_cons, List.not_mem_nil, or_false] at h
  rcases h with rfl | rfl | rfl | rfl <;> exact ⟨_, hlow _, rfl⟩

/-- Nothing but digits, and padding behind them for what is missing of the last three bytes. -/
theorem encode_eq_append_pad (bytes : List UInt8) :
    ∃ body, encode bytes = body ++ List.replicate ((3 - bytes.length % 3) % 3) pad ∧
      ∀ c ∈ body, ∃ v < 64, c = digit v := by
  induction bytes using encode.induct with
  | case1 => exact ⟨[], rfl, nofun⟩
  | case2 a => exact ⟨_, rfl, fun c hc => mem_group (List.mem_of_mem_take hc)⟩
  | case3 a b => exact ⟨_, rfl, fun c hc => mem_group (List.mem_of_mem_take hc)⟩
  | case4 a b c rest ih =>
      obtain ⟨body, hbody, hdigit⟩ := ih
      have hlength : (a :: b :: c :: rest).length % 3 = rest.length % 3 :=
        Nat.add_mod_right rest.length 3
      refine ⟨group (beNat [a, b, c]) ++ body, ?_, ?_⟩
      · rw [encode, hbody, hlength, List.append_assoc]
      · intro d hd
        rcases List.mem_append.1 hd with hgroup | hrest
        · exact mem_group hgroup
        · exact hdigit d hrest

/-! ## Decoding -/

/-- The number with the given digits. -/
def digits? (chars : List UInt8) : Option Nat :=
  chars.foldlM (fun n c => (value? c).map (n * 64 + ·)) 0

/-- Padding may stand at the end only, and the bits that belong to no byte are zero. -/
def decode : List UInt8 → Option (List UInt8)
  | [] => some []
  | w :: x :: y :: z :: rest =>
      if rest = [] ∧ y = pad ∧ z = pad then do
        let n ← digits? [w, x]
        if n % 2 ^ 4 = 0 then some (beBytes 1 (n / 2 ^ 4)) else none
      else if rest = [] ∧ z = pad then do
        let n ← digits? [w, x, y]
        if n % 2 ^ 2 = 0 then some (beBytes 2 (n / 2 ^ 2)) else none
      else do
        let n ← digits? [w, x, y, z]
        let bytes ← decode rest
        return beBytes 3 n ++ bytes
  | _ => none

theorem digits?_concat (chars : List UInt8) {v : Nat} (h : v < 64) :
    digits? (chars ++ [digit v]) = (digits? chars).map (· * 64 + v) := by
  rw [digits?, List.foldlM_append, ← digits?]
  cases digits? chars with
  | none => rfl
  | some n =>
      change (value? (digit v)).map (n * 64 + ·) >>= pure = _
      rw [value?_digit h]
      rfl

theorem group_getElem? (n : Nat) {k : Nat} (h : k < 4) :
    (group n)[k]? = some (digit (n / 64 ^ (3 - k) % 64)) := by
  match k, h with
  | 0, _ => rfl
  | 1, _ => rfl
  | 2, _ =>
      rw [show 3 - 2 = 1 from rfl, Nat.pow_one]
      rfl
  | 3, _ =>
      rw [Nat.sub_self, Nat.pow_zero, Nat.div_one]
      rfl

/-- The leading digits of a number are read back as what is above the others. -/
theorem digits?_take_group {n : Nat} (hn : n < 2 ^ 24) {k : Nat} (hk : k ≤ 4) :
    digits? ((group n).take k) = some (n / 64 ^ (4 - k)) := by
  induction k with
  | zero =>
      have hnone : n / 64 ^ (4 - 0) = 0 := Nat.div_eq_of_lt hn
      rw [hnone]
      rfl
  | succ k ih =>
      have hdigit : n / 64 ^ (3 - k) % 64 < 64 := Nat.mod_lt _ (by decide)
      have habove : n / 64 ^ (4 - k) = n / 64 ^ (3 - k) / 64 := by
        rw [Nat.div_div_eq_div_mul, ← Nat.pow_succ, ← Nat.succ_sub (Nat.le_of_lt_succ hk)]
      rw [List.take_add_one, group_getElem? n hk, Option.toList_some, digits?_concat _ hdigit,
        ih (Nat.le_of_succ_le hk), Option.map_some, habove, Nat.div_add_mod',
        Nat.add_sub_add_right 3 1 k]

theorem beNat_three_lt (a b c : UInt8) : beNat [a, b, c] < 2 ^ 24 :=
  (beNat_lt [a, b, c]).trans_eq (by simp)

theorem beNat_three (a b c : UInt8) :
    beNat [a, b, c] = (a.toNat * 256 + b.toNat) * 256 + c.toNat := by
  simp [beNat]

theorem decode_group_append {n : Nat} (h : n < 2 ^ 24) (rest : List UInt8) :
    decode (group n ++ rest) = (decode rest).map (beBytes 3 n ++ ·) := by
  have hlast : digit (n % 64) ≠ pad := digit_ne_pad (Nat.mod_lt n (by decide))
  have hdigits : digits? (group n) = some n := by
    have htake := digits?_take_group h (Nat.le_refl 4)
    rwa [Nat.sub_self, Nat.pow_zero, Nat.div_one] at htake
  change decode (_ :: _ :: _ :: _ :: rest) = _
  rw [decode, if_neg fun h => hlast h.2.2, if_neg fun h => hlast h.2]
  change (digits? (group n) >>= _) = _
  rw [hdigits]
  cases decode rest <;> rfl

/-- Decoding is the inverse of encoding. -/
theorem decode_encode (bytes : List UInt8) : decode (encode bytes) = some bytes := by
  induction bytes using encode.induct with
  | case1 => rfl
  | case2 a =>
      have hdigits := digits?_take_group (beNat_three_lt a 0 0) (k := 2) (by decide)
      have hzero : beNat [a, 0, 0] / 64 ^ 2 % 2 ^ 4 = 0 := by
        rw [beNat_three, UInt8.toNat_zero]
        omega
      have hbyte : beNat [a, 0, 0] / 64 ^ 2 / 2 ^ 4 = beNat [a] := by
        simp only [beNat, List.foldl_cons, List.foldl_nil, UInt8.toNat_zero]
        omega
      change decode [_, _, pad, pad] = _
      rw [decode, if_pos ⟨rfl, rfl, rfl⟩]
      change (digits? ((group (beNat [a, 0, 0])).take 2) >>= _) = _
      rw [hdigits]
      change (if beNat [a, 0, 0] / 64 ^ 2 % 2 ^ 4 = 0 then _ else _) = _
      rw [if_pos hzero, hbyte]
      exact congrArg some (beBytes_beNat [a])
  | case3 a b =>
      have hdigits := digits?_take_group (beNat_three_lt a b 0) (k := 3) (by decide)
      have hlast : digit (beNat [a, b, 0] / 64 % 64) ≠ pad :=
        digit_ne_pad (Nat.mod_lt _ (by decide))
      have hzero : beNat [a, b, 0] / 64 ^ 1 % 2 ^ 2 = 0 := by
        rw [beNat_three, UInt8.toNat_zero]
        omega
      have hbytes : beNat [a, b, 0] / 64 ^ 1 / 2 ^ 2 = beNat [a, b] := by
        simp only [beNat, List.foldl_cons, List.foldl_nil, UInt8.toNat_zero]
        omega
      change decode [_, _, digit (beNat [a, b, 0] / 64 % 64), pad] = _
      rw [decode, if_neg fun h => hlast h.2.1, if_pos ⟨rfl, rfl⟩]
      change (digits? ((group (beNat [a, b, 0])).take 3) >>= _) = _
      rw [hdigits]
      change (if beNat [a, b, 0] / 64 ^ 1 % 2 ^ 2 = 0 then _ else _) = _
      rw [if_pos hzero, hbytes]
      exact congrArg some (beBytes_beNat [a, b])
  | case4 a b c rest ih =>
      rw [encode, decode_group_append (beNat_three_lt a b c), ih]
      exact congrArg (fun bytes => some (bytes ++ rest)) (beBytes_beNat [a, b, c])

end Base64
end Lib
end V8JsiRuntime
