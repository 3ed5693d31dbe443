import Mathlib.Tactic.Ring
import Mathlib.Data.Nat.Bitwise
import Mathlib.Data.List.Induction

/-!
# ByteOrder — fixed-width big-endian fields

A natural number written as exactly `n` bytes, most significant first, and read back.  The two
loops that occur in programs are covered as well: the writing loop that takes the low byte and
shifts right, and the reading loop that shifts left and ors the next byte in.
-/

namespace V8JsiRuntime
namespace Lib

/-! ## Bytes of a natural number -/

/-- The low `n` bytes of `v`, most significant first; higher bytes of `v` are dropped. -/
def beBytes : Nat → Nat → List UInt8
  | 0, _ => []
  | n + 1, v => UInt8.ofNat (v / 256 ^ n) :: beBytes n v

/-- The natural number with the given big-endian bytes. -/
def beNat (bs : List UInt8) : Nat :=
  bs.foldl (fun acc b => acc * 256 + b.toNat) 0

@[simp] theorem length_beBytes (n v : Nat) : (beBytes n v).length = n := by
  induction n with
  | zero => rfl
  | succ n ih => simp [beBytes, ih]

theorem foldl_beBytes (n v acc : Nat) :
    (beBytes n v).foldl (fun acc b => acc * 256 + b.toNat) acc = acc * 256 ^ n + v % 256 ^ n := by
  induction n generalizing acc with
  | zero => simp [beBytes, Nat.mod_one]
  | succ n ih =>
      -- the leading byte is the digit of weight `256 ^ n`
      have hsplit : v % 256 ^ (n + 1) = v / 256 ^ n % 256 * 256 ^ n + v % 256 ^ n := by
        rw [pow_succ, Nat.mod_mul, Nat.add_comm, Nat.mul_comm (256 ^ n)]
      have hbyte : (UInt8.ofNat (v / 256 ^ n)).toNat = v / 256 ^ n % 256 := by
        simp
      simp only [beBytes, List.foldl_cons, ih, hbyte, hsplit]
      ring

theorem beNat_beBytes (n v : Nat) : beNat (beBytes n v) = v % 256 ^ n := by
  simpa [beNat] using foldl_beBytes n v 0

theorem beNat_beBytes_of_lt {n v : Nat} (h : v < 256 ^ n) : beNat (beBytes n v) = v := by
  rw [beNat_beBytes, Nat.mod_eq_of_lt h]

/-- Peeling the lowest byte off instead of the highest. -/
theorem beBytes_succ_append (n v : Nat) :
    beBytes (n + 1) v = beBytes n (v / 256) ++ [UInt8.ofNat v] := by
  induction n with
  | zero => simp [beBytes]
  | succ n ih =>
      have hdiv : v / 256 ^ (n + 1) = v / 256 / 256 ^ n := by
        rw [Nat.div_div_eq_div_mul, pow_succ, Nat.mul_comm]
      calc
        beBytes (n + 2) v
            = UInt8.ofNat (v / 256 ^ (n + 1)) :: beBytes (n + 1) v := rfl
        _ = UInt8.ofNat (v / 256 / 256 ^ n) :: (beBytes n (v / 256) ++ [UInt8.ofNat v]) := by
              rw [hdiv, ih]
        _ = beBytes (n + 1) (v / 256) ++ [UInt8.ofNat v] := rfl

/-- The higher bytes in front of the lower ones. -/
theorem beBytes_add (m n v : Nat) : beBytes (m + n) v = beBytes m (v / 256 ^ n) ++ beBytes n v := by
  induction m with
  | zero => rw [Nat.zero_add, beBytes, List.nil_append]
  | succ m ih =>
      have hdiv : v / 256 ^ (m + n) = v / 256 ^ n / 256 ^ m := by
        rw [Nat.div_div_eq_div_mul, ← pow_add, Nat.add_comm]
      rw [Nat.add_right_comm, beBytes, ih, hdiv, beBytes, List.cons_append]

theorem foldl_beNat_lt (bs : List UInt8) (acc : Nat) :
    bs.foldl (fun acc b => acc * 256 + b.toNat) acc < (acc + 1) * 256 ^ bs.length := by
  induction bs generalizing acc with
  | nil => simp
  | cons b bs ih =>
      have hb : b.toNat < 256 := b.toNat_lt
      have hstep : acc * 256 + b.toNat + 1 ≤ (acc + 1) * 256 := by omega
      calc
        (b :: bs).foldl (fun acc b => acc * 256 + b.toNat) acc
            < (acc * 256 + b.toNat + 1) * 256 ^ bs.length := ih _
        _ ≤ (acc + 1) * 256 * 256 ^ bs.length := Nat.mul_le_mul_right _ hstep
        _ = (acc + 1) * 256 ^ (b :: bs).length := by
              rw [List.length_cons, pow_succ]
              ring

theorem beNat_lt (bs : List UInt8) : beNat bs < 256 ^ bs.length := by
  simpa [beNat] using foldl_beNat_lt bs 0

theorem beBytes_foldl_beNat (bs : List UInt8) (acc : Nat) :
    beBytes bs.length (bs.foldl (fun acc b => acc * 256 + b.toNat) acc) = bs := by
  induction bs using List.reverseRecOn with
  | nil => rfl
  | append_singleton bs b ih =>
      have hb : b.toNat < 256 := b.toNat_lt
      -- the last byte is the lowest digit, and the others are what is above it
      have hlow : ∀ m : Nat, UInt8.ofNat (m * 256 + b.toNat) = b := by
        intro m
        apply UInt8.toNat_inj.1
        simp
      have hhigh : ∀ m : Nat, (m * 256 + b.toNat) / 256 = m := by
        intro m
        omega
      rw [List.length_append, List.length_singleton, beBytes_succ_append]
      simp only [List.foldl_append, List.foldl_cons, List.foldl_nil, hlow, hhigh, ih]

theorem beBytes_beNat (bs : List UInt8) : beBytes bs.length (beNat bs) = bs :=
  beBytes_foldl_beNat bs 0

/-! ## The loops over 64-bit words -/

/-- One round of the reading loop `acc <<= 8; acc |= b`, while the top byte is still free. -/
theorem toNat_shiftLeft_or (acc : UInt64) (b : UInt8) (h : acc.toNat < 2 ^ 56) :
    ((acc <<< 8) ||| b.toUInt64).toNat = acc.toNat * 256 + b.toNat := by
  have hb : b.toNat < 2 ^ 8 := b.toNat_lt
  have hshift : acc.toNat <<< 8 % 2 ^ 64 = acc.toNat <<< 8 := by
    rw [Nat.shiftLeft_eq]
    exact Nat.mod_eq_of_lt (by omega)
  -- the shifted word is zero where the byte goes, so that `|=` adds
  have hor : acc.toNat <<< 8 ||| b.toNat = acc.toNat <<< 8 + b.toNat :=
    (Nat.shiftLeft_add_eq_or_of_lt hb acc.toNat).symm
  simp only [UInt64.toNat_or, UInt64.toNat_shiftLeft, UInt8.toNat_toUInt64]
  rw [show (8 : UInt64).toNat % 64 = 8 from rfl, hshift, hor, Nat.shiftLeft_eq]

/-- The whole reading loop over at most eight bytes computes the big-endian value. -/
theorem toNat_foldl_shiftLeft_or (bs : List UInt8) (acc : UInt64) (k : Nat)
    (hacc : acc.toNat < 256 ^ k) (hlen : k + bs.length ≤ 8) :
    (bs.foldl (fun (word : UInt64) (b : UInt8) => (word <<< 8) ||| b.toUInt64) acc).toNat =
      bs.foldl (fun n b => n * 256 + b.toNat) acc.toNat := by
  induction bs generalizing acc k with
  | nil => rfl
  | cons b bs ih =>
      simp only [List.length_cons] at hlen
      have hk : (256 : Nat) ^ k ≤ 256 ^ 7 := Nat.pow_le_pow_right (by decide) (by omega)
      -- at most seven bytes have been read, so nothing is shifted out
      have hroom : acc.toNat < 2 ^ 56 := by
        calc
          acc.toNat < 256 ^ k := hacc
          _ ≤ 2 ^ 56 := by simpa using hk
      have hround := toNat_shiftLeft_or acc b hroom
      have hb : b.toNat < 256 := b.toNat_lt
      have hnext : ((acc <<< 8) ||| b.toUInt64).toNat < 256 ^ (k + 1) := by
        rw [hround, pow_succ]
        omega
      simp only [List.foldl_cons]
      rw [ih _ (k + 1) hnext (by omega), hround]

/-! ## Bit fields of 32-bit words -/

theorem toNat_and_word {m : UInt32} (k : Nat) (hm : m.toNat = 2 ^ k - 1) (x : UInt32) :
    (x &&& m).toNat = x.toNat % 2 ^ k := by
  rw [UInt32.toNat_and, hm, Nat.and_two_pow_sub_one_eq_mod]

theorem toNat_shiftRight_word {n : UInt32} (k : Nat) (hn : n.toNat % 32 = k) (x : UInt32) :
    (x >>> n).toNat = x.toNat / 2 ^ k := by
  rw [UInt32.toNat_shiftRight, hn, Nat.shiftRight_eq_div_pow]

theorem toNat_shiftLeft_word {n : UInt32} (k : Nat) (hn : n.toNat % 32 = k) {x : UInt32}
    (hx : x.toNat * 2 ^ k < 2 ^ 32) : (x <<< n).toNat = x.toNat * 2 ^ k := by
  rw [UInt32.toNat_shiftLeft, hn, Nat.shiftLeft_eq]
  exact Nat.mod_eq_of_lt hx

/-- A field is put in where the shifted word is zero. -/
theorem toNat_shiftLeft_or_word {n : UInt32} (k : Nat) (hn : n.toNat % 32 = k) {x y : UInt32}
    (hx : x.toNat * 2 ^ k < 2 ^ 32) (hy : y.toNat < 2 ^ k) :
    ((x <<< n) ||| y).toNat = x.toNat * 2 ^ k + y.toNat := by
  have hor : x.toNat <<< k ||| y.toNat = x.toNat <<< k + y.toNat :=
    (Nat.shiftLeft_add_eq_or_of_lt hy x.toNat).symm
  rw [UInt32.toNat_or, toNat_shiftLeft_word k hn hx, ← Nat.shiftLeft_eq, hor]

end Lib
end V8JsiRuntime
