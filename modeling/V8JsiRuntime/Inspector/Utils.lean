import Mathlib.Algebra.Ring.Nat
import Mathlib.Data.List.Basic

/-!
# Utils — memory faults, C strings and the comparison helpers

The helpers of `inspector_utils` that the socket code rests on.  A `std::string` or a
`std::vector<char>` is the list of its bytes; a `const char*` obtained from `data()` or `c_str()`
can be read up to and including the terminator, and reading further is a fault.
-/

namespace V8JsiRuntime
namespace Inspector

/-- The contents of a `std::string` or of a `std::vector<char>`. -/
abbrev Bytes := List UInt8

/-- The bytes of an ASCII literal of the source. -/
def ascii (s : String) : Bytes :=
  s.toList.map fun c => UInt8.ofNat c.toNat

/-- Ways in which an execution stops being described by the source. -/
inductive Fault
  /-- A `CHECK` macro failed: `std::abort()`. -/
  | checkFailed
  /-- A byte outside the buffer was read. -/
  | readOutOfBounds (index : Nat)
  /-- A byte was stored behind the end of a string or an array. -/
  | writeOutOfBounds (index : Nat)
  /-- `vector::erase` was asked to remove more bytes than there are. -/
  | eraseOutOfBounds (count : Int)
  deriving DecidableEq, Repr

/-- `INT_MAX`. -/
def intMax : Nat := 2 ^ 31 - 1

/-- `static_cast` of a `size_t` to an `int`. -/
def toInt32 (n : Nat) : Int :=
  Int.bmod n (2 ^ 32)

theorem toInt32_le (n : Nat) : toInt32 n ≤ n := by
  unfold toInt32
  rw [Int.bmod_def]
  split <;> omega

theorem toInt32_of_lt {n : Nat} (h : n < 2 ^ 31) : toInt32 n = n := by
  unfold toInt32
  rw [Int.bmod_def]
  split <;> omega

@[simp] theorem ok_bind {α β : Type} (a : α) (f : α → Except Fault β) :
    (Except.ok a >>= f) = f a := rfl

@[simp] theorem error_bind {α β : Type} (e : Fault) (f : α → Except Fault β) :
    (Except.error e >>= f) = .error e := rfl

/-- `buffer[index]`. -/
def readByte (buffer : Bytes) (index : Nat) : Except Fault UInt8 :=
  match buffer[index]? with
  | some b => .ok b
  | none => .error (.readOutOfBounds index)

theorem readByte_of_lt {buffer : Bytes} {index : Nat} (h : index < buffer.length) :
    readByte buffer index = .ok buffer[index] := by
  simp [readByte, h]

theorem readByte_of_le {buffer : Bytes} {index : Nat} (h : buffer.length ≤ index) :
    readByte buffer index = .error (.readOutOfBounds index) := by
  simp [readByte, h]

@[simp] theorem readByte_append_cons (pre post : Bytes) (b : UInt8) :
    readByte (pre ++ b :: post) pre.length = .ok b := by
  simp [readByte]

/-- `buffer[index] = b`. -/
def storeByte (buffer : Bytes) (index : Nat) (b : UInt8) : Except Fault Bytes :=
  if index < buffer.length then .ok (buffer.set index b) else .error (.writeOutOfBounds index)

/-- A store behind what has been written already. -/
theorem storeByte_append {written room : Bytes} {index j : Nat} (b : UInt8)
    (hindex : index = written.length + j) (hj : j < room.length) :
    storeByte (written ++ room) index b = .ok (written ++ room.set j b) := by
  have hroom : index < (written ++ room).length := by
    rw [List.length_append]
    omega
  rw [storeByte, if_pos hroom, hindex, List.set_append_right _ _ (Nat.le_add_right _ _),
    Nat.add_sub_cancel_left]

theorem exists_cons_four {room : Bytes} (h : 4 ≤ room.length) :
    ∃ r0 r1 r2 r3 rest, room = r0 :: r1 :: r2 :: r3 :: rest := by
  match room, h with
  | r0 :: r1 :: r2 :: r3 :: rest, _ => exact ⟨r0, r1, r2, r3, rest, rfl⟩

/-- `s.data()[index]` on the terminated string. -/
def charAt (s : Bytes) (index : Nat) : Except Fault UInt8 :=
  readByte (s ++ [0]) index

theorem charAt_append_cons (pre post : Bytes) (c : UInt8) :
    charAt (pre ++ c :: post) pre.length = .ok c := by
  simp [charAt, readByte]

theorem charAt_length (s : Bytes) : charAt s s.length = .ok 0 := by
  simp [charAt, readByte]

/-! ## Case-insensitive comparison -/

/-- `ToLower(char)`; a negative `char` is below `'A'`. -/
def toLower (c : UInt8) : UInt8 :=
  if 65 ≤ c ∧ c ≤ 90 then c + 32 else c

/-- The loop of `StringEqualNoCaseN` from index `i`, with `n` rounds left. -/
def stringEqualNoCaseNLoop (a b : Bytes) (i : Nat) : Nat → Except Fault Bool
  | 0 => .ok true
  | n + 1 => do
      let ca ← charAt a i
      let cb ← charAt b i
      if toLower ca ≠ toLower cb then
        return false
      else if ca = 0 then
        return true
      else
        stringEqualNoCaseNLoop a b (i + 1) n

def stringEqualNoCaseN (a b : Bytes) (length : Nat) : Except Fault Bool :=
  stringEqualNoCaseNLoop a b 0 length

/-- `StringEqualNoCase`; both strings end at their first NUL. -/
def stringEqualNoCase : Bytes → Bytes → Bool
  | [], b => b.headD 0 == 0
  | x :: a, b =>
      if x = 0 then
        b.headD 0 == 0
      else
        match b with
        | [] => false
        | y :: b =>
            if y = 0 then
              false
            else if toLower x = toLower y then
              stringEqualNoCase a b
            else
              false

/-- What `StringEqualNoCaseN(a, b, |b|)` decides when `b` has no NUL: `b` is a prefix of `a` up to
letter case. -/
def isPrefixNoCase (a b : Bytes) : Bool :=
  (a.take b.length).map toLower == b.map toLower

/-- A character in front of the letters is made by no other one. -/
theorem toLower_eq_iff {d : UInt8} (hd : d < 65) (c : UInt8) : toLower c = d ↔ c = d := by
  rw [UInt8.lt_iff_toNat_lt] at hd
  have hbound : d.toNat < 65 := hd
  unfold toLower
  split
  · rename_i hrange
    have hlow : 65 ≤ c.toNat := by simpa [UInt8.le_iff_toNat_le] using hrange.1
    have hhigh : c.toNat ≤ 90 := by simpa [UInt8.le_iff_toNat_le] using hrange.2
    have hsum : (c + 32).toNat = c.toNat + 32 := by
      rw [UInt8.toNat_add]
      exact Nat.mod_eq_of_lt (by simp; omega)
    constructor
    · rintro rfl
      omega
    · rintro rfl
      omega
  · exact Iff.rfl

theorem toLower_eq_zero_iff (c : UInt8) : toLower c = 0 ↔ c = 0 :=
  toLower_eq_iff (by decide) c

/-- The loop compares what is left of both strings; the induction is on what is left of `b`. -/
theorem stringEqualNoCaseNLoop_append (ra rb pa pb : Bytes) (hlen : pa.length = pb.length)
    (hnul : ∀ c ∈ rb, c ≠ 0) :
    stringEqualNoCaseNLoop (pa ++ ra) (pb ++ rb) pa.length rb.length =
      .ok (isPrefixNoCase ra rb) := by
  induction rb generalizing ra pa pb with
  | nil => simp [stringEqualNoCaseNLoop, isPrefixNoCase]
  | cons y rb ih =>
      have hy : y ≠ 0 := hnul y (by simp)
      have hrb : ∀ c ∈ rb, c ≠ 0 := fun c hc => hnul c (by simp [hc])
      have hcb : charAt (pb ++ y :: rb) pa.length = .ok y := by
        rw [hlen]
        exact charAt_append_cons pb rb y
      cases ra with
      | nil =>
          -- `a` has ended: its terminator differs from every character of `b`
          have hca : charAt pa pa.length = .ok 0 := charAt_length pa
          have hne : toLower 0 ≠ toLower y := by
            intro h
            exact hy ((toLower_eq_zero_iff y).1 h.symm)
          simp [stringEqualNoCaseNLoop, hca, hcb, hne, isPrefixNoCase, pure, Except.pure]
      | cons x ra =>
          have hca : charAt (pa ++ x :: ra) pa.length = .ok x := charAt_append_cons pa ra x
          have hnext := ih ra (pa ++ [x]) (pb ++ [y]) (by simp [hlen]) hrb
          simp only [List.append_assoc, List.singleton_append, List.length_append,
            List.length_singleton] at hnext
          simp only [List.length_cons, stringEqualNoCaseNLoop, hca, hcb, ok_bind, pure, Except.pure]
          by_cases heq : toLower x = toLower y
          · -- equal characters are not the terminator, so the loop goes on
            have hx : x ≠ 0 := by
              rintro rfl
              exact hy ((toLower_eq_zero_iff y).1 heq.symm)
            simp [heq, hx, hnext, isPrefixNoCase]
          · simp [heq, isPrefixNoCase]

theorem stringEqualNoCaseN_eq (a b : Bytes) (hnul : ∀ c ∈ b, c ≠ 0) :
    stringEqualNoCaseN a b b.length = .ok (isPrefixNoCase a b) := by
  simpa [stringEqualNoCaseN] using stringEqualNoCaseNLoop_append a b [] [] rfl hnul

end Inspector
end V8JsiRuntime
