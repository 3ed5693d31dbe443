import V8JsiRuntime.Lib.ByteOrder

/-!
# Sha1 — the hash function of FIPS 180

The standard's definition, in its words: the message is padded to whole blocks of 16 words, and the
hash value is computed block by block, with 80 rounds for each.
-/

namespace V8JsiRuntime
namespace Lib
namespace Sha1

/-! ## Functions and constants -/

/-- `ROTL^n(x)`. -/
def rotl (n x : UInt32) : UInt32 :=
  (x <<< n) ||| (x >>> (32 - n))

def ch (x y z : UInt32) : UInt32 :=
  (x &&& y) ^^^ (~~~x &&& z)

def parity (x y z : UInt32) : UInt32 :=
  x ^^^ y ^^^ z

def maj (x y z : UInt32) : UInt32 :=
  (x &&& y) ^^^ (x &&& z) ^^^ (y &&& z)

/-- The function of round `t`. -/
def f (t : Nat) : UInt32 → UInt32 → UInt32 → UInt32 :=
  if t < 20 then ch else if t < 40 then parity else if t < 60 then maj else parity

/-- The constant of round `t`. -/
def k (t : Nat) : UInt32 :=
  if t < 20 then 0x5a827999 else if t < 40 then 0x6ed9eba1
  else if t < 60 then 0x8f1bbcdc else 0xca62c1d6

/-! ## One block -/

/-- The message schedule: `W` of round `t`. -/
def schedule (block : Vector UInt32 16) (t : Nat) : UInt32 :=
  if h : t < 16 then block[t]
  else rotl 1 (schedule block (t - 3) ^^^ schedule block (t - 8) ^^^ schedule block (t - 14) ^^^
    schedule block (t - 16))

/-- The working variables, or the words of a hash value. -/
structure Registers where
  a : UInt32
  b : UInt32
  c : UInt32
  d : UInt32
  e : UInt32
  deriving DecidableEq, Repr

def Registers.add (r s : Registers) : Registers :=
  ⟨r.a + s.a, r.b + s.b, r.c + s.c, r.d + s.d, r.e + s.e⟩

/-- Round `t` with the word `w`. -/
def round (t : Nat) (w : UInt32) (r : Registers) : Registers :=
  ⟨rotl 5 r.a + f t r.b r.c r.d + r.e + k t + w, r.a, rotl 30 r.b, r.c, r.d⟩

/-- The first `t` rounds. -/
def rounds (block : Vector UInt32 16) (r : Registers) : Nat → Registers
  | 0 => r
  | t + 1 => round t (schedule block t) (rounds block r t)

/-- The hash value after one more block. -/
def compress (h : Registers) (block : Vector UInt32 16) : Registers :=
  (rounds block h 80).add h

/-! ## The message -/

/-- Sixteen words from 64 bytes. -/
def words (bytes : List UInt8) : Vector UInt32 16 :=
  Vector.ofFn fun t => UInt32.ofNat (beNat ((bytes.drop (4 * t)).take 4))

/-- The hash value after all whole blocks. -/
def chain (h : Registers) (bytes : List UInt8) : Registers :=
  if bytes.length < 64 then h
  else chain (compress h (words (bytes.take 64))) (bytes.drop 64)
  termination_by bytes.length
  decreasing_by
    rw [List.length_drop]
    omega

def initial : Registers :=
  ⟨0x67452301, 0xefcdab89, 0x98badcfe, 0x10325476, 0xc3d2e1f0⟩

/-- What is put behind a message of `n` bytes: a one bit, as many zeros as make the last block
56 bytes long, and the length in bits. -/
def padding (n : Nat) : List UInt8 :=
  0x80 :: (List.replicate ((119 - n % 64) % 64) 0 ++ beBytes 8 (8 * n))

/-- The words of a hash value as bytes. -/
def Registers.bytes (r : Registers) : List UInt8 :=
  [r.a, r.b, r.c, r.d, r.e].flatMap fun w => beBytes 4 w.toNat

def hash (message : List UInt8) : List UInt8 :=
  (chain initial (message ++ padding message.length)).bytes

/-! ## Lemmas -/

theorem schedule_of_lt {block : Vector UInt32 16} {t : Nat} (h : t < 16) :
    schedule block t = block[t] := by
  rw [schedule, dif_pos h]

theorem schedule_of_le {block : Vector UInt32 16} {t : Nat} (h : 16 ≤ t) :
    schedule block t = rotl 1 (schedule block (t - 3) ^^^ schedule block (t - 8) ^^^
      schedule block (t - 14) ^^^ schedule block (t - 16)) := by
  rw [schedule, dif_neg (Nat.not_lt.2 h)]

theorem chain_of_lt (h : Registers) {bytes : List UInt8} (hshort : bytes.length < 64) :
    chain h bytes = h := by
  rw [chain, if_pos hshort]

theorem chain_block (h : Registers) {block : List UInt8} (hblock : block.length = 64)
    (rest : List UInt8) : chain h (block ++ rest) = chain (compress h (words block)) rest := by
  have hlong : ¬ (block ++ rest).length < 64 := by
    rw [List.length_append]
    omega
  rw [chain, if_neg hlong, List.take_left' hblock, List.drop_left' hblock]

theorem chain_of_length (h : Registers) {block : List UInt8} (hblock : block.length = 64) :
    chain h block = compress h (words block) := by
  have hlast := chain_block h hblock []
  rwa [List.append_nil, chain_of_lt _ (by decide : ([] : List UInt8).length < 64)] at hlast

/-- Whole blocks first, then the rest. -/
theorem chain_append (h : Registers) {blocks : List UInt8} (hblocks : 64 ∣ blocks.length)
    (rest : List UInt8) : chain h (blocks ++ rest) = chain (chain h blocks) rest := by
  induction h, blocks using chain.induct with
  | case1 h blocks hshort =>
      have hnil : blocks = [] := List.length_eq_zero_iff.1 (Nat.eq_zero_of_dvd_of_lt hblocks hshort)
      rw [chain_of_lt h hshort, hnil, List.nil_append]
  | case2 h blocks hlong ih =>
      have hsplit := List.take_append_drop 64 blocks
      have htake : (blocks.take 64).length = 64 := List.length_take_of_le (Nat.not_lt.1 hlong)
      have hdrop : 64 ∣ (blocks.drop 64).length := by
        rw [List.length_drop]
        exact Nat.dvd_sub hblocks (Nat.dvd_refl 64)
      calc
        chain h (blocks ++ rest)
            = chain h (blocks.take 64 ++ (blocks.drop 64 ++ rest)) := by
              rw [← List.append_assoc, hsplit]
        _ = chain (compress h (words (blocks.take 64))) (blocks.drop 64 ++ rest) :=
              chain_block h htake _
        _ = chain (chain (compress h (words (blocks.take 64))) (blocks.drop 64)) rest := ih hdrop
        _ = chain (chain h blocks) rest := by
              rw [← chain_block h htake, hsplit]

theorem Registers.add_comm (r s : Registers) : r.add s = s.add r := by
  simp only [Registers.add, UInt32.add_comm]

theorem length_bytes (r : Registers) : r.bytes.length = 20 := by
  simp [Registers.bytes]

end Sha1
end Lib
end V8JsiRuntime
