import V8JsiRuntime.Lib.Sha1
import V8JsiRuntime.Inspector.Utils

/-!
# Sha1 — the hash of the handshake

`sha1_context` of `inspector_utils`: a buffer for one block, the transformation of a block in place,
with five variables that change their roles from round to round, and the padding in `finish`.
-/

namespace V8JsiRuntime
namespace Inspector
namespace Sha1

open Lib (beNat beBytes)

/-! ## The rounds -/

def rol (value bits : UInt32) : UInt32 :=
  (value <<< bits) ||| (value >>> (32 - bits))

/-- The next word of the schedule; sums of indices are taken modulo 16, as by `& 15`. -/
def blk (block : Vector UInt32 16) (i : Fin 16) : UInt32 :=
  rol (block[i + 13] ^^^ block[i + 8] ^^^ block[i + 2] ^^^ block[i]) 1

/-- A local variable of `transform`, by the index in `digest` that it is loaded from. -/
abbrev Register := Fin 5

abbrev a : Register := 0
abbrev b : Register := 1
abbrev c : Register := 2
abbrev d : Register := 3
abbrev e : Register := 4

/-- What `transform` works on. -/
structure Work where
  block : Vector UInt32 16
  registers : Vector UInt32 5

/-- `block[i] = blk(block, i)`. -/
def Work.expand (s : Work) (i : Fin 16) : Work :=
  { s with block := s.block.set i (blk s.block i) }

/-- What all rounds do with the registers passed to them, by a function and a constant. -/
def Work.mix (s : Work) (f : UInt32 → UInt32 → UInt32 → UInt32) (constant : UInt32)
    (v w x y z : Register) (i : Fin 16) : Work :=
  let registers := s.registers.set z (s.registers[z] +
    (f s.registers[w] s.registers[x] s.registers[y] + s.block[i] + constant +
      rol s.registers[v] 5))
  { s with registers := registers.set w (rol registers[w] 30) }

def r0 (s : Work) (v w x y z : Register) (i : Fin 16) : Work :=
  s.mix (fun w x y => (w &&& (x ^^^ y)) ^^^ y) 0x5a827999 v w x y z i

def r1 (s : Work) (v w x y z : Register) (i : Fin 16) : Work :=
  (s.expand i).mix (fun w x y => (w &&& (x ^^^ y)) ^^^ y) 0x5a827999 v w x y z i

def r2 (s : Work) (v w x y z : Register) (i : Fin 16) : Work :=
  (s.expand i).mix (fun w x y => w ^^^ x ^^^ y) 0x6ed9eba1 v w x y z i

def r3 (s : Work) (v w x y z : Register) (i : Fin 16) : Work :=
  (s.expand i).mix (fun w x y => ((w ||| x) &&& y) ||| (w &&& x)) 0x8f1bbcdc v w x y z i

def r4 (s : Work) (v w x y z : Register) (i : Fin 16) : Work :=
  (s.expand i).mix (fun w x y => w ^^^ x ^^^ y) 0xca62c1d6 v w x y z i

inductive Round
  | r0 | r1 | r2 | r3 | r4
  deriving DecidableEq, Repr

/-- A statement of `transform`. -/
structure Call where
  round : Round
  v : Register
  w : Register
  x : Register
  y : Register
  z : Register
  i : Fin 16
  deriving DecidableEq, Repr

def Call.run (call : Call) (s : Work) : Work :=
  match call.round with
  | .r0 => r0 s call.v call.w call.x call.y call.z call.i
  | .r1 => r1 s call.v call.w call.x call.y call.z call.i
  | .r2 => r2 s call.v call.w call.x call.y call.z call.i
  | .r3 => r3 s call.v call.w call.x call.y call.z call.i
  | .r4 => r4 s call.v call.w call.x call.y call.z call.i

/-- The calls of `transform`, in order. -/
def calls : List Call :=
  [⟨.r0, a, b, c, d, e, 0⟩, ⟨.r0, e, a, b, c, d, 1⟩, ⟨.r0, d, e, a, b, c, 2⟩,
    ⟨.r0, c, d, e, a, b, 3⟩, ⟨.r0, b, c, d, e, a, 4⟩, ⟨.r0, a, b, c, d, e, 5⟩,
    ⟨.r0, e, a, b, c, d, 6⟩, ⟨.r0, d, e, a, b, c, 7⟩, ⟨.r0, c, d, e, a, b, 8⟩,
    ⟨.r0, b, c, d, e, a, 9⟩, ⟨.r0, a, b, c, d, e, 10⟩, ⟨.r0, e, a, b, c, d, 11⟩,
    ⟨.r0, d, e, a, b, c, 12⟩, ⟨.r0, c, d, e, a, b, 13⟩, ⟨.r0, b, c, d, e, a, 14⟩,
    ⟨.r0, a, b, c, d, e, 15⟩, ⟨.r1, e, a, b, c, d, 0⟩, ⟨.r1, d, e, a, b, c, 1⟩,
    ⟨.r1, c, d, e, a, b, 2⟩, ⟨.r1, b, c, d, e, a, 3⟩, ⟨.r2, a, b, c, d, e, 4⟩,
    ⟨.r2, e, a, b, c, d, 5⟩, ⟨.r2, d, e, a, b, c, 6⟩, ⟨.r2, c, d, e, a, b, 7⟩,
    ⟨.r2, b, c, d, e, a, 8⟩, ⟨.r2, a, b, c, d, e, 9⟩, ⟨.r2, e, a, b, c, d, 10⟩,
    ⟨.r2, d, e, a, b, c, 11⟩, ⟨.r2, c, d, e, a, b, 12⟩, ⟨.r2, b, c, d, e, a, 13⟩,
    ⟨.r2, a, b, c, d, e, 14⟩, ⟨.r2, e, a, b, c, d, 15⟩, ⟨.r2, d, e, a, b, c, 0⟩,
    ⟨.r2, c, d, e, a, b, 1⟩, ⟨.r2, b, c, d, e, a, 2⟩, ⟨.r2, a, b, c, d, e, 3⟩,
    ⟨.r2, e, a, b, c, d, 4⟩, ⟨.r2, d, e, a, b, c, 5⟩, ⟨.r2, c, d, e, a, b, 6⟩,
    ⟨.r2, b, c, d, e, a, 7⟩, ⟨.r3, a, b, c, d, e, 8⟩, ⟨.r3, e, a, b, c, d, 9⟩,
    ⟨.r3, d, e, a, b, c, 10⟩, ⟨.r3, c, d, e, a, b, 11⟩, ⟨.r3, b, c, d, e, a, 12⟩,
    ⟨.r3, a, b, c, d, e, 13⟩, ⟨.r3, e, a, b, c, d, 14⟩, ⟨.r3, d, e, a, b, c, 15⟩,
    ⟨.r3, c, d, e, a, b, 0⟩, ⟨.r3, b, c, d, e, a, 1⟩, ⟨.r3, a, b, c, d, e, 2⟩,
    ⟨.r3, e, a, b, c, d, 3⟩, ⟨.r3, d, e, a, b, c, 4⟩, ⟨.r3, c, d, e, a, b, 5⟩,
    ⟨.r3, b, c, d, e, a, 6⟩, ⟨.r3, a, b, c, d, e, 7⟩, ⟨.r3, e, a, b, c, d, 8⟩,
    ⟨.r3, d, e, a, b, c, 9⟩, ⟨.r3, c, d, e, a, b, 10⟩, ⟨.r3, b, c, d, e, a, 11⟩,
    ⟨.r4, a, b, c, d, e, 12⟩, ⟨.r4, e, a, b, c, d, 13⟩, ⟨.r4, d, e, a, b, c, 14⟩,
    ⟨.r4, c, d, e, a, b, 15⟩, ⟨.r4, b, c, d, e, a, 0⟩, ⟨.r4, a, b, c, d, e, 1⟩,
    ⟨.r4, e, a, b, c, d, 2⟩, ⟨.r4, d, e, a, b, c, 3⟩, ⟨.r4, c, d, e, a, b, 4⟩,
    ⟨.r4, b, c, d, e, a, 5⟩, ⟨.r4, a, b, c, d, e, 6⟩, ⟨.r4, e, a, b, c, d, 7⟩,
    ⟨.r4, d, e, a, b, c, 8⟩, ⟨.r4, c, d, e, a, b, 9⟩, ⟨.r4, b, c, d, e, a, 10⟩,
    ⟨.r4, a, b, c, d, e, 11⟩, ⟨.r4, e, a, b, c, d, 12⟩, ⟨.r4, d, e, a, b, c, 13⟩,
    ⟨.r4, c, d, e, a, b, 14⟩, ⟨.r4, b, c, d, e, a, 15⟩]

/-- `transform`, with what is left of the block. -/
def transform (digest : Vector UInt32 5) (block : Vector UInt32 16) :
    Vector UInt32 5 × Vector UInt32 16 :=
  let s := calls.foldl (fun s call => call.run s) ⟨block, digest⟩
  (#v[digest[0] + s.registers[a], digest[1] + s.registers[b], digest[2] + s.registers[c],
    digest[3] + s.registers[d], digest[4] + s.registers[e]], s.block)

/-! ## The rounds against the standard -/

theorem ch_eq (w x y : UInt32) : (w &&& (x ^^^ y)) ^^^ y = Lib.Sha1.ch w x y := by
  apply UInt32.toBitVec_inj.1
  ext i
  simp only [Lib.Sha1.ch, UInt32.toBitVec_and, UInt32.toBitVec_xor, UInt32.toBitVec_not,
    BitVec.getElem_xor, BitVec.getElem_and, BitVec.getElem_not]
  cases w.toBitVec[i] <;> cases y.toBitVec[i] <;> simp

theorem maj_eq (w x y : UInt32) : ((w ||| x) &&& y) ||| (w &&& x) = Lib.Sha1.maj w x y := by
  apply UInt32.toBitVec_inj.1
  ext i
  simp only [Lib.Sha1.maj, UInt32.toBitVec_and, UInt32.toBitVec_xor, UInt32.toBitVec_or,
    BitVec.getElem_xor, BitVec.getElem_and, BitVec.getElem_or]
  cases w.toBitVec[i] <;> cases x.toBitVec[i] <;> cases y.toBitVec[i] <;> rfl

/-- The register in the given place of round `t`; each round moves them on by one. -/
def role (place : Register) (t : Nat) : Register :=
  Fin.ofNat 5 (place + 4 * t)

def callAt (t : Nat) : Call :=
  ⟨if t < 16 then .r0 else if t < 20 then .r1 else if t < 40 then .r2 else if t < 60 then .r3
    else .r4, role 0 t, role 1 t, role 2 t, role 3 t, role 4 t, Fin.ofNat 16 t⟩

theorem calls_eq : calls = (List.range 80).map callAt := by
  decide

theorem val_role (place : Register) (t : Nat) : (role place t).val = (place.val + 4 * t) % 5 :=
  rfl

theorem role_succ (place : Register) (t : Nat) : role (place + 1) (t + 1) = role place t := by
  apply Fin.ext
  rw [val_role, val_role, Fin.val_add]
  simp only [Fin.isValue, Fin.val_one]
  omega

theorem role_inj {place place' : Register} {t : Nat} :
    role place t = role place' t ↔ place = place' := by
  rw [Fin.ext_iff, Fin.ext_iff, val_role, val_role]
  omega

/-- The values of the registers by their places in round `t`. -/
def registersAt (t : Nat) (registers : Vector UInt32 5) : Lib.Sha1.Registers :=
  ⟨registers[role 0 t], registers[role 1 t], registers[role 2 t], registers[role 3 t],
    registers[role 4 t]⟩

theorem registersAt_succ (t : Nat) (registers : Vector UInt32 5) :
    registersAt (t + 1) registers = ⟨registers[role 4 t], registers[role 0 t], registers[role 1 t],
      registers[role 2 t], registers[role 3 t]⟩ := by
  have hfirst : role 0 (t + 1) = role 4 t := role_succ 4 t
  have hsecond : role 1 (t + 1) = role 0 t := role_succ 0 t
  have hthird : role 2 (t + 1) = role 1 t := role_succ 1 t
  have hfourth : role 3 (t + 1) = role 2 t := role_succ 2 t
  have hfifth : role 4 (t + 1) = role 3 t := role_succ 3 t
  simp only [registersAt, hfirst, hsecond, hthird, hfourth, hfifth]

theorem getElem_set {n : Nat} (xs : Vector UInt32 n) (i j : Fin n) (x : UInt32) :
    (xs.set i x)[j] = if i = j then x else xs[j] := by
  rw [Fin.getElem_fin, Vector.getElem_set]
  simp only [Fin.ext_iff]
  rfl

/-- A round of the code is a round of the standard, with the registers in their next places. -/
theorem registersAt_mix (s : Work) (f : UInt32 → UInt32 → UInt32 → UInt32) (constant : UInt32)
    (t : Nat) (i : Fin 16) :
    registersAt (t + 1) (s.mix f constant (role 0 t) (role 1 t) (role 2 t) (role 3 t) (role 4 t)
      i).registers =
    let r := registersAt t s.registers
    ⟨rol r.a 5 + f r.b r.c r.d + r.e + constant + s.block[i], r.a, rol r.b 30, r.c, r.d⟩ := by
  -- only the fifth and the second register change, in this order
  have hsum (z f w constant v : UInt32) : z + (f + w + constant + v) = v + f + z + constant + w := by
    ac_rfl
  rw [registersAt_succ, Work.mix, registersAt]
  simp only [getElem_set, role_inj, hsum]
  rfl

/-- The schedule from round `t` on: the block holds the last 16 words. -/
def Window (block : Vector UInt32 16) (t : Nat) (window : Vector UInt32 16) : Prop :=
  ∀ s, t ≤ s + 16 → s < max t 16 → window[Fin.ofNat 16 s] = Lib.Sha1.schedule block s

theorem window_zero (block : Vector UInt32 16) : Window block 0 block := by
  intro s _ hs
  have hlow : s < 16 := hs
  rw [Lib.Sha1.schedule_of_lt hlow]
  simp [Nat.mod_eq_of_lt hlow]

/-- In the first rounds the block is as it was. -/
theorem Window.succ_of_lt {block window : Vector UInt32 16} {t : Nat} (h : Window block t window)
    (ht : t < 16) : Window block (t + 1) window :=
  fun s hs hmax => h s (by omega) (by omega)

/-- Later the next word takes the place of the oldest. -/
theorem Window.succ_of_le {block window : Vector UInt32 16} {t : Nat} (h : Window block t window)
    (ht : 16 ≤ t) :
    Window block (t + 1) (window.set (Fin.ofNat 16 t) (blk window (Fin.ofNat 16 t))) := by
  have hword (n : Fin 16) (m : Nat) (hm : 0 < m ∧ n.val + m = 16) :
      window[Fin.ofNat 16 t + n] = Lib.Sha1.schedule block (t - m) := by
    have hindex : Fin.ofNat 16 t + n = Fin.ofNat 16 (t - m) := by
      apply Fin.ext
      simp only [Fin.val_add, Fin.ofNat]
      omega
    simp only [hindex]
    exact h (t - m) (by omega) (by omega)
  have holdest : window[Fin.ofNat 16 t] = Lib.Sha1.schedule block (t - 16) := by
    simpa using hword 0 16 (by decide)
  intro s hs hmax
  rw [getElem_set]
  by_cases hnew : s = t
  · rw [if_pos (by rw [hnew]), hnew, Lib.Sha1.schedule_of_le ht, blk, hword 13 3 ⟨by decide, rfl⟩,
      hword 8 8 ⟨by decide, rfl⟩, hword 2 14 ⟨by decide, rfl⟩, holdest]
    rfl
  · have hother : Fin.ofNat 16 t ≠ Fin.ofNat 16 s := by
      simp only [ne_eq, Fin.ext_iff, Fin.ofNat]
      omega
    rw [if_neg hother]
    exact h s (by omega) (by omega)

/-- Each call applies the function and the constant of its round, from round 16 on to a new word. -/
theorem run_callAt (t : Nat) (s : Work) :
    (callAt t).run s = (if t < 16 then s else s.expand (Fin.ofNat 16 t)).mix (Lib.Sha1.f t)
      (Lib.Sha1.k t) (role 0 t) (role 1 t) (role 2 t) (role 3 t) (role 4 t) (Fin.ofNat 16 t) := by
  have hch : (fun w x y => (w &&& (x ^^^ y)) ^^^ y) = Lib.Sha1.ch := by
    funext w x y
    exact ch_eq w x y
  have hmaj : (fun w x y => ((w ||| x) &&& y) ||| (w &&& x)) = Lib.Sha1.maj := by
    funext w x y
    exact maj_eq w x y
  by_cases h16 : t < 16
  · have h20 : t < 20 := h16.trans (by decide)
    simp only [callAt, Call.run, Lib.Sha1.f, Lib.Sha1.k, if_pos h16, if_pos h20, r0, hch]
  by_cases h20 : t < 20
  · simp only [callAt, Call.run, Lib.Sha1.f, Lib.Sha1.k, if_neg h16, if_pos h20, r1, hch]
  by_cases h40 : t < 40
  · simp only [callAt, Call.run, Lib.Sha1.f, Lib.Sha1.k, if_neg h16, if_neg h20, if_pos h40, r2]
    rfl
  by_cases h60 : t < 60
  · simp only [callAt, Call.run, Lib.Sha1.f, Lib.Sha1.k, if_neg h16, if_neg h20, if_neg h40,
      if_pos h60, r3, hmaj]
  · simp only [callAt, Call.run, Lib.Sha1.f, Lib.Sha1.k, if_neg h16, if_neg h20, if_neg h40,
      if_neg h60, r4]
    rfl

/-- After `t` calls the registers are those of the standard, in the places of the next round. -/
structure Rounds (digest : Vector UInt32 5) (block : Vector UInt32 16) (t : Nat) (s : Work) :
    Prop where
  registers : registersAt t s.registers = Lib.Sha1.rounds block (registersAt 0 digest) t
  window : Window block t s.block

/-- One call is one round. -/
theorem Rounds.step {digest : Vector UInt32 5} {block : Vector UInt32 16} {t : Nat} {s : Work}
    (h : Rounds digest block t s) : Rounds digest block (t + 1) ((callAt t).run s) := by
  rw [run_callAt]
  -- the block for this round, which also is the one for the next
  obtain ⟨s', hs', hwindow, hregisters⟩ : ∃ s',
      (if t < 16 then s else s.expand (Fin.ofNat 16 t)) = s' ∧ Window block (t + 1) s'.block ∧
        s'.registers = s.registers := by
    by_cases ht : t < 16
    · exact ⟨s, if_pos ht, h.window.succ_of_lt ht, rfl⟩
    · exact ⟨_, if_neg ht, h.window.succ_of_le (Nat.not_lt.1 ht), rfl⟩
  have hword : s'.block[Fin.ofNat 16 t] = Lib.Sha1.schedule block t :=
    hwindow t (by omega) (by omega)
  rw [hs']
  refine ⟨?_, hwindow⟩
  rw [registersAt_mix, hword, hregisters, h.registers]
  rfl

theorem rounds_foldl (digest : Vector UInt32 5) (block : Vector UInt32 16) (t : Nat) :
    Rounds digest block t
      (((List.range t).map callAt).foldl (fun s call => call.run s) ⟨block, digest⟩) := by
  induction t with
  | zero => exact ⟨rfl, window_zero block⟩
  | succ t ih =>
      rw [List.range_succ, List.map_append, List.foldl_append]
      exact ih.step

/-- The words of a digest. -/
def registersOf (digest : Vector UInt32 5) : Lib.Sha1.Registers :=
  ⟨digest[0], digest[1], digest[2], digest[3], digest[4]⟩

/-- What `transform` adds up. -/
theorem registersOf_transform_of {digest : Vector UInt32 5} {block : Vector UInt32 16} {s : Work}
    (hs : calls.foldl (fun s call => call.run s) ⟨block, digest⟩ = s) :
    registersOf (transform digest block).1 = (registersOf digest).add (registersOf s.registers) := by
  subst hs
  rfl

/-- `transform` computes the next hash value. -/
theorem registersOf_transform (digest : Vector UInt32 5) (block : Vector UInt32 16) :
    registersOf (transform digest block).1 = Lib.Sha1.compress (registersOf digest) block := by
  obtain ⟨s, hs⟩ : ∃ s, calls.foldl (fun s call => call.run s) ⟨block, digest⟩ = s := ⟨_, rfl⟩
  have hrounds := rounds_foldl digest block 80
  rw [← calls_eq, hs] at hrounds
  -- after 80 rounds every register is back in its first place
  have hlast : registersAt 80 s.registers = registersOf s.registers := rfl
  have hfirst : registersAt 0 digest = registersOf digest := rfl
  rw [registersOf_transform_of hs, Lib.Sha1.compress, ← hfirst, ← hrounds.registers, hlast, hfirst,
    Lib.Sha1.Registers.add_comm]

/-! ## The context -/

def makeBlock (p : Vector UInt8 64) : Vector UInt32 16 :=
  Vector.ofFn fun i =>
    p[4 * i.val + 3].toUInt32 ||| p[4 * i.val + 2].toUInt32 <<< 8 |||
      p[4 * i.val + 1].toUInt32 <<< 16 ||| p[4 * i.val].toUInt32 <<< 24

/-- `sha1_context` between two calls: a full buffer is transformed at once. -/
structure Sha1Context where
  buflen : Nat
  blocks : UInt64
  digest : Vector UInt32 5
  buf : Vector UInt8 64
  buflen_lt : buflen < 64

/-- `init`, which leaves the buffer as it is. -/
def init (buf : Vector UInt8 64) : Sha1Context :=
  ⟨0, 0, #v[0x67452301, 0xefcdab89, 0x98badcfe, 0x10325476, 0xc3d2e1f0], buf, by decide⟩

/-- `memcpy(buf + offset, bytes, bytes.size())`. -/
def memcpy (buf : Vector UInt8 64) (offset : Nat) (bytes : Bytes) : Vector UInt8 64 :=
  Vector.ofFn fun j =>
    if offset ≤ j.val then (bytes[j.val - offset]?).getD buf[j] else buf[j]

def Sha1Context.update (ctx : Sha1Context) (message : Bytes) : Sha1Context :=
  let n := min message.length (64 - ctx.buflen)
  let buf := memcpy ctx.buf ctx.buflen (message.take n)
  if h : ctx.buflen + n ≠ 64 then
    { ctx with buf, buflen := ctx.buflen + n, buflen_lt := by have := ctx.buflen_lt; omega }
  else
    update
      { ctx with
        buflen := 0
        digest := (transform ctx.digest (makeBlock buf)).1
        blocks := ctx.blocks + 1
        buf
        buflen_lt := by decide }
      (message.drop n)
  termination_by message.length
  decreasing_by
    have := ctx.buflen_lt
    rw [List.length_drop]
    omega

/-- The loops that store a value at all indices from `i` on, below `stop`. -/
def fill {α : Type} {n : Nat} (xs : Vector α n) (value : α) (i stop : Nat) (hstop : stop ≤ n) :
    Vector α n :=
  if h : i < stop then fill (xs.set i value) value (i + 1) stop hstop else xs
  termination_by stop - i

/-- The four stores of a word at `digest + 4 * i`. -/
def storeWord (digest : Bytes) (i : Nat) (word : UInt32) : Except Fault Bytes := do
  let digest ← storeByte digest (4 * i + 3) (word &&& 0xff).toUInt8
  let digest ← storeByte digest (4 * i + 2) ((word >>> 8) &&& 0xff).toUInt8
  let digest ← storeByte digest (4 * i + 1) ((word >>> 16) &&& 0xff).toUInt8
  storeByte digest (4 * i + 0) ((word >>> 24) &&& 0xff).toUInt8

def storeWords (digest : Bytes) (i : Nat) : List UInt32 → Except Fault Bytes
  | [] => .ok digest
  | word :: rest => do
      let digest ← storeWord digest i word
      storeWords digest (i + 1) rest

/-- The words of the hash value, in `finish`. -/
def Sha1Context.lastDigest (ctx : Sha1Context) : Vector UInt32 5 :=
  let totalBits : UInt64 := (ctx.blocks * 64 + UInt64.ofNat ctx.buflen) * 8
  let buf := ctx.buf.set ctx.buflen 0x80 ctx.buflen_lt
  let buflen := ctx.buflen + 1
  let buf := fill buf 0x00 buflen 64 (Nat.le_refl 64)
  let block := makeBlock buf
  let (digest, block) :=
    if buflen > 64 - 8 then
      let (digest, block) := transform ctx.digest block
      (digest, fill block 0 0 (16 - 2) (by decide))
    else
      (ctx.digest, block)
  let block := block.set 15 (totalBits &&& 0xffffffff).toUInt32
  let block := block.set 14 (totalBits >>> 32).toUInt32
  (transform digest block).1

/-- `finish`, with the array that the digest is stored in. -/
def Sha1Context.finish (ctx : Sha1Context) (digest : Bytes) : Except Fault Bytes :=
  storeWords digest 0 ctx.lastDigest.toList

/-! ## Arrays -/

/-- The bytes are put together from the last to the first. -/
theorem toUInt32_or_shift (b0 b1 b2 b3 : UInt8) :
    b3.toUInt32 ||| b2.toUInt32 <<< 8 ||| b1.toUInt32 <<< 16 ||| b0.toUInt32 <<< 24 =
      UInt32.ofNat (beNat [b0, b1, b2, b3]) := by
  have h0 := b0.toNat_lt
  have h1 := b1.toNat_lt
  have h2 := b2.toNat_lt
  have h3 := b3.toNat_lt
  have htwo : (b3.toUInt32 ||| b2.toUInt32 <<< 8).toNat = b2.toNat * 2 ^ 8 + b3.toNat := by
    rw [UInt32.or_comm]
    exact Lib.toNat_shiftLeft_or_word 8 rfl (by simp; omega) h3
  have hthree : (b3.toUInt32 ||| b2.toUInt32 <<< 8 ||| b1.toUInt32 <<< 16).toNat =
      b1.toNat * 2 ^ 16 + (b2.toNat * 2 ^ 8 + b3.toNat) := by
    rw [UInt32.or_comm, ← htwo]
    exact Lib.toNat_shiftLeft_or_word 16 rfl (by simp; omega) (by omega)
  have hfour : (b3.toUInt32 ||| b2.toUInt32 <<< 8 ||| b1.toUInt32 <<< 16 |||
      b0.toUInt32 <<< 24).toNat =
      b0.toNat * 2 ^ 24 + (b1.toNat * 2 ^ 16 + (b2.toNat * 2 ^ 8 + b3.toNat)) := by
    rw [UInt32.or_comm, ← hthree]
    exact Lib.toNat_shiftLeft_or_word 24 rfl (by simp; omega) (by omega)
  have hvalue : beNat [b0, b1, b2, b3] =
      b0.toNat * 2 ^ 24 + (b1.toNat * 2 ^ 16 + (b2.toNat * 2 ^ 8 + b3.toNat)) := by
    simp only [beNat, List.foldl_cons, List.foldl_nil]
    omega
  apply UInt32.toNat_inj.1
  rw [hfour, hvalue, UInt32.toNat_ofNat_of_lt' (show _ < 2 ^ 32 by omega)]

/-- `make_block` reads the words of the standard. -/
theorem makeBlock_eq (p : Vector UInt8 64) : makeBlock p = Lib.Sha1.words p.toList := by
  apply Vector.ext
  intro i hi
  have hlength : p.toList.length = 64 := Vector.length_toList
  have htake : (p.toList.drop (4 * i)).take 4 =
      [p[4 * i], p[4 * i + 1], p[4 * i + 2], p[4 * i + 3]] := by
    rw [List.drop_eq_getElem_cons (by omega), List.drop_eq_getElem_cons (by omega),
      List.drop_eq_getElem_cons (by omega), List.drop_eq_getElem_cons (by omega)]
    simp
  simp only [makeBlock, Lib.Sha1.words, Vector.getElem_ofFn, htake, toUInt32_or_shift]

/-- The buffer up to the end of what has been copied. -/
theorem take_memcpy {buf : Vector UInt8 64} {offset : Nat} {bytes : Bytes}
    (h : offset + bytes.length ≤ 64) :
    (memcpy buf offset bytes).toList.take (offset + bytes.length) =
      buf.toList.take offset ++ bytes := by
  apply List.ext_getElem
  · simp
    omega
  · intro j hj hj'
    have hoffset : min offset 64 = offset := by omega
    simp only [List.getElem_take, Vector.getElem_toList, List.getElem_append, List.length_take,
      Vector.length_toList, hoffset, memcpy, Vector.getElem_ofFn]
    by_cases hcopied : offset ≤ j
    · have hbyte : j - offset < bytes.length := by
        rw [List.length_take] at hj
        omega
      rw [if_pos hcopied, dif_neg (Nat.not_lt.2 hcopied), List.getElem?_eq_getElem hbyte]
      rfl
    · rw [if_neg hcopied, dif_pos (Nat.lt_of_not_le hcopied)]
      rfl

theorem getElem_fill {α : Type} {n : Nat} (value : α) (stop : Nat) (hstop : stop ≤ n)
    (xs : Vector α n) (i j : Nat) (hj : j < n) :
    (fill xs value i stop hstop)[j] = if i ≤ j ∧ j < stop then value else xs[j] := by
  induction xs, i using fill.induct value stop hstop with
  | case1 xs i hi ih =>
      rw [fill, dif_pos hi, ih, Vector.getElem_set]
      by_cases hfirst : i = j
      · rw [if_neg (by omega), if_pos hfirst, if_pos (by omega)]
      · rw [if_neg hfirst]
        simp only [show i + 1 ≤ j ↔ i ≤ j by omega]
  | case2 xs i hi =>
      rw [fill, dif_neg hi, if_neg (by omega)]

/-! ## Updates -/

/-- The context has taken in a message: the whole blocks are hashed, and the rest is at the beginning
of the buffer. -/
structure Absorbed (ctx : Sha1Context) (hashed message : Bytes) : Prop where
  message : message = hashed ++ ctx.buf.toList.take ctx.buflen
  whole : 64 ∣ hashed.length
  blocks : ctx.blocks = UInt64.ofNat (hashed.length / 64)
  digest : registersOf ctx.digest = Lib.Sha1.chain Lib.Sha1.initial hashed

theorem absorbed_init (buf : Vector UInt8 64) : Absorbed (init buf) [] [] where
  message := rfl
  whole := Nat.dvd_zero 64
  blocks := rfl
  digest := (Lib.Sha1.chain_of_lt _ (by decide)).symm

/-- A full buffer is hashed as one more block. -/
theorem Absorbed.block {ctx : Sha1Context} {hashed message : Bytes}
    (h : Absorbed ctx hashed message) (buf : Vector UInt8 64) :
    Absorbed ⟨0, ctx.blocks + 1, (transform ctx.digest (makeBlock buf)).1, buf, by decide⟩
      (hashed ++ buf.toList) (hashed ++ buf.toList) where
  message := (List.append_nil _).symm
  whole := by
    rw [List.length_append, Vector.length_toList]
    exact Nat.dvd_add h.whole (Nat.dvd_refl 64)
  blocks := by
    rw [h.blocks, List.length_append, Vector.length_toList, Nat.add_div_right _ (by decide),
      UInt64.ofNat_add]
    rfl
  digest := by
    rw [registersOf_transform, makeBlock_eq, h.digest, Lib.Sha1.chain_append _ h.whole,
      Lib.Sha1.chain_of_length _ Vector.length_toList]

/-- What is copied follows what is in the buffer already. -/
theorem take_buf {ctx : Sha1Context} {more : Bytes} {n : Nat} (hn : n ≤ more.length)
    (hfit : ctx.buflen + n ≤ 64) :
    (memcpy ctx.buf ctx.buflen (more.take n)).toList.take (ctx.buflen + n) =
      ctx.buf.toList.take ctx.buflen ++ more.take n := by
  have hlength : (more.take n).length = n := List.length_take_of_le hn
  have hmemcpy := @take_memcpy ctx.buf ctx.buflen (more.take n) (by omega)
  rwa [hlength] at hmemcpy

/-- `update` takes in what it is given, however that fits into the buffer. -/
theorem absorbed_update {ctx : Sha1Context} {hashed message : Bytes}
    (h : Absorbed ctx hashed message) (more : Bytes) :
    ∃ hashed', Absorbed (ctx.update more) hashed' (message ++ more) := by
  induction hsize : more.length using Nat.strong_induction_on generalizing ctx hashed message more
    with
  | _ size ih =>
      have hbuflen := ctx.buflen_lt
      have hcopied := @take_buf ctx more (min more.length (64 - ctx.buflen)) (Nat.min_le_left _ _)
        (by omega)
      rw [Sha1Context.update]
      by_cases hfull : ctx.buflen + min more.length (64 - ctx.buflen) ≠ 64
      · -- everything fits, and the buffer does not get full
        have hall : min more.length (64 - ctx.buflen) = more.length := by omega
        rw [dif_pos hfull]
        refine ⟨hashed, ?_, h.whole, h.blocks, h.digest⟩
        rw [hcopied, hall, List.take_length, h.message, List.append_assoc]
      · -- the buffer is one block, and less is left of what has been given
        rw [dif_neg hfull]
        rw [Decidable.not_not.1 hfull, List.take_of_length_le (by simp)] at hcopied
        have hsplit := List.take_append_drop (min more.length (64 - ctx.buflen)) more
        have hnext := h.block (memcpy ctx.buf ctx.buflen
          (more.take (min more.length (64 - ctx.buflen))))
        obtain ⟨hashed', habsorbed⟩ := ih _ (by rw [List.length_drop]; omega) hnext
          (more.drop (min more.length (64 - ctx.buflen))) rfl
        refine ⟨hashed', ?_⟩
        rwa [hcopied, ← List.append_assoc, ← h.message, List.append_assoc, hsplit] at habsorbed

/-! ## The last blocks -/

/-- The buffer after the marker and the zeros. -/
def Sha1Context.marked (ctx : Sha1Context) : Vector UInt8 64 :=
  fill (ctx.buf.set ctx.buflen 0x80 ctx.buflen_lt) 0x00 (ctx.buflen + 1) 64 (Nat.le_refl 64)

/-- A block after the stores of `total_bits`. -/
def setTotalBits (block : Vector UInt32 16) (bits : Nat) : Vector UInt32 16 :=
  (block.set 15 (UInt64.ofNat bits &&& 0xffffffff).toUInt32).set 14
    (UInt64.ofNat bits >>> 32).toUInt32

theorem toList_fill {buf : Vector UInt8 64} {n : Nat} (hn : n < 64) :
    (fill (buf.set n 0x80 hn) 0x00 (n + 1) 64 (Nat.le_refl 64)).toList =
      buf.toList.take n ++ 0x80 :: List.replicate (63 - n) 0 := by
  apply List.ext_getElem
  · simp
    omega
  · intro j hj hj'
    have hmin : min n 64 = n := by omega
    rw [Vector.length_toList] at hj
    rw [Vector.getElem_toList, getElem_fill _ _ _ _ _ _ hj, Vector.getElem_set]
    simp only [List.getElem_append, List.length_take, Vector.length_toList, hmin]
    rcases Nat.lt_trichotomy j n with hlow | rfl | hhigh
    · rw [if_neg (by omega), if_neg (by omega), dif_pos hlow, List.getElem_take,
        Vector.getElem_toList]
    · rw [if_neg (by omega), if_pos rfl, dif_neg (by omega)]
      simp
    · rw [if_pos (by omega), dif_neg (by omega), List.getElem_cons, dif_neg (by omega),
        List.getElem_replicate]

theorem getElem_words (bytes : Bytes) {t : Nat} (ht : t < 16) :
    (Lib.Sha1.words bytes)[t] = UInt32.ofNat (beNat ((bytes.drop (4 * t)).take 4)) := by
  simp only [Lib.Sha1.words, Vector.getElem_ofFn]

/-- The words in front of the length do not depend on it. -/
theorem getElem_words_append {front : Bytes} (hfront : front.length = 56) (rest : Bytes) {t : Nat}
    (ht : t < 14) :
    (Lib.Sha1.words (front ++ rest))[t] = UInt32.ofNat (beNat ((front.drop (4 * t)).take 4)) := by
  rw [getElem_words _ (by omega), List.drop_append_of_le_length (by omega),
    List.take_append_of_le_length (by rw [List.length_drop]; omega)]

/-- The two stores complete the last block. -/
theorem setTotalBits_eq {block : Vector UInt32 16} {front : Bytes} (hfront : front.length = 56)
    (bits : Nat)
    (hblock : ∀ t (ht : t < 14), block[t] = UInt32.ofNat (beNat ((front.drop (4 * t)).take 4))) :
    setTotalBits block bits = Lib.Sha1.words (front ++ beBytes 8 bits) := by
  have hlow : (UInt64.ofNat bits &&& 0xffffffff).toUInt32 =
      UInt32.ofNat (beNat (beBytes 4 bits)) := by
    apply UInt32.toNat_inj.1
    rw [UInt64.toNat_toUInt32, UInt64.toNat_and, UInt64.toNat_ofNat', Lib.beNat_beBytes,
      UInt32.toNat_ofNat', show UInt64.toNat 0xffffffff = 2 ^ 32 - 1 from rfl,
      Nat.and_two_pow_sub_one_eq_mod]
    omega
  have hhigh : (UInt64.ofNat bits >>> 32).toUInt32 =
      UInt32.ofNat (beNat (beBytes 4 (bits / 256 ^ 4))) := by
    apply UInt32.toNat_inj.1
    rw [UInt64.toNat_toUInt32, UInt64.toNat_shiftRight, UInt64.toNat_ofNat', Lib.beNat_beBytes,
      UInt32.toNat_ofNat', show UInt64.toNat 32 % 64 = 32 from rfl, Nat.shiftRight_eq_div_pow]
    omega
  have hbytes : beBytes 8 bits = beBytes 4 (bits / 256 ^ 4) ++ beBytes 4 bits :=
    Lib.beBytes_add 4 4 bits
  apply Vector.ext
  intro t ht
  rw [setTotalBits, Vector.getElem_set, Vector.getElem_set]
  by_cases hfourteen : 14 = t
  · subst hfourteen
    rw [if_pos rfl, getElem_words _ ht, hhigh, List.drop_append_of_le_length (by omega),
      List.drop_of_length_le (by omega), List.nil_append, hbytes,
      List.take_left' (Lib.length_beBytes _ _)]
  by_cases hfifteen : 15 = t
  · subst hfifteen
    have hdrop : 4 * 15 = (front ++ beBytes 4 (bits / 256 ^ 4)).length := by
      simp [hfront]
    rw [if_neg hfourteen, if_pos rfl, getElem_words _ ht, hlow, hbytes, ← List.append_assoc, hdrop,
      List.drop_left, List.take_of_length_le (by simp)]
  · rw [if_neg hfourteen, if_neg hfifteen, hblock t (by omega),
      getElem_words_append hfront _ (by omega)]

theorem totalBits_eq {ctx : Sha1Context} {hashed message : Bytes} (h : Absorbed ctx hashed message)
    (hlength : message.length = hashed.length + ctx.buflen) :
    (ctx.blocks * 64 + UInt64.ofNat ctx.buflen) * 8 = UInt64.ofNat (8 * message.length) := by
  have hwhole : hashed.length / 64 * 64 = hashed.length := Nat.div_mul_cancel h.whole
  have h64 : (64 : UInt64) = UInt64.ofNat 64 := rfl
  have h8 : (8 : UInt64) = UInt64.ofNat 8 := rfl
  rw [h.blocks, h64, h8, ← UInt64.ofNat_mul, hwhole, ← UInt64.ofNat_add, ← hlength,
    ← UInt64.ofNat_mul, Nat.mul_comm]

section LastBlocks

variable {ctx : Sha1Context} {rest : Bytes} {bits : Nat}

/-- Behind what is in the buffer there is room for the length. -/
theorem lastDigest_eq_of_le
    (hbits : (ctx.blocks * 64 + UInt64.ofNat ctx.buflen) * 8 = UInt64.ofNat bits)
    (hroom : ctx.buflen ≤ 55) :
    ctx.lastDigest = (transform ctx.digest (setTotalBits (makeBlock ctx.marked) bits)).1 := by
  have hone : ¬ ctx.buflen + 1 > 64 - 8 := by omega
  rw [Sha1Context.lastDigest, hbits]
  simp only [if_neg hone]
  rfl

/-- The last block but one takes the marker. -/
theorem lastDigest_eq_of_lt
    (hbits : (ctx.blocks * 64 + UInt64.ofNat ctx.buflen) * 8 = UInt64.ofNat bits)
    (hfull : 55 < ctx.buflen) :
    ctx.lastDigest = (transform (transform ctx.digest (makeBlock ctx.marked)).1
      (setTotalBits (fill (transform ctx.digest (makeBlock ctx.marked)).2 0 0 (16 - 2) (by decide))
        bits)).1 := by
  have htwo : ctx.buflen + 1 > 64 - 8 := by omega
  rw [Sha1Context.lastDigest, hbits]
  simp only [if_pos htwo]
  rfl

theorem toList_marked (hrest : ctx.buf.toList.take ctx.buflen = rest) :
    ctx.marked.toList = rest ++ 0x80 :: List.replicate (63 - ctx.buflen) 0 := by
  rw [← hrest]
  exact toList_fill ctx.buflen_lt

/-- With room for the length, one block is left. -/
theorem registersOf_lastDigest_of_le (hrest : ctx.buf.toList.take ctx.buflen = rest)
    (hlength : rest.length = ctx.buflen)
    (hbits : (ctx.blocks * 64 + UInt64.ofNat ctx.buflen) * 8 = UInt64.ofNat bits)
    (hroom : ctx.buflen ≤ 55) :
    registersOf ctx.lastDigest = Lib.Sha1.chain (registersOf ctx.digest)
      (rest ++ 0x80 :: (List.replicate (55 - ctx.buflen) 0 ++ beBytes 8 bits)) := by
  have hfront : (rest ++ 0x80 :: List.replicate (55 - ctx.buflen) 0).length = 56 := by
    simp
    omega
  have hzeros : List.replicate (63 - ctx.buflen) (0 : UInt8) =
      List.replicate (55 - ctx.buflen) 0 ++ List.replicate 8 0 := by
    rw [List.replicate_append_replicate, show 55 - ctx.buflen + 8 = 63 - ctx.buflen by omega]
  have hmarked : ctx.marked.toList =
      (rest ++ 0x80 :: List.replicate (55 - ctx.buflen) 0) ++ List.replicate 8 0 := by
    rw [toList_marked hrest, hzeros, ← List.cons_append, ← List.append_assoc]
  -- the length takes the place of the last eight zeros
  have hblock : setTotalBits (makeBlock ctx.marked) bits =
      Lib.Sha1.words ((rest ++ 0x80 :: List.replicate (55 - ctx.buflen) 0) ++ beBytes 8 bits) := by
    rw [makeBlock_eq, hmarked]
    exact setTotalBits_eq hfront bits fun t ht => getElem_words_append hfront _ ht
  calc
    registersOf ctx.lastDigest
        = Lib.Sha1.compress (registersOf ctx.digest) (setTotalBits (makeBlock ctx.marked) bits) := by
          rw [lastDigest_eq_of_le hbits hroom, registersOf_transform]
    _ = Lib.Sha1.chain (registersOf ctx.digest)
          ((rest ++ 0x80 :: List.replicate (55 - ctx.buflen) 0) ++ beBytes 8 bits) := by
          rw [hblock, Lib.Sha1.chain_of_length _ (by simp; omega)]
    _ = Lib.Sha1.chain (registersOf ctx.digest)
          (rest ++ 0x80 :: (List.replicate (55 - ctx.buflen) 0 ++ beBytes 8 bits)) := by
          rw [List.append_assoc, List.cons_append]

/-- Without it, the marker and the zeros fill a block, and another one holds the length. -/
theorem registersOf_lastDigest_of_lt (hrest : ctx.buf.toList.take ctx.buflen = rest)
    (hbits : (ctx.blocks * 64 + UInt64.ofNat ctx.buflen) * 8 = UInt64.ofNat bits)
    (hfull : 55 < ctx.buflen) :
    registersOf ctx.lastDigest = Lib.Sha1.chain (registersOf ctx.digest)
      (rest ++ 0x80 :: (List.replicate (119 - ctx.buflen) 0 ++ beBytes 8 bits)) := by
  have hbuflen := ctx.buflen_lt
  have hzeros : List.replicate (119 - ctx.buflen) (0 : UInt8) =
      List.replicate (63 - ctx.buflen) 0 ++ List.replicate 56 0 := by
    rw [List.replicate_append_replicate, show 63 - ctx.buflen + 56 = 119 - ctx.buflen by omega]
  -- in the second block there are only zeros in front of the length
  have hword (block : Vector UInt32 16) (t : Nat) (ht : t < 14) :
      (fill block 0 0 (16 - 2) (by decide))[t] =
        UInt32.ofNat (beNat (((List.replicate 56 0).drop (4 * t)).take 4)) := by
    have hfour : min 4 (56 - 4 * t) = 4 := by omega
    rw [getElem_fill _ _ _ _ _ _ (by omega), if_pos ⟨Nat.zero_le t, ht⟩, List.drop_replicate,
      List.take_replicate, hfour]
    rfl
  calc
    registersOf ctx.lastDigest
        = Lib.Sha1.compress (Lib.Sha1.compress (registersOf ctx.digest) (makeBlock ctx.marked))
            (Lib.Sha1.words (List.replicate 56 0 ++ beBytes 8 bits)) := by
          rw [lastDigest_eq_of_lt hbits hfull, registersOf_transform, registersOf_transform,
            setTotalBits_eq List.length_replicate bits (hword _)]
    _ = Lib.Sha1.chain (Lib.Sha1.compress (registersOf ctx.digest)
          (Lib.Sha1.words ctx.marked.toList)) (List.replicate 56 0 ++ beBytes 8 bits) := by
          rw [makeBlock_eq, Lib.Sha1.chain_of_length _ (by simp)]
    _ = Lib.Sha1.chain (registersOf ctx.digest)
          (ctx.marked.toList ++ (List.replicate 56 0 ++ beBytes 8 bits)) := by
          rw [Lib.Sha1.chain_block _ Vector.length_toList]
    _ = Lib.Sha1.chain (registersOf ctx.digest)
          (rest ++ 0x80 :: (List.replicate (119 - ctx.buflen) 0 ++ beBytes 8 bits)) := by
          rw [toList_marked hrest, hzeros]
          simp only [List.append_assoc, List.cons_append]

end LastBlocks

/-- What `finish` computes is the hash value of the padded message. -/
theorem registersOf_lastDigest {ctx : Sha1Context} {hashed message : Bytes}
    (h : Absorbed ctx hashed message) :
    registersOf ctx.lastDigest = Lib.Sha1.chain Lib.Sha1.initial
      (message ++ Lib.Sha1.padding message.length) := by
  have hbuflen := ctx.buflen_lt
  have hrest : (ctx.buf.toList.take ctx.buflen).length = ctx.buflen := by
    rw [List.length_take, Vector.length_toList]
    omega
  have hlength : message.length = hashed.length + ctx.buflen := by
    rw [h.message, List.length_append, hrest]
  have hbits := totalBits_eq h hlength
  have hmod : message.length % 64 = ctx.buflen := by
    obtain ⟨q, hq⟩ := h.whole
    omega
  -- the whole blocks have been hashed already
  have hchain : Lib.Sha1.chain Lib.Sha1.initial (message ++ Lib.Sha1.padding message.length) =
      Lib.Sha1.chain (registersOf ctx.digest)
        (ctx.buf.toList.take ctx.buflen ++ Lib.Sha1.padding message.length) := by
    rw [h.digest, ← Lib.Sha1.chain_append _ h.whole, ← List.append_assoc, ← h.message]
  rw [hchain, Lib.Sha1.padding, hmod]
  by_cases hroom : ctx.buflen ≤ 55
  · rw [show (119 - ctx.buflen) % 64 = 55 - ctx.buflen by omega]
    exact registersOf_lastDigest_of_le rfl hrest hbits hroom
  · rw [show (119 - ctx.buflen) % 64 = 119 - ctx.buflen by omega]
    exact registersOf_lastDigest_of_lt rfl hbits (Nat.lt_of_not_le hroom)

/-! ## The stored digest -/

theorem toUInt8_shiftRight {n : UInt32} (k : Nat) (hn : n.toNat % 32 = k) (word : UInt32) :
    ((word >>> n) &&& 0xff).toUInt8 = UInt8.ofNat (word.toNat / 2 ^ k) := by
  have hlow : ((word >>> n) &&& 0xff).toNat = (word >>> n).toNat % 2 ^ 8 :=
    Lib.toNat_and_word 8 rfl _
  apply UInt8.toNat_inj.1
  rw [UInt32.toNat_toUInt8, hlow, Lib.toNat_shiftRight_word k hn, UInt8.toNat_ofNat']
  exact Nat.mod_mod _ _

/-- Each word is stored with its highest byte first. -/
theorem storeWord_eq {written room : Bytes} {i : Nat} (word : UInt32)
    (hi : 4 * i = written.length) (hroom : 4 ≤ room.length) :
    storeWord (written ++ room) i word =
      .ok (written ++ (beBytes 4 word.toNat ++ room.drop 4)) := by
  obtain ⟨x0, x1, x2, x3, rest, rfl⟩ := exists_cons_four hroom
  have hlow : (word &&& 0xff).toUInt8 = UInt8.ofNat (word.toNat / 256 ^ 0) := by
    have hshift := toUInt8_shiftRight (n := 0) 0 rfl word
    rwa [show word >>> 0 = word from UInt32.shiftRight_zero] at hshift
  rw [storeWord, hi, storeByte_append _ rfl (by simp), ok_bind, storeByte_append _ rfl (by simp),
    ok_bind, storeByte_append _ rfl (by simp), ok_bind, storeByte_append _ rfl (by simp), hlow,
    toUInt8_shiftRight 8 rfl, toUInt8_shiftRight 16 rfl, toUInt8_shiftRight 24 rfl]
  rfl

theorem storeWords_eq (words : List UInt32) :
    ∀ {written room : Bytes} {i : Nat}, 4 * i = written.length → 4 * words.length ≤ room.length →
      storeWords (written ++ room) i words =
        .ok (written ++ (words.flatMap (fun w => beBytes 4 w.toNat) ++
          room.drop (4 * words.length))) := by
  induction words with
  | nil => exact fun _ _ => rfl
  | cons word words ih =>
      intro written room i hi hroom
      rw [List.length_cons] at hroom
      have hnext := @ih (written ++ beBytes 4 word.toNat) (room.drop 4) (i + 1)
        (by rw [List.length_append, Lib.length_beBytes]; omega) (by rw [List.length_drop]; omega)
      rw [storeWords, storeWord_eq word hi (by omega), ok_bind, ← List.append_assoc, hnext,
        List.drop_drop, List.length_cons, List.flatMap_cons, List.append_assoc, List.append_assoc]
      rw [show 4 + 4 * words.length = 4 * (words.length + 1) by omega]

theorem flatMap_toList (digest : Vector UInt32 5) :
    digest.toList.flatMap (fun w => beBytes 4 w.toNat) = (registersOf digest).bytes := by
  match digest with
  | ⟨⟨[w0, w1, w2, w3, w4]⟩, rfl⟩ => rfl

/-- After `init`, `update` and `finish` the array holds the hash of the message. -/
theorem finish_update_init (buf : Vector UInt8 64) (message : Bytes) (digest : Vector UInt8 20) :
    ((init buf).update message).finish digest.toList = .ok (Lib.Sha1.hash message) := by
  obtain ⟨hashed, habsorbed⟩ := absorbed_update (absorbed_init buf) message
  have hdigest := registersOf_lastDigest habsorbed
  rw [List.nil_append] at hdigest
  rw [Sha1Context.finish, Lib.Sha1.hash, ← hdigest]
  have hstored := @storeWords_eq ((init buf).update message).lastDigest.toList [] digest.toList 0
    rfl (by simp)
  have hdrop : digest.toList.drop (4 * ((init buf).update message).lastDigest.toList.length) = [] :=
    List.drop_of_length_le (by simp)
  rw [hdrop, List.nil_append, List.nil_append, List.append_nil] at hstored
  rw [hstored, flatMap_toList]

end Sha1
end Inspector
end V8JsiRuntime
