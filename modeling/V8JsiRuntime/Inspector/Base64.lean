import V8JsiRuntime.Lib.Base64
import V8JsiRuntime.Inspector.Utils

/-!
# Base64 — the encoder of the handshake

`base64_encode` of `inspector_utils` with its indices of 32 bits, and `base64_encoded_size`, by
which its callers dimension their buffers.  The encoder itself does not look at the space it is
given.
-/

namespace V8JsiRuntime
namespace Inspector

open Lib

/-! ## The index of the loop -/

theorem toNat_add_three {i n : UInt32} (hi : i.toNat % 3 = 0) (h : i < n) :
    (i + 3).toNat = i.toNat + 3 := by
  have hlt := UInt32.lt_iff_toNat_lt.1 h
  have hmax := n.toNat_lt
  rw [UInt32.toNat_add]
  -- the largest `unsigned` is itself a multiple of three
  exact Nat.mod_eq_of_lt (show i.toNat + 3 < 2 ^ 32 by omega)

theorem add_three_mod {i n : UInt32} (hi : i.toNat % 3 = 0) (h : i < n) :
    (i + 3).toNat % 3 = 0 := by
  rw [toNat_add_three hi h, Nat.add_mod_right, hi]

theorem sub_add_three_lt {i n : UInt32} (hi : i.toNat % 3 = 0) (h : i < n) :
    n.toNat - (i + 3).toNat < n.toNat - i.toNat := by
  have hlt := UInt32.lt_iff_toNat_lt.1 h
  rw [toNat_add_three hi h]
  omega

/-! ## The encoder -/

def base64EncodedSize (size : UInt64) : UInt64 :=
  (size + 2 - (size + 2) % 3) / 3 * 4

/-- `table`; as a literal it is terminated. -/
def table : Bytes :=
  ascii "ABCDEFGHIJKLMNOPQRSTUVWXYZabcdefghijklmnopqrstuvwxyz0123456789+/" ++ [0]

/-- `src[index] & 0xff`; a `char` is signed. -/
def srcByte (src : Bytes) (index : UInt32) : Except Fault UInt32 := do
  let c ← readByte src index.toNat
  return (c.toInt8.toInt32 &&& 0xff).toUInt32

/-- `dst[index] = table[entry]`. -/
def storeEntry (dst : Bytes) (index entry : UInt32) : Except Fault Bytes := do
  let c ← readByte table entry.toNat
  storeByte dst index.toNat c

/-- The body of the loop. -/
def encodeGroup (src : Bytes) (i k : UInt32) (dst : Bytes) : Except Fault Bytes := do
  let a ← srcByte src (i + 0)
  let b ← srcByte src (i + 1)
  let c ← srcByte src (i + 2)
  let dst ← storeEntry dst (k + 0) (a >>> 2)
  let dst ← storeEntry dst (k + 1) (((a &&& 3) <<< 4) ||| (b >>> 4))
  let dst ← storeEntry dst (k + 2) (((b &&& 0x0f) <<< 2) ||| (c >>> 6))
  storeEntry dst (k + 3) (c &&& 0x3f)

/-- The loop, with the values that `i`, `k` and `dst` are left with.  `i` is a multiple of three, and
so does not pass over the largest `unsigned`. -/
def encodeLoop (src : Bytes) (n i k : UInt32) (dst : Bytes) (hi : i.toNat % 3 = 0) :
    Except Fault (UInt32 × UInt32 × Bytes) :=
  if h : i < n then do
    let dst ← encodeGroup src i k dst
    encodeLoop src n (i + 3) (k + 4) dst (add_three_mod hi h)
  else
    .ok (i, k, dst)
  termination_by n.toNat - i.toNat
  decreasing_by exact sub_add_three_lt hi h

/-- The `switch (slen - n)`. -/
def encodeTail (src : Bytes) (rest : UInt64) (i k : UInt32) (dst : Bytes) :
    Except Fault Bytes :=
  if rest = 1 then do
    let a ← srcByte src (i + 0)
    let dst ← storeEntry dst (k + 0) (a >>> 2)
    let dst ← storeEntry dst (k + 1) ((a &&& 3) <<< 4)
    let dst ← storeByte dst (k + 2).toNat 61
    storeByte dst (k + 3).toNat 61
  else if rest = 2 then do
    let a ← srcByte src (i + 0)
    let b ← srcByte src (i + 1)
    let dst ← storeEntry dst (k + 0) (a >>> 2)
    let dst ← storeEntry dst (k + 1) (((a &&& 3) <<< 4) ||| (b >>> 4))
    let dst ← storeEntry dst (k + 2) ((b &&& 0x0f) <<< 2)
    storeByte dst (k + 3).toNat 61
  else
    .ok dst

/-- `base64_encode`: what `dst` is left with, and the returned size. -/
def base64Encode (src : Bytes) (slen : UInt64) (dst : Bytes) (_dlen : UInt64) :
    Except Fault (Bytes × UInt64) := do
  let dlen := base64EncodedSize slen
  let n := (slen / 3 * 3).toUInt32
  let (i, k, dst) ← encodeLoop src n 0 0 dst rfl
  if n.toUInt64 ≠ slen then
    let dst ← encodeTail src (slen - n.toUInt64) i k dst
    return (dst, dlen)
  else
    return (dst, dlen)

/-! ## Single characters -/

/-- Masking undoes the extension of the sign. -/
theorem toUInt32_signed (c : UInt8) : (c.toInt8.toInt32 &&& 0xff).toUInt32 = c.toUInt32 := by
  have hall : ∀ n < 256, ((UInt8.ofNat n).toInt8.toInt32 &&& 0xff).toUInt32 =
      (UInt8.ofNat n).toUInt32 := by
    decide +kernel
  have hc := hall c.toNat c.toNat_lt
  rwa [UInt8.ofNat_toNat] at hc

theorem srcByte_append {pre rest : Bytes} {index : UInt32} {j : Nat} {c : UInt8}
    (hindex : index.toNat = pre.length + j) (hc : rest[j]? = some c) :
    srcByte (pre ++ rest) index = .ok c.toUInt32 := by
  have hread : readByte (pre ++ rest) index.toNat = .ok c := by
    rw [readByte, hindex, List.getElem?_append_right (Nat.le_add_right _ _),
      Nat.add_sub_cancel_left, hc]
  rw [srcByte, hread, ok_bind, toUInt32_signed]
  rfl

theorem readByte_table {v : Nat} (h : v < 64) : readByte table v = .ok (Base64.digit v) := by
  revert v
  decide +kernel

theorem storeEntry_append {written room : Bytes} {index entry : UInt32} {j v : Nat}
    (hindex : index.toNat = written.length + j) (hj : j < room.length) (hv : v < 64)
    (hentry : entry.toNat = v) :
    storeEntry (written ++ room) index entry = .ok (written ++ room.set j (Base64.digit v)) := by
  rw [storeEntry, hentry, readByte_table hv, ok_bind, storeByte_append _ hindex hj]

/-! ## Groups -/

/-- Indices do not wrap around within a group. -/
theorem toNat_add_index {i j : UInt32} {n : Nat} (hi : i.toNat = n) (h : n + j.toNat < 2 ^ 32) :
    (i + j).toNat = n + j.toNat := by
  rw [UInt32.toNat_add, hi]
  exact Nat.mod_eq_of_lt h

theorem first_entry (a b c : UInt8) :
    (a.toUInt32 >>> 2).toNat = beNat [a, b, c] / 64 ^ 3 % 64 := by
  have ha := a.toNat_lt
  have hb := b.toNat_lt
  have hc := c.toNat_lt
  rw [toNat_shiftRight_word 2 rfl, UInt8.toNat_toUInt32, Base64.beNat_three]
  omega

theorem second_entry (a b c : UInt8) :
    (((a.toUInt32 &&& 3) <<< 4) ||| (b.toUInt32 >>> 4)).toNat =
      beNat [a, b, c] / 64 ^ 2 % 64 := by
  have hb := b.toNat_lt
  have hc := c.toNat_lt
  have hlow : (a.toUInt32 &&& 3).toNat = a.toNat % 2 ^ 2 := toNat_and_word 2 rfl _
  have hhigh : (b.toUInt32 >>> 4).toNat = b.toNat / 2 ^ 4 := toNat_shiftRight_word 4 rfl _
  rw [toNat_shiftLeft_or_word 4 rfl (by omega) (by omega), hlow, hhigh, Base64.beNat_three]
  omega

theorem third_entry (a b c : UInt8) :
    (((b.toUInt32 &&& 0x0f) <<< 2) ||| (c.toUInt32 >>> 6)).toNat =
      beNat [a, b, c] / 64 % 64 := by
  have hc := c.toNat_lt
  have hlow : (b.toUInt32 &&& 0x0f).toNat = b.toNat % 2 ^ 4 := toNat_and_word 4 rfl _
  have hhigh : (c.toUInt32 >>> 6).toNat = c.toNat / 2 ^ 6 := toNat_shiftRight_word 6 rfl _
  rw [toNat_shiftLeft_or_word 2 rfl (by omega) (by omega), hlow, hhigh, Base64.beNat_three]
  omega

theorem fourth_entry (a b c : UInt8) :
    (c.toUInt32 &&& 0x3f).toNat = beNat [a, b, c] % 64 := by
  have hlow : (c.toUInt32 &&& 0x3f).toNat = c.toNat % 2 ^ 6 := toNat_and_word 6 rfl _
  rw [hlow, Base64.beNat_three]
  omega

/-- One round of the loop puts the characters of a group where the last ones ended. -/
theorem encodeGroup_eq {pre post written room : Bytes} {a b c : UInt8} {i k : UInt32}
    (hi : i.toNat = pre.length) (hk : k.toNat = written.length)
    (hpre : pre.length + 3 < 2 ^ 32) (hwritten : written.length + 4 < 2 ^ 32)
    (hroom : 4 ≤ room.length) :
    encodeGroup (pre ++ a :: b :: c :: post) i k (written ++ room) =
      .ok (written ++ (Base64.group (beNat [a, b, c]) ++ room.drop 4)) := by
  have hdigit (n : Nat) : n % 64 < 64 := Nat.mod_lt n (by decide)
  obtain ⟨r0, r1, r2, r3, rest, rfl⟩ := exists_cons_four hroom
  have hsrc (j : UInt32) (hj : j.toNat < 4) : (i + j).toNat = pre.length + j.toNat :=
    toNat_add_index hi (by omega)
  have hdst (j : UInt32) (hj : j.toNat < 4) : (k + j).toNat = written.length + j.toNat :=
    toNat_add_index hk (by omega)
  have ha : srcByte (pre ++ a :: b :: c :: post) (i + 0) = .ok a.toUInt32 :=
    srcByte_append (hsrc 0 (by decide)) rfl
  have hb : srcByte (pre ++ a :: b :: c :: post) (i + 1) = .ok b.toUInt32 :=
    srcByte_append (hsrc 1 (by decide)) rfl
  have hc : srcByte (pre ++ a :: b :: c :: post) (i + 2) = .ok c.toUInt32 :=
    srcByte_append (hsrc 2 (by decide)) rfl
  rw [encodeGroup, ha, ok_bind, hb, ok_bind, hc, ok_bind,
    storeEntry_append (hdst 0 (by decide)) (by simp) (hdigit _) (first_entry a b c), ok_bind,
    storeEntry_append (hdst 1 (by decide)) (by simp) (hdigit _) (second_entry a b c), ok_bind,
    storeEntry_append (hdst 2 (by decide)) (by simp) (hdigit _) (third_entry a b c), ok_bind,
    storeEntry_append (hdst 3 (by decide)) (by simp) (hdigit _) (fourth_entry a b c)]
  rfl

/-- The loop encodes whole groups, and leaves the indices at the end of what it read and stored. -/
theorem encodeLoop_eq {n : UInt32} {post : Bytes} (mid : Bytes) (hmid : 3 ∣ mid.length) :
    ∀ {pre written room : Bytes} {i k : UInt32} (hthree : i.toNat % 3 = 0),
      i.toNat = pre.length → k.toNat = written.length → n.toNat = pre.length + mid.length →
      written.length + (Base64.encode mid).length < 2 ^ 32 →
      (Base64.encode mid).length ≤ room.length →
      ∃ i' k' : UInt32, encodeLoop (pre ++ (mid ++ post)) n i k (written ++ room) hthree =
          .ok (i', k', written ++ (Base64.encode mid ++ room.drop (Base64.encode mid).length)) ∧
        i'.toNat = pre.length + mid.length ∧
        k'.toNat = written.length + (Base64.encode mid).length := by
  induction mid using Base64.encode.induct with
  | case1 =>
      intro pre written room i k hthree hi hk hn _ _
      have hend : ¬ i < n := by
        rw [UInt32.lt_iff_toNat_lt, hi, hn]
        exact Nat.lt_irrefl _
      refine ⟨i, k, ?_, hi, hk⟩
      rw [encodeLoop, dif_neg hend]
      rfl
  | case2 a => exact absurd hmid (by decide : ¬ 3 ∣ 1)
  | case3 a b => exact absurd hmid (by decide : ¬ 3 ∣ 2)
  | case4 a b c mid ih =>
      intro pre written room i k hthree hi hk hn hfit hroom
      have hnext : 3 ∣ mid.length := (Nat.dvd_add_left (Nat.dvd_refl 3)).1 hmid
      have hmax := n.toNat_lt
      rw [Base64.encode, List.length_append, Base64.length_group] at hfit hroom
      simp only [List.length_cons] at hn
      have hlt : i < n := by
        rw [UInt32.lt_iff_toNat_lt, hi, hn]
        omega
      have hround := @encodeGroup_eq pre (mid ++ post) written room a b c i k hi hk (by omega)
        (by omega) (by omega)
      have hk' : (k + 4).toNat = written.length + 4 := toNat_add_index hk (by simp; omega)
      obtain ⟨i', k', hloop, hi', hk''⟩ := @ih hnext (pre ++ [a, b, c])
        (written ++ Base64.group (beNat [a, b, c])) (room.drop 4) (i + 3) (k + 4)
        (add_three_mod hthree hlt) (by rw [toNat_add_three hthree hlt, hi]; simp)
        (by rw [hk']; simp) (by simp; omega) (by simp; omega) (by simp; omega)
      refine ⟨i', k', ?_, ?_, ?_⟩
      · rw [List.cons_append, List.cons_append, List.cons_append, encodeLoop, dif_pos hlt, hround,
          ok_bind]
        simpa [Base64.encode, List.drop_drop, Nat.add_comm] using hloop
      · rw [hi']
        simp only [List.length_append, List.length_cons, List.length_nil]
        omega
      · rw [hk'', Base64.encode]
        simp only [List.length_append]
        omega

/-! ## The last bytes -/

/-- Without a second byte, its bits are zero. -/
theorem second_entry_of_one (a : UInt8) :
    ((a.toUInt32 &&& 3) <<< 4).toNat = beNat [a, 0, 0] / 64 ^ 2 % 64 := by
  have hentry := second_entry a 0 0
  rwa [show (0 : UInt8).toUInt32 >>> 4 = 0 from rfl, UInt32.or_zero] at hentry

/-- Without a third byte, its bits are zero. -/
theorem third_entry_of_two (a b : UInt8) :
    ((b.toUInt32 &&& 0x0f) <<< 2).toNat = beNat [a, b, 0] / 64 % 64 := by
  have hentry := third_entry a b 0
  rwa [show (0 : UInt8).toUInt32 >>> 6 = 0 from rfl, UInt32.or_zero] at hentry

/-- The `switch` encodes what is left of the source, if there is something left. -/
theorem encodeTail_eq {pre written room : Bytes} {i k : UInt32} (tail : Bytes)
    (htail : tail.length < 3) (hi : i.toNat = pre.length) (hk : k.toNat = written.length)
    (hpre : pre.length + 3 < 2 ^ 32) (hwritten : written.length + 4 < 2 ^ 32)
    (hroom : (Base64.encode tail).length ≤ room.length) :
    encodeTail (pre ++ tail) (UInt64.ofNat tail.length) i k (written ++ room) =
      .ok (written ++ (Base64.encode tail ++ room.drop (Base64.encode tail).length)) := by
  have hdigit (n : Nat) : n % 64 < 64 := Nat.mod_lt n (by decide)
  have hsrc (j : UInt32) (hj : j.toNat < 4) : (i + j).toNat = pre.length + j.toNat :=
    toNat_add_index hi (by omega)
  have hdst (j : UInt32) (hj : j.toNat < 4) : (k + j).toNat = written.length + j.toNat :=
    toNat_add_index hk (by omega)
  match tail, htail with
  | [], _ => rfl
  | [a], _ =>
      obtain ⟨r0, r1, r2, r3, rest, rfl⟩ := exists_cons_four hroom
      have ha : srcByte (pre ++ [a]) (i + 0) = .ok a.toUInt32 :=
        srcByte_append (hsrc 0 (by decide)) rfl
      have hone : UInt64.ofNat [a].length = 1 := rfl
      rw [encodeTail, if_pos hone, ha, ok_bind,
        storeEntry_append (hdst 0 (by decide)) (by simp) (hdigit _) (first_entry a 0 0), ok_bind,
        storeEntry_append (hdst 1 (by decide)) (by simp) (hdigit _) (second_entry_of_one a),
        ok_bind, storeByte_append 61 (hdst 2 (by decide)) (by simp), ok_bind,
        storeByte_append 61 (hdst 3 (by decide)) (by simp)]
      rfl
  | [a, b], _ =>
      obtain ⟨r0, r1, r2, r3, rest, rfl⟩ := exists_cons_four hroom
      have ha : srcByte (pre ++ [a, b]) (i + 0) = .ok a.toUInt32 :=
        srcByte_append (hsrc 0 (by decide)) rfl
      have hb : srcByte (pre ++ [a, b]) (i + 1) = .ok b.toUInt32 :=
        srcByte_append (hsrc 1 (by decide)) rfl
      have hone : UInt64.ofNat [a, b].length ≠ 1 := by
        change (2 : UInt64) ≠ 1
        decide
      have htwo : UInt64.ofNat [a, b].length = 2 := rfl
      rw [encodeTail, if_neg hone, if_pos htwo, ha, ok_bind, hb, ok_bind,
        storeEntry_append (hdst 0 (by decide)) (by simp) (hdigit _) (first_entry a b 0), ok_bind,
        storeEntry_append (hdst 1 (by decide)) (by simp) (hdigit _) (second_entry a b 0), ok_bind,
        storeEntry_append (hdst 2 (by decide)) (by simp) (hdigit _) (third_entry_of_two a b),
        ok_bind, storeByte_append 61 (hdst 3 (by decide)) (by simp)]
      rfl

/-! ## The whole source -/

theorem base64EncodedSize_eq {size : UInt64} (h : size.toNat < 2 ^ 30) :
    (base64EncodedSize size).toNat = 4 * (size.toNat ⌈/⌉ 3) := by
  have htwo : (size + 2).toNat = size.toNat + 2 := by
    rw [UInt64.toNat_add]
    exact Nat.mod_eq_of_lt (show size.toNat + 2 < 2 ^ 64 by omega)
  have hmod : ((size + 2) % 3).toNat = (size.toNat + 2) % 3 := by
    rw [UInt64.toNat_mod, htwo]
    rfl
  have hle : (size + 2) % 3 ≤ size + 2 := by
    rw [UInt64.le_iff_toNat_le, hmod, htwo]
    exact Nat.mod_le _ _
  rw [base64EncodedSize, UInt64.toNat_mul, UInt64.toNat_div, UInt64.toNat_sub_of_le _ _ hle, htwo,
    hmod, Nat.ceilDiv_eq_add_pred_div]
  simp only [UInt64.reduceToNat]
  omega

/-- Where the loop ends. -/
theorem toNat_whole {slen : UInt64} (h : slen.toNat < 2 ^ 30) :
    (slen / 3 * 3).toUInt32.toNat = slen.toNat / 3 * 3 := by
  rw [UInt64.toNat_toUInt32, UInt64.toNat_mul, UInt64.toNat_div]
  simp only [UInt64.reduceToNat]
  omega

/-- The source is encoded at the beginning of the destination, and the rest of that is as before. -/
theorem base64Encode_eq {src dst : Bytes} {slen : UInt64} (dlen : UInt64)
    (hslen : slen.toNat = src.length) (hsrc : src.length < 2 ^ 30)
    (hroom : (Base64.encode src).length ≤ dst.length) :
    base64Encode src slen dst dlen =
      .ok (Base64.encode src ++ dst.drop (Base64.encode src).length, base64EncodedSize slen) := by
  have hn := toNat_whole (hslen.trans_lt hsrc)
  -- the loop goes as far as there are whole groups
  obtain ⟨mid, tail, rfl, hmid⟩ : ∃ mid tail, src = mid ++ tail ∧
      mid.length = (slen / 3 * 3).toUInt32.toNat :=
    ⟨src.take (slen / 3 * 3).toUInt32.toNat, src.drop _, (List.take_append_drop _ _).symm,
      List.length_take_of_le (by omega)⟩
  have hthree : 3 ∣ mid.length := ⟨slen.toNat / 3, by omega⟩
  rw [List.length_append] at hslen hsrc
  have htail : tail.length < 3 := by omega
  have hlength := Base64.length_encode mid
  rw [Nat.ceilDiv_eq_add_pred_div] at hlength
  rw [Base64.encode_append hthree, List.length_append] at hroom
  obtain ⟨i, k, hloop, hi, hk⟩ := @encodeLoop_eq _ tail mid hthree [] [] dst 0 0 rfl rfl rfl
    (hmid.symm.trans (Nat.zero_add _).symm) (by simp; omega) (by omega)
  simp only [List.nil_append, List.length_nil, Nat.zero_add] at hloop hi hk
  have hrest := @encodeTail_eq mid (Base64.encode mid) (dst.drop (Base64.encode mid).length) i k tail
    htail hi hk (by omega) (by omega) (by rw [List.length_drop]; omega)
  have hdrop : Base64.encode mid ++ (Base64.encode tail ++
      (dst.drop (Base64.encode mid).length).drop (Base64.encode tail).length) =
      Base64.encode (mid ++ tail) ++ dst.drop (Base64.encode (mid ++ tail)).length := by
    rw [Base64.encode_append hthree, List.drop_drop, List.length_append, List.append_assoc]
  have hsub : slen - (slen / 3 * 3).toUInt32.toUInt64 = UInt64.ofNat tail.length := by
    apply UInt64.toNat_inj.1
    rw [UInt64.toNat_sub_of_le, UInt32.toNat_toUInt64, UInt64.toNat_ofNat_of_lt']
    · omega
    · exact show tail.length < 2 ^ 64 by omega
    · rw [UInt64.le_iff_toNat_le, UInt32.toNat_toUInt64]
      omega
  rw [base64Encode, hloop, ok_bind]
  by_cases hwhole : (slen / 3 * 3).toUInt32.toUInt64 = slen
  · -- nothing is left
    have hnil : tail = [] := by
      have heq := congrArg UInt64.toNat hwhole
      rw [UInt32.toNat_toUInt64] at heq
      exact List.length_eq_zero_iff.1 (by omega)
    simp only [hwhole, ne_eq, not_true_eq_false, if_false, hnil, List.append_nil]
    rfl
  · simp only [ne_eq, hwhole, not_false_eq_true, if_true, hsub, hrest, hdrop, ok_bind]
    rfl

/-! ## What is written -/

/-- The characters that stand for a source: as many as the buffers are made for, digits and then
padding, and all that is needed to get the source back. -/
structure IsBase64 (src chars : Bytes) (size : UInt64) : Prop where
  length : chars.length = size.toNat
  ceil : size.toNat = 4 * (src.length ⌈/⌉ 3)
  padding : ∃ body, chars = body ++ List.replicate ((3 - src.length % 3) % 3) Base64.pad ∧
    ∀ c ∈ body, ∃ v < 64, c = Base64.digit v
  decoded : Base64.decode chars = some src

/-- In a buffer with enough room `base64_encode` writes the first characters, which encode the
source, and no others. -/
theorem base64Encode_isBase64 (src dst : Bytes) (slen dlen : UInt64)
    (hslen : slen.toNat = src.length) (hsrc : src.length < 2 ^ 30)
    (hroom : (base64EncodedSize slen).toNat ≤ dst.length) :
    ∃ chars, base64Encode src slen dst dlen =
        .ok (chars ++ dst.drop (base64EncodedSize slen).toNat, base64EncodedSize slen) ∧
      IsBase64 src chars (base64EncodedSize slen) := by
  have hceil := base64EncodedSize_eq (hslen.trans_lt hsrc)
  rw [hslen] at hceil
  have hlength : (Base64.encode src).length = (base64EncodedSize slen).toNat :=
    (Base64.length_encode src).trans hceil.symm
  refine ⟨Base64.encode src, ?_, hlength, hceil, Base64.encode_eq_append_pad src,
    Base64.decode_encode src⟩
  rw [base64Encode_eq dlen hslen hsrc (hlength.trans_le hroom), hlength]

/-- Two bytes that are negative as `char`, in a buffer with room for one character more. -/
theorem base64Encode_isBase64_negative :
    ∃ chars, base64Encode [0xFF, 0x80] 2 [0, 0, 0, 0, 0] 5 = .ok (chars ++ [0], 4) ∧
      IsBase64 [0xFF, 0x80] chars 4 :=
  base64Encode_isBase64 [0xFF, 0x80] [0, 0, 0, 0, 0] 2 5 rfl (by decide) (by decide)

end Inspector
end V8JsiRuntime
