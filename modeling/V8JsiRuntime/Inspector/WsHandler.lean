import V8JsiRuntime.Inspector.FrameSafety

/-!
# WsHandler — the frame loop over one read

`WsHandler::ParseWsFrames` and the loop of `WsHandler::OnData`, as functions from the bytes of one
read to the calls made on the way and the bytes left in the vector.  The main result is the round
trip with the encoder: any list of masked frames given in one call comes out as its payloads
(`onData_clientStream`).
-/

namespace V8JsiRuntime
namespace Inspector

open Lib

/-! ## The handler -/

/-- Calls that `ParseWsFrames` makes. -/
inductive WsEvent
  /-- `delegate()->OnWsFrame(output)` -/
  | onWsFrame (output : Bytes)
  /-- `OnEof()`, for a compressed or rejected frame -/
  | onEof
  /-- `(this->*OnCloseRecieved)()` -/
  | onCloseRecieved
  deriving DecidableEq, Repr

/-- `ParseWsFrames`: the returned `bytes_consumed` and the call made. -/
def parseWsFrames (buffer : Bytes) : Except Fault (Int × List WsEvent) := do
  let d ← decodeFrameHybi17 buffer true
  if d.compressed = true ∨ d.result = .frameError then
    return (0, [.onEof])
  else if d.result = .frameClose then
    return (0, [.onCloseRecieved])
  else if d.result = .frameOk then
    return (d.bytesConsumed, [.onWsFrame d.output])
  else
    return (d.bytesConsumed, [])

/-- `remove_from_beginning` -/
def removeFromBeginning (buffer : Bytes) (count : Int) : Except Fault Bytes :=
  if count ≤ buffer.length then
    .ok (buffer.drop count.toNat)
  else
    .error (.eraseOutOfBounds count)

/-- The calls of one `OnData` and what is left in the data vector. -/
structure OnDataResult where
  events : List WsEvent
  data : Bytes
  deriving DecidableEq, Repr

/-- Put the calls of an earlier round in front. -/
def OnDataResult.after (events : List WsEvent) (r : OnDataResult) : OnDataResult :=
  { events := events ++ r.events
    data := r.data }

/-- The `do ... while (processed > 0 && !data->empty())` loop, for at most `fuel` rounds. -/
def onDataLoop : Nat → Bytes → Except Fault OnDataResult
  | 0, data => .ok ⟨[], data⟩
  | fuel + 1, data => do
      let (processed, events) ← parseWsFrames data
      if processed > 0 then
        let left ← removeFromBeginning data processed
        if left = [] then
          return ⟨events, left⟩
        else
          let rest ← onDataLoop fuel left
          return rest.after events
      else
        return ⟨events, data⟩

/-- `WsHandler::OnData`; every further round has at least one byte less to look at. -/
def onData (data : Bytes) : Except Fault OnDataResult :=
  onDataLoop (data.length + 1) data

theorem removeFromBeginning_length {buffer left : Bytes} {count : Int} (hpos : count > 0)
    (h : removeFromBeginning buffer count = .ok left) : left.length < buffer.length := by
  unfold removeFromBeginning at h
  split at h
  · obtain rfl := Except.ok.inj h
    simp only [List.length_drop]
    omega
  · cases h

theorem removeFromBeginning_append (front rest : Bytes) :
    removeFromBeginning (front ++ rest) front.length = .ok rest := by
  have hle : (front.length : Int) ≤ (front ++ rest).length := by
    simp
  rw [removeFromBeginning, if_pos hle, Int.toNat_natCast, List.drop_left]

/-- The number of rounds allowed does not matter once it exceeds the number of bytes. -/
theorem onDataLoop_fuel {n m : Nat} {data : Bytes} (hn : data.length < n) (hm : data.length < m) :
    onDataLoop n data = onDataLoop m data := by
  induction n generalizing m data with
  | zero => omega
  | succ n ih =>
      cases m with
      | zero => omega
      | succ m =>
          simp only [onDataLoop]
          cases hparse : parseWsFrames data with
          | error e => rfl
          | ok r =>
              simp only [ok_bind]
              by_cases hpos : r.1 > 0
              · simp only [if_pos hpos]
                cases hremove : removeFromBeginning data r.1 with
                | error e => rfl
                | ok left =>
                    have hlt := removeFromBeginning_length hpos hremove
                    simp only [ok_bind]
                    rw [ih (m := m) (by omega) (by omega)]
              · simp only [if_neg hpos]

/-- One round of the loop, then `OnData` again on what is left. -/
theorem onData_eq (data : Bytes) :
    onData data = (do
      let (processed, events) ← parseWsFrames data
      if processed > 0 then
        let left ← removeFromBeginning data processed
        if left = [] then
          return ⟨events, left⟩
        else
          let rest ← onData left
          return rest.after events
      else
        return ⟨events, data⟩) := by
  rw [onData, onDataLoop]
  cases hparse : parseWsFrames data with
  | error e => rfl
  | ok r =>
      simp only [ok_bind]
      by_cases hpos : r.1 > 0
      · simp only [if_pos hpos]
        cases hremove : removeFromBeginning data r.1 with
        | error e => rfl
        | ok left =>
            -- what is left is shorter, so the rounds allowed for it do not matter
            have hlt := removeFromBeginning_length hpos hremove
            simp only [ok_bind, onData]
            rw [onDataLoop_fuel (m := left.length + 1) (by omega) (by omega)]
      · simp only [if_neg hpos]

/-- Induction along the rounds of an `OnData` that comes to its end. -/
theorem onData_induction {motive : Bytes → OnDataResult → Prop}
    (stop : ∀ data processed events, parseWsFrames data = .ok (processed, events) →
      ¬ processed > 0 → motive data ⟨events, data⟩)
    (last : ∀ data processed events, parseWsFrames data = .ok (processed, events) →
      processed > 0 → removeFromBeginning data processed = .ok [] → motive data ⟨events, []⟩)
    (next : ∀ data processed events left rest, parseWsFrames data = .ok (processed, events) →
      processed > 0 → removeFromBeginning data processed = .ok left → motive left rest →
        motive data (rest.after events))
    {data : Bytes} {result : OnDataResult} (h : onData data = .ok result) : motive data result := by
  induction hn : data.length using Nat.strongRecOn generalizing data result with
  | ind n ih =>
      rw [onData_eq] at h
      cases hparse : parseWsFrames data with
      | error fault =>
          rw [hparse] at h
          cases h
      | ok round =>
          obtain ⟨processed, events⟩ := round
          rw [hparse, ok_bind] at h
          dsimp only at h
          split at h
          · rename_i hpositive
            cases hremove : removeFromBeginning data processed with
            | error fault =>
                rw [hremove] at h
                cases h
            | ok left =>
                rw [hremove, ok_bind] at h
                split at h
                · rename_i hleft
                  obtain rfl := Except.ok.inj h
                  subst hleft
                  exact last data processed events hparse hpositive hremove
                · cases hrest : onData left with
                  | error fault =>
                      rw [hrest] at h
                      cases h
                  | ok rest =>
                      rw [hrest] at h
                      obtain rfl := Except.ok.inj h
                      have hless := removeFromBeginning_length hpositive hremove
                      exact next data processed events left rest hparse hpositive hremove
                        (ih left.length (hn ▸ hless) hrest rfl)
          · rename_i hzero
            obtain rfl := Except.ok.inj h
            exact stop data processed events hparse hzero

/-- The branches of `ParseWsFrames`. -/
theorem parseWsFrames_branches {data : Bytes} {processed : Int} {events : List WsEvent}
    (h : parseWsFrames data = .ok (processed, events)) :
    ∃ d, decodeFrameHybi17 data true = .ok d ∧
      ((d.compressed = true ∨ d.result = .frameError) ∧ processed = 0 ∧ events = [.onEof] ∨
        d.result = .frameClose ∧ processed = 0 ∧ events = [.onCloseRecieved] ∨
        d.compressed = false ∧ d.result = .frameOk ∧ processed = d.bytesConsumed ∧
          events = [.onWsFrame d.output] ∨
        d.result = .frameIncomplete ∧ processed = d.bytesConsumed ∧ events = []) := by
  unfold parseWsFrames at h
  cases hdecode : decodeFrameHybi17 data true with
  | error fault =>
      rw [hdecode] at h
      cases h
  | ok d =>
      refine ⟨d, rfl, ?_⟩
      rw [hdecode, ok_bind] at h
      split at h
      · rename_i hrejected
        obtain ⟨rfl, rfl⟩ := Prod.mk.inj (Except.ok.inj h)
        exact Or.inl ⟨hrejected, rfl, rfl⟩
      · rename_i hnot
        split at h
        · rename_i hclose
          obtain ⟨rfl, rfl⟩ := Prod.mk.inj (Except.ok.inj h)
          exact Or.inr (Or.inl ⟨hclose, rfl, rfl⟩)
        · rename_i hopen
          split at h
          · rename_i hok
            obtain ⟨rfl, rfl⟩ := Prod.mk.inj (Except.ok.inj h)
            exact Or.inr (Or.inr (Or.inl ⟨by simpa [hok] using hnot, hok, rfl, rfl⟩))
          · rename_i hincomplete
            obtain ⟨rfl, rfl⟩ := Prod.mk.inj (Except.ok.inj h)
            refine Or.inr (Or.inr (Or.inr ⟨?_, rfl, rfl⟩))
            cases hresult : d.result with
            | frameOk => exact absurd hresult hincomplete
            | frameClose => exact absurd hresult hopen
            | frameError => exact absurd (Or.inr hresult) hnot
            | frameIncomplete => rfl

/-! ## Whole frames -/

namespace WireFrame

/-- An uncompressed text frame, the kind the handler delivers. -/
def IsText (f : WireFrame) : Prop :=
  f.header.reserved1 = false ∧ f.header.closed = false

/-- A whole frame at the front of a buffer of at most `INT_MAX` bytes is decoded exactly. -/
theorem decode_append (f : WireFrame) (rest : Bytes) (hmax : (f.bytes ++ rest).length ≤ intMax) :
    decodeFrameHybi17 (f.bytes ++ rest) true = .ok
      { result := if f.header.closed then .frameClose else .frameOk
        bytesConsumed := f.bytes.length
        output := f.payload
        compressed := f.header.reserved1 } := by
  have hsplit : f.bytes ++ rest =
      f.header.bytes ++ (List.ofFn f.key ++ (mask f.key f.payload ++ rest)) := by
    simp [bytes]
  have hlen : (f.bytes ++ rest).length = f.bytes.length + rest.length := List.length_append
  have hframe := f.length_bytes
  have hshort : (f.bytes ++ rest).length < 2 ^ 64 := by
    simp only [intMax] at hmax
    omega
  -- header, key and payload are there, so the gate passes
  have hgate : passesGate (f.bytes ++ rest) f.header := by
    rw [passesGate_iff f.header hshort]
    right
    omega
  have hout : unmask (f.bytes ++ rest) f.header.width 0 f.header.length = .ok f.payload := by
    have hloop := unmask_mask f.key f.header.bytes f.payload rest
    rw [FrameHeader.length_bytes, f.length_eq] at hloop
    rw [hsplit, hloop]
  -- within `INT_MAX` bytes the cast to `int` changes nothing
  have hexact : toInt32 f.bytes.length = f.bytes.length :=
    toInt32_of_lt (by simp only [intMax] at hmax; omega)
  have hdecode := decode_bytes f.header (List.ofFn f.key ++ (mask f.key f.payload ++ rest)) true
  rw [← hsplit, if_pos hgate, hout, ok_bind, ← hframe, hexact] at hdecode
  exact hdecode

/-- `ParseWsFrames` hands a text frame at the front to the delegate and consumes exactly it. -/
theorem parseWsFrames_append {f : WireFrame} (htext : f.IsText) (rest : Bytes)
    (hmax : (f.bytes ++ rest).length ≤ intMax) :
    parseWsFrames (f.bytes ++ rest) = .ok (f.bytes.length, [.onWsFrame f.payload]) := by
  obtain ⟨hplain, hopen⟩ := htext
  simp [parseWsFrames, f.decode_append rest hmax, hplain, hopen, pure, Except.pure]

theorem bytes_length_pos (f : WireFrame) : 0 < f.bytes.length := by
  rw [f.length_bytes]
  simp only [kMaskingKeyWidthInBytes]
  omega

/-- One round of the loop per frame. -/
theorem onData_append {f : WireFrame} (htext : f.IsText) (rest : Bytes)
    (hmax : (f.bytes ++ rest).length ≤ intMax) :
    onData (f.bytes ++ rest) =
      (onData rest).map (OnDataResult.after [.onWsFrame f.payload]) := by
  have hpos := f.bytes_length_pos
  have hremove := removeFromBeginning_append f.bytes rest
  rw [onData_eq, parseWsFrames_append htext rest hmax]
  simp only [ok_bind, gt_iff_lt, Int.natCast_pos, if_pos hpos, hremove]
  -- the `do ... while` stops at an empty vector, on which another round would do nothing
  by_cases hrest : rest = []
  · subst hrest
    rfl
  · rw [if_neg hrest]
    cases onData rest with
    | error e => rfl
    | ok r => rfl

end WireFrame

/-- All frames of a read are delivered, in order; the induction is on the frames. -/
theorem onData_frames (frames : List WireFrame) (htext : ∀ f ∈ frames, f.IsText)
    (hmax : (frames.flatMap WireFrame.bytes).length ≤ intMax) :
    onData (frames.flatMap WireFrame.bytes) =
      .ok ⟨frames.map fun f => .onWsFrame f.payload, []⟩ := by
  induction frames with
  | nil => rfl
  | cons f frames ih =>
      have hrest : (frames.flatMap WireFrame.bytes).length ≤ intMax := by
        simp only [List.flatMap_cons, List.length_append] at hmax
        omega
      have htail := ih (fun g hg => htext g (by simp [hg])) hrest
      rw [List.flatMap_cons] at hmax ⊢
      rw [WireFrame.onData_append (htext f (by simp)) _ hmax, htail]
      rfl

/-! ## Round trip with the encoder -/

/-- The low byte of a `size_t`. -/
theorem toUInt8_and_low (x : UInt64) : (x &&& 0xFF).toUInt8 = UInt8.ofNat x.toNat := by
  apply UInt8.toNat_inj.1
  have hand : x.toNat &&& 0xFF = x.toNat % 256 := Nat.and_two_pow_sub_one_eq_mod x.toNat 8
  rw [UInt64.toNat_toUInt8, UInt64.toNat_and, UInt8.toNat_ofNat']
  rw [show (0xFF : UInt64).toNat = 0xFF from rfl, hand, Nat.mod_mod]

/-- The second byte of a `size_t`, as the encoder extracts it. -/
theorem toUInt8_and_second (x : UInt64) :
    ((x &&& 0xFF00) >>> 8).toUInt8 = UInt8.ofNat (x.toNat / 256) := by
  apply UInt8.toNat_inj.1
  have hshift : (x.toNat &&& 0xFF00) >>> 8 = x.toNat / 256 % 256 := by
    rw [Nat.shiftRight_and_distrib, Nat.shiftRight_eq_div_pow]
    exact Nat.and_two_pow_sub_one_eq_mod (x.toNat / 256) 8
  rw [UInt64.toNat_toUInt8, UInt64.toNat_shiftRight, UInt64.toNat_and, UInt8.toNat_ofNat']
  rw [show (0xFF00 : UInt64).toNat = 0xFF00 from rfl, show (8 : UInt64).toNat % 64 = 8 from rfl,
    hshift, Nat.mod_mod]

/-- The filling loop writes the big-endian bytes and shifts them out of `remaining`. -/
theorem fillLength_eq (n : Nat) (remaining : UInt64) (ext : Bytes) :
    (fillLength n remaining ext).1 = beBytes n remaining.toNat ++ ext ∧
      (fillLength n remaining ext).2.toNat = remaining.toNat / 256 ^ n := by
  induction n generalizing remaining ext with
  | zero => simp [fillLength, beBytes]
  | succ n ih =>
      have hshift : (remaining >>> 8).toNat = remaining.toNat / 256 := by
        simp [UInt64.toNat_shiftRight, Nat.shiftRight_eq_div_pow]
      have hlow : (remaining &&& 0xFF).toUInt8 = UInt8.ofNat remaining.toNat := by
        exact toUInt8_and_low remaining
      obtain ⟨hbytes, hleft⟩ := ih (remaining >>> 8) ((remaining &&& 0xFF).toUInt8 :: ext)
      simp only [fillLength]
      rw [hbytes, hleft, hshift, hlow, beBytes_succ_append]
      constructor
      · simp
      · rw [Nat.div_div_eq_div_mul, pow_succ, Nat.mul_comm]

/-- `CHECK_EQ(0, remaining)` holds for every `size_t`. -/
theorem fillLength_remaining (dataLength : UInt64) : (fillLength 8 dataLength []).2 = 0 := by
  apply UInt64.toNat_inj.1
  rw [(fillLength_eq 8 dataLength []).2]
  exact Nat.div_eq_of_lt dataLength.toNat_lt

/-- The encoder emits the shortest form of the length, unmasked. -/
theorem encodeHeader_eq {n : Nat} (hn : n < 2 ^ 63) :
    encodeHeader (UInt64.ofNat n) =
      .ok (firstByteOf false false :: (LengthForm.ofLength n).code n ::
        beBytes (LengthForm.ofLength n).extended n) := by
  have hnat : (UInt64.ofNat n).toNat = n := by
    rw [UInt64.toNat_ofNat']
    exact Nat.mod_eq_of_lt (by omega)
  have hfirst : kFinalBit ||| kOpCodeText = firstByteOf false false := by decide
  have hshort : UInt64.ofNat n ≤ kMaxSingleBytePayloadLength ↔ n ≤ 125 := by
    rw [UInt64.le_iff_toNat_le, hnat]
    rfl
  have hmedium : UInt64.ofNat n ≤ 0xFFFF ↔ n ≤ 0xFFFF := by
    rw [UInt64.le_iff_toNat_le, hnat]
    rfl
  simp only [encodeHeader, hshort, hmedium, hfirst, fillLength_remaining,
    (fillLength_eq 8 _ []).1, hnat, LengthForm.ofLength]
  -- the encoder's two comparisons are those of `LengthForm.ofLength`
  split
  · have hbyte : (UInt64.ofNat n).toUInt8 = UInt8.ofNat n := by
      apply UInt8.toNat_inj.1
      simp
    simp [LengthForm.code, LengthForm.extended, beBytes, hbyte]
  · split
    · simp only [toUInt8_and_second, toUInt8_and_low, hnat]
      simp [LengthForm.code, LengthForm.extended, beBytes]
      rfl
    · simp [LengthForm.code, LengthForm.extended]
      rfl

/-- The mask bit set in the second byte of a header. -/
def setMaskBit : Bytes → Bytes
  | first :: second :: rest => first :: (second ||| kMaskBit) :: rest
  | header => header

/-- A client's frame: the encoder's header with the mask bit, the key and the masked payload. -/
def clientFrame (key : MaskingKey) (payload : Bytes) : Except Fault Bytes := do
  let header ← encodeHeader (size payload)
  return setMaskBit header ++ (List.ofFn key ++ mask key payload)

/-- The frames of a list of payloads, one after the other. -/
def clientStream : List (MaskingKey × Bytes) → Except Fault Bytes
  | [] => .ok []
  | (key, payload) :: items => do
      let frame ← clientFrame key payload
      let rest ← clientStream items
      return frame ++ rest

/-- The wire frame that a client makes of a payload. -/
def textFrame (key : MaskingKey) (payload : Bytes) (h : payload.length < 2 ^ 63) : WireFrame where
  header :=
    { reserved1 := false
      closed := false
      form := LengthForm.ofLength payload.length
      length := payload.length
      fits := LengthForm.lt_bound_ofLength h }
  key := key
  payload := payload
  length_eq := rfl

theorem textFrame_isText (key : MaskingKey) (payload : Bytes) (h : payload.length < 2 ^ 63) :
    (textFrame key payload h).IsText :=
  ⟨rfl, rfl⟩

theorem clientFrame_eq (key : MaskingKey) (payload : Bytes) (h : payload.length < 2 ^ 63) :
    clientFrame key payload = .ok (textFrame key payload h).bytes := by
  rw [clientFrame, size, encodeHeader_eq h, ok_bind, setMaskBit, UInt8.or_comm]
  rfl

theorem encodeHeader_isOk (dataLength : UInt64) : ∃ header, encodeHeader dataLength = .ok header := by
  simp only [encodeHeader, fillLength_remaining]
  split
  · exact ⟨_, rfl⟩
  · split
    · exact ⟨_, rfl⟩
    · exact ⟨_, rfl⟩

theorem clientStream_cons_isOk (key : MaskingKey) (payload : Bytes)
    (items : List (MaskingKey × Bytes)) {rest : Bytes} (hrest : clientStream items = .ok rest) :
    ∃ frame, clientFrame key payload = .ok frame ∧ payload.length ≤ frame.length ∧
      clientStream ((key, payload) :: items) = .ok (frame ++ rest) := by
  obtain ⟨header, hheader⟩ := encodeHeader_isOk (size payload)
  have hframe : clientFrame key payload =
      .ok (setMaskBit header ++ (List.ofFn key ++ mask key payload)) := by
    rw [clientFrame, hheader]
    rfl
  refine ⟨_, hframe, ?_, ?_⟩
  · simp
    omega
  · rw [clientStream, hframe, ok_bind, hrest]
    rfl

/-- A stream of at most `INT_MAX` bytes is the concatenation of the wire frames of its items. -/
theorem clientStream_frames (items : List (MaskingKey × Bytes)) :
    ∃ stream, clientStream items = .ok stream ∧ (stream.length ≤ intMax →
      ∃ frames : List WireFrame, stream = frames.flatMap WireFrame.bytes ∧
        (∀ f ∈ frames, f.IsText) ∧ frames.map WireFrame.payload = items.map Prod.snd) := by
  induction items with
  | nil => exact ⟨[], rfl, fun _ => ⟨[], rfl, by simp, rfl⟩⟩
  | cons item items ih =>
      obtain ⟨key, payload⟩ := item
      obtain ⟨rest, hrest, hframes⟩ := ih
      obtain ⟨frame, hframe, hlong, hstream⟩ := clientStream_cons_isOk key payload items hrest
      refine ⟨frame ++ rest, hstream, fun hmax => ?_⟩
      rw [List.length_append] at hmax
      -- the payload is part of the stream, so its length has an accepted encoding
      have hsmall : payload.length < 2 ^ 63 := by
        simp only [intMax] at hmax
        omega
      obtain ⟨frames, rfl, htext, hpayloads⟩ := hframes (by omega)
      have hbytes : frame = (textFrame key payload hsmall).bytes :=
        Except.ok.inj (hframe.symm.trans (clientFrame_eq key payload hsmall))
      refine ⟨textFrame key payload hsmall :: frames, ?_, ?_, ?_⟩
      · rw [List.flatMap_cons, hbytes]
      · intro f hf
        rcases List.mem_cons.1 hf with rfl | hf
        · exact textFrame_isText key payload hsmall
        · exact htext f hf
      · rw [List.map_cons, List.map_cons, hpayloads]
        rfl

/-- Round trip: the frames that a client makes of any payloads with any keys, given to `OnData` in
one call, are delivered as exactly these payloads, and the data vector ends empty. -/
theorem onData_clientStream (items : List (MaskingKey × Bytes)) :
    ∃ stream, clientStream items = .ok stream ∧ (stream.length ≤ intMax →
      onData stream = .ok ⟨items.map fun item => .onWsFrame item.2, []⟩) := by
  obtain ⟨stream, hstream, hframes⟩ := clientStream_frames items
  refine ⟨stream, hstream, fun hmax => ?_⟩
  obtain ⟨frames, rfl, htext, hpayloads⟩ := hframes hmax
  have hevents : frames.map (fun f => WsEvent.onWsFrame f.payload) =
      items.map fun item => WsEvent.onWsFrame item.2 := by
    have hmap := congrArg (List.map WsEvent.onWsFrame) hpayloads
    rw [List.map_map, List.map_map] at hmap
    exact hmap
  rw [onData_frames frames htext hmax, hevents]

/-- A short message, an empty one and one whose length takes two bytes, each under a key of its
own. -/
def threeMessages : List (MaskingKey × Bytes) :=
  [(fun i => UInt8.ofNat (i + 1), ascii "hi"), (fun i => UInt8.ofNat (i + 5), []),
    (fun i => UInt8.ofNat (i + 9), .replicate 200 97)]

theorem onData_clientStream_threeMessages :
    ∃ stream, clientStream threeMessages = .ok stream ∧ stream.length = 222 ∧
      onData stream =
        .ok ⟨[.onWsFrame (ascii "hi"), .onWsFrame [], .onWsFrame (.replicate 200 97)], []⟩ := by
  obtain ⟨stream, hstream, hdata⟩ := onData_clientStream threeMessages
  have hlength : ∃ bytes ∈ (clientStream threeMessages).toOption, bytes.length = 222 := by
    decide +kernel
  obtain ⟨bytes, hbytes, hlength⟩ := hlength
  rw [hstream] at hbytes
  obtain rfl := Option.some.inj hbytes
  have hmax : stream.length ≤ intMax := by
    rw [hlength]
    decide
  exact ⟨stream, hstream, hlength, hdata hmax⟩

end Inspector
end V8JsiRuntime
