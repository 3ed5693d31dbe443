import V8JsiRuntime.Inspector.WsHandler

/-!
# ReadLoop — the frame stream cut into TCP reads

`tcp_connection::read_loop_async` copies every completed read into a fresh vector, and
`TcpHolder::OnDataReceivedCb` gives that vector to the handler.  What `OnData` leaves in it is
dropped with it.  `readLoopAsync_delivers_iff` characterises the cuts of a stream of text frames
after which all payloads still arrive.
-/

namespace V8JsiRuntime
namespace Inspector

open Lib

/-! ## The loop -/

/-- The size of `tcp_connection::buffer_`. -/
def readBufferSize : Nat := 8192

/-- The bytes of one successful `async_read_some`. -/
structure TcpRead where
  bytes : Bytes
  nonempty : bytes ≠ []
  fits : bytes.length ≤ readBufferSize

/-- `TcpHolder::OnDataReceivedCb` with `iseof` false: the calls made; the vector is gone. -/
def onDataReceivedCb (wiredata : Bytes) : Except Fault (List WsEvent) := do
  let result ← onData wiredata
  return result.events

/-- The calls made over successive reads.  `OnEof` closes the socket, so that no later read
completes with data. -/
def readLoopAsync : List TcpRead → Except Fault (List WsEvent)
  | [] => .ok []
  | read :: reads => do
      let events ← onDataReceivedCb read.bytes
      if .onEof ∈ events then
        return events
      else
        let rest ← readLoopAsync reads
        return events ++ rest

/-- The payload handed to `delegate()->OnWsFrame`, if the call is one. -/
def WsEvent.payload : WsEvent → Option Bytes
  | .onWsFrame output => some output
  | .onEof => none
  | .onCloseRecieved => none

/-- The payloads handed to `delegate()->OnWsFrame`, in order. -/
def delivered (events : List WsEvent) : List Bytes :=
  events.filterMap WsEvent.payload

@[simp] theorem delivered_append (events events' : List WsEvent) :
    delivered (events ++ events') = delivered events ++ delivered events' := by
  simp [delivered]

@[simp] theorem delivered_map_onWsFrame (frames : List WireFrame) :
    delivered (frames.map fun f => .onWsFrame f.payload) = frames.map WireFrame.payload := by
  simp [delivered, List.filterMap_map, WsEvent.payload, Function.comp_def]

/-! ## Inversion of a successful `OnData` -/

/-- The bytes after a header, when there are enough of them, form a frame. -/
theorem exists_wireFrame {h : FrameHeader} {rest : Bytes}
    (hlen : h.width + kMaskingKeyWidthInBytes + h.length ≤ (h.bytes ++ rest).length) :
    ∃ (f : WireFrame) (post : Bytes), f.header = h ∧ h.bytes ++ rest = f.bytes ++ post := by
  have hrest : kMaskingKeyWidthInBytes + h.length ≤ rest.length := by
    simp only [List.length_append, FrameHeader.length_bytes] at hlen
    omega
  have hfour : kMaskingKeyWidthInBytes ≤ rest.length := by
    omega
  -- key and payload are read off the bytes; unmasking is masking again
  let key : MaskingKey := fun i => rest.get ⟨i, by omega⟩
  let masked := (rest.drop kMaskingKeyWidthInBytes).take h.length
  have hmasked : masked.length = h.length := by
    simp [masked]
    omega
  refine ⟨⟨h, key, mask key masked, by simpa using hmasked⟩,
    (rest.drop kMaskingKeyWidthInBytes).drop h.length, rfl, ?_⟩
  have hkey : List.ofFn key = rest.take kMaskingKeyWidthInBytes := by
    apply List.ext_getElem
    · simp
      omega
    · intro i h₁ h₂
      simp [key]
  simp only [WireFrame.bytes, mask_mask, hkey, List.append_assoc]
  rw [List.take_append_drop, List.take_append_drop]

/-- `ParseWsFrames` delivers, or delivers nothing and consumes nothing of a whole frame. -/
theorem parseWsFrames_inv {buffer : Bytes} {d : Decoded} {processed : Int}
    {events : List WsEvent} (hdecode : decodeFrameHybi17 buffer true = .ok d)
    (h : parseWsFrames buffer = .ok (processed, events)) :
    (d.compressed = false ∧ d.result = .frameOk ∧ processed = d.bytesConsumed ∧
        events = [.onWsFrame d.output]) ∨
      (delivered events = [] ∧
        (processed = 0 ∨ (d.result = .frameIncomplete ∧ processed = d.bytesConsumed))) := by
  obtain ⟨decoded, hdecoded, hbranch⟩ := parseWsFrames_branches h
  obtain rfl := Except.ok.inj (hdecode.symm.trans hdecoded)
  rcases hbranch with ⟨_, hzero, rfl⟩ | ⟨_, hzero, rfl⟩ | hframe | ⟨hresult, hconsumed, rfl⟩
  · exact Or.inr ⟨rfl, Or.inl hzero⟩
  · exact Or.inr ⟨rfl, Or.inl hzero⟩
  · exact Or.inl hframe
  · exact Or.inr ⟨rfl, Or.inr ⟨hresult, hconsumed⟩⟩

/-- What `ParseWsFrames` does on a read: it delivers a whole text frame and consumes it, or it
delivers nothing and consumes nothing, or it claims to have consumed more than there is. -/
theorem parseWsFrames_cases {buffer : Bytes} {processed : Int} {events : List WsEvent}
    (hmax : buffer.length ≤ intMax) (h : parseWsFrames buffer = .ok (processed, events)) :
    (∃ (f : WireFrame) (rest : Bytes), f.IsText ∧ buffer = f.bytes ++ rest ∧
        processed = f.bytes.length ∧ events = [.onWsFrame f.payload]) ∨
      (processed = 0 ∧ delivered events = []) ∨ processed > buffer.length := by
  -- an early return of the decoder delivers nothing
  have hstop : ∀ result compressed, result ≠ WsDecodeResult.frameOk →
      decodeFrameHybi17 buffer true = .ok (Decoded.stop result compressed) →
        processed = 0 ∧ delivered events = [] := by
    intro result compressed hresult hdecode
    rcases parseWsFrames_inv hdecode h with ⟨_, hok, _⟩ | ⟨hnone, hzero | ⟨_, hzero⟩⟩
    · exact absurd hok hresult
    · exact ⟨hzero, hnone⟩
    · exact ⟨hzero, hnone⟩
  rcases decode_cases buffer with ⟨hd, rest, rfl⟩ | ⟨result, compressed, hresult, hdecode⟩
  · by_cases hgate : passesGate (hd.bytes ++ rest) hd
    · by_cases hall : hd.width + kMaskingKeyWidthInBytes + hd.length ≤ (hd.bytes ++ rest).length
      · -- a complete frame is decoded exactly, and delivered if it is plain text
        obtain ⟨f, post, rfl, hbytes⟩ := exists_wireFrame hall
        rw [hbytes] at h hmax ⊢
        have hdecode := f.decode_append post hmax
        rcases parseWsFrames_inv hdecode h with ⟨hplain, hok, hproc, hevents⟩ | ⟨hnone, hzero | hwait⟩
        · have hopen : f.header.closed = false := by
            cases hclosed : f.header.closed with
            | false => rfl
            | true => simp [hclosed] at hok
          exact Or.inl ⟨f, post, ⟨hplain, hopen⟩, rfl, hproc, hevents⟩
        · exact Or.inr (Or.inl ⟨hzero, hnone⟩)
        · have hresult := hwait.1
          cases hclosed : f.header.closed <;> simp [hclosed] at hresult
      · -- the frame is cut but passes the gate: only an empty payload gets this far
        have hdecode := decode_bytes hd rest true
        rw [if_pos hgate] at hdecode
        have hwidth := hd.width_le
        by_cases hempty : hd.length = 0
        · rw [hempty, unmask, ok_bind] at hdecode
          rw [hempty] at hall
          have hexact : toInt32 (hd.width + kMaskingKeyWidthInBytes + 0) =
              (hd.width + kMaskingKeyWidthInBytes + 0 : Nat) :=
            toInt32_of_lt (by simp only [kMaskingKeyWidthInBytes]; omega)
          rcases parseWsFrames_inv hdecode h with ⟨_, _, hproc, _⟩ | ⟨hnone, hzero | ⟨_, hproc⟩⟩
          · refine Or.inr (Or.inr ?_)
            dsimp only at hproc
            omega
          · exact Or.inr (Or.inl ⟨hzero, hnone⟩)
          · refine Or.inr (Or.inr ?_)
            dsimp only at hproc
            omega
        · have hfault : ¬ ∃ output, unmask (hd.bytes ++ rest) hd.width 0 hd.length = .ok output := by
            rw [unmask_ok_iff]
            omega
          cases hloop : unmask (hd.bytes ++ rest) hd.width 0 hd.length with
          | error e => simp [parseWsFrames, hdecode, hloop] at h
          | ok output => exact absurd ⟨output, hloop⟩ hfault
    · have hdecode := decode_bytes hd rest true
      rw [if_neg hgate] at hdecode
      exact Or.inr (Or.inl (hstop _ _ (by decide) hdecode))
  · exact Or.inr (Or.inl (hstop _ _ (by rcases hresult with rfl | rfl <;> decide) hdecode))

/-- Erasing more than there is is a fault. -/
theorem removeFromBeginning_of_lt {buffer left : Bytes} {count : Int}
    (h : count > buffer.length) : removeFromBeginning buffer count ≠ .ok left := by
  rw [removeFromBeginning, if_neg (by omega)]
  intro heq
  cases heq

/-- A read that `OnData` survives is a list of whole text frames, which it delivers, and a rest. -/
theorem onData_inv {data : Bytes} {r : OnDataResult} (hmax : data.length ≤ intMax)
    (h : onData data = .ok r) :
    ∃ (frames : List WireFrame) (left : Bytes), (∀ f ∈ frames, f.IsText) ∧
      data = frames.flatMap WireFrame.bytes ++ left ∧
        delivered r.events = frames.map WireFrame.payload := by
  refine onData_induction (motive := fun data r => data.length ≤ intMax →
    ∃ (frames : List WireFrame) (left : Bytes), (∀ f ∈ frames, f.IsText) ∧
      data = frames.flatMap WireFrame.bytes ++ left ∧
        delivered r.events = frames.map WireFrame.payload) ?_ ?_ ?_ h hmax
  · intro data processed events hparse hzero hmax
    rcases parseWsFrames_cases hmax hparse with ⟨f, rest, _, _, rfl, _⟩ | ⟨_, hnone⟩ | hover
    · exact absurd (Int.natCast_pos.2 f.bytes_length_pos) hzero
    · exact ⟨[], data, nofun, rfl, hnone⟩
    · omega
  · intro data processed events hparse hpositive hremove hmax
    rcases parseWsFrames_cases hmax hparse with
      ⟨f, rest, htext, rfl, rfl, rfl⟩ | ⟨rfl, _⟩ | hover
    · rw [removeFromBeginning_append] at hremove
      obtain rfl := Except.ok.inj hremove
      exact ⟨[f], [], by simpa using htext, by simp, rfl⟩
    · exact absurd hpositive (lt_irrefl 0)
    · exact absurd hremove (removeFromBeginning_of_lt hover)
  · intro data processed events left rest hparse hpositive hremove ih hmax
    rcases parseWsFrames_cases hmax hparse with
      ⟨f, rest', htext, rfl, rfl, rfl⟩ | ⟨rfl, _⟩ | hover
    · -- a delivered frame: what is left is shorter, and the hypothesis applies to it
      rw [removeFromBeginning_append] at hremove
      obtain rfl := Except.ok.inj hremove
      rw [List.length_append] at hmax
      obtain ⟨frames, left, hall, hsplit, hpay⟩ := ih (by omega)
      refine ⟨f :: frames, left, ?_, ?_, ?_⟩
      · intro g hg
        rcases List.mem_cons.1 hg with rfl | hg
        · exact htext
        · exact hall g hg
      · rw [List.flatMap_cons, List.append_assoc, ← hsplit]
      · simp only [OnDataResult.after, delivered_append, hpay]
        rfl
    · exact absurd hpositive (lt_irrefl 0)
    · exact absurd hremove (removeFromBeginning_of_lt hover)

/-- A run of reads: each is a list of whole frames and a rest, and the run delivers payloads of
these frames only. -/
theorem readLoopAsync_inv {reads : List TcpRead} {events : List WsEvent}
    (h : readLoopAsync reads = .ok events) :
    ∃ parts : List (List WireFrame × Bytes), (∀ part ∈ parts, ∀ f ∈ part.1, f.IsText) ∧
      reads.map TcpRead.bytes = parts.map (fun part => part.1.flatMap WireFrame.bytes ++ part.2) ∧
        delivered events = (parts.flatMap Prod.fst).map WireFrame.payload := by
  induction reads generalizing events with
  | nil =>
      obtain rfl := Except.ok.inj h
      exact ⟨[], by simp, rfl, rfl⟩
  | cons read reads ih =>
      have hmax : read.bytes.length ≤ intMax := Nat.le_trans read.fits (by decide)
      rw [readLoopAsync, onDataReceivedCb] at h
      cases hdata : onData read.bytes with
      | error e => simp [hdata] at h
      | ok result =>
          obtain ⟨frames, left, htext, hsplit, hpay⟩ := onData_inv hmax hdata
          simp only [hdata, ok_bind, pure, Except.pure] at h
          split at h
          · -- the socket is closed: nothing of the remaining reads is delivered
            obtain rfl := Except.ok.inj h
            refine ⟨(frames, left) :: reads.map fun r => ([], r.bytes), ?_, ?_, ?_⟩
            · intro part hpart
              rcases List.mem_cons.1 hpart with rfl | hpart
              · exact htext
              · obtain ⟨r, _, rfl⟩ := List.mem_map.1 hpart
                simp
            · simp [hsplit, Function.comp_def]
            · simp [hpay, List.flatMap_map]
          · cases hrest : readLoopAsync reads with
            | error e => simp [hrest] at h
            | ok rest =>
                rw [hrest, ok_bind] at h
                obtain rfl := Except.ok.inj h
                obtain ⟨parts, hall, hreads, hpays⟩ := ih hrest
                refine ⟨(frames, left) :: parts, ?_, ?_, ?_⟩
                · intro part hpart
                  rcases List.mem_cons.1 hpart with rfl | hpart
                  · exact htext
                  · exact hall part hpart
                · simp [hsplit, hreads]
                · simp [hpay, hpays]

/-! ## Sizes on the wire -/

/-- Bytes that a payload of length `n` takes in its shortest encoding. -/
def wireSize (n : Nat) : Nat :=
  2 + (LengthForm.ofLength n).extended + kMaskingKeyWidthInBytes + n

namespace WireFrame

/-- A text frame as RFC 6455 asks for it, with the shortest length encoding. -/
def IsValidText (f : WireFrame) : Prop :=
  f.IsText ∧ f.header.form = LengthForm.ofLength f.header.length

theorem extended_ofLength_le {form : LengthForm} {n : Nat} (h : n < form.bound) :
    (LengthForm.ofLength n).extended ≤ form.extended ∧
      ((LengthForm.ofLength n).extended = form.extended → form = LengthForm.ofLength n) := by
  unfold LengthForm.ofLength
  cases form <;> simp only [LengthForm.bound] at h <;> split
  · simp
  · omega
  · simp [LengthForm.extended]
  · rw [if_pos (by omega)]
    simp
  · simp [LengthForm.extended]
  · split <;> simp [LengthForm.extended]

theorem wireSize_le (f : WireFrame) : wireSize f.payload.length ≤ f.bytes.length ∧
    (wireSize f.payload.length = f.bytes.length →
      f.header.form = LengthForm.ofLength f.header.length) := by
  obtain ⟨hle, heq⟩ := extended_ofLength_le f.header.fits
  rw [f.length_bytes, f.length_eq, wireSize, FrameHeader.width]
  constructor
  · omega
  · intro h
    exact heq (by omega)

theorem wireSize_eq {f : WireFrame} (h : f.header.form = LengthForm.ofLength f.header.length) :
    wireSize f.payload.length = f.bytes.length := by
  rw [f.length_bytes, f.length_eq, wireSize, FrameHeader.width, h]

/-- Two frames that begin the same buffer are the same. -/
theorem append_inj {f g : WireFrame} {x y : Bytes} (h : f.bytes ++ x = g.bytes ++ y) :
    f = g ∧ x = y := by
  -- the headers agree, hence the lengths, hence keys and payloads
  have hheader : f.header = g.header := by
    have hf : f.header.bytes <+: f.bytes ++ x :=
      (List.prefix_append f.header.bytes _).trans (List.prefix_append _ _)
    have hg : g.header.bytes <+: f.bytes ++ x := by
      rw [h]
      exact (List.prefix_append g.header.bytes _).trans (List.prefix_append _ _)
    exact FrameHeader.eq_of_prefix hf hg
  have hlen : f.bytes.length = g.bytes.length := by
    rw [f.length_bytes, g.length_bytes, hheader]
  obtain ⟨hbytes, hrest⟩ := List.append_inj h hlen
  obtain ⟨header, key, payload, hf⟩ := f
  obtain ⟨header', key', payload', hg⟩ := g
  obtain rfl : header = header' := hheader
  have hbody := List.append_cancel_left hbytes
  obtain ⟨hkey, hmask⟩ := List.append_inj hbody (by simp)
  obtain rfl : key = key' := List.ofFn_injective hkey
  have hpayload : payload = payload' := by
    rw [← mask_mask key payload, hmask, mask_mask]
  subst hpayload
  exact ⟨rfl, hrest⟩

theorem flatMap_bytes_inj {frames frames' : List WireFrame}
    (h : frames.flatMap bytes = frames'.flatMap bytes) : frames = frames' := by
  induction frames generalizing frames' with
  | nil =>
      cases frames' with
      | nil => rfl
      | cons g frames' =>
          have hpos := g.bytes_length_pos
          have hlen := congrArg List.length h
          simp only [List.flatMap_nil, List.length_nil, List.flatMap_cons, List.length_append] at hlen
          omega
  | cons f frames ih =>
      cases frames' with
      | nil =>
          have hpos := f.bytes_length_pos
          have hlen := congrArg List.length h
          simp only [List.flatMap_nil, List.length_nil, List.flatMap_cons, List.length_append] at hlen
          omega
      | cons g frames' =>
          obtain ⟨rfl, hrest⟩ := append_inj h
          rw [ih hrest]

/-- The shortest encodings of some payloads are no longer than any frames that carry them, and as
long only if these frames are shortest themselves. -/
theorem sum_wireSize_le (frames : List WireFrame) :
    (frames.map fun f => wireSize f.payload.length).sum ≤ (frames.flatMap bytes).length ∧
      ((frames.map fun f => wireSize f.payload.length).sum = (frames.flatMap bytes).length →
        ∀ f ∈ frames, f.header.form = LengthForm.ofLength f.header.length) := by
  induction frames with
  | nil => simp
  | cons f frames ih =>
      obtain ⟨hle, heq⟩ := f.wireSize_le
      obtain ⟨hles, heqs⟩ := ih
      simp only [List.map_cons, List.sum_cons, List.flatMap_cons, List.length_append]
      refine ⟨by omega, fun h g hg => ?_⟩
      rcases List.mem_cons.1 hg with rfl | hg
      · exact heq (by omega)
      · exact heqs (by omega) g hg

end WireFrame

/-! ## Exactly the cuts between frames are harmless -/

/-- All payloads of the frames arrive, in order, and nothing else does. -/
def DeliversAll (frames : List WireFrame) (reads : List TcpRead) : Prop :=
  ∃ events, readLoopAsync reads = .ok events ∧ delivered events = frames.map WireFrame.payload

/-- Every read ends where a frame ends. -/
def CutBetweenFrames (frames : List WireFrame) (reads : List TcpRead) : Prop :=
  ∃ groups : List (List WireFrame), groups.flatten = frames ∧
    reads.map TcpRead.bytes = groups.map fun group => group.flatMap WireFrame.bytes

theorem deliversAll_of_cutBetweenFrames {frames : List WireFrame} {reads : List TcpRead}
    (htext : ∀ f ∈ frames, f.IsText) (hcut : CutBetweenFrames frames reads) :
    DeliversAll frames reads := by
  obtain ⟨groups, rfl, hreads⟩ := hcut
  induction reads generalizing groups with
  | nil =>
      cases groups with
      | nil => exact ⟨[], rfl, rfl⟩
      | cons group groups => simp at hreads
  | cons read reads ih =>
      cases groups with
      | nil => simp at hreads
      | cons group groups =>
          simp only [List.map_cons, List.cons.injEq] at hreads
          obtain ⟨hread, hrest⟩ := hreads
          have hgroup : ∀ f ∈ group, f.IsText := fun f hf => htext f (by simp [hf])
          have hgroups : ∀ f ∈ groups.flatten, f.IsText := by
            intro f hf
            exact htext f (by rw [List.flatten_cons]; exact List.mem_append_right _ hf)
          obtain ⟨events, hloop, hpay⟩ := ih groups hrest hgroups
          have hmax : (group.flatMap WireFrame.bytes).length ≤ intMax := by
            rw [← hread]
            exact Nat.le_trans read.fits (by decide)
          have hdata := onData_frames group hgroup hmax
          -- whole text frames never close the socket
          have hopen : WsEvent.onEof ∉ group.map fun f => WsEvent.onWsFrame f.payload := by
            simp
          refine ⟨group.map (fun f => .onWsFrame f.payload) ++ events, ?_, ?_⟩
          · simp only [readLoopAsync, onDataReceivedCb, hread, hdata, ok_bind, pure, Except.pure,
              if_neg hopen, hloop]
          · rw [delivered_append, hpay, delivered_map_onWsFrame, List.flatten_cons, List.map_append]

theorem length_parts (parts : List (List WireFrame × Bytes)) :
    (parts.map fun part => part.1.flatMap WireFrame.bytes ++ part.2).flatten.length =
      ((parts.flatMap Prod.fst).flatMap WireFrame.bytes).length +
        (parts.map fun part => part.2.length).sum := by
  induction parts with
  | nil => rfl
  | cons part parts ih =>
      simp only [List.map_cons, List.flatten_cons, List.length_append, List.flatMap_cons,
        List.flatMap_append, List.sum_cons, ih]
      omega

/-- Counting bytes: a run that delivers all payloads has consumed every byte of every read as part
of a whole frame. -/
theorem cutBetweenFrames_of_deliversAll {frames : List WireFrame} {reads : List TcpRead}
    (hvalid : ∀ f ∈ frames, f.IsValidText)
    (hstream : reads.flatMap TcpRead.bytes = frames.flatMap WireFrame.bytes)
    (hall : DeliversAll frames reads) : CutBetweenFrames frames reads := by
  obtain ⟨events, hloop, hpay⟩ := hall
  obtain ⟨parts, _, hreads, hparts⟩ := readLoopAsync_inv hloop
  have hpayloads : (parts.flatMap Prod.fst).map WireFrame.payload =
      frames.map WireFrame.payload := hparts.symm.trans hpay
  -- the same payloads arrive, so their shortest encodings add up to the whole stream
  have hsizes : ((parts.flatMap Prod.fst).map fun f => wireSize f.payload.length).sum =
      (frames.flatMap WireFrame.bytes).length := by
    have hmap := congrArg (List.map fun p : Bytes => wireSize p.length) hpayloads
    rw [List.map_map, List.map_map] at hmap
    have hexact : frames.map (fun f => wireSize f.payload.length) =
        frames.map fun f => f.bytes.length := by
      apply List.map_congr_left
      intro f hf
      exact WireFrame.wireSize_eq (hvalid f hf).2
    rw [List.length_flatMap, ← hexact]
    exact congrArg List.sum hmap
  have htotal : (frames.flatMap WireFrame.bytes).length =
      ((parts.flatMap Prod.fst).flatMap WireFrame.bytes).length +
        (parts.map fun part => part.2.length).sum := by
    rw [← hstream, List.flatMap_def, hreads, length_parts]
  have hle := (WireFrame.sum_wireSize_le (parts.flatMap Prod.fst)).1
  -- the frames found take at least that many bytes, which leaves none over
  have hleft : ∀ part ∈ parts, part.2 = [] := by
    have hzero : (parts.map fun part => part.2.length).sum = 0 := by
      omega
    intro part hpart
    have hlen := List.sum_eq_zero_iff_forall_eq_nat.1 hzero part.2.length
      (List.mem_map.2 ⟨part, hpart, rfl⟩)
    exact List.length_eq_zero_iff.1 hlen
  have hwhole : reads.map TcpRead.bytes =
      (parts.map Prod.fst).map fun group => group.flatMap WireFrame.bytes := by
    rw [hreads, List.map_map]
    apply List.map_congr_left
    intro part hpart
    simp [hleft part hpart]
  refine ⟨parts.map Prod.fst, ?_, hwhole⟩
  apply WireFrame.flatMap_bytes_inj
  calc
    (parts.map Prod.fst).flatten.flatMap WireFrame.bytes
        = ((parts.map Prod.fst).map fun group => group.flatMap WireFrame.bytes).flatten := by
          rw [List.flatMap_def, List.map_flatten, List.flatten_flatten, List.map_map]
          rfl
    _ = reads.flatMap TcpRead.bytes := by
          rw [← hwhole, List.flatMap_def]
    _ = frames.flatMap WireFrame.bytes := hstream

/-- Over all lists of valid text frames and all ways of cutting their bytes into reads, the payloads
arrive unchanged exactly when every read ends at a frame boundary. -/
theorem readLoopAsync_delivers_iff (frames : List WireFrame) (reads : List TcpRead)
    (hvalid : ∀ f ∈ frames, f.IsValidText)
    (hstream : reads.flatMap TcpRead.bytes = frames.flatMap WireFrame.bytes) :
    DeliversAll frames reads ↔ CutBetweenFrames frames reads :=
  ⟨cutBetweenFrames_of_deliversAll hvalid hstream,
    deliversAll_of_cutBetweenFrames fun f hf => (hvalid f hf).1⟩

/-- The text frame `hi` under the key 1, 2, 3, 4. -/
def hiFrame : WireFrame :=
  textFrame (fun i => UInt8.ofNat (i + 1)) (ascii "hi") (by decide)

theorem hiFrame_isValidText : ∀ f ∈ [hiFrame], f.IsValidText := by
  intro f hf
  rw [List.mem_singleton.1 hf]
  exact ⟨textFrame_isText _ _ _, rfl⟩

/-- The text frame `ok` under another key. -/
def okFrame : WireFrame :=
  textFrame (fun i => UInt8.ofNat (i + 5)) (ascii "ok") (by decide)

/-- Two frames in one read and one in the next. -/
def hiOkReads : List TcpRead :=
  [⟨[0x81, 0x82, 1, 2, 3, 4, 0x69, 0x6B, 0x81, 0x82, 5, 6, 7, 8, 0x6A, 0x6D], by decide, by decide⟩,
    ⟨[0x81, 0x82, 1, 2, 3, 4, 0x69, 0x6B], by decide, by decide⟩]

theorem readLoopAsync_delivers_hiOk : DeliversAll [hiFrame, okFrame, hiFrame] hiOkReads := by
  have hvalid : ∀ f ∈ [hiFrame, okFrame, hiFrame], f.IsValidText := by
    intro f hf
    simp only [List.mem_cons, List.not_mem_nil, or_false] at hf
    rcases hf with rfl | rfl | rfl
    · exact ⟨textFrame_isText _ _ _, rfl⟩
    · exact ⟨textFrame_isText _ _ _, rfl⟩
    · exact ⟨textFrame_isText _ _ _, rfl⟩
  refine (readLoopAsync_delivers_iff _ hiOkReads hvalid (by decide)).2 ?_
  exact ⟨[[hiFrame, okFrame], [hiFrame]], rfl, by decide⟩

/-- The same frame cut after its first byte is lost: the second read is decoded on its own, taken
for a binary frame and rejected. -/
theorem readLoopAsync_loses_cut_frame :
    ¬ ∀ (frames : List WireFrame) (reads : List TcpRead), (∀ f ∈ frames, f.IsValidText) →
      reads.flatMap TcpRead.bytes = frames.flatMap WireFrame.bytes →
        DeliversAll frames reads := by
  intro h
  obtain ⟨events, hloop, hpay⟩ := h [hiFrame]
    [⟨[0x81], by decide, by decide⟩,
      ⟨[0x82, 1, 2, 3, 4, 0x69, 0x6B], by decide, by decide⟩]
    hiFrame_isValidText (by decide)
  have hrun : readLoopAsync [⟨[0x81], by decide, by decide⟩,
      ⟨[0x82, 1, 2, 3, 4, 0x69, 0x6B], by decide, by decide⟩] = .ok [.onEof] := by
    decide
  obtain rfl := Except.ok.inj (hrun.symm.trans hloop)
  exact absurd hpay (by decide)

end Inspector
end V8JsiRuntime
