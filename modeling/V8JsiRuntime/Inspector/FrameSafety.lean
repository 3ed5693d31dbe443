import V8JsiRuntime.Inspector.FrameFormat

/-!
# FrameSafety — when the decoder stays inside its buffer

The length gate of `decode_frame_hybi17` compares the payload length with `buffer.size()` minus the
key width, without the header bytes.  `decodeFrameHybi17_safe_iff` gives the buffers on which this
is harmless.
-/

namespace V8JsiRuntime
namespace Inspector

/-- The memory contract of the decoder on one buffer of client bytes. -/
structure DecodeSafe (buffer : Bytes) : Prop where
  /-- Every byte read is inside the buffer. -/
  inside : ∃ d, decodeFrameHybi17 buffer true = .ok d
  /-- What the caller erases is there. -/
  consumed : ∀ d, decodeFrameHybi17 buffer true = .ok d →
    d.result = .frameOk ∨ d.result = .frameClose → d.bytesConsumed ≤ buffer.length
  /-- A frame that has not arrived completely is waited for. -/
  incomplete : ∀ f : WireFrame, buffer <+: f.bytes → buffer ≠ f.bytes →
    ∃ d, decodeFrameHybi17 buffer true = .ok d ∧ d.result = .frameIncomplete

/-- No header that the buffer begins with slips through the gate: its frame is complete, or there
are fewer bytes than key and payload take, but enough for the subtraction not to wrap. -/
def GateSound (buffer : Bytes) : Prop :=
  ∀ h : FrameHeader, h.bytes <+: buffer →
    h.width + kMaskingKeyWidthInBytes + h.length ≤ buffer.length ∨
      (kMaskingKeyWidthInBytes ≤ buffer.length ∧
        buffer.length < kMaskingKeyWidthInBytes + h.length)

/-- A buffer that starts a frame without holding its header holds part of the header. -/
theorem prefix_header_of_prefix {buffer : Bytes} {f : WireFrame} (hp : buffer <+: f.bytes)
    (hno : ¬ f.header.bytes <+: buffer) : buffer <+: f.header.bytes ∧ buffer ≠ f.header.bytes := by
  have hheader : f.header.bytes <+: f.bytes := List.prefix_append _ _
  rcases List.prefix_or_prefix_of_prefix hp hheader with h | h
  · refine ⟨h, ?_⟩
    rintro rfl
    exact hno (List.prefix_refl _)
  · exact absurd h hno

/-- Without a complete header nothing can go wrong. -/
theorem safe_of_no_header {buffer : Bytes} (hno : ∀ h : FrameHeader, ¬ h.bytes <+: buffer) :
    DecodeSafe buffer := by
  rcases decode_cases buffer with ⟨h, hp⟩ | ⟨result, compressed, hresult, hdecode⟩
  · exact absurd hp (hno h)
  · refine ⟨⟨_, hdecode⟩, ?_, ?_⟩
    · intro d hd hok
      have : d = Decoded.stop result compressed := by
        simpa [hdecode] using hd.symm
      rcases hresult with rfl | rfl <;> simp [this, Decoded.stop] at hok
    · intro f hp _
      obtain ⟨hpre, hne⟩ := prefix_header_of_prefix hp (hno f.header)
      obtain ⟨compressed', hwait⟩ := decode_of_prefix_header hpre hne true
      exact ⟨_, hwait, rfl⟩

/-- A proper prefix of a frame is shorter than the frame its header announces. -/
theorem length_lt_of_proper_prefix {buffer : Bytes} {h : FrameHeader} {f : WireFrame}
    (hheader : h.bytes <+: buffer) (hp : buffer <+: f.bytes) (hne : buffer ≠ f.bytes) :
    buffer.length < h.width + kMaskingKeyWidthInBytes + h.length := by
  have hsame : h = f.header :=
    FrameHeader.eq_of_prefix (hheader.trans hp) (List.prefix_append _ _)
  have hle := hp.length_le
  have hlt : buffer.length ≠ f.bytes.length := by
    intro hlen
    exact hne (hp.eq_of_length hlen)
  rw [WireFrame.length_bytes] at hle hlt
  rw [hsame]
  omega

/-- A buffer that the gate holds back is answered with a wait for more bytes. -/
theorem safe_of_blocked {h : FrameHeader} {rest : Bytes}
    (hgate : ¬ passesGate (h.bytes ++ rest) h) : DecodeSafe (h.bytes ++ rest) := by
  have hdecode := decode_bytes h rest true
  rw [if_neg hgate] at hdecode
  refine ⟨⟨_, hdecode⟩, ?_, fun _ _ _ => ⟨_, hdecode, rfl⟩⟩
  intro d hd hok
  rw [hdecode] at hd
  obtain rfl := Except.ok.inj hd
  simp [Decoded.stop] at hok

theorem safe_of_complete {h : FrameHeader} {rest : Bytes}
    (hlen : h.width + kMaskingKeyWidthInBytes + h.length ≤ (h.bytes ++ rest).length) :
    DecodeSafe (h.bytes ++ rest) := by
  have hnot : ∀ f : WireFrame, h.bytes ++ rest <+: f.bytes → ¬ h.bytes ++ rest ≠ f.bytes := by
    intro f hp hne
    have := length_lt_of_proper_prefix (List.prefix_append h.bytes rest) hp hne
    omega
  obtain ⟨output, hout⟩ := (unmask_ok_iff (h.bytes ++ rest) h.width 0 h.length).2
    (Or.inr (by simpa using hlen))
  by_cases hgate : passesGate (h.bytes ++ rest) h
  · have hdecode := decode_bytes h rest true
    rw [if_pos hgate, hout, ok_bind] at hdecode
    refine ⟨⟨_, hdecode⟩, ?_, fun f hp hne => absurd hne (hnot f hp)⟩
    intro d hd _
    rw [hdecode] at hd
    obtain rfl := Except.ok.inj hd
    have hle := toInt32_le (h.width + kMaskingKeyWidthInBytes + h.length)
    dsimp only
    omega
  · exact safe_of_blocked hgate

/-- An incomplete frame that passes the gate is read past the buffer, or erased past it when its
payload is empty. -/
theorem unsafe_of_passes {h : FrameHeader} {rest : Bytes}
    (hgate : passesGate (h.bytes ++ rest) h)
    (hlen : (h.bytes ++ rest).length < h.width + kMaskingKeyWidthInBytes + h.length) :
    ¬ DecodeSafe (h.bytes ++ rest) := by
  intro hsafe
  have hdecode := decode_bytes h rest true
  rw [if_pos hgate] at hdecode
  by_cases hempty : h.length = 0
  · -- no byte is read, but header and key are counted as consumed
    rw [hempty, unmask, ok_bind] at hdecode
    have hconsumed := hsafe.consumed _ hdecode (by cases h.closed <;> simp)
    have hwidth := h.width_le
    have hexact : toInt32 (h.width + kMaskingKeyWidthInBytes + 0) =
        (h.width + kMaskingKeyWidthInBytes + 0 : Nat) :=
      toInt32_of_lt (by simp only [kMaskingKeyWidthInBytes]; omega)
    dsimp only at hconsumed
    rw [hexact] at hconsumed
    omega
  · obtain ⟨d, hd⟩ := hsafe.inside
    rw [hdecode] at hd
    -- the loop would have to come to its end, which is behind the buffer
    have hread : ∃ output, unmask (h.bytes ++ rest) h.width 0 h.length = .ok output := by
      cases hloop : unmask (h.bytes ++ rest) h.width 0 h.length with
      | error e => simp [hloop] at hd
      | ok output => exact ⟨output, rfl⟩
    rcases (unmask_ok_iff _ _ _ _).1 hread with hzero | hin
    · exact hempty hzero
    · omega

/-- The decoder keeps its memory contract on exactly the buffers that the gate treats soundly. -/
theorem decodeFrameHybi17_safe_iff (buffer : Bytes) : DecodeSafe buffer ↔ GateSound buffer := by
  constructor
  · intro hsafe h hheader
    by_contra hcut
    obtain ⟨rest, rfl⟩ := hheader
    push Not at hcut
    -- a cut frame is short enough for `buffer.size()` to be its length
    have hshort : (h.bytes ++ rest).length < 2 ^ 64 := by
      have hbound := h.length_lt
      have hwidth := h.width_le
      simp only [kMaskingKeyWidthInBytes] at hcut
      omega
    have hgate : passesGate (h.bytes ++ rest) h := by
      rw [passesGate_iff h hshort]
      -- below four bytes the subtraction wraps and the gate passes everything
      by_cases hfour : kMaskingKeyWidthInBytes ≤ (h.bytes ++ rest).length
      · exact Or.inr (hcut.2 hfour)
      · exact Or.inl (Nat.lt_of_not_le hfour)
    exact unsafe_of_passes hgate hcut.1 hsafe
  · intro hsound
    by_cases hheader : ∃ h : FrameHeader, h.bytes <+: buffer
    · obtain ⟨h, rest, rfl⟩ := hheader
      rcases hsound h (List.prefix_append _ _) with hall | ⟨hfour, hfew⟩
      · exact safe_of_complete hall
      · apply safe_of_blocked
        have hbound := h.length_lt
        have hshort : (h.bytes ++ rest).length < 2 ^ 64 := by
          simp only [kMaskingKeyWidthInBytes] at hfew
          omega
        rw [passesGate_iff h hshort]
        omega
    · push Not at hheader
      exact safe_of_no_header hheader

/-- A text frame of three payload bytes whose last byte has not arrived: the gate lets it through
and the third payload byte is read past the end. -/
theorem decodeFrameHybi17_reads_past_end :
    decodeFrameHybi17 [0x81, 0x83, 1, 2, 3, 4, 0x60, 0x60] true = .error (.readOutOfBounds 8) ∧
      ¬ DecodeSafe [0x81, 0x83, 1, 2, 3, 4, 0x60, 0x60] := by
  have hfault : decodeFrameHybi17 [0x81, 0x83, 1, 2, 3, 4, 0x60, 0x60] true =
      .error (.readOutOfBounds 8) := by
    decide
  refine ⟨hfault, fun hsafe => ?_⟩
  obtain ⟨d, hd⟩ := hsafe.inside
  rw [hfault] at hd
  cases hd

end Inspector
end V8JsiRuntime
