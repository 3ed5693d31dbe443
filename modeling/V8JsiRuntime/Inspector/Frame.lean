import Mathlib.Data.List.OfFn
import V8JsiRuntime.Lib.ByteOrder
import V8JsiRuntime.Inspector.Utils

/-!
# Frame — the hybi-17 WebSocket framing

`encode_frame_hybi17` and `decode_frame_hybi17` of `inspector_socket.cpp`, with the byte reads of
the decoder explicit: a read outside the buffer is a `Fault`.  The `size_t` arithmetic is that of
`UInt64`, so the subtraction in the length gate wraps as it does in the source.

The wire format itself is stated independently (`FrameHeader`, `WireFrame`), with the constraint
that ties a length to its encoding carried by the header.  The decoder is then described on every
buffer by whether it begins with such a header.
-/

namespace V8JsiRuntime
namespace Inspector

open Lib

/-! ## Constants of the frame format -/

def kOpCodeText : UInt8 := 0x1
def kOpCodeClose : UInt8 := 0x8

def kFinalBit : UInt8 := 0x80
def kReserved1Bit : UInt8 := 0x40
def kReserved2Bit : UInt8 := 0x20
def kReserved3Bit : UInt8 := 0x10
def kOpCodeMask : UInt8 := 0xF
def kMaskBit : UInt8 := 0x80
def kPayloadLengthMask : UInt8 := 0x7F

def kMaxSingleBytePayloadLength : UInt64 := 125
def kTwoBytePayloadLengthField : UInt64 := 126
def kEightBytePayloadLengthField : UInt64 := 127
def kMaskingKeyWidthInBytes : Nat := 4

/-- `max_payload_length` of the decoder. -/
def maxPayloadLength : UInt64 := 0x7FFFFFFFFFFFFFFF

/-- `SIZE_MAX` on a 64-bit target. -/
def sizeMax : UInt64 := 0xFFFFFFFFFFFFFFFF

/-- `buffer.size()`. -/
def size (buffer : Bytes) : UInt64 :=
  UInt64.ofNat buffer.length

inductive WsDecodeResult
  | frameOk
  | frameIncomplete
  | frameClose
  | frameError
  deriving DecidableEq, Repr

/-! ## Encoder -/

/-- The loop that fills `extended_payload_length` from its last byte, and what is left in
`remaining` after `n` rounds. -/
def fillLength : Nat → UInt64 → Bytes → Bytes × UInt64
  | 0, remaining, ext => (ext, remaining)
  | n + 1, remaining, ext => fillLength n (remaining >>> 8) ((remaining &&& 0xFF).toUInt8 :: ext)

/-- Everything `encode_frame_hybi17` pushes before the message. -/
def encodeHeader (dataLength : UInt64) : Except Fault Bytes :=
  if dataLength ≤ kMaxSingleBytePayloadLength then
    .ok [kFinalBit ||| kOpCodeText, dataLength.toUInt8]
  else if dataLength ≤ 0xFFFF then
    .ok
      [kFinalBit ||| kOpCodeText, kTwoBytePayloadLengthField.toUInt8,
        ((dataLength &&& 0xFF00) >>> 8).toUInt8, (dataLength &&& 0xFF).toUInt8]
  else
    let filled := fillLength 8 dataLength []
    if filled.2 = 0 then
      .ok ((kFinalBit ||| kOpCodeText) :: kEightBytePayloadLengthField.toUInt8 :: filled.1)
    else
      .error .checkFailed

def encodeFrameHybi17 (message : Bytes) : Except Fault Bytes := do
  let frame ← encodeHeader (size message)
  return frame ++ message

/-! ## Decoder -/

/-- What `decode_frame_hybi17` returns, with the values it leaves in its out parameters. -/
structure Decoded where
  result : WsDecodeResult
  bytesConsumed : Int
  output : Bytes
  compressed : Bool
  deriving DecidableEq, Repr

/-- A return before the payload is looked at. -/
def Decoded.stop (result : WsDecodeResult) (compressed : Bool) : Decoded :=
  { result := result
    bytesConsumed := 0
    output := []
    compressed := compressed }

/-- The loop that reads `n` length bytes from position `it`. -/
def readLength (buffer : Bytes) : Nat → Nat → UInt64 → Except Fault UInt64
  | 0, _, acc => .ok acc
  | n + 1, it, acc => do
      let b ← readByte buffer it
      readLength buffer n (it + 1) ((acc <<< 8) ||| b.toUInt64)

/-- The unmasking loop from index `i`, with `n` rounds left; the key is at `it`. -/
def unmask (buffer : Bytes) (it : Nat) : Nat → Nat → Except Fault Bytes
  | _, 0 => .ok []
  | i, n + 1 => do
      let p ← readByte buffer (it + kMaskingKeyWidthInBytes + i)
      let k ← readByte buffer (it + i % kMaskingKeyWidthInBytes)
      let rest ← unmask buffer it (i + 1) n
      return (p ^^^ k) :: rest

/-- The `switch (op_code)`: `none` for the frames that are not supported. -/
def closedOfOpCode (opCode : UInt8) : Option Bool :=
  if opCode = kOpCodeClose then
    some true
  else if opCode = kOpCodeText then
    some false
  else
    none

/-- `extended_payload_length_size`. -/
def extendedPayloadLengthSize (payloadLength64 : UInt64) : Option Nat :=
  if payloadLength64 = kTwoBytePayloadLengthField then
    some 2
  else if payloadLength64 = kEightBytePayloadLengthField then
    some 8
  else
    none

/-- State of the decoder when the header has been read: an early return, or the position after
the header with the announced length. -/
inductive HeaderRead
  | stop (result : WsDecodeResult) (compressed : Bool)
  | header (it : Nat) (payloadLength64 : UInt64) (closed compressed : Bool)
  deriving DecidableEq, Repr

/-- The length field that starts with `second_byte`. -/
def readLengthField (buffer : Bytes) (secondByte : UInt8) (closed compressed : Bool) :
    Except Fault HeaderRead :=
  let payloadLength64 := (secondByte &&& kPayloadLengthMask).toUInt64
  if payloadLength64 > kMaxSingleBytePayloadLength then
    match extendedPayloadLengthSize payloadLength64 with
    | none => .ok (.stop .frameError compressed)
    | some n =>
        if buffer.length - 2 < n then
          .ok (.stop .frameIncomplete compressed)
        else do
          let extended ← readLength buffer n 2 0
          return .header (2 + n) extended closed compressed
  else
    .ok (.header 2 payloadLength64 closed compressed)

/-- The decoder up to the length checks. -/
def readHeader (buffer : Bytes) (clientFrame : Bool) : Except Fault HeaderRead :=
  if buffer.length < 2 then
    -- `*compressed` is not written yet; the only caller initialises it to false
    .ok (.stop .frameIncomplete false)
  else do
    let firstByte ← readByte buffer 0
    let secondByte ← readByte buffer 1
    let final := firstByte &&& kFinalBit != 0
    let reserved1 := firstByte &&& kReserved1Bit != 0
    let reserved2 := firstByte &&& kReserved2Bit != 0
    let reserved3 := firstByte &&& kReserved3Bit != 0
    let masked := secondByte &&& kMaskBit != 0
    if !final || reserved2 || reserved3 then
      return .stop .frameError reserved1
    else
      match closedOfOpCode (firstByte &&& kOpCodeMask) with
      | none => return .stop .frameError reserved1
      | some closed =>
          if clientFrame && !masked then
            return .stop .frameError reserved1
          else
            readLengthField buffer secondByte closed reserved1

/-- The length checks and the unmasking. -/
def readPayload (buffer : Bytes) : HeaderRead → Except Fault Decoded
  | .stop result compressed => .ok (Decoded.stop result compressed)
  | .header it payloadLength64 closed compressed =>
      if payloadLength64 > maxPayloadLength ∨
          payloadLength64 > sizeMax - UInt64.ofNat kMaskingKeyWidthInBytes then
        .ok (Decoded.stop .frameError compressed)
      else if size buffer - UInt64.ofNat kMaskingKeyWidthInBytes < payloadLength64 then
        -- the gate: `buffer.size()` still counts the header bytes already read
        .ok (Decoded.stop .frameIncomplete compressed)
      else do
        let output ← unmask buffer it 0 payloadLength64.toNat
        return {
          result := if closed then .frameClose else .frameOk
          bytesConsumed := toInt32 (it + kMaskingKeyWidthInBytes + payloadLength64.toNat)
          output := output
          compressed := compressed }

def decodeFrameHybi17 (buffer : Bytes) (clientFrame : Bool) : Except Fault Decoded := do
  let header ← readHeader buffer clientFrame
  readPayload buffer header

end Inspector
end V8JsiRuntime
