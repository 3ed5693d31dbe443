import V8JsiRuntime.Inspector.Sha1
import V8JsiRuntime.Inspector.Base64

/-!
# AcceptUpgrade — the answer to a client's key

`generate_accept_string` hashes the key of the client and encodes the digest, and
`HttpHandler::AcceptUpgrade` puts the result into its reply.
-/

namespace V8JsiRuntime
namespace Inspector

open Lib

/-! ## The reply -/

/-- `ACCEPT_KEY_LENGTH` -/
def acceptKeyLength : UInt64 :=
  base64EncodedSize 20

def wsMagic : Bytes :=
  ascii "258EAFA5-E914-47DA-95CA-C5AB0DC85B11"

/-- What the local arrays hold before something is stored in them. -/
structure Uninitialised where
  buf : Vector UInt8 64
  digest : Vector UInt8 20
  acceptString : Vector UInt8 28

def generateAcceptString (clientKey : Bytes) (stack : Uninitialised) (buffer : Bytes) :
    Except Fault Bytes := do
  let input := clientKey ++ wsMagic
  let ctx := (Sha1.init stack.buf).update input
  let digest ← ctx.finish stack.digest.toList
  let (buffer, _) ← base64Encode digest 20 buffer acceptKeyLength
  return buffer

def acceptWsPrefix : Bytes :=
  ascii "HTTP/1.1 101 Switching Protocols\r\n" ++
    ascii "Upgrade: websocket\r\n" ++
    ascii "Connection: Upgrade\r\n" ++
    ascii "Sec-WebSocket-Accept: "

def acceptWsSuffix : Bytes :=
  ascii "\r\n\r\n"

/-- What `AcceptUpgrade` hands to `WriteRaw`. -/
def acceptUpgradeReply (acceptKey : Bytes) (stack : Uninitialised) : Except Fault Bytes := do
  let acceptString ← generateAcceptString acceptKey stack stack.acceptString.toList
  return acceptWsPrefix ++ acceptString ++ acceptWsSuffix

/-! ## The answer -/

/-- The answer that a client expects to its key. -/
def acceptString (clientKey : Bytes) : Bytes :=
  Base64.encode (Lib.Sha1.hash (clientKey ++ ascii "258EAFA5-E914-47DA-95CA-C5AB0DC85B11"))

/-- The buffer is filled with the answer, and the reply has it behind the name of its field. -/
structure Accepted (clientKey : Bytes) (stack : Uninitialised) : Prop where
  length : (acceptString clientKey).length = 28
  filled : ∀ buffer : Vector UInt8 28,
    generateAcceptString clientKey stack buffer.toList = .ok (acceptString clientKey)
  reply : ∃ start, acceptUpgradeReply clientKey stack =
    .ok (start ++ ascii "Sec-WebSocket-Accept: " ++ acceptString clientKey ++ ascii "\r\n\r\n")

theorem length_hash (message : Bytes) : (Lib.Sha1.hash message).length = 20 :=
  Lib.Sha1.length_bytes _

theorem length_acceptString (clientKey : Bytes) : (acceptString clientKey).length = 28 := by
  rw [acceptString, Base64.length_encode, length_hash]
  rfl

theorem generateAcceptString_eq (clientKey : Bytes) (stack : Uninitialised)
    (buffer : Vector UInt8 28) :
    generateAcceptString clientKey stack buffer.toList = .ok (acceptString clientKey) := by
  have hlength := length_acceptString clientKey
  have hdigest := Sha1.finish_update_init stack.buf (clientKey ++ wsMagic) stack.digest
  have hhash := length_hash (clientKey ++ wsMagic)
  have hroom : (Base64.encode (Lib.Sha1.hash (clientKey ++ wsMagic))).length ≤
      buffer.toList.length := by
    rw [Vector.length_toList]
    exact Nat.le_of_eq hlength
  have hencoded := @base64Encode_eq _ buffer.toList 20 acceptKeyLength hhash.symm (by omega) hroom
  -- nothing is left of the buffer
  have hnone : buffer.toList.drop
      (Base64.encode (Lib.Sha1.hash (clientKey ++ wsMagic))).length = [] := by
    apply List.drop_of_length_le
    rw [Vector.length_toList]
    exact Nat.le_of_eq hlength.symm
  rw [hnone, List.append_nil] at hencoded
  rw [generateAcceptString, hdigest, ok_bind, hencoded, ok_bind]
  rfl

/-- Any key is answered, whatever the arrays hold in the beginning. -/
theorem acceptUpgrade_accepted (clientKey : Bytes) (stack : Uninitialised) :
    Accepted clientKey stack where
  length := length_acceptString clientKey
  filled := generateAcceptString_eq clientKey stack
  reply := by
    refine ⟨ascii "HTTP/1.1 101 Switching Protocols\r\n" ++ ascii "Upgrade: websocket\r\n" ++
      ascii "Connection: Upgrade\r\n", ?_⟩
    rw [acceptUpgradeReply, generateAcceptString_eq, ok_bind]
    rfl

example :
    generateAcceptString (ascii "dGhlIHNhbXBsZSBub25jZQ==")
      ⟨Vector.replicate 64 1, Vector.replicate 20 2, Vector.replicate 28 3⟩ (List.replicate 28 3) =
        .ok (ascii "s3pPLMBiTxaQ9kYGzzhZRbK+xOo=") := by
  decide +kernel

end Inspector
end V8JsiRuntime
