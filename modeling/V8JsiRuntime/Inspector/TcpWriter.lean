import V8JsiRuntime.Lib.Run
import V8JsiRuntime.Lib.Threads
import V8JsiRuntime.Inspector.Utils

/-!
# TcpWriter — the outgoing queue of a connection

Any thread may call `write_async`, which pushes a message and calls `do_write`; the completion of a
send calls it again.  The lock covers the push and the test of `writing_`, each on its own; the
message is stored and the send started outside of it.
-/

namespace V8JsiRuntime
namespace Inspector

open Lib

/-! ## Data -/

/-- Where a thread is in `write_async` and `do_write`. -/
inductive WriterPlace
  | idle
  /-- Before the critical section of `do_write`. -/
  | doWrite (cont : Bool)
  /-- Before the assignment of `messageToWrite_`. -/
  | assign (message : Bytes)
  /-- Before `async_send`. -/
  | asyncSend
  deriving DecidableEq, Repr

/-- The members of a `tcp_connection` that its writes use, and the threads in it. -/
structure TcpWriter where
  outQueue : List Bytes
  messageToWrite : Bytes
  writing : Bool
  threads : Nat → WriterPlace
  /-- What each outstanding `async_send` was given. -/
  sends : List Bytes
  /-- History: the messages pushed. -/
  pushed : List Bytes
  /-- History: what each `async_send` was given. -/
  sent : List Bytes
  /-- History: what each send that completed has transmitted. -/
  accepted : List Bytes
  /-- History: a send completed with an error. -/
  failed : Bool

namespace TcpWriter

def init : TcpWriter where
  outQueue := []
  messageToWrite := []
  writing := false
  threads := fun _ => .idle
  sends := []
  pushed := []
  sent := []
  accepted := []
  failed := false

/-! ## The code -/

def goto (w : TcpWriter) (thread : Nat) (place : WriterPlace) : TcpWriter :=
  { w with threads := Function.update w.threads thread place }

/-- `write_async` up to its call of `do_write`. -/
def writeAsync (w : TcpWriter) (thread : Nat) (message : Bytes) : TcpWriter :=
  { w.goto thread (.doWrite false) with
    outQueue := w.outQueue ++ [message]
    pushed := w.pushed ++ [message] }

/-- The critical section of `do_write`. -/
def doWrite (w : TcpWriter) (thread : Nat) (cont : Bool) : TcpWriter :=
  -- another thread is writing, and its handler will take the message
  if ¬ cont ∧ w.writing then
    w.goto thread .idle
  else
    match w.outQueue with
    -- nothing is left to write
    | [] => { w.goto thread .idle with writing := false }
    | message :: outQueue =>
        { w.goto thread (.assign message) with outQueue := outQueue, writing := true }

theorem doWrite_sends (w : TcpWriter) (thread : Nat) (cont : Bool) :
    (w.doWrite thread cont).sends = w.sends := by
  unfold doWrite
  split
  · rfl
  · split <;> rfl

theorem doWrite_failed (w : TcpWriter) (thread : Nat) (cont : Bool) :
    (w.doWrite thread cont).failed = w.failed := by
  unfold doWrite
  split
  · rfl
  · split <;> rfl

/-- The next statement of a thread. -/
def next (w : TcpWriter) (thread : Nat) : Option TcpWriter :=
  match w.threads thread with
  | .idle => none
  | .doWrite cont => some (w.doWrite thread cont)
  -- behind the critical section, without the mutex
  | .assign message => some { w.goto thread .asyncSend with messageToWrite := message }
  | .asyncSend =>
      -- the buffer is whatever `messageToWrite_` holds by now
      some { w.goto thread .idle with
        sends := w.sends ++ [w.messageToWrite]
        sent := w.sent ++ [w.messageToWrite] }

/-- A send completes, and its handler calls `do_write(true)`.  The transport transmits a part that is
empty only if the message is. -/
def complete (w : TcpWriter) (thread bytesTransferred : Nat) : Option TcpWriter :=
  match w.sends with
  | [] => none
  | message :: sends =>
      if bytesTransferred ≤ message.length ∧ (bytesTransferred = 0 → message = []) then
        some { w.goto thread (.doWrite true) with
          sends := sends
          accepted := w.accepted ++ [message.take bytesTransferred] }
      else
        none

/-- A send completes with an error, and its handler does nothing. -/
def fail (w : TcpWriter) : Option TcpWriter :=
  match w.sends with
  | [] => none
  | _ :: sends => some { w with sends := sends, failed := true }

end TcpWriter

inductive WriterLabel
  | writeAsync (thread : Nat) (message : Bytes)
  | next (thread : Nat)
  | complete (thread bytesTransferred : Nat)
  | fail (thread : Nat)
  deriving DecidableEq, Repr

namespace TcpWriter

/-- One step; a call or a handler begins on a thread that is not in `do_write`. -/
def step (w : TcpWriter) : WriterLabel → Option TcpWriter
  | .writeAsync thread message =>
      if w.threads thread = .idle then some (w.writeAsync thread message) else none
  | .next thread => w.next thread
  | .complete thread bytesTransferred =>
      if w.threads thread = .idle then w.complete thread bytesTransferred else none
  | .fail thread => if w.threads thread = .idle then w.fail else none

/-! ## What a step can do -/

/-- The steps, each with what it needs. -/
inductive Transition (w : TcpWriter) : WriterLabel → TcpWriter → Prop
  | writeAsync {thread : Nat} (message : Bytes) (hidle : w.threads thread = .idle) :
      Transition w (.writeAsync thread message) (w.writeAsync thread message)
  | doWrite {thread : Nat} {cont : Bool} (hplace : w.threads thread = .doWrite cont) :
      Transition w (.next thread) (w.doWrite thread cont)
  | assign {thread : Nat} {message : Bytes} (hplace : w.threads thread = .assign message) :
      Transition w (.next thread) { w.goto thread .asyncSend with messageToWrite := message }
  | asyncSend {thread : Nat} (hplace : w.threads thread = .asyncSend) :
      Transition w (.next thread) { w.goto thread .idle with
        sends := w.sends ++ [w.messageToWrite]
        sent := w.sent ++ [w.messageToWrite] }
  | complete {thread bytesTransferred : Nat} {message : Bytes} {sends : List Bytes}
      (hsends : w.sends = message :: sends) (hle : bytesTransferred ≤ message.length)
      (hpart : bytesTransferred = 0 → message = []) (hidle : w.threads thread = .idle) :
      Transition w (.complete thread bytesTransferred) { w.goto thread (.doWrite true) with
        sends := sends
        accepted := w.accepted ++ [message.take bytesTransferred] }
  | fail {thread : Nat} {message : Bytes} {sends : List Bytes}
      (hsends : w.sends = message :: sends) (hidle : w.threads thread = .idle) :
      Transition w (.fail thread) { w with sends := sends, failed := true }

variable {w w' : TcpWriter} {thread : Nat}

theorem transition_next (hnext : w.next thread = some w') : w.Transition (.next thread) w' := by
  unfold TcpWriter.next at hnext
  cases hplace : w.threads thread with
  | idle =>
      rw [hplace] at hnext
      cases hnext
  | doWrite cont =>
      rw [hplace] at hnext
      obtain rfl := Option.some.inj hnext
      exact .doWrite hplace
  | assign message =>
      rw [hplace] at hnext
      obtain rfl := Option.some.inj hnext
      exact .assign hplace
  | asyncSend =>
      rw [hplace] at hnext
      obtain rfl := Option.some.inj hnext
      exact .asyncSend hplace

theorem transition_complete {bytesTransferred : Nat} (hidle : w.threads thread = .idle)
    (hcomplete : w.complete thread bytesTransferred = some w') :
    w.Transition (.complete thread bytesTransferred) w' := by
  unfold TcpWriter.complete at hcomplete
  split at hcomplete
  · cases hcomplete
  · rename_i message sends hsends
    split at hcomplete
    · rename_i hpart
      obtain rfl := Option.some.inj hcomplete
      exact .complete hsends hpart.1 hpart.2 hidle
    · cases hcomplete

theorem transition_fail (hidle : w.threads thread = .idle) (hfail : w.fail = some w') :
    w.Transition (.fail thread) w' := by
  unfold TcpWriter.fail at hfail
  split at hfail
  · cases hfail
  · rename_i message sends hsends
    obtain rfl := Option.some.inj hfail
    exact .fail hsends hidle

theorem transition_of_step {label : WriterLabel} (hstep : w.step label = some w') :
    w.Transition label w' := by
  cases label with
  | writeAsync thread message =>
      rw [TcpWriter.step] at hstep
      split at hstep
      · rename_i hidle
        obtain rfl := Option.some.inj hstep
        exact .writeAsync message hidle
      · cases hstep
  | next thread => exact transition_next hstep
  | complete thread bytesTransferred =>
      rw [TcpWriter.step] at hstep
      split at hstep
      · rename_i hidle
        exact transition_complete hidle hstep
      · cases hstep
  | fail thread =>
      rw [TcpWriter.step] at hstep
      split at hstep
      · rename_i hidle
        exact transition_fail hidle hstep
      · cases hstep

end TcpWriter

end Inspector
end V8JsiRuntime
