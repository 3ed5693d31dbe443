import V8JsiRuntime.Inspector.TcpWriter

/-!
# WriteQueue — one send at a time, in the order of the messages

`writing_` is set when a thread takes a message out of the queue and stays set until the completion
of a send finds the queue empty.  `Phase` says which thread, or which send, it stands for; from it
follow the order of the messages and that none is stranded, and, for the bytes, when a send that
transmitted only a part does harm.
-/

namespace V8JsiRuntime
namespace Inspector

open Lib

/-- The thread is not in `do_write`, or it is about to call it for a message that it pushed. -/
def WriterPlace.Waits (place : WriterPlace) : Prop :=
  place = .idle ∨ place = .doWrite false

theorem WriterPlace.waits_idle : idle.Waits :=
  Or.inl rfl

theorem WriterPlace.waits_doWrite : (doWrite false).Waits :=
  Or.inr rfl

namespace TcpWriter

/-! ## The invariant -/

/-- Who writes. -/
inductive Phase (w : TcpWriter) : Prop
  | free : w.writing = false → w.sends = [] → AllAt WriterPlace.Waits w.threads →
      (w.outQueue ≠ [] → ∃ thread, w.threads thread = .doWrite false) →
        w.pushed = w.sent ++ w.outQueue → Phase w
  | assigning {thread : Nat} {message : Bytes} : w.writing = true → w.sends = [] →
      OnlyAt WriterPlace.Waits w.threads thread (.assign message) →
        w.pushed = w.sent ++ message :: w.outQueue → Phase w
  | starting {thread : Nat} : w.writing = true → w.sends = [] →
      OnlyAt WriterPlace.Waits w.threads thread .asyncSend →
        w.pushed = w.sent ++ w.messageToWrite :: w.outQueue → Phase w
  | sending : w.writing = true → w.sends = [w.messageToWrite] →
      AllAt WriterPlace.Waits w.threads → w.pushed = w.sent ++ w.outQueue → Phase w
  | completed {thread : Nat} : w.writing = true → w.sends = [] →
      OnlyAt WriterPlace.Waits w.threads thread (.doWrite true) →
        w.pushed = w.sent ++ w.outQueue → Phase w
  /-- A send failed, and `writing_` stays set for ever. -/
  | stuck : w.failed = true → w.writing = true → w.sends = [] →
      AllAt WriterPlace.Waits w.threads → w.pushed = w.sent ++ w.outQueue → Phase w

theorem Phase.init : init.Phase :=
  .free rfl rfl (fun _ => WriterPlace.waits_idle) (fun h => absurd rfl h) rfl

theorem append_pushed {pushed sent outQueue : List Bytes} (h : pushed = sent ++ outQueue)
    (message : Bytes) : pushed ++ [message] = sent ++ (outQueue ++ [message]) := by
  rw [h, List.append_assoc]

theorem Phase.writeAsync {w : TcpWriter} (h : w.Phase) {thread : Nat} (message : Bytes)
    (hidle : w.threads thread = .idle) : (w.writeAsync thread message).Phase := by
  cases h with
  | free hwriting hsends hall _ hpushed =>
      exact .free hwriting hsends (hall.update WriterPlace.waits_doWrite)
        (fun _ => ⟨thread, Function.update_self _ _ _⟩) (append_pushed hpushed message)
  | assigning hwriting hsends honly hpushed =>
      exact .assigning hwriting hsends
        (honly.update_other (honly.ne_of_place hidle nofun) WriterPlace.waits_doWrite)
        (append_pushed hpushed message)
  | starting hwriting hsends honly hpushed =>
      exact .starting hwriting hsends
        (honly.update_other (honly.ne_of_place hidle nofun) WriterPlace.waits_doWrite)
        (append_pushed hpushed message)
  | sending hwriting hsends hall hpushed =>
      exact .sending hwriting hsends (hall.update WriterPlace.waits_doWrite)
        (append_pushed hpushed message)
  | completed hwriting hsends honly hpushed =>
      exact .completed hwriting hsends
        (honly.update_other (honly.ne_of_place hidle nofun) WriterPlace.waits_doWrite)
        (append_pushed hpushed message)
  | stuck hfailed hwriting hsends hall hpushed =>
      exact .stuck hfailed hwriting hsends (hall.update WriterPlace.waits_doWrite)
        (append_pushed hpushed message)

/-! ### `do_write` -/

theorem doWrite_writing {w : TcpWriter} (hwriting : w.writing = true) (thread : Nat) :
    w.doWrite thread false = w.goto thread .idle := by
  rw [doWrite, if_pos ⟨Bool.false_ne_true, hwriting⟩]

/-- A call that is not stopped by `writing_` gives it up, or takes the next message. -/
theorem doWrite_eq {w : TcpWriter} {cont : Bool} (h : cont = true ∨ w.writing = false)
    (thread : Nat) :
    (w.outQueue = [] ∧ w.doWrite thread cont = { w.goto thread .idle with writing := false }) ∨
    ∃ message outQueue, w.outQueue = message :: outQueue ∧ w.doWrite thread cont =
      { w.goto thread (.assign message) with outQueue := outQueue, writing := true } := by
  have hgate : ¬ (¬ cont = true ∧ w.writing = true) := by
    rintro ⟨hcont, hwriting⟩
    rcases h with h | h
    · exact hcont h
    · rw [h] at hwriting
      cases hwriting
  rw [doWrite, if_neg hgate]
  cases hqueue : w.outQueue with
  | nil => exact Or.inl ⟨rfl, rfl⟩
  | cons message outQueue => exact Or.inr ⟨message, outQueue, rfl, rfl⟩

/-- The call of a thread that pushed, while another thread or a send has `writing_`. -/
theorem Phase.doWrite_false {w : TcpWriter} (h : w.Phase) {thread : Nat}
    (hplace : w.threads thread = .doWrite false) : (w.doWrite thread false).Phase := by
  cases h with
  | free hwriting hsends hall hwaiting hpushed =>
      -- nobody writes, so this thread begins, if its message was not taken by another one
      rcases doWrite_eq (Or.inr hwriting) thread with ⟨hqueue, heq⟩ | ⟨m, outQueue, hqueue, heq⟩
      · rw [heq]
        exact .free rfl hsends (hall.update WriterPlace.waits_idle)
          (fun hne => absurd hqueue hne) hpushed
      · rw [heq]
        exact .assigning rfl hsends hall.enter (hqueue ▸ hpushed)
  -- somebody writes already, and comes back for the message
  | assigning hwriting hsends honly hpushed =>
      rw [doWrite_writing hwriting]
      exact .assigning hwriting hsends
        (honly.update_other (honly.ne_of_place hplace nofun) WriterPlace.waits_idle) hpushed
  | starting hwriting hsends honly hpushed =>
      rw [doWrite_writing hwriting]
      exact .starting hwriting hsends
        (honly.update_other (honly.ne_of_place hplace nofun) WriterPlace.waits_idle) hpushed
  | sending hwriting hsends hall hpushed =>
      rw [doWrite_writing hwriting]
      exact .sending hwriting hsends (hall.update WriterPlace.waits_idle) hpushed
  | completed hwriting hsends honly hpushed =>
      rw [doWrite_writing hwriting]
      exact .completed hwriting hsends
        (honly.update_other (honly.ne_of_place hplace (by simp)) WriterPlace.waits_idle) hpushed
  | stuck hfailed hwriting hsends hall hpushed =>
      rw [doWrite_writing hwriting]
      exact .stuck hfailed hwriting hsends (hall.update WriterPlace.waits_idle) hpushed

theorem not_waits_doWrite_true : ¬ (WriterPlace.doWrite true).Waits := by
  simp [WriterPlace.Waits]

theorem not_waits_assign (message : Bytes) : ¬ (WriterPlace.assign message).Waits := by
  simp [WriterPlace.Waits]

theorem not_waits_asyncSend : ¬ WriterPlace.asyncSend.Waits := by
  simp [WriterPlace.Waits]

/-- A thread at a place where it writes is the one that the phase is about. -/
theorem Phase.of_place {w : TcpWriter} (h : w.Phase) {thread : Nat} {place : WriterPlace}
    (hplace : w.threads thread = place) (hwrites : ¬ place.Waits) :
    w.writing = true ∧ w.sends = [] ∧ OnlyAt WriterPlace.Waits w.threads thread place ∧
      ((∃ message, place = .assign message ∧ w.pushed = w.sent ++ message :: w.outQueue) ∨
        (place = .asyncSend ∧ w.pushed = w.sent ++ w.messageToWrite :: w.outQueue) ∨
        (place = .doWrite true ∧ w.pushed = w.sent ++ w.outQueue)) := by
  have hnot : ¬ (w.threads thread).Waits := hplace ▸ hwrites
  cases h with
  | free _ _ hall => exact absurd (hall thread) hnot
  | sending _ _ hall => exact absurd (hall thread) hnot
  | stuck _ _ _ hall => exact absurd (hall thread) hnot
  | assigning hwriting hsends honly hpushed =>
      obtain rfl := honly.eq_of_not hnot
      obtain rfl := honly.1.symm.trans hplace
      exact ⟨hwriting, hsends, honly, Or.inl ⟨_, rfl, hpushed⟩⟩
  | starting hwriting hsends honly hpushed =>
      obtain rfl := honly.eq_of_not hnot
      obtain rfl := honly.1.symm.trans hplace
      exact ⟨hwriting, hsends, honly, Or.inr (Or.inl ⟨rfl, hpushed⟩)⟩
  | completed hwriting hsends honly hpushed =>
      obtain rfl := honly.eq_of_not hnot
      obtain rfl := honly.1.symm.trans hplace
      exact ⟨hwriting, hsends, honly, Or.inr (Or.inr ⟨rfl, hpushed⟩)⟩

theorem Phase.doWrite_true {w : TcpWriter} (h : w.Phase) {thread : Nat}
    (hplace : w.threads thread = .doWrite true) : (w.doWrite thread true).Phase := by
  obtain ⟨_, hsends, honly, hpushed⟩ := h.of_place hplace not_waits_doWrite_true
  simp only [reduceCtorEq, false_and, exists_false, false_or, true_and] at hpushed
  rcases doWrite_eq (w := w) (Or.inl rfl) thread with ⟨hqueue, heq⟩ | ⟨m, outQueue, hqueue, heq⟩
  · rw [heq]
    exact .free rfl hsends (honly.leave WriterPlace.waits_idle)
      (fun hne => absurd hqueue hne) hpushed
  · rw [heq]
    exact .assigning rfl hsends honly.move (hqueue ▸ hpushed)

theorem Phase.assign {w : TcpWriter} (h : w.Phase) {thread : Nat} {message : Bytes}
    (hplace : w.threads thread = .assign message) :
    { w.goto thread .asyncSend with messageToWrite := message }.Phase := by
  obtain ⟨hwriting, hsends, honly, hpushed⟩ := h.of_place hplace (not_waits_assign message)
  have hpushed : w.pushed = w.sent ++ message :: w.outQueue := by simpa using hpushed
  exact .starting hwriting hsends honly.move hpushed

theorem Phase.asyncSend {w : TcpWriter} (h : w.Phase) {thread : Nat}
    (hplace : w.threads thread = .asyncSend) :
    { w.goto thread .idle with
      sends := w.sends ++ [w.messageToWrite]
      sent := w.sent ++ [w.messageToWrite] }.Phase := by
  obtain ⟨hwriting, hsends, honly, hpushed⟩ := h.of_place hplace not_waits_asyncSend
  have hpushed : w.pushed = w.sent ++ w.messageToWrite :: w.outQueue := by simpa using hpushed
  refine .sending hwriting ?_ (honly.leave WriterPlace.waits_idle) ?_
  · show w.sends ++ [w.messageToWrite] = [w.messageToWrite]
    rw [hsends, List.nil_append]
  · show w.pushed = w.sent ++ [w.messageToWrite] ++ w.outQueue
    rw [hpushed, List.append_assoc, List.singleton_append]

/-! ### Completions -/

/-- A send is outstanding only in one phase. -/
theorem Phase.of_sends {w : TcpWriter} (h : w.Phase) {message : Bytes} {sends : List Bytes}
    (hsends : w.sends = message :: sends) :
    w.writing = true ∧ w.messageToWrite = message ∧ sends = [] ∧
      AllAt WriterPlace.Waits w.threads ∧ w.pushed = w.sent ++ w.outQueue := by
  cases h with
  | free _ hnone => cases hnone.symm.trans hsends
  | assigning _ hnone => cases hnone.symm.trans hsends
  | starting _ hnone => cases hnone.symm.trans hsends
  | completed _ hnone => cases hnone.symm.trans hsends
  | stuck _ _ hnone => cases hnone.symm.trans hsends
  | sending hwriting hone hall hpushed =>
      obtain ⟨hmessage, hnil⟩ := List.cons.inj (hone.symm.trans hsends)
      exact ⟨hwriting, hmessage, hnil.symm, hall, hpushed⟩

theorem Phase.step {w w' : TcpWriter} {label : WriterLabel} (h : w.Phase)
    (hstep : w.step label = some w') : w'.Phase := by
  cases transition_of_step hstep with
  | writeAsync message hidle => exact h.writeAsync message hidle
  | @doWrite thread cont hplace =>
      cases cont with
      | false => exact h.doWrite_false hplace
      | true => exact h.doWrite_true hplace
  | assign hplace => exact h.assign hplace
  | asyncSend hplace => exact h.asyncSend hplace
  | complete hsends =>
      obtain ⟨hwriting, _, hnil, hall, hpushed⟩ := h.of_sends hsends
      exact .completed hwriting hnil hall.enter hpushed
  | fail hsends =>
      -- the handler of a send that failed does not call `do_write`
      obtain ⟨hwriting, _, hnil, hall, hpushed⟩ := h.of_sends hsends
      exact .stuck rfl hwriting hnil hall hpushed

theorem phase_of_run {labels : List WriterLabel} {w : TcpWriter}
    (hrun : Run TcpWriter.step TcpWriter.init labels w) : w.Phase :=
  Run.invariant (P := Phase) Phase.init (fun _ _ _ h hstep => h.step hstep) hrun

/-! ## Order -/

theorem step_failed {w w' : TcpWriter} {label : WriterLabel}
    (hlabel : ∀ thread, label ≠ .fail thread) (hstep : w.step label = some w') :
    w'.failed = w.failed := by
  cases transition_of_step hstep with
  | doWrite hplace => exact w.doWrite_failed _ _
  | @fail thread => exact absurd rfl (hlabel thread)
  | _ => rfl

theorem not_failed_of_run {labels : List WriterLabel} {w : TcpWriter}
    (hfail : ∀ thread, .fail thread ∉ labels)
    (hrun : Run TcpWriter.step TcpWriter.init labels w) : w.failed = false := by
  refine Run.induction (motive := fun labels w => (∀ thread, .fail thread ∉ labels) →
    w.failed = false) (fun _ => rfl) ?_ hrun hfail
  intro labels w label w' _ hstep ih hfail
  have hlabel : ∀ thread, label ≠ .fail thread := by
    rintro thread rfl
    exact hfail thread (List.mem_append_right _ (List.mem_singleton_self _))
  rw [step_failed hlabel hstep]
  exact ih fun thread hmem => hfail thread (List.mem_append_left _ hmem)

/-- A message is on its way: a send is being started, is outstanding, or its completion has still to
call `do_write(true)`. -/
def Writes (w : TcpWriter) : Prop :=
  w.sends ≠ [] ∨ ∃ thread, ¬ (w.threads thread).Waits

/-- What the queue is to guarantee. -/
structure WritesInOrder (w : TcpWriter) : Prop where
  one : w.sends.length ≤ 1
  /-- While a send is outstanding `messageToWrite_` is what it was given, and no thread is about to
  replace it. -/
  steady : ∀ message ∈ w.sends, w.messageToWrite = message ∧
    ∀ thread other, w.threads thread ≠ .assign other
  /-- The sends started carry the first messages pushed, in their order. -/
  order : w.sent <+: w.pushed
  /-- When nothing moves any more, every message was sent once. -/
  all : (∀ thread, w.threads thread = .idle) → w.sends = [] → w.sent = w.pushed
  notStranded : w.outQueue ≠ [] →
    (w.writing = true ∧ w.Writes) ∨ ∃ thread, w.threads thread = .doWrite false

theorem Phase.writes {w : TcpWriter} (h : w.Phase) (hfailed : w.failed = false) :
    w.WritesInOrder := by
  have hinitial : ∀ rest, w.pushed = w.sent ++ rest → w.sent <+: w.pushed :=
    fun rest hpushed => ⟨rest, hpushed.symm⟩
  -- a thread that writes is not at rest
  have hmoves : ∀ {thread place}, OnlyAt WriterPlace.Waits w.threads thread place →
      ¬ place.Waits → (∀ thread, w.threads thread = .idle) → w.sent = w.pushed := by
    intro thread place honly hwrites hidle
    rw [← honly.1, hidle thread] at hwrites
    exact absurd WriterPlace.waits_idle hwrites
  cases h with
  | free hwriting hsends hall hwaiting hpushed =>
      refine ⟨by simp [hsends], by simp [hsends], hinitial _ hpushed, fun hidle _ => ?_,
        fun hne => Or.inr (hwaiting hne)⟩
      -- a message in the queue has a thread that is about to write it
      by_cases hqueue : w.outQueue = []
      · rw [hpushed, hqueue, List.append_nil]
      · obtain ⟨thread, hthread⟩ := hwaiting hqueue
        cases (hidle thread).symm.trans hthread
  | @assigning thread message hwriting hsends honly hpushed =>
      refine ⟨by simp [hsends], by simp [hsends], hinitial _ hpushed,
        fun hidle _ => hmoves honly (not_waits_assign message) hidle,
        fun _ => Or.inl ⟨hwriting, Or.inr ⟨thread, ?_⟩⟩⟩
      rw [honly.1]
      exact not_waits_assign message
  | @starting thread hwriting hsends honly hpushed =>
      refine ⟨by simp [hsends], by simp [hsends], hinitial _ hpushed,
        fun hidle _ => hmoves honly not_waits_asyncSend hidle,
        fun _ => Or.inl ⟨hwriting, Or.inr ⟨thread, ?_⟩⟩⟩
      rw [honly.1]
      exact not_waits_asyncSend
  | sending hwriting hsends hall hpushed =>
      have hnone : w.sends ≠ [] := by simp [hsends]
      -- while a send is outstanding no thread is at a place where it assigns
      refine ⟨by simp [hsends], fun message hmem => ⟨?_, fun thread other heq => ?_⟩,
        hinitial _ hpushed, fun _ hempty => absurd hempty hnone,
        fun _ => Or.inl ⟨hwriting, Or.inl hnone⟩⟩
      · rw [hsends, List.mem_singleton] at hmem
        exact hmem.symm
      · exact not_waits_assign other (heq ▸ hall thread)
  | @completed thread hwriting hsends honly hpushed =>
      refine ⟨by simp [hsends], by simp [hsends], hinitial _ hpushed,
        fun hidle _ => hmoves honly not_waits_doWrite_true hidle,
        fun _ => Or.inl ⟨hwriting, Or.inr ⟨thread, ?_⟩⟩⟩
      rw [honly.1]
      exact not_waits_doWrite_true
  | stuck hfailed' => cases hfailed.symm.trans hfailed'

/-- After every run in which no send fails the queue keeps its guarantees. -/
theorem writesInOrder (labels : List WriterLabel) (w : TcpWriter)
    (hfail : ∀ thread, .fail thread ∉ labels)
    (hrun : Run TcpWriter.step TcpWriter.init labels w) : w.WritesInOrder :=
  (phase_of_run hrun).writes (not_failed_of_run hfail hrun)

/-- Two threads push; the second message is sent when the first send completes. -/
def twoMessages (bytesTransferred : Nat) : List WriterLabel :=
  [.writeAsync 0 (ascii "ab"), .writeAsync 1 (ascii "c"), .next 0, .next 1, .next 0, .next 0,
    .complete 2 bytesTransferred, .next 2, .next 2, .next 2]

theorem writesInOrder_twoMessages :
    ∃ w, Run TcpWriter.step TcpWriter.init (twoMessages 2) w ∧ w.WritesInOrder :=
  ⟨_, rfl, writesInOrder (twoMessages 2) _ (by simp [twoMessages]) rfl⟩

/-! ## Bytes -/

/-- The thread has taken a message out of the queue and not started its send. -/
def AtStart (w : TcpWriter) (thread : Nat) : Prop :=
  w.threads thread = .asyncSend ∨ ∃ message, w.threads thread = .assign message

/-- What the transport has accepted is a prefix of what was pushed, and a message is taken out of the
queue only when all sends before have transmitted everything. -/
structure Intact (w : TcpWriter) : Prop where
  stream : w.accepted.flatten <+: w.pushed.flatten
  whole : ∀ thread, w.AtStart thread → w.accepted = w.sent

/-- A send that transmits a part of its message finds the queue empty when it completes, and nothing
is written after it. -/
def PartIsLast (w : TcpWriter) : WriterLabel → Prop
  | .writeAsync _ _ => w.accepted <+: w.sent
  | .complete _ bytesTransferred =>
      w.outQueue = [] ∨ ∀ message ∈ w.sends, bytesTransferred = message.length
  | _ => True

instance (w : TcpWriter) (label : WriterLabel) : Decidable (w.PartIsLast label) :=
  match label with
  | .writeAsync _ _ => inferInstanceAs (Decidable (_ <+: _))
  | .complete _ _ => inferInstanceAs (Decidable (_ ∨ _))
  | .next _ => inferInstanceAs (Decidable True)
  | .fail _ => inferInstanceAs (Decidable True)

/-- How far the transport is. -/
inductive StreamInv (w : TcpWriter) : Prop
  | even : w.sends = [] → w.accepted = w.sent → StreamInv w
  | sending {message : Bytes} : w.writing = true → w.sends = [message] →
      AllAt WriterPlace.Waits w.threads → w.sent = w.accepted ++ [message] → StreamInv w
  /-- The last send transmitted a part. -/
  | part : w.sends = [] → w.outQueue = [] → (∀ thread, ¬ w.AtStart thread) →
      w.accepted.flatten <+: w.sent.flatten → ¬ w.accepted <+: w.sent → StreamInv w
  | stuck : w.sends = [] → w.writing = true → AllAt WriterPlace.Waits w.threads →
      w.accepted <+: w.sent → StreamInv w

theorem prefix_flatten {l l' : List Bytes} (h : l <+: l') : l.flatten <+: l'.flatten := by
  obtain ⟨rest, rfl⟩ := h
  rw [List.flatten_append]
  exact List.prefix_append _ _

theorem Phase.order {w : TcpWriter} (h : w.Phase) : w.sent <+: w.pushed := by
  cases h with
  | free _ _ _ _ hpushed => exact ⟨_, hpushed.symm⟩
  | assigning _ _ _ hpushed => exact ⟨_, hpushed.symm⟩
  | starting _ _ _ hpushed => exact ⟨_, hpushed.symm⟩
  | sending _ _ _ hpushed => exact ⟨_, hpushed.symm⟩
  | completed _ _ _ hpushed => exact ⟨_, hpushed.symm⟩
  | stuck _ _ _ _ hpushed => exact ⟨_, hpushed.symm⟩

theorem not_atStart_of_allWait {w : TcpWriter} (h : AllAt WriterPlace.Waits w.threads)
    (thread : Nat) : ¬ w.AtStart thread := by
  intro hstart
  have hwaits := h thread
  rcases hstart with hplace | ⟨message, hplace⟩
  · rw [hplace] at hwaits
    exact not_waits_asyncSend hwaits
  · rw [hplace] at hwaits
    exact not_waits_assign message hwaits

/-- A thread that does not go to a start was at it before. -/
theorem atStart_goto {w : TcpWriter} {thread other : Nat} {place : WriterPlace}
    (hwaits : place = .idle ∨ ∃ cont, place = .doWrite cont)
    (h : (w.goto thread place).AtStart other) : w.AtStart other := by
  by_cases heq : other = thread
  · subst heq
    rcases hwaits with rfl | ⟨cont, rfl⟩
    · simp [AtStart, goto] at h
    · simp [AtStart, goto] at h
  · simpa [AtStart, goto, Function.update_of_ne heq] using h

theorem StreamInv.of_atStart {w : TcpWriter} (h : w.StreamInv) {thread : Nat}
    (hstart : w.AtStart thread) : w.sends = [] ∧ w.accepted = w.sent := by
  cases h with
  | even hsends heven => exact ⟨hsends, heven⟩
  | sending _ _ hall _ => exact absurd hstart (not_atStart_of_allWait hall thread)
  | part _ _ hnone _ _ => exact absurd hstart (hnone thread)
  | stuck _ _ hall _ => exact absurd hstart (not_atStart_of_allWait hall thread)

theorem StreamInv.of_sends {w : TcpWriter} (h : w.StreamInv) {message : Bytes} {sends : List Bytes}
    (hsends : w.sends = message :: sends) :
    w.writing = true ∧ sends = [] ∧ AllAt WriterPlace.Waits w.threads ∧
      w.sent = w.accepted ++ [message] := by
  cases h with
  | even hnone _ => cases hnone.symm.trans hsends
  | part hnone _ _ _ _ => cases hnone.symm.trans hsends
  | stuck hnone _ _ _ => cases hnone.symm.trans hsends
  | sending hwriting hone hall hsent =>
      obtain ⟨rfl, rfl⟩ := List.cons.inj (hone.symm.trans hsends)
      exact ⟨hwriting, rfl, hall, hsent⟩

theorem StreamInv.intact {w : TcpWriter} (h : w.StreamInv) (hphase : w.Phase) : w.Intact := by
  refine ⟨?_, fun thread hstart => (h.of_atStart hstart).2⟩
  have hstream : w.accepted.flatten <+: w.sent.flatten := by
    cases h with
    | even _ heven => rw [heven]
    | sending _ _ _ hsent =>
        rw [hsent]
        exact prefix_flatten (List.prefix_append _ _)
    | part _ _ _ hstream _ => exact hstream
    | stuck _ _ _ hsent => exact prefix_flatten hsent
  exact hstream.trans (prefix_flatten hphase.order)

/-- While `writing_` is set and nobody is at a continuation, a call of `do_write` returns. -/
theorem doWrite_of_allWait {w : TcpWriter} (hwriting : w.writing = true)
    (hall : AllAt WriterPlace.Waits w.threads) {thread : Nat} {cont : Bool}
    (hplace : w.threads thread = .doWrite cont) : w.doWrite thread cont = w.goto thread .idle := by
  have hwaits := hall thread
  rw [hplace] at hwaits
  cases cont with
  | true => exact absurd hwaits not_waits_doWrite_true
  | false => exact doWrite_writing hwriting thread

theorem StreamInv.doWrite {w : TcpWriter} (h : w.StreamInv) {thread : Nat} {cont : Bool}
    (hplace : w.threads thread = .doWrite cont) : (w.doWrite thread cont).StreamInv := by
  cases h with
  | even hsends heven =>
      unfold TcpWriter.doWrite
      split
      · exact .even hsends heven
      · split
        · exact .even hsends heven
        · exact .even hsends heven
  | sending hwriting hsends hall hsent =>
      rw [doWrite_of_allWait hwriting hall hplace]
      exact .sending hwriting hsends (hall.update WriterPlace.waits_idle) hsent
  -- with an empty queue nobody comes to a start, and the writer rests behind the part
  | part hsends hqueue hnone hstream hpart =>
      have hleft : ∀ other, ¬ (w.goto thread .idle).AtStart other :=
        fun other hother => hnone other (atStart_goto (Or.inl rfl) hother)
      unfold TcpWriter.doWrite
      rw [hqueue]
      split
      · exact .part hsends hqueue hleft hstream hpart
      · exact .part hsends hqueue hleft hstream hpart
  | stuck hsends hwriting hall hsent =>
      rw [doWrite_of_allWait hwriting hall hplace]
      exact .stuck hsends hwriting (hall.update WriterPlace.waits_idle) hsent

theorem StreamInv.asyncSend {w : TcpWriter} (h : w.StreamInv) (hphase : w.Phase) {thread : Nat}
    (hplace : w.threads thread = .asyncSend) :
    { w.goto thread .idle with
      sends := w.sends ++ [w.messageToWrite]
      sent := w.sent ++ [w.messageToWrite] }.StreamInv := by
  obtain ⟨hsends, heven⟩ := h.of_atStart (Or.inl hplace)
  obtain ⟨hwriting, _, honly, _⟩ := hphase.of_place hplace not_waits_asyncSend
  have hsends' : w.sends ++ [w.messageToWrite] = [w.messageToWrite] := by
    rw [hsends, List.nil_append]
  have hsent : w.sent ++ [w.messageToWrite] = w.accepted ++ [w.messageToWrite] := by
    rw [heven]
  exact .sending hwriting hsends' (honly.leave WriterPlace.waits_idle) hsent

theorem StreamInv.writeAsync {w : TcpWriter} (h : w.StreamInv) (hwhole : w.accepted <+: w.sent)
    (thread : Nat) (message : Bytes) : (w.writeAsync thread message).StreamInv := by
  cases h with
  | even hsends heven => exact .even hsends heven
  | sending hwriting hsends hall hsent =>
      exact .sending hwriting hsends (hall.update WriterPlace.waits_doWrite) hsent
  | part _ _ _ _ hpart => exact absurd hwhole hpart
  | stuck hsends hwriting hall hsent =>
      exact .stuck hsends hwriting (hall.update WriterPlace.waits_doWrite) hsent

/-- Cut short, the last message is not the one that was sent. -/
theorem not_prefix_of_part {before : List Bytes} {message : Bytes} {count : Nat}
    (hle : count ≤ message.length) (hpart : count ≠ message.length) :
    ¬ before ++ [message.take count] <+: before ++ [message] := by
  intro h
  have hlength := congrArg List.length
    (List.cons_prefix_cons.1 ((List.prefix_append_right_inj before).1 h)).1
  rw [List.length_take_of_le hle] at hlength
  exact hpart hlength

theorem StreamInv.complete {w : TcpWriter} (h : w.StreamInv) {thread bytesTransferred : Nat}
    {message : Bytes} {sends : List Bytes} (hsends : w.sends = message :: sends)
    (hle : bytesTransferred ≤ message.length)
    (hlast : w.outQueue = [] ∨ ∀ message ∈ w.sends, bytesTransferred = message.length) :
    { w.goto thread (.doWrite true) with
      sends := sends
      accepted := w.accepted ++ [message.take bytesTransferred] }.StreamInv := by
  obtain ⟨_, rfl, hall, hsent⟩ := h.of_sends hsends
  by_cases hwhole : bytesTransferred = message.length
  -- everything was transmitted
  · refine .even rfl ?_
    show w.accepted ++ [message.take bytesTransferred] = w.sent
    rw [hwhole, List.take_length, hsent]
  -- only a part was, but nothing is to be written behind it
  · have hqueue : w.outQueue = [] :=
      hlast.resolve_right fun h => hwhole (h message (by simp [hsends]))
    refine .part rfl hqueue (fun other hother => ?_) ?_ ?_
    · exact not_atStart_of_allWait hall other (atStart_goto (Or.inr ⟨true, rfl⟩) hother)
    · show (w.accepted ++ [message.take bytesTransferred]).flatten <+: w.sent.flatten
      rw [hsent, List.flatten_append, List.flatten_append, List.flatten_singleton,
        List.flatten_singleton]
      exact (List.prefix_append_right_inj _).2 (List.take_prefix _ _)
    · show ¬ w.accepted ++ [message.take bytesTransferred] <+: w.sent
      rw [hsent]
      exact not_prefix_of_part hle hwhole

theorem StreamInv.step {w w' : TcpWriter} {label : WriterLabel} (h : w.StreamInv) (hphase : w.Phase)
    (hlabel : w.PartIsLast label) (hstep : w.step label = some w') : w'.StreamInv := by
  cases transition_of_step hstep with
  | @writeAsync thread message => exact h.writeAsync hlabel thread message
  | doWrite hplace => exact h.doWrite hplace
  | assign hplace =>
      obtain ⟨hsends, heven⟩ := h.of_atStart (Or.inr ⟨_, hplace⟩)
      exact .even hsends heven
  | asyncSend hplace => exact h.asyncSend hphase hplace
  | complete hsends hle => exact h.complete hsends hle hlabel
  | fail hsends =>
      obtain ⟨hwriting, rfl, hall, hsent⟩ := h.of_sends hsends
      exact .stuck rfl hwriting hall ⟨_, hsent.symm⟩

theorem streamInv_of_run {labels : List WriterLabel} {w : TcpWriter}
    (hrun : Run TcpWriter.step TcpWriter.init labels w)
    (halong : Along TcpWriter.step PartIsLast TcpWriter.init labels) : w.StreamInv := by
  have hboth : w.Phase ∧ w.StreamInv := by
    refine hrun.invariant_along (I := fun w => w.Phase ∧ w.StreamInv)
      ⟨Phase.init, .even rfl rfl⟩ ?_ halong
    intro w label w' ⟨hphase, h⟩ hlabel hstep
    exact ⟨hphase.step hstep, h.step hphase hlabel hstep⟩
  exact hboth.2

/-! ### Behind a part -/

/-- A message was sent in part, and there is more to send. -/
def MissesRest (w : TcpWriter) : Prop :=
  ¬ w.accepted <+: w.sent ∧ w.outQueue ≠ []

theorem missesRest_of_step {w w' : TcpWriter} {label : WriterLabel} (h : w.StreamInv)
    (hlabel : ¬ w.PartIsLast label) (hstep : w.step label = some w') : w'.MissesRest := by
  cases transition_of_step hstep with
  | writeAsync =>
      exact ⟨hlabel, List.append_ne_nil_of_right_ne_nil _ (List.cons_ne_nil _ _)⟩
  | @complete thread bytesTransferred message sends hsends hle =>
      obtain ⟨_, rfl, _, hsent⟩ := h.of_sends hsends
      obtain ⟨hqueue, hpart⟩ := not_or.1 hlabel
      refine ⟨?_, hqueue⟩
      show ¬ w.accepted ++ [message.take bytesTransferred] <+: w.sent
      rw [hsent]
      exact not_prefix_of_part hle (by simpa [hsends] using hpart)
  | doWrite | assign | asyncSend | fail => exact absurd trivial hlabel

theorem MissesRest.not_atStart {w : TcpWriter} (h : w.MissesRest) (hintact : w.Intact)
    (thread : Nat) : ¬ w.AtStart thread := by
  intro hstart
  refine h.1 ?_
  rw [hintact.whole thread hstart]

/-- The next message is sent without the rest, or still waits to be. -/
theorem MissesRest.step {w w' : TcpWriter} {label : WriterLabel} (h : w.MissesRest)
    (hintact : w.Intact) (hintact' : w'.Intact) (hstep : w.step label = some w') :
    w'.MissesRest := by
  cases transition_of_step hstep with
  | writeAsync =>
      exact ⟨h.1, List.append_ne_nil_of_right_ne_nil _ (List.cons_ne_nil _ _)⟩
  | @doWrite thread cont hplace =>
      by_cases hgate : cont = true ∨ w.writing = false
      · rcases doWrite_eq hgate thread with ⟨hempty, _⟩ | ⟨message, outQueue, _, heq⟩
        · exact absurd hempty h.2
        · -- the message is taken although the last one was not sent whole
          rw [heq] at hintact'
          have heven := hintact'.whole thread (Or.inr ⟨message, Function.update_self _ _ _⟩)
          refine absurd ?_ h.1
          exact (show w.accepted = w.sent from heven) ▸ List.prefix_rfl
      · obtain ⟨hcont, hwriting⟩ := not_or.1 hgate
        obtain rfl := Bool.eq_false_iff.2 hcont
        rw [doWrite_writing (by simpa using hwriting)]
        exact h
  | assign hplace => exact absurd (Or.inr ⟨_, hplace⟩) (h.not_atStart hintact _)
  | asyncSend hplace => exact absurd (Or.inl hplace) (h.not_atStart hintact _)
  | complete => exact ⟨fun hwhole => h.1 ((List.prefix_append _ _).trans hwhole), h.2⟩
  | fail => exact h

theorem along_or_missesRest {labels : List WriterLabel} {w : TcpWriter}
    (hrun : Run TcpWriter.step TcpWriter.init labels w)
    (hintact : Throughout TcpWriter.step Intact TcpWriter.init labels) :
    Along TcpWriter.step PartIsLast TcpWriter.init labels ∨ w.MissesRest := by
  refine Run.induction (motive := fun labels w =>
    Throughout TcpWriter.step Intact TcpWriter.init labels →
      Along TcpWriter.step PartIsLast TcpWriter.init labels ∨ w.MissesRest)
    (fun _ => Or.inl Along.nil) ?_ hrun hintact
  intro labels w label w' hrun hstep ih hintact
  have hbefore := hintact.of_append
  -- once a rest is missing, it stays so until the queue is empty, which is a contradiction then
  rcases ih hbefore with halong | hmisses
  · by_cases hlabel : w.PartIsLast label
    · exact Or.inl ((Along.concat_iff hrun).2 ⟨halong, hlabel⟩)
    · exact Or.inr (missesRest_of_step (streamInv_of_run hrun halong) hlabel hstep)
  · exact Or.inr (hmisses.step (hbefore.last hrun) (hintact.last (hrun.concat hstep)) hstep)

/-- In a run of the writer every state is intact if a send that transmits only a part is the last
one; and when everything has been taken out of the queue, only then. -/
theorem intact_iff (labels : List WriterLabel) (w : TcpWriter)
    (hrun : Run TcpWriter.step TcpWriter.init labels w) :
    (Along TcpWriter.step PartIsLast TcpWriter.init labels →
        Throughout TcpWriter.step Intact TcpWriter.init labels) ∧
      (w.outQueue = [] → Throughout TcpWriter.step Intact TcpWriter.init labels →
        Along TcpWriter.step PartIsLast TcpWriter.init labels) := by
  constructor
  · intro halong visited u hinitial hvisited
    exact (streamInv_of_run hvisited (halong.of_prefix hinitial)).intact (phase_of_run hvisited)
  · intro hqueue hintact
    exact (along_or_missesRest hrun hintact).resolve_right fun hmisses => hmisses.2 hqueue

theorem intact_twoMessages :
    ∃ w, Run TcpWriter.step TcpWriter.init (twoMessages 2) w ∧
      Throughout TcpWriter.step Intact TcpWriter.init (twoMessages 2) :=
  ⟨_, rfl, (intact_iff (twoMessages 2) _ rfl).1 (by decide +kernel)⟩

/-- Of the first message one byte is accepted, and the second one is sent. -/
theorem not_intact_twoMessages :
    ¬ ∀ (labels : List WriterLabel) (w : TcpWriter),
      Run TcpWriter.step TcpWriter.init labels w → w.Intact := by
  intro h
  have hintact := h (twoMessages 1 ++ [WriterLabel.complete 2 1]) _ rfl
  exact absurd hintact.stream (by decide)

end TcpWriter

end Inspector
end V8JsiRuntime
