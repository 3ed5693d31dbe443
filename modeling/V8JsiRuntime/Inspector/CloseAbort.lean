import V8JsiRuntime.Inspector.TcpWriter
import V8JsiRuntime.Inspector.Teardown

/-!
# CloseAbort — closing the socket below a send

The server thread reads from a connection and closes it; any thread writes.  Closing the socket
completes what is outstanding with `operation_aborted`, and the handlers call `std::abort()`.  A send
is outstanding until its handler runs, which happens on the server thread between two reads.
-/

namespace V8JsiRuntime
namespace Inspector

open Lib

/-! ## Data -/

/-- An asynchronous operation on the socket. -/
inductive Operation
  | read
  | send (message : Bytes)
  deriving DecidableEq, Repr

/-- A connection with both directions. -/
structure Duplex where
  connection : Connection
  writer : TcpWriter
  /-- The operations that have been completed with `operation_aborted`. -/
  aborted : List Operation
  /-- `std::abort()` has been called. -/
  terminated : Bool
  /-- History: how the last read has completed. -/
  last : Option ReadCompletion

inductive DuplexLabel
  | statement
  | completes (completion : ReadCompletion)
  | writer (label : WriterLabel)
  /-- The handler of an aborted operation runs. -/
  | operationAborted

namespace Duplex

def accepted : Duplex where
  connection := .accepted
  writer := .init
  aborted := []
  terminated := false
  last := none

/-- The thread in `io_service_.run()`. -/
def serverThread : Nat := 0

/-! ## Steps -/

def outstanding (d : Duplex) : List Operation :=
  (if d.connection.reading then [.read] else []) ++ d.writer.sends.map .send

/-- `socket_.close(ec)` -/
def closeSocket (d : Duplex) : Duplex :=
  { d with
    connection.reading := false
    writer.sends := []
    aborted := d.aborted ++ d.outstanding }

/-- The next statement of the server thread; a socket that was closed before has nothing to abort. -/
def statement (d : Duplex) : Option Duplex :=
  (d.connection.step .statement).map fun connection =>
    if d.connection.objects.socketOpen ∧ ¬ connection.objects.socketOpen then
      { d with connection := connection }.closeSocket
    else
      { d with connection := connection }

def completes (d : Duplex) (completion : ReadCompletion) : Option Duplex :=
  (d.connection.step (.completes completion)).map fun connection =>
    { d with connection := connection, last := some completion }

/-- A completion handler runs on the server thread when that has nothing else to execute, and a send
succeeds on an open socket only. -/
def CanRun (d : Duplex) : WriterLabel → Prop
  | .writeAsync _ _ => True
  | .next _ => True
  | .complete thread _ =>
      thread = serverThread ∧ d.connection.statements.isEmpty ∧ d.connection.objects.socketOpen
  | .fail thread => thread = serverThread ∧ d.connection.statements.isEmpty

instance (d : Duplex) (label : WriterLabel) : Decidable (d.CanRun label) :=
  match label with
  | .writeAsync _ _ => inferInstanceAs (Decidable True)
  | .next _ => inferInstanceAs (Decidable True)
  | .complete _ _ => inferInstanceAs (Decidable (_ ∧ _ ∧ _))
  | .fail _ => inferInstanceAs (Decidable (_ ∧ _))

def writes (d : Duplex) (label : WriterLabel) : Option Duplex :=
  if d.CanRun label then
    (d.writer.step label).map fun writer => { d with writer := writer }
  else
    none

/-- One step; the server thread goes on with the connection when it is not in `do_write`. -/
def step (d : Duplex) (label : DuplexLabel) : Option Duplex :=
  if d.terminated then
    none
  else
    match label with
    | .statement => if d.writer.threads serverThread = .idle then d.statement else none
    | .completes completion =>
        if d.writer.threads serverThread = .idle then d.completes completion else none
    | .writer label => d.writes label
    | .operationAborted =>
        if d.aborted ≠ [] ∧ d.connection.statements.isEmpty ∧
            d.writer.threads serverThread = .idle then
          some { d with terminated := true }
        else
          none

/-! ## Properties -/

/-- No operation was outstanding when the socket was closed, and `std::abort()` was not called. -/
def NeverAborted (d : Duplex) : Prop :=
  d.aborted = [] ∧ d.terminated = false

end Duplex

/-- A read upon which the handler gives the connection up. -/
def ReadCompletion.Ends : ReadCompletion → Prop
  | .http _ => False
  | .ws data => Rejects data
  | .eof => True
  | .error => False

namespace Duplex

/-- The last read that completed has ended the connection. -/
def Ending (d : Duplex) : Prop :=
  ∃ completion, d.last = some completion ∧ completion.Ends

/-- A read that ends the connection completes when no send is outstanding, and no send is started
from there on until the socket is closed. -/
def Undisturbed (d : Duplex) : DuplexLabel → Prop
  | .statement => True
  | .completes completion => completion.Ends → d.writer.sends = []
  | .writer (.next thread) =>
      d.writer.threads thread = .asyncSend → d.connection.objects.socketOpen = true → ¬ d.Ending
  | .writer (.writeAsync _ _) => True
  | .writer (.complete _ _) => True
  | .writer (.fail _) => True
  | .operationAborted => True

/-- The server thread has executed all statements, or cannot go on. -/
def Settled (d : Duplex) : Prop :=
  d.connection.statements = [] ∨ d.connection.violation ≠ none ∨ d.connection.fault ≠ none

end Duplex

/-! ## The socket stays closed, and stays open until it is closed -/

namespace Connection

variable {c c' : Connection} {goal : Connection → Prop}

@[simp] theorem call_socketOpen (c : Connection) (statements : List Statement) :
    (c.call statements).objects.socketOpen = c.objects.socketOpen :=
  rfl

@[simp] theorem violate_socketOpen (c : Connection) (violation : Violation) :
    (c.violate violation).objects.socketOpen = c.objects.socketOpen :=
  rfl

@[simp] theorem fail_socketOpen (c : Connection) (fault : ConnectionFault) :
    (c.fail fault).objects.socketOpen = c.objects.socketOpen :=
  rfl

@[simp] theorem setObject_socketOpen (o : Objects) (object : HandlerObject) (handler : Protocol) :
    (o.setObject object handler).socketOpen = o.socketOpen := by
  cases handler <;> rfl

theorem withHolder_socketOpen {next : Connection}
    (h : next.objects.socketOpen = c.objects.socketOpen) :
    (c.withHolder next).objects.socketOpen = c.objects.socketOpen := by
  unfold withHolder
  split
  · exact h
  · rfl

theorem withHandler_socketOpen {handler : Protocol} {next : Connection}
    (h : next.objects.socketOpen = c.objects.socketOpen) :
    (c.withHandler handler next).objects.socketOpen = c.objects.socketOpen := by
  unfold withHandler
  split
  · exact h
  · rfl

theorem releaseTcp_socketOpen (c : Connection) (handler : Protocol) :
    (c.releaseTcp handler).objects.socketOpen = c.objects.socketOpen := by
  unfold releaseTcp
  dsimp only
  split
  · simp
  · rfl

/-- Only `close` changes whether the socket is open. -/
theorem exec_socketOpen {statement : Statement} (hother : statement ≠ .close) :
    (c.exec statement).objects.socketOpen = c.objects.socketOpen := by
  cases statement with
  | close => exact absurd rfl hother
  | readLoop => rfl
  | readCallback completion =>
      refine withHolder_socketOpen ?_
      cases completion with
      | http data =>
          refine withHandler_socketOpen ?_
          dsimp only
          cases c.request.onData (Llhttp.parser.execute c.parser data).2 <;> rfl
      | ws data => rfl
      | eof => rfl
      | error => rfl
  | closeCallback => grind [exec, onClosedCallback, call_socketOpen, violate_socketOpen]
  | disconnectAndDispose => exact withHolder_socketOpen rfl
  | destroyDelegate => grind [exec, sessionTerminated, call_socketOpen]
  | shutdown handler =>
      refine withHandler_socketOpen ?_
      cases handler with
      | http => rfl
      | ws => grind [call_socketOpen]
  | deleteThis handler =>
      grind [exec, deleteThis, call_socketOpen, setObject_socketOpen, violate_socketOpen]
  | destroyTcp handler => exact releaseTcp_socketOpen c handler
  | resetTcp handler => exact withHandler_socketOpen (releaseTcp_socketOpen c handler)
  | callTcp handler =>
      refine withHandler_socketOpen ?_
      split
      · exact withHolder_socketOpen rfl
      · rfl
  | callSocket => grind [exec, call_socketOpen, fail_socketOpen]
  | onEof handler =>
      refine withHandler_socketOpen ?_
      cases handler <;> rfl
  | checkDispose =>
      refine withHandler_socketOpen ?_
      split
      · rfl
      · rfl
  | handleEvents dispositions =>
      rcases dispositions with _ | ⟨disposition, rest⟩
      · rfl
      · cases disposition with
        | dropped => rfl
        | cancelHandshake => exact withHandler_socketOpen rfl
        | onHttpGet host path => exact withHandler_socketOpen rfl
        | onSocketUpgrade host path acceptKey => exact withHandler_socketOpen rfl
  | acceptUpgrade =>
      unfold exec acceptUpgrade
      dsimp only
      split
      · refine withHandler_socketOpen ?_
        cases c.objects.protocolHandler <;> rfl
      · rfl
  | switchProtocol =>
      refine withHandler_socketOpen ?_
      split
      · exact withHolder_socketOpen rfl
      · rfl
  | onDataLoop data =>
      refine withHandler_socketOpen ?_
      cases parseWsFrames data <;> rfl
  | consume data processed =>
      unfold exec consume
      dsimp only
      split
      · cases removeFromBeginning data processed with
        | error fault => rfl
        | ok left => grind [call_socketOpen]
      · rfl

theorem exec_closed (statement : Statement) (h : c.objects.socketOpen = false) :
    (c.exec statement).objects.socketOpen = false := by
  by_cases hclose : statement = .close
  · subst hclose
    rfl
  · rwa [exec_socketOpen hclose]

theorem step_closed {event : Event} (h : c.objects.socketOpen = false)
    (hstep : step c event = some c') : c'.objects.socketOpen = false := by
  unfold step at hstep
  split at hstep
  · cases event with
    | statement =>
        cases hstatements : c.statements with
        | nil =>
            rw [hstatements] at hstep
            cases hstep
        | cons statement statements =>
            rw [hstatements] at hstep
            obtain rfl := Option.some.inj hstep
            exact exec_closed statement h
    | completes completion =>
        dsimp only at hstep
        split at hstep
        · obtain rfl := Option.some.inj hstep
          exact h
        · cases hstep
  · cases hstep

/-- A socket that is open at the goal is open on the way there. -/
theorem Leads.socketOpen (h : Leads goal c) (hgoal : ∀ c, goal c → c.objects.socketOpen = true) :
    c.objects.socketOpen = true := by
  induction h with
  | here hc => exact hgoal _ hc
  | @next c statement statements _ _ _ _ ih =>
      cases hopen : c.objects.socketOpen with
      | true => rfl
      | false => exact (exec_closed (c := { c with statements := statements }) statement hopen).symm.trans ih

/-- At rest or stopped by a violation, and open. -/
def StaysOpen : Connection → Prop :=
  StillOpen fun c => Rest c ∨ Violated c

theorem Leads.staysOpen_of_rest (h : Leads (StillOpen Rest) c) : Leads StaysOpen c :=
  h.mono fun _ hc => ⟨Or.inl hc.1, hc.2⟩

theorem Leads.staysOpen_of_violated (h : Leads (StillOpen Violated) c) : Leads StaysOpen c :=
  h.mono fun _ hc => ⟨Or.inr hc.1, hc.2⟩

/-- Nothing is left to execute, or nothing can be. -/
theorem StaysOpen.step_statement (h : StaysOpen c) : step c .statement = none := by
  obtain ⟨hrest | hviolated, _⟩ := h
  · rw [← Option.not_isSome_iff_eq_none, Option.isSome_iff_exists]
    rintro ⟨c', hstep⟩
    obtain ⟨_, heq, _⟩ := hrest.idle_of_step hstep
    cases heq
  · exact hviolated.step_eq_none .statement

/-- A read that completes on an open socket ends the connection, or leaves the socket open. -/
theorem StaysOpen.step_completes {completion : ReadCompletion} (h : StaysOpen c)
    (hstep : step c (.completes completion) = some c') :
    ¬ completion.Ends ∧ Leads StaysOpen c' ∨ completion.Ends ∧ Leads AtClose c' := by
  obtain ⟨hrest | hviolated, _⟩ := h
  · cases hrest.completed hstep with
    | request _ hrest => exact Or.inl ⟨id, hrest.staysOpen_of_rest⟩
    | deleted _ hviolated => exact Or.inl ⟨id, hviolated.staysOpen_of_violated⟩
    | frames hnot hrest => exact Or.inl ⟨hnot, hrest.staysOpen_of_rest⟩
    | rejected hrejects hclose _ => exact Or.inr ⟨hrejects, hclose⟩
    | eofBefore _ hclose _ => exact Or.inr ⟨trivial, hclose⟩
    | eofAfter _ hclose _ => exact Or.inr ⟨trivial, hclose⟩
    | error hviolated => exact Or.inl ⟨id, hviolated.staysOpen_of_violated⟩
  · cases (hviolated.step_eq_none _).symm.trans hstep

theorem Leads.statements_ne_nil (h : Leads AtClose c) : c.statements ≠ [] := by
  cases h with
  | here hc =>
      obtain ⟨_, _, _, _, statements, hstatements⟩ := hc
      simp [hstatements]
  | next hstatements => simp [hstatements]

end Connection

theorem TcpWriter.writeAsync_sends {w w' : TcpWriter} {thread : Nat} {message : Bytes}
    (hstep : w.step (.writeAsync thread message) = some w') : w'.sends = w.sends := by
  cases transition_of_step hstep
  rfl

/-- A thread starts a send, or leaves the sends as they are. -/
theorem TcpWriter.next_sends {w w' : TcpWriter} {thread : Nat}
    (hstep : w.step (.next thread) = some w') :
    w.threads thread = .asyncSend ∧ w'.sends ≠ [] ∨
      w.threads thread ≠ .asyncSend ∧ w'.sends = w.sends := by
  cases transition_of_step hstep with
  | doWrite hplace =>
      rw [hplace]
      exact Or.inr ⟨nofun, w.doWrite_sends thread _⟩
  | assign hplace =>
      rw [hplace]
      exact Or.inr ⟨nofun, rfl⟩
  | asyncSend hplace =>
      exact Or.inl ⟨hplace, List.append_ne_nil_of_right_ne_nil _ nofun⟩

namespace Duplex

open Connection

variable {d d' : Duplex} {clean : Prop}

/-! ## The three phases -/

/-- Where the connection is, and what it depends on whether something is aborted. -/
inductive Phase (d : Duplex) (clean : Prop) : Prop
  | serving : ¬ d.Ending → Leads StaysOpen d.connection → d.NeverAborted → clean → Phase d clean
  /-- The server thread is on its way to `close`. -/
  | ending : d.Ending → Leads AtClose d.connection → d.NeverAborted →
      (clean ↔ d.writer.sends = []) → Phase d clean
  | closed : d.connection.objects.socketOpen = false → (d.terminated = true → d.aborted ≠ []) →
      .read ∉ d.aborted → (clean ↔ d.aborted = []) → Phase d clean

theorem Phase.accepted : Phase accepted True :=
  .serving nofun (.here ⟨Or.inl ⟨rfl, Or.inr (.http Llhttp.Ready.init rfl)⟩, rfl⟩) ⟨rfl, rfl⟩ trivial

/-- A statement upon which the socket is still open, or was closed before, aborts nothing. -/
theorem statement_eq {connection : Connection}
    (hsame : d.connection.objects.socketOpen = true → connection.objects.socketOpen = true)
    (hstep : d.connection.step .statement = some connection) :
    d.statement = some { d with connection := connection } := by
  unfold statement
  rw [hstep, Option.map_some, if_neg fun h => h.2 (hsame h.1)]

/-- At `close`, what is outstanding are the sends. -/
theorem statement_atClose (h : AtClose d.connection) (hstep : d.statement = some d') :
    d'.connection.objects.socketOpen = false ∧ d'.terminated = d.terminated ∧
      d'.aborted = d.aborted ++ d.writer.sends.map .send := by
  obtain ⟨hviolation, hfault, hreading, hopen, statements, hstatements⟩ := h
  unfold statement Connection.step at hstep
  rw [if_pos ⟨hviolation, hfault⟩, hstatements] at hstep
  dsimp only at hstep
  rw [Option.map_some, if_pos ⟨hopen, nofun⟩] at hstep
  obtain rfl := Option.some.inj hstep
  refine ⟨rfl, rfl, ?_⟩
  simp [closeSocket, outstanding, Connection.exec, Connection.call, hreading]

theorem connection_of_statement (hstep : d.statement = some d') :
    ∃ connection, d.connection.step .statement = some connection := by
  obtain ⟨connection, hconnection, _⟩ := Option.map_eq_some_iff.1 hstep
  exact ⟨connection, hconnection⟩

theorem Phase.statement (h : d.Phase clean) (hstep : d.statement = some d') : d'.Phase clean := by
  obtain ⟨connection, hconnection⟩ := connection_of_statement hstep
  cases h with
  | serving hnot hleads hnever hclean =>
      rcases hleads.step hconnection with hstays | ⟨_, hnext⟩
      -- at rest there is no statement; on the way there the socket stays open
      · cases hconnection.symm.trans hstays.step_statement
      · have hopen := hnext.socketOpen fun _ h => h.2
        obtain rfl := Option.some.inj ((statement_eq (fun _ => hopen) hconnection).symm.trans hstep)
        exact .serving hnot hnext hnever hclean
  | ending hending hleads hnever hclean =>
      rcases hleads.step hconnection with hclose | ⟨_, hnext⟩
      -- here the socket is closed: what has been aborted is what was outstanding
      · obtain ⟨hclosed, hterminated, haborted⟩ := statement_atClose hclose hstep
        rw [hnever.1, List.nil_append] at haborted
        refine .closed hclosed (fun h => ?_) ?_ ?_
        · cases hnever.2.symm.trans (hterminated.symm.trans h)
        · simp [haborted]
        · rw [hclean, haborted, List.map_eq_nil_iff]
      · have hopen := hnext.socketOpen fun _ h => h.2.2.2.1
        obtain rfl := Option.some.inj ((statement_eq (fun _ => hopen) hconnection).symm.trans hstep)
        exact .ending hending hnext hnever hclean
  | closed hclosed hterminated hread hclean =>
      have hsame : d.connection.objects.socketOpen = true →
          connection.objects.socketOpen = true := fun h => nomatch hclosed.symm.trans h
      obtain rfl := Option.some.inj ((statement_eq hsame hconnection).symm.trans hstep)
      exact .closed (step_closed hclosed hconnection) hterminated hread hclean

/-- A read that ends the connection needs an open socket. -/
theorem socketOpen_of_completes {c c' : Connection} {completion : ReadCompletion}
    (hends : completion.Ends) (hstep : c.step (.completes completion) = some c') :
    c.objects.socketOpen = true := by
  unfold Connection.step at hstep
  split at hstep
  · dsimp only at hstep
    split at hstep
    · rename_i hcan
      cases completion with
      | http data => cases hends
      | ws data => exact hcan.2.2.1
      | eof => exact hcan.2.2
      | error => cases hends
    · cases hstep
  · cases hstep

theorem Phase.completes (h : d.Phase clean) {completion : ReadCompletion}
    (hstep : d.completes completion = some d') :
    d'.Phase (clean ∧ d.Undisturbed (.completes completion)) := by
  obtain ⟨connection, hconnection, rfl⟩ := Option.map_eq_some_iff.1 hstep
  cases h with
  | serving hnot hleads hnever hclean =>
      rcases hleads.step hconnection with hstays | ⟨hevent, _⟩
      · rcases hstays.step_completes hconnection with ⟨hends, hnext⟩ | ⟨hends, hnext⟩
        · refine .serving ?_ hnext hnever ⟨hclean, fun h => absurd h hends⟩
          rintro ⟨last, hlast, h⟩
          obtain rfl := Option.some.inj hlast
          exact hends h
        · refine .ending ⟨completion, rfl, hends⟩ hnext hnever ?_
          exact ⟨fun h => h.2 hends, fun h => ⟨hclean, fun _ => h⟩⟩
      · cases hevent
  | ending hending hleads hnever hclean =>
      rcases hleads.step hconnection with ⟨_, _, _, _, statements, hstatements⟩ | ⟨hevent, _⟩
      -- a read cannot complete while statements are left
      · simp [Connection.step, hstatements] at hconnection
      · cases hevent
  | closed hclosed hterminated hread hclean =>
      refine .closed (step_closed hclosed hconnection) hterminated hread ?_
      refine (and_iff_left ?_).trans hclean
      intro hends
      cases hclosed.symm.trans (socketOpen_of_completes hends hconnection)

theorem Phase.writes (h : d.Phase clean) {label : WriterLabel} (hstep : d.writes label = some d') :
    d'.Phase (clean ∧ d.Undisturbed (.writer label)) := by
  unfold Duplex.writes at hstep
  split at hstep
  · rename_i hcan
    obtain ⟨writer, hwriter, rfl⟩ := Option.map_eq_some_iff.1 hstep
    cases h with
    | serving hnot hleads hnever hclean =>
        refine .serving hnot hleads hnever ⟨hclean, ?_⟩
        cases label with
        | next thread => exact fun _ _ => hnot
        | writeAsync thread message => trivial
        | complete thread bytesTransferred => trivial
        | fail thread => trivial
    | ending hending hleads hnever hclean =>
        refine .ending hending hleads hnever ?_
        have hstatements := hleads.statements_ne_nil
        cases label with
        | next thread =>
            rcases TcpWriter.next_sends hwriter with ⟨hplace, hsends⟩ | ⟨hplace, hsends⟩
            -- a send that is started on the way to `close` is aborted there
            · have hopen := hleads.socketOpen fun _ h => h.2.2.2.1
              exact iff_of_false (fun h => h.2 hplace hopen hending) hsends
            · rw [hsends, ← hclean]
              exact and_iff_left fun h => absurd h hplace
        | writeAsync thread message =>
            rw [TcpWriter.writeAsync_sends hwriter, ← hclean]
            exact and_iff_left trivial
        -- the server thread is inside a callback, so that no handler of a send can run
        | complete thread bytesTransferred => exact absurd (List.isEmpty_iff.1 hcan.2.1) hstatements
        | fail thread => exact absurd (List.isEmpty_iff.1 hcan.2) hstatements
    | closed hclosed hterminated hread hclean =>
        refine .closed hclosed hterminated hread ((and_iff_left ?_).trans hclean)
        cases label with
        | next thread => exact fun _ hopen => nomatch hclosed.symm.trans hopen
        | writeAsync thread message => trivial
        | complete thread bytesTransferred => trivial
        | fail thread => trivial
  · cases hstep

theorem Phase.operationAborted (h : d.Phase clean) (haborted : d.aborted ≠ []) :
    Phase { d with terminated := true } clean := by
  cases h with
  | serving _ _ hnever _ => exact absurd hnever.1 haborted
  | ending _ _ hnever _ => exact absurd hnever.1 haborted
  | closed hclosed _ hread hclean => exact .closed hclosed (fun _ => haborted) hread hclean

theorem Phase.step (h : d.Phase clean) {label : DuplexLabel} (hstep : d.step label = some d') :
    d'.Phase (clean ∧ d.Undisturbed label) := by
  unfold Duplex.step at hstep
  split at hstep
  · cases hstep
  · cases label with
    | statement =>
        dsimp only at hstep
        split at hstep
        · simpa only [Undisturbed, and_true] using h.statement hstep
        · cases hstep
    | completes completion =>
        dsimp only at hstep
        split at hstep
        · exact h.completes hstep
        · cases hstep
    | writer label => exact h.writes hstep
    | operationAborted =>
        dsimp only at hstep
        split at hstep
        · rename_i hcan
          obtain rfl := Option.some.inj hstep
          simpa only [Undisturbed, and_true] using h.operationAborted hcan.1
        · cases hstep

theorem phase_of_run {labels : List DuplexLabel} (hrun : Run step accepted labels d) :
    d.Phase (Along step Undisturbed accepted labels) := by
  refine hrun.induction (motive := fun labels d => d.Phase (Along step Undisturbed accepted labels))
    ?_ ?_
  · simpa only [Along.nil] using Phase.accepted
  · intro labels d label d' hrun hstep ih
    rw [Along.concat_iff hrun]
    exact ih.step hstep

/-- No read is outstanding when the socket is closed. -/
theorem read_not_aborted {labels : List DuplexLabel} (hrun : Run step accepted labels d) :
    .read ∉ d.aborted := by
  cases phase_of_run hrun with
  | serving _ _ hnever _ => simp [hnever.1]
  | ending _ _ hnever _ => simp [hnever.1]
  | closed _ _ hread _ => exact hread

end Duplex

end Inspector
end V8JsiRuntime
