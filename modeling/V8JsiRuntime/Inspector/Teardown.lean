import V8JsiRuntime.Inspector.Connection
import V8JsiRuntime.Inspector.FinishedRequests
import V8JsiRuntime.Lib.Run

/-!
# Teardown — the end of a connection

Between two reads nothing is left to execute, so what a completed read leads to is followed to that
point, or to the first use of an object that is gone.  `torn_down_once_iff` says which ends of a
connection are clean.
-/

namespace V8JsiRuntime
namespace Inspector

open Lib Llhttp

/-- After the upgrade: the `HttpHandler` is gone. -/
def Objects.upgraded : Objects where
  socketOpen := true
  holder := .alive
  handler := .ws
  http := ⟨.disposed, false⟩
  ws := ⟨.alive, true⟩
  dispose := false
  protocolHandler := .ws
  hasSession := true

/-- A request hands the connection over while a content length is left over, so that the parser does
not pause behind it, and the read finishes another request. -/
def Overruns : List Finished → Prop
  | [] => False
  | request :: requests =>
      ¬ request.event.IsRefused ∧
        (request.event.upgrade = true ∧ request.leftover = true ∧ requests ≠ [] ∨ Overruns requests)

instance decidableOverruns : DecidablePred Overruns
  | [] => inferInstanceAs (Decidable False)
  | request :: requests =>
      have := decidableOverruns requests
      inferInstanceAs (Decidable (¬ request.event.IsRefused ∧ _))

namespace Connection

/-- The data makes the loop of `OnData` come to a request behind an upgrade. -/
def ReadOverruns (c : Connection) (data : Bytes) : Prop :=
  ∃ next requests, finish c.parser c.request data = .ok (next, requests) ∧
    Overruns requests

variable {c c' : Connection} {goal goal' : Connection → Prop}

/-! ## Following the statements -/

/-- Executing the statements that are left comes to the goal. -/
inductive Leads (goal : Connection → Prop) : Connection → Prop
  | here {c : Connection} : goal c → Leads goal c
  | next {c : Connection} {statement : Statement} {statements : List Statement} :
      c.statements = statement :: statements → c.violation = none → c.fault = none →
        Leads goal ({ c with statements := statements }.exec statement) → Leads goal c

namespace Leads

/-- The statement in front is executed. -/
theorem exec {objects : Objects} {reading : Bool} {parser : Llhttp.graph.Parser}
    {request : HttpHandler} {statement : Statement} {statements : List Statement}
    (h : Leads goal
      (Connection.exec ⟨objects, reading, parser, request, statements, none, none⟩ statement)) :
    Leads goal ⟨objects, reading, parser, request, statement :: statements, none, none⟩ :=
  .next rfl rfl rfl h

theorem mono (h : Leads goal c) (himp : ∀ c, goal c → goal' c) : Leads goal' c := by
  induction h with
  | here hc => exact .here (himp _ hc)
  | next hstatements hviolation hfault _ ih => exact .next hstatements hviolation hfault ih

/-- On the way to the goal there is only one step to take. -/
theorem step {event : Event} (h : Leads goal c) (hstep : Connection.step c event = some c') :
    goal c ∨ event = .statement ∧ Leads goal c' := by
  cases h with
  | here hc => exact Or.inl hc
  | next hstatements hviolation hfault hnext =>
      unfold Connection.step at hstep
      rw [if_pos ⟨hviolation, hfault⟩] at hstep
      cases event with
      | statement =>
          rw [hstatements] at hstep
          rw [← Option.some.inj hstep]
          exact Or.inr ⟨rfl, hnext⟩
      | completes completion => simp [hstatements] at hstep

end Leads

/-- Nothing is left to execute, and the connection is open before or after the upgrade, or closed
for good. -/
inductive Idle : Connection → Prop
  | http {parser : Llhttp.graph.Parser} {request : HttpHandler} : Ready parser →
      request.events = [] → Idle ⟨.accepted, true, parser, request, [], none, none⟩
  | ws {parser : Llhttp.graph.Parser} {request : HttpHandler} :
      Idle ⟨.upgraded, true, parser, request, [], none, none⟩
  | closed {objects : Objects} {parser : Llhttp.graph.Parser} {request : HttpHandler} :
      Idle ⟨objects, false, parser, request, [], none, none⟩

/-- Idle, or stopped by something else than a use of an object that is gone. -/
def Rest (c : Connection) : Prop :=
  c.violation = none ∧ (c.fault ≠ none ∨ Idle c)

def Violated (c : Connection) : Prop :=
  c.violation ≠ none

/-- At the goal, and the socket is open. -/
def StillOpen (goal : Connection → Prop) (c : Connection) : Prop :=
  goal c ∧ c.objects.socketOpen = true

/-- The server thread is about to close the socket, and no read is under way. -/
def AtClose (c : Connection) : Prop :=
  c.violation = none ∧ c.fault = none ∧ c.reading = false ∧ c.objects.socketOpen = true ∧
    ∃ statements, c.statements = .close :: statements

theorem Leads.of_stillOpen (h : Leads (StillOpen goal) c) : Leads goal c :=
  h.mono fun _ hc => hc.1

variable {parser : Llhttp.graph.Parser} {request : HttpHandler}

/-! ## Before the upgrade -/

/-- The end of the input before the upgrade closes the socket. -/
theorem leads_http_eof_close :
    Leads AtClose (complete ⟨.accepted, true, parser, request, [], none, none⟩ .eof) :=
  .exec <| .exec <| .exec <| .exec <| .here ⟨rfl, rfl, rfl, rfl, _, rfl⟩

/-- The end of the input before the upgrade takes everything apart in order. -/
theorem leads_http_eof :
    Leads Rest (complete ⟨.accepted, true, parser, request, [], none, none⟩ .eof) :=
  .exec <| .exec <| .exec <| .exec <| .exec <| .exec <| .exec <| .exec <| .exec <| .exec <|
    .here ⟨rfl, Or.inr .closed⟩

/-- After a read error the destructor of the handler disposes of the holder again. -/
theorem leads_http_error :
    Leads (StillOpen Violated)
      (complete ⟨.accepted, true, parser, request, [], none, none⟩ .error) :=
  .exec <| .exec <| .exec <| .exec <| .exec <| .exec <| .here ⟨nofun, rfl⟩

/-- The read is started again. -/
theorem leads_http_readLoop (hready : Ready parser) (hevents : request.events = []) :
    Leads (StillOpen Rest) ⟨.accepted, false, parser, request, [.readLoop], none, none⟩ :=
  .exec <| .here ⟨⟨rfl, Or.inr (.http hready hevents)⟩, rfl⟩

/-- The upgrade itself: the holder changes hands and the old handler goes. -/
theorem leads_upgrade {statements : List Statement}
    (h : Leads goal ⟨.upgraded, false, parser, request, statements, none, none⟩) :
    Leads goal ⟨.accepted, false, parser, request, .acceptUpgrade :: statements, none, none⟩ :=
  .exec <| .exec <| .exec <| .exec <| .exec <| .exec h

/-- The loop comes to an event of the deleted handler. -/
theorem leads_deleted (event : HttpEvent) (events : List HttpEvent) {statements : List Statement} :
    Leads (StillOpen Violated) ⟨.upgraded, false, parser, request,
      .handleEvents (Inspector.handleEvents (event :: events)) :: statements, none, none⟩ := by
  by_cases hrefused : event.IsRefused
  · rw [handleEvents_of_isRefused hrefused]
    exact .exec <| .here ⟨Option.some_ne_none _, rfl⟩
  · rw [handleEvents_of_not_isRefused hrefused, HttpEvent.served]
    split
    · exact .exec <| .here ⟨Option.some_ne_none _, rfl⟩
    · exact .exec <| .here ⟨Option.some_ne_none _, rfl⟩

/-- What a request that is served leads to. -/
theorem leads_served {event : HttpEvent} (hnot : ¬ event.IsRefused) {events : List HttpEvent}
    (hget : event.upgrade = false → Leads goal ⟨.accepted, false, parser, request,
      [.handleEvents (Inspector.handleEvents events), .readLoop], none, none⟩)
    (hupgrade : event.upgrade = true → Leads goal ⟨.upgraded, false, parser, request,
      [.handleEvents (Inspector.handleEvents events), .readLoop], none, none⟩) :
    Leads goal ⟨.accepted, false, parser, request,
      [.handleEvents (Inspector.handleEvents (event :: events)), .readLoop], none, none⟩ := by
  rw [handleEvents_of_not_isRefused hnot, HttpEvent.served]
  cases hasks : event.upgrade with
  | false => exact .exec <| .exec <| .exec <| .exec <| hget hasks
  | true => exact .exec <| .exec <| leads_upgrade <| hupgrade hasks

theorem leads_handleEvents (hready : Ready parser) (hevents : request.events = [])
    {requests : List Finished} (hlast : PausesLast requests) (hnot : ¬ Overruns requests) :
    Leads (StillOpen Rest) ⟨.accepted, false, parser, request,
      [.handleEvents (Inspector.handleEvents (requests.map Finished.event)), .readLoop], none,
      none⟩ := by
  induction requests with
  | nil => exact .exec (leads_http_readLoop hready hevents)
  | cons first requests ih =>
      rw [List.map_cons]
      by_cases hrefused : first.event.IsRefused
      · rw [handleEvents_of_isRefused hrefused]
        exact .exec <| .exec <| leads_http_readLoop hready hevents
      · refine leads_served hrefused (fun _ => ih hlast.tail fun h => hnot ⟨hrefused, Or.inr h⟩) ?_
        intro hupgrade
        -- the upgrade is the last request, because the parser pauses or nothing was left over
        obtain rfl : requests = [] := by
          cases hleftover : first.leftover with
          | false => exact hlast [] first requests rfl ⟨hupgrade, hleftover⟩
          | true =>
              by_contra hmore
              exact hnot ⟨hrefused, Or.inl ⟨hupgrade, hleftover, hmore⟩⟩
        exact .exec <| .exec <| .here ⟨⟨rfl, Or.inr .ws⟩, rfl⟩

theorem leads_handleEvents_deleted {requests : List Finished} (h : Overruns requests) :
    Leads (StillOpen Violated) ⟨.accepted, false, parser, request,
      [.handleEvents (Inspector.handleEvents (requests.map Finished.event)), .readLoop], none,
      none⟩ := by
  induction requests with
  | nil => cases h
  | cons first requests ih =>
      obtain ⟨hallowed, hover⟩ := h
      refine leads_served hallowed (fun hget => ?_) fun _ => ?_
      · refine ih (hover.resolve_left fun hupgrade => ?_)
        cases hget.symm.trans hupgrade.1
      · cases requests with
        | nil =>
            rcases hover with ⟨_, _, hmore⟩ | hnone
            · exact absurd rfl hmore
            · cases hnone
        | cons next requests => exact leads_deleted next.event _

theorem onDataReceivedCb_http {c : Connection} {data : Bytes} {result : HttpDataResult}
    (hholder : c.objects.holder = .alive) (hhandler : c.objects.http.life = .alive)
    (h : c.request.onData (Llhttp.parser.execute c.parser data).2 = .ok result) :
    c.onDataReceivedCb (.http data) =
      { c with parser := (Llhttp.parser.execute c.parser data).1, request := result.handler }.call
        ((if result.cancelHandshake then [Statement.callTcp .http] else []) ++
          [Statement.handleEvents result.dispositions]) := by
  rw [onDataReceivedCb, withHolder, if_pos hholder]
  dsimp only
  rw [withHandler, Objects.object, if_pos hhandler, h]

/-- The handler takes up what a read finishes. -/
theorem leads_http_read (hready : Ready parser) (hevents : request.events = []) {data : Bytes}
    (hgoal : ∀ next requests, finish parser request data = .ok (next, requests) →
      next.events = [] → PausesLast requests →
        Leads goal ⟨.accepted, false, (Llhttp.parser.execute parser data).1, next,
          [.handleEvents (Inspector.handleEvents (requests.map Finished.event)), .readLoop], none,
          none⟩) :
    Leads goal (complete ⟨.accepted, true, parser, request, [], none, none⟩ (.http data)) := by
  obtain ⟨last, requests, hfold, hfinish, hsame, _⟩ := exists_finish parser hevents data
  have hnext := hgoal _ requests hfinish rfl (hready.pausesLast hevents hfinish)
  have hdata : request.onData (Llhttp.parser.execute parser data).2 =
      .ok ⟨{ last with events := [] }, (Llhttp.parser.execute parser data).2.isError,
        Inspector.handleEvents (requests.map Finished.event)⟩ := by
    rw [HttpHandler.onData, hfold, ok_bind, hsame]
    rfl
  refine .exec ?_
  rw [exec, onDataReceivedCb_http rfl rfl hdata]
  cases hcancel : (Llhttp.parser.execute parser data).2.isError with
  | true => exact .exec hnext
  | false => exact hnext

/-! ## After the upgrade -/

/-- A `delete this` below `tcp_.reset()`, and then a look at `dispose_`. -/
theorem leads_ws_onEof {statements : List Statement} :
    Leads Violated ⟨.upgraded, false, parser, request, .onEof .ws :: statements, none, none⟩ :=
  .exec <| .exec <| .exec <| .exec <| .exec <| .exec <| .exec <| .exec <| .exec <| .exec <|
    .here nofun

theorem leads_ws_eof :
    Leads Violated (complete ⟨.upgraded, true, parser, request, [], none, none⟩ .eof) :=
  .exec leads_ws_onEof

/-- On the way there the socket is closed. -/
theorem leads_ws_onEof_close {statements : List Statement} :
    Leads AtClose ⟨.upgraded, false, parser, request, .onEof .ws :: statements, none, none⟩ :=
  .exec <| .exec <| .exec <| .here ⟨rfl, rfl, rfl, rfl, _, rfl⟩

theorem leads_ws_eof_close :
    Leads AtClose (complete ⟨.upgraded, true, parser, request, [], none, none⟩ .eof) :=
  .exec leads_ws_onEof_close

/-- After a read error the handler sends a close frame through the holder. -/
theorem leads_ws_error :
    Leads (StillOpen Violated)
      (complete ⟨.upgraded, true, parser, request, [], none, none⟩ .error) :=
  .exec <| .exec <| .exec <| .exec <| .here ⟨nofun, rfl⟩

end Connection

/-- Some frame of the data is rejected or compressed. -/
def Rejects (data : Bytes) : Prop :=
  ∃ result, onData data = .ok result ∧ .onEof ∈ result.events

/-- `OnEof` is the only call of its round, and ends the loop. -/
theorem parseWsFrames_onEof {data : Bytes} {processed : Int} {events : List WsEvent}
    (h : parseWsFrames data = .ok (processed, events)) (hmem : .onEof ∈ events) :
    events = [.onEof] ∧ processed = 0 := by
  obtain ⟨d, _, hbranch⟩ := parseWsFrames_branches h
  rcases hbranch with ⟨_, rfl, rfl⟩ | ⟨_, _, rfl⟩ | ⟨_, _, _, rfl⟩ | ⟨_, _, rfl⟩
  · exact ⟨rfl, rfl⟩
  · simp at hmem
  · simp at hmem
  · simp at hmem

/-- The frame that one round comes to is rejected, or one of a later round is. -/
theorem rejects_iff {data : Bytes} {processed : Int} {events : List WsEvent}
    (h : parseWsFrames data = .ok (processed, events)) :
    Rejects data ↔ .onEof ∈ events ∨ processed > 0 ∧
      ∃ left, removeFromBeginning data processed = .ok left ∧ left ≠ [] ∧ Rejects left := by
  unfold Rejects
  rw [onData_eq, h, ok_bind]
  dsimp only
  -- a round that consumed something rejected nothing, and leaves the rest to the next one
  by_cases hpositive : processed > 0
  · rw [if_pos hpositive]
    have hnot : .onEof ∉ events := by
      intro hmem
      have hzero := (parseWsFrames_onEof h hmem).2
      omega
    cases hremove : removeFromBeginning data processed with
    | error fault => simp [hnot]
    | ok left =>
        rw [ok_bind]
        by_cases hleft : left = []
        · simp [hleft, hnot, pure, Except.pure]
        · rw [if_neg hleft]
          cases hrest : onData left with
          | error fault => simp [hnot, hrest]
          | ok rest => simp [hnot, hrest, hpositive, hleft, OnDataResult.after, pure, Except.pure]
  · rw [if_neg hpositive]
    simp [hpositive, pure, Except.pure]

theorem not_rejects_of_error {data : Bytes} {fault : Fault}
    (h : parseWsFrames data = .error fault) : ¬ Rejects data := by
  rintro ⟨result, hresult, _⟩
  rw [onData_eq, h] at hresult
  cases hresult

namespace Connection

variable {goal : Connection → Prop} {parser : Llhttp.graph.Parser} {request : HttpHandler}
  {data : Bytes}

/-- What one round executes. -/
def roundStatements (processed : Int) (events : List WsEvent) (data : Bytes) : List Statement :=
  events.map wsEvent ++ [.consume data processed, .readLoop]

theorem onDataRound_error {c : Connection} {fault : Fault}
    (hhandler : c.objects.ws.life = .alive) (h : parseWsFrames data = .error fault) :
    c.onDataRound data = c.fail (.memory fault) := by
  rw [onDataRound, withHandler, Objects.object, if_pos hhandler, h]

theorem onDataRound_ok {c : Connection} {processed : Int} {events : List WsEvent}
    (hhandler : c.objects.ws.life = .alive) (h : parseWsFrames data = .ok (processed, events)) :
    c.onDataRound data = c.call (events.map wsEvent ++ [.consume data processed]) := by
  rw [onDataRound, withHandler, Objects.object, if_pos hhandler, h]

/-- The calls of a round that rejects nothing only pass through the holder. -/
theorem leads_wsEvents {processed : Int} {events : List WsEvent} (hnot : .onEof ∉ events)
    (h : Leads goal ⟨.upgraded, false, parser, request, [.consume data processed, .readLoop], none,
      none⟩) :
    Leads goal ⟨.upgraded, false, parser, request, roundStatements processed events data, none,
      none⟩ := by
  induction events with
  | nil => exact h
  | cons event events ih =>
      have hrest := ih fun hmem => hnot (List.mem_cons_of_mem event hmem)
      cases event with
      | onWsFrame output => exact .exec hrest
      | onCloseRecieved => exact .exec hrest
      | onEof => exact absurd List.mem_cons_self hnot

theorem leads_onDataLoop {processed : Int} {events : List WsEvent}
    (hparse : parseWsFrames data = .ok (processed, events))
    (h : Leads goal ⟨.upgraded, false, parser, request, roundStatements processed events data, none,
      none⟩) :
    Leads goal ⟨.upgraded, false, parser, request, [.onDataLoop data, .readLoop], none, none⟩ := by
  refine .exec ?_
  rw [exec, onDataRound_ok rfl hparse]
  show Leads goal ⟨.upgraded, false, parser, request, _ ++ [.readLoop], none, none⟩
  rwa [List.append_assoc]

theorem leads_ws_readLoop :
    Leads (StillOpen Rest) ⟨.upgraded, false, parser, request, [.readLoop], none, none⟩ :=
  .exec <| .here ⟨⟨rfl, Or.inr .ws⟩, rfl⟩

/-- The next round, if there is one. -/
theorem leads_consume {processed : Int}
    (hnext : processed > 0 → ∀ left, removeFromBeginning data processed = .ok left → left ≠ [] →
      Leads (StillOpen Rest) ⟨.upgraded, false, parser, request, [.onDataLoop left, .readLoop], none,
        none⟩) :
    Leads (StillOpen Rest)
      ⟨.upgraded, false, parser, request, [.consume data processed, .readLoop], none, none⟩ := by
  refine .exec ?_
  show Leads (StillOpen Rest) (consume _ data processed)
  unfold consume
  split
  · rename_i hpositive
    cases hremove : removeFromBeginning data processed with
    | error fault => exact .here ⟨⟨rfl, Or.inl nofun⟩, rfl⟩
    | ok left =>
        dsimp only
        split
        · exact leads_ws_readLoop
        · rename_i hleft
          exact hnext hpositive left hremove hleft
  · exact leads_ws_readLoop

/-- Data without a rejected frame leaves the connection as it is. -/
theorem leads_onDataLoop_rest (h : ¬ Rejects data) :
    Leads (StillOpen Rest) ⟨.upgraded, false, parser, request, [.onDataLoop data, .readLoop], none,
      none⟩ := by
  induction hn : data.length using Nat.strongRecOn generalizing data with
  | ind n ih =>
      cases hparse : parseWsFrames data with
      | error fault =>
          refine .exec (.here ?_)
          rw [exec, onDataRound_error rfl hparse]
          exact ⟨⟨rfl, Or.inl nofun⟩, rfl⟩
      | ok round =>
          obtain ⟨processed, events⟩ := round
          rw [rejects_iff hparse] at h
          refine leads_onDataLoop hparse (leads_wsEvents (fun hmem => h (Or.inl hmem)) ?_)
          -- a round that goes on has consumed something: the induction is on what is left
          refine leads_consume fun hpositive left hremove hleft => ?_
          have hless := removeFromBeginning_length hpositive hremove
          refine ih left.length (hn ▸ hless) (fun hrejects => ?_) rfl
          exact h (Or.inr ⟨hpositive, left, hremove, hleft, hrejects⟩)

/-- The rounds before a rejected frame lead to the call of `OnEof`. -/
theorem leads_onDataLoop_rejects (h : Rejects data)
    (hgoal : ∀ statements,
      Leads goal ⟨.upgraded, false, parser, request, .onEof .ws :: statements, none, none⟩) :
    Leads goal ⟨.upgraded, false, parser, request, [.onDataLoop data, .readLoop], none, none⟩ := by
  induction hn : data.length using Nat.strongRecOn generalizing data with
  | ind n ih =>
      cases hparse : parseWsFrames data with
      | error fault => exact absurd h (not_rejects_of_error hparse)
      | ok round =>
          obtain ⟨processed, events⟩ := round
          refine leads_onDataLoop hparse ?_
          by_cases hmem : .onEof ∈ events
          · obtain ⟨rfl, _⟩ := parseWsFrames_onEof hparse hmem
            exact hgoal _
          · rcases (rejects_iff hparse).1 h with hnow | ⟨hpositive, left, hremove, hleft, hlater⟩
            · exact absurd hnow hmem
            · have hless := removeFromBeginning_length hpositive hremove
              refine leads_wsEvents hmem (.exec ?_)
              show Leads goal (consume _ data processed)
              unfold consume
              rw [if_pos hpositive, hremove]
              dsimp only
              rw [if_neg hleft]
              exact ih left.length (hn ▸ hless) hlater rfl

/-! ## Every run -/

/-- The steps that do no harm: the only end is the end of the input before the upgrade, and no
request comes behind an upgrade in its read. -/
def KeepsClean (c : Connection) : Event → Prop
  | .statement => True
  | .completes (.http data) => ¬ c.ReadOverruns data
  | .completes (.ws data) => ¬ Rejects data
  | .completes .eof => c.objects.handler = .http
  | .completes .error => False

variable {c c' : Connection} {event : Event} {events : List Event}

/-- Nothing happens after a violation. -/
theorem Violated.step_eq_none (h : Violated c) (event : Event) : step c event = none :=
  if_neg fun hgoes => h hgoes.1

/-- What a read that completes leads to. -/
inductive Completed (c c' : Connection) : ReadCompletion → Prop
  | request {data : Bytes} : ¬ c.ReadOverruns data → Leads (StillOpen Rest) c' →
      Completed c c' (.http data)
  | deleted {data : Bytes} : c.ReadOverruns data → Leads (StillOpen Violated) c' →
      Completed c c' (.http data)
  | frames {data : Bytes} : ¬ Rejects data → Leads (StillOpen Rest) c' → Completed c c' (.ws data)
  | rejected {data : Bytes} : Rejects data → Leads AtClose c' → Leads Violated c' →
      Completed c c' (.ws data)
  | eofBefore : c.objects.handler = .http → Leads AtClose c' → Leads Rest c' → Completed c c' .eof
  | eofAfter : c.objects.handler = .ws → Leads AtClose c' → Leads Violated c' → Completed c c' .eof
  | error : Leads (StillOpen Violated) c' → Completed c c' .error

/-- Only a connection at rest without a fault can take a step, and it is the end of a read. -/
theorem Rest.idle_of_step (h : Rest c) (hstep : Connection.step c event = some c') :
    ∃ completion, event = .completes completion ∧ Idle c ∧ c.reading = true ∧
      c.CanComplete completion ∧ c' = c.complete completion := by
  obtain ⟨_, hidle⟩ := h
  unfold Connection.step at hstep
  split at hstep
  · rename_i hgoes
    obtain hidle := hidle.resolve_left fun hfault => hfault hgoes.2
    cases event with
    -- an idle server thread has no statement to execute
    | statement => cases hidle <;> cases hstep
    | completes completion =>
        dsimp only at hstep
        split at hstep
        · rename_i hcan
          obtain rfl := Option.some.inj hstep
          exact ⟨completion, rfl, hidle, hcan.2.1, hcan.2.2, rfl⟩
        · cases hstep
  · cases hstep

/-- From rest, the connection before and after the upgrade is followed for each kind of read. -/
theorem Rest.completed (h : Rest c) {completion : ReadCompletion}
    (hstep : Connection.step c (.completes completion) = some c') : Completed c c' completion := by
  obtain ⟨other, heq, hidle, hreading, hcompletes, rfl⟩ := h.idle_of_step hstep
  obtain rfl := Event.completes.inj heq
  cases hidle with
  | @http parser request hready hevents =>
      cases completion with
      | http data =>
          by_cases hover : ReadOverruns ⟨.accepted, true, parser, request, [], none, none⟩ data
          · refine .deleted hover (leads_http_read hready hevents ?_)
            obtain ⟨_, _, hfinish, hover⟩ := hover
            intro next requests hfinish' _ _
            obtain ⟨rfl, rfl⟩ := Prod.mk.inj (Except.ok.inj (hfinish.symm.trans hfinish'))
            exact leads_handleEvents_deleted hover
          · refine .request hover (leads_http_read hready hevents ?_)
            intro next requests hfinish hempty hlast
            exact leads_handleEvents (hready.execute data) hempty hlast
              fun h => hover ⟨next, requests, hfinish, h⟩
      | ws data => cases hcompletes.2
      | eof => exact .eofBefore rfl leads_http_eof_close leads_http_eof
      | error => exact .error leads_http_error
  | ws =>
      cases completion with
      | http data => cases hcompletes.2
      | ws data =>
          -- only here it matters what was read
          by_cases hrejects : Rejects data
          · refine .rejected hrejects (.exec ?_) (.exec ?_)
            · exact leads_onDataLoop_rejects hrejects fun _ => leads_ws_onEof_close
            · exact leads_onDataLoop_rejects hrejects fun _ => leads_ws_onEof
          · exact .frames hrejects (.exec (leads_onDataLoop_rest hrejects))
      | eof => exact .eofAfter rfl leads_ws_eof_close leads_ws_eof
      | error => exact .error leads_ws_error
  | closed => cases hreading

/-- From rest, a read that completes comes to rest again or to a violation. -/
theorem Rest.step (h : Rest c) (hstep : Connection.step c event = some c') :
    KeepsClean c event ∧ Leads Rest c' ∨ ¬ KeepsClean c event ∧ Leads Violated c' := by
  obtain ⟨completion, rfl, _⟩ := h.idle_of_step hstep
  cases h.completed hstep with
  | request hnot hrest => exact Or.inl ⟨hnot, hrest.of_stillOpen⟩
  | deleted hover hviolated => exact Or.inr ⟨not_not_intro hover, hviolated.of_stillOpen⟩
  | frames hnot hrest => exact Or.inl ⟨hnot, hrest.of_stillOpen⟩
  | rejected hrejects _ hviolated => exact Or.inr ⟨not_not_intro hrejects, hviolated⟩
  | eofBefore hhandler _ hrest => exact Or.inl ⟨hhandler, hrest⟩
  | eofAfter hhandler _ hviolated =>
      exact Or.inr ⟨fun hhttp => (nomatch hhandler.symm.trans hhttp), hviolated⟩
  | error hviolated => exact Or.inr ⟨id, hviolated.of_stillOpen⟩

/-- A run is on its way to rest if all its steps were harmless, and to a violation otherwise. -/
theorem leads_of_run (hrun : Run step accepted events c) :
    Along step KeepsClean accepted events ∧ Leads Rest c ∨
      ¬ Along step KeepsClean accepted events ∧ Leads Violated c := by
  refine Run.induction (s := accepted) (motive := fun events c =>
    Along step KeepsClean accepted events ∧ Leads Rest c ∨
      ¬ Along step KeepsClean accepted events ∧ Leads Violated c)
    (Or.inl ⟨.nil, .here ⟨rfl, Or.inr (.http Ready.init rfl)⟩⟩) ?_ hrun
  intro events t event u hrun hstep ih
  rw [Along.concat_iff hrun]
  rcases ih with ⟨halong, hleads⟩ | ⟨hnot, hleads⟩
  -- the step is the next one on the way, or the first one after a rest
  · rcases hleads.step hstep with hrest | ⟨rfl, hleads⟩
    · rcases hrest.step hstep with ⟨hclean, hleads⟩ | ⟨hharm, hleads⟩
      · exact Or.inl ⟨⟨halong, hclean⟩, hleads⟩
      · exact Or.inr ⟨fun hboth => hharm hboth.2, hleads⟩
    · exact Or.inl ⟨⟨halong, trivial⟩, hleads⟩
  · rcases hleads.step hstep with hviolated | ⟨_, hleads⟩
    · cases (hviolated.step_eq_none event).symm.trans hstep
    · exact Or.inr ⟨fun hboth => hnot hboth.1, hleads⟩

/-- When the server thread has nothing left to execute, or was stopped by a violation: every object
was disposed of at most once, and none was used after that, if and only if the connection has not
ended in any other way than by the end of its input before the upgrade, and no read has gone on
behind an upgrade. -/
theorem torn_down_once_iff (hrun : Run step accepted events c)
    (hsettled : c.statements = [] ∨ c.violation ≠ none) :
    c.violation = none ↔ Along step KeepsClean accepted events := by
  constructor
  · intro hnone
    rcases leads_of_run hrun with ⟨halong, _⟩ | ⟨_, hleads⟩
    · exact halong
    · cases hleads with
      | here hviolated => exact absurd hnone hviolated
      | next hstatements =>
          -- a connection still on its way has a statement left and no violation
          rcases hsettled with hempty | hviolated
          · cases hstatements.symm.trans hempty
          · exact absurd hnone hviolated
  · intro halong
    rcases leads_of_run hrun with ⟨_, hleads⟩ | ⟨hnot, _⟩
    · cases hleads with
      | here hrest => exact hrest.1
      | next _ hviolation => exact hviolation
    · exact absurd halong hnot

/-- A request, and the peer closes the connection without an upgrade. -/
def eofBeforeUpgrade : List Event :=
  .completes (.http (ascii "GET /json HTTP/1.1\r\n\r\n")) :: .replicate 7 .statement ++
    .completes .eof :: .replicate 10 .statement

theorem torn_down_once_eofBeforeUpgrade :
    ∃ c, Run step accepted eofBeforeUpgrade c ∧ c.objects.holder = .disposed ∧
      Along step KeepsClean accepted eofBeforeUpgrade := by
  obtain ⟨c, hrun, hstatements, hholder, hnone⟩ : ∃ c ∈ eofBeforeUpgrade.foldlM step accepted,
      c.statements.isEmpty = true ∧ c.objects.holder = .disposed ∧ c.violation = none := by
    decide +kernel
  exact ⟨c, hrun, hholder,
    (torn_down_once_iff hrun (Or.inl (List.isEmpty_iff.1 hstatements))).1 hnone⟩

/-- A length in a trailer is left over, so that the parser goes on behind the upgrade: the loop comes
to the next request when its handler is deleted. -/
example : ([Event.completes (.http (ascii "GET / HTTP/1.1\r\nTransfer-Encoding: chunked\r\n\r\n" ++
      ascii "0\r\nContent-Length: 7\r\n\r\n"))] ++ .replicate 7 .statement ++
    [Event.completes (.http (ascii "GET / HTTP/1.1\r\nConnection: Upgrade\r\nUpgrade: a\r\n" ++
      ascii "Sec-WebSocket-Key: b\r\n\r\nGET / HTTP/1.1\r\n\r\n"))] ++
    .replicate 10 .statement).foldlM step accepted >>= Connection.violation =
      some (.usesHandler .http) := by
  decide +kernel

/-- After a read error before the upgrade the disposed holder is used. -/
theorem not_torn_down_once_error :
    ¬ ∀ events c, Run step accepted events c → c.violation = none := by
  intro h
  have hnone := h (.completes .error :: .replicate 6 .statement) _ rfl
  cases hnone

end Connection

end Inspector
end V8JsiRuntime
