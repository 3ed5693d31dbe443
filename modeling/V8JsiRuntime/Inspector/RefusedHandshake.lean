import V8JsiRuntime.Inspector.FinishedRequests

/-!
# RefusedHandshake — what follows a refused request

The bytes of a connection are cut into reads in any way and parsed read by read.  A refused request
ends the loop of its read, but the handler and the parser live on, and so does the connection.
-/

namespace V8JsiRuntime
namespace Inspector

open Lib Lib.ParserGraph

/-! ## The reads of a connection -/

/-- The requests that a read finishes, and whether the parser fails behind them. -/
structure Batch where
  events : List HttpEvent
  isError : Bool
  deriving DecidableEq, Repr

/-- What a read is answered, in the order of the requests. -/
def HttpDataResult.answers (result : HttpDataResult) : List Disposition :=
  result.dispositions ++ if result.cancelHandshake then [.cancelHandshake] else []

/-- The server accepts the upgrade, and a `WsHandler` takes the connection over. -/
def Disposition.upgrades (accepts : Bytes → Bool) : Disposition → Bool
  | .onSocketUpgrade _ path _ => accepts path
  | .onHttpGet _ _ => false
  | .cancelHandshake => false
  | .dropped => false

/-- The loop comes to an event after the upgrade has deleted the handler. -/
def usesDeleted (accepts : Bytes → Bool) (dispositions : List Disposition) : Bool :=
  dispositions.dropLast.any (Disposition.upgrades accepts)

/-- Undefined behaviour while a read is answered. -/
inductive ServeFault
  | memory (fault : Fault)
  | deletedHandler
  deriving DecidableEq, Repr

namespace HttpParser

variable {State : Type}

/-- The answers to the reads of a connection, as long as it stays with its `HttpHandler`; `accepts`
are the paths whose upgrade the server accepts (`SessionStarted` has the check of the target
commented out: all of them). -/
def serve (p : HttpParser State) (accepts : Bytes → Bool) (s : State) (handler : HttpHandler) :
    List Bytes → Except ServeFault (List Disposition)
  | [] => .ok []
  | data :: reads => do
      let result ← (handler.onData (p.execute s data).2).mapError ServeFault.memory
      if usesDeleted accepts result.dispositions then
        .error .deletedHandler
      else if result.dispositions.any (Disposition.upgrades accepts) then
        return result.answers
      else
        let rest ← p.serve accepts (p.execute s data).1 result.handler reads
        return result.answers ++ rest

/-- The requests that the reads finish, read by read. -/
def finished (p : HttpParser State) (s : State) (handler : HttpHandler) :
    List Bytes → Except Fault (List Batch)
  | [] => .ok []
  | data :: reads => do
      let next ← (p.execute s data).2.callbacks.foldlM HttpHandler.callback handler
      let rest ← p.finished (p.execute s data).1 { next with events := [] } reads
      return ⟨next.events, (p.execute s data).2.isError⟩ :: rest

end HttpParser

/-! ## Properties -/

instance : DecidablePred Disposition.Served
  | .onHttpGet _ _ => inferInstanceAs (Decidable True)
  | .onSocketUpgrade _ _ _ => inferInstanceAs (Decidable True)
  | .cancelHandshake => inferInstanceAs (Decidable False)
  | .dropped => inferInstanceAs (Decidable False)

/-- The calls of `OnHttpGet` and `OnSocketUpgrade`. -/
def served (dispositions : List Disposition) : List Disposition :=
  dispositions.filter fun disposition => disposition.Served

/-- Behind a request that was answered with `CancelHandshake` none is served. -/
def RefusalFinal (dispositions : List Disposition) : Prop :=
  dispositions.Pairwise fun earlier later => earlier = .cancelHandshake → ¬ later.Served

/-- On the connection a refusal is final, and what is served is what one read of all the bytes would
have been. -/
def RefusesForGood {State : Type} (p : HttpParser State) (accepts : Bytes → Bool)
    (reads : List Bytes) : Prop :=
  ∃ dispositions whole, p.serve accepts p.init .init reads = .ok dispositions ∧
    p.serve accepts p.init .init [reads.flatten] = .ok whole ∧
      RefusalFinal dispositions ∧ served dispositions = served whole

namespace Llhttp

/-- The request ends the loop of its read, or what the parser makes of it. -/
def Finished.Ends (accepts : Bytes → Bool) (request : Finished) : Prop :=
  request.event.IsRefused ∨
    request.event.upgrade = true ∧ (accepts request.event.path = true ∨ request.leftover = false)

instance (accepts : Bytes → Bool) (request : Finished) : Decidable (request.Ends accepts) :=
  inferInstanceAs (Decidable (_ ∨ _))

/-- An upgrade that the server accepts is the last request of its read, and of all that follows when
a length is left over; after a refused request, or an upgrade that the server declines while the
parser pauses, every read begins with a request that is refused. -/
def EndsForGood (accepts : Bytes → Bool) : List (List Finished) → Prop
  | [] => True
  | requests :: later =>
      match requests.dropWhile fun request => ¬ request.Ends accepts with
      | [] => EndsForGood accepts later
      | request :: rest =>
          if ¬ request.event.IsRefused ∧ accepts request.event.path = true then
            rest = [] ∧ (request.leftover = true → ∀ requests ∈ later, requests = [])
          else
            ∀ requests ∈ later, ∀ first ∈ requests.head?, first.event.IsRefused

end Llhttp

/-! ## The answers to the requests of the reads -/

namespace Batch

def answers (batch : Batch) : List Disposition :=
  handleEvents batch.events ++ if batch.isError then [.cancelHandshake] else []

/-- The answers to the requests of successive reads. -/
def answersOf (accepts : Bytes → Bool) : List Batch → Except ServeFault (List Disposition)
  | [] => .ok []
  | batch :: batches =>
      if usesDeleted accepts (handleEvents batch.events) then
        .error .deletedHandler
      else if (handleEvents batch.events).any (Disposition.upgrades accepts) then
        .ok batch.answers
      else
        (answersOf accepts batches).map (batch.answers ++ ·)

end Batch

@[simp] theorem served_append (front rest : List Disposition) :
    served (front ++ rest) = served front ++ served rest :=
  List.filter_append _ _

@[simp] theorem served_cancelHandshake (rest : List Disposition) :
    served (.cancelHandshake :: rest) = served rest :=
  rfl

theorem served_eq_nil_iff {dispositions : List Disposition} :
    served dispositions = [] ↔ ∀ disposition ∈ dispositions, ¬ disposition.Served := by
  simp [served, List.filter_eq_nil_iff]

theorem served_dropped {α : Type} (l : List α) : served (l.map fun _ => .dropped) = [] := by
  rw [served_eq_nil_iff]
  intro disposition hdisposition
  obtain ⟨_, _, rfl⟩ := List.mem_map.1 hdisposition
  exact id

/-- The answers to a parse error. -/
theorem served_isError (isError : Bool) :
    served (if isError then [Disposition.cancelHandshake] else []) = [] := by
  cases isError <;> rfl

theorem Batch.served_answers (batch : Batch) :
    served batch.answers = served (handleEvents batch.events) := by
  rw [Batch.answers, served_append, served_isError, List.append_nil]

theorem refusalFinal_of_served_eq_nil {dispositions : List Disposition}
    (h : served dispositions = []) : RefusalFinal dispositions := by
  rw [served_eq_nil_iff] at h
  exact List.pairwise_of_forall_mem_list fun _ _ later hlater _ => h later hlater

theorem refusalFinal_cancelHandshake_iff {dispositions : List Disposition} :
    RefusalFinal (.cancelHandshake :: dispositions) ↔ served dispositions = [] := by
  constructor
  · intro h
    rw [served_eq_nil_iff]
    exact fun later hlater => (List.pairwise_cons.1 h).1 later hlater rfl
  · intro h
    exact refusalFinal_of_served_eq_nil h

/-! ### Requests that are served -/

section Allowed

variable {accepts : Bytes → Bool} {before rest : List HttpEvent}

theorem handleEvents_append_of_allowed (hallowed : ∀ event ∈ before, ¬ event.IsRefused) :
    handleEvents (before ++ rest) = before.map HttpEvent.served ++ handleEvents rest := by
  induction before with
  | nil => rfl
  | cons event before ih =>
      rw [List.cons_append, handleEvents_of_not_isRefused (hallowed event List.mem_cons_self),
        ih fun other hother => hallowed other (List.mem_cons_of_mem event hother), List.map_cons,
        List.cons_append]

theorem handleEvents_refused {event : HttpEvent} (hallowed : ∀ event ∈ before, ¬ event.IsRefused)
    (hrefused : event.IsRefused) (rest : List HttpEvent) :
    handleEvents (before ++ event :: rest) =
      before.map HttpEvent.served ++ .cancelHandshake :: rest.map fun _ => .dropped := by
  rw [handleEvents_append_of_allowed hallowed, handleEvents_of_isRefused hrefused]

theorem served_map_served (events : List HttpEvent) :
    served (events.map HttpEvent.served) = events.map HttpEvent.served := by
  refine List.filter_eq_self.2 fun disposition hdisposition => ?_
  obtain ⟨event, _, rfl⟩ := List.mem_map.1 hdisposition
  exact decide_eq_true event.served_served

theorem served_ne_cancelHandshake (event : HttpEvent) : event.served ≠ .cancelHandshake := by
  intro h
  have hserved := event.served_served
  rw [h] at hserved
  exact hserved

/-- What is served first has no part in whether refusals are final. -/
theorem refusalFinal_append_iff {dispositions : List Disposition} :
    RefusalFinal (before.map HttpEvent.served ++ dispositions) ↔ RefusalFinal dispositions := by
  induction before with
  | nil => rfl
  | cons event before ih =>
      rw [List.map_cons, List.cons_append, RefusalFinal, List.pairwise_cons]
      exact (and_iff_right fun later _ h => absurd h (served_ne_cancelHandshake event)).trans ih

theorem upgrades_served (event : HttpEvent) :
    event.served.upgrades accepts = (event.upgrade && accepts event.path) := by
  cases hupgrade : event.upgrade <;> simp [HttpEvent.served, hupgrade, Disposition.upgrades]

/-- No upgrade is accepted. -/
theorem not_upgrades_of_declined
    (hdeclined : ∀ event ∈ before, event.upgrade = true → accepts event.path = false) :
    (before.map HttpEvent.served).any (Disposition.upgrades accepts) = false := by
  rw [List.any_eq_false]
  intro disposition hdisposition
  obtain ⟨event, hevent, rfl⟩ := List.mem_map.1 hdisposition
  rw [upgrades_served, Bool.and_eq_true]
  exact fun ⟨hupgrade, haccepts⟩ =>
    Bool.false_ne_true ((hdeclined event hevent hupgrade).symm.trans haccepts)

theorem usesDeleted_append {front dispositions : List Disposition}
    (hnone : front.any (Disposition.upgrades accepts) = false) :
    usesDeleted accepts (front ++ dispositions) = usesDeleted accepts dispositions := by
  unfold usesDeleted
  rw [List.dropLast_append]
  split
  · rename_i hempty
    rw [List.isEmpty_iff.1 hempty]
    refine List.any_eq_false.2 fun disposition hdisposition => ?_
    exact List.any_eq_false.1 hnone disposition (List.dropLast_subset _ hdisposition)
  · rw [List.any_append, hnone, Bool.false_or]

theorem usesDeleted_of_not_upgrades {dispositions : List Disposition}
    (hnone : dispositions.any (Disposition.upgrades accepts) = false) :
    usesDeleted accepts dispositions = false := by
  rw [← List.append_nil dispositions, usesDeleted_append hnone]
  rfl

/-- Behind an accepted upgrade there must be no event. -/
theorem usesDeleted_cons_iff {disposition : Disposition}
    (hupgrades : disposition.upgrades accepts = true) {dispositions : List Disposition} :
    usesDeleted accepts (disposition :: dispositions) = false ↔ dispositions = [] := by
  cases dispositions with
  | nil => exact iff_of_true rfl rfl
  | cons next dispositions => simp [usesDeleted, hupgrades]

theorem answersOf_of_not_upgrades {batch : Batch} {batches : List Batch}
    (hnone : (handleEvents batch.events).any (Disposition.upgrades accepts) = false) :
    Batch.answersOf accepts (batch :: batches) =
      (Batch.answersOf accepts batches).map (batch.answers ++ ·) := by
  rw [Batch.answersOf, usesDeleted_of_not_upgrades hnone, hnone]
  rfl

/-- The answers to one read. -/
theorem answersOf_singleton (batch : Batch) :
    Batch.answersOf accepts [batch] =
      if usesDeleted accepts (handleEvents batch.events) then .error .deletedHandler
      else .ok batch.answers := by
  simp [Batch.answersOf, Except.map]

end Allowed

/-! ### Nothing is served -/

/-- The reads are answered, and none of their requests is served. -/
def ServesNothing (accepts : Bytes → Bool) (batches : List Batch) : Prop :=
  ∃ dispositions, Batch.answersOf accepts batches = .ok dispositions ∧ served dispositions = []

/-- A read that serves nothing and accepts nothing. -/
theorem servesNothing_cons_of_quiet {accepts : Bytes → Bool} {batch : Batch} {batches : List Batch}
    (hserved : served (handleEvents batch.events) = [])
    (hnone : (handleEvents batch.events).any (Disposition.upgrades accepts) = false) :
    ServesNothing accepts (batch :: batches) ↔ ServesNothing accepts batches := by
  unfold ServesNothing
  rw [answersOf_of_not_upgrades hnone]
  cases Batch.answersOf accepts batches with
  | error fault => exact iff_of_false nofun nofun
  | ok rest => simp [Except.map, Batch.served_answers, hserved]

/-- What a read serves is part of the answers. -/
theorem not_servesNothing_cons {accepts : Bytes → Bool} {batch : Batch} {batches : List Batch}
    (hserved : served (handleEvents batch.events) ≠ []) :
    ¬ ServesNothing accepts (batch :: batches) := by
  rw [← Batch.served_answers] at hserved
  rintro ⟨dispositions, hanswers, hnothing⟩
  rw [Batch.answersOf] at hanswers
  split at hanswers
  · cases hanswers
  · split at hanswers
    · obtain rfl := Except.ok.inj hanswers
      exact hserved hnothing
    · cases hrest : Batch.answersOf accepts batches with
      | error fault =>
          rw [hrest] at hanswers
          cases hanswers
      | ok later =>
          rw [hrest] at hanswers
          obtain rfl := Except.ok.inj hanswers
          rw [served_append] at hnothing
          exact hserved (List.append_eq_nil_iff.1 hnothing).1

/-- Of successive reads nothing is served exactly if each begins with a refusal. -/
theorem servesNothing_iff {accepts : Bytes → Bool} (batches : List Batch) :
    ServesNothing accepts batches ↔
      ∀ events ∈ batches.map Batch.events, ∀ first ∈ events.head?, first.IsRefused := by
  induction batches with
  | nil => exact iff_of_true ⟨[], rfl, rfl⟩ fun _ hmem => absurd hmem List.not_mem_nil
  | cons batch batches ih =>
      rw [List.map_cons, List.forall_mem_cons, ← ih]
      cases hevents : batch.events with
      | nil =>
          rw [servesNothing_cons_of_quiet (hevents ▸ rfl) (hevents ▸ rfl)]
          exact (and_iff_right fun _ hfirst => by cases hfirst).symm
      | cons first rest =>
          by_cases hrefused : first.IsRefused
          · have hhandle := handleEvents_of_isRefused hrefused rest
            rw [← hevents] at hhandle
            rw [servesNothing_cons_of_quiet]
            · refine (and_iff_right fun event hevent => ?_).symm
              obtain rfl := Option.some.inj hevent
              exact hrefused
            · rw [hhandle, served_cancelHandshake, served_dropped]
            · simp [hhandle, Disposition.upgrades]
          · refine iff_of_false (not_servesNothing_cons ?_) fun h => hrefused (h.1 first rfl)
            rw [hevents, handleEvents_of_not_isRefused hrefused]
            simp [served, first.served_served]

/-! ### A refusal or an upgrade -/

namespace Llhttp

/-- The requests as `OnData` sees them. -/
def FinishedRead.batch (read : FinishedRead) : Batch :=
  ⟨read.requests.map Finished.event, read.isError⟩

/-- The refusals are final, and the requests served are those of one read. -/
def AsOneRead (accepts : Bytes → Bool) (reads : List FinishedRead) (whole : List HttpEvent) : Prop :=
  usesDeleted accepts (handleEvents whole) = false ∧
    ∃ dispositions, Batch.answersOf accepts (reads.map FinishedRead.batch) = .ok dispositions ∧
      RefusalFinal dispositions ∧ served dispositions = served (handleEvents whole)

section Main

variable {accepts : Bytes → Bool} {before after : List Finished} {request : Finished}
  {read : FinishedRead} {reads : List FinishedRead} {whole : List HttpEvent}

theorem allowed_of_not_ends (hgoes : ∀ request ∈ before, ¬ request.Ends accepts) :
    ∀ event ∈ before.map Finished.event, ¬ event.IsRefused := by
  intro event hevent
  obtain ⟨request, hrequest, rfl⟩ := List.mem_map.1 hevent
  exact fun hrefused => hgoes request hrequest (Or.inl hrefused)

theorem declined_of_not_ends (hgoes : ∀ request ∈ before, ¬ request.Ends accepts) :
    ∀ event ∈ before.map Finished.event, event.upgrade = true → accepts event.path = false := by
  intro event hevent hupgrade
  obtain ⟨request, hrequest, rfl⟩ := List.mem_map.1 hevent
  refine Bool.eq_false_iff.2 fun haccepts => hgoes request hrequest ?_
  exact Or.inr ⟨hupgrade, Or.inl haccepts⟩

theorem not_pauses_of_not_ends (hgoes : ∀ request ∈ before, ¬ request.Ends accepts) :
    ∀ request ∈ before, ¬ request.Pauses :=
  fun request hrequest hpauses =>
    hgoes request hrequest (Or.inr ⟨hpauses.1, Or.inr hpauses.2⟩)

/-- When a read has served all that one read would have, nothing more may be served. -/
theorem asOneRead_iff_of_ends {front : List HttpEvent} {quiet : List Disposition}
    (hhandle : handleEvents read.batch.events = front.map HttpEvent.served ++ quiet)
    (hquiet : served quiet = [])
    (hnone : (handleEvents read.batch.events).any (Disposition.upgrades accepts) = false)
    (hsound : usesDeleted accepts (handleEvents whole) = false)
    (hwhole : served (handleEvents whole) = front.map HttpEvent.served) :
    AsOneRead accepts (read :: reads) whole ↔
      ServesNothing accepts (reads.map FinishedRead.batch) := by
  unfold AsOneRead ServesNothing
  rw [and_iff_right hsound, hwhole, List.map_cons, answersOf_of_not_upgrades hnone]
  cases Batch.answersOf accepts (reads.map FinishedRead.batch) with
  | error fault =>
      refine iff_of_false ?_ ?_
      · rintro ⟨_, h, _⟩
        cases h
      · rintro ⟨_, h, _⟩
        cases h
  | ok rest =>
      have hserved : served (read.batch.answers ++ rest) =
          front.map HttpEvent.served ++ served rest := by
        rw [served_append, Batch.served_answers, hhandle, served_append, hquiet, served_map_served,
          List.append_nil]
      constructor
      · rintro ⟨_, hanswers, _, hsame⟩
        obtain rfl := Except.ok.inj hanswers
        rw [hserved, List.append_right_eq_self] at hsame
        exact ⟨rest, rfl, hsame⟩
      · rintro ⟨_, hanswers, hnothing⟩
        obtain rfl := Except.ok.inj hanswers
        refine ⟨read.batch.answers ++ rest, rfl, ?_, by rw [hserved, hnothing, List.append_nil]⟩
        rw [Batch.answers, hhandle, List.append_assoc, List.append_assoc, refusalFinal_append_iff]
        refine refusalFinal_of_served_eq_nil ?_
        rw [served_append, served_append, hquiet, served_isError, hnothing]
        rfl

theorem asOneRead_iff_of_refused (hgoes : ∀ request ∈ before, ¬ request.Ends accepts)
    (hrefused : request.event.IsRefused) (hrequests : read.requests = before ++ request :: after)
    {rest : List HttpEvent} (hwhole : whole = read.batch.events ++ rest) :
    AsOneRead accepts (read :: reads) whole ↔
      ServesNothing accepts (reads.map FinishedRead.batch) := by
  have hallowed := allowed_of_not_ends hgoes
  have hnone := not_upgrades_of_declined (declined_of_not_ends hgoes)
  have hhandle (rest : List HttpEvent) := handleEvents_refused hallowed hrefused rest
  have hevents : read.batch.events = before.map Finished.event ++ request.event ::
      after.map Finished.event := by
    rw [FinishedRead.batch, hrequests, List.map_append, List.map_cons]
  have hwhole' : whole = before.map Finished.event ++ request.event ::
      (after.map Finished.event ++ rest) := by
    rw [hwhole, hevents, List.append_assoc, List.cons_append]
  -- nothing that the loop drops is an upgrade
  have hquiet (rest : List HttpEvent) :
      (Disposition.cancelHandshake :: rest.map fun _ => .dropped).any
        (Disposition.upgrades accepts) = false := by
    simp [Disposition.upgrades]
  refine asOneRead_iff_of_ends (hevents ▸ hhandle _) ?_ ?_ ?_ ?_
  · rw [served_cancelHandshake, served_dropped]
  · rw [hevents, hhandle, List.any_append, hnone, hquiet]
    rfl
  · rw [hwhole', hhandle, usesDeleted_append hnone, usesDeleted_of_not_upgrades (hquiet _)]
  · rw [hwhole', hhandle, served_append, served_cancelHandshake, served_dropped, served_map_served,
      List.append_nil]

/-- The parser leaves the rest of the one read alone. -/
theorem asOneRead_iff_of_declined (hgoes : ∀ request ∈ before, ¬ request.Ends accepts)
    (hnot : ¬ request.event.IsRefused) (hdeclined : accepts request.event.path = false)
    (hrequests : read.requests = before ++ [request]) (hwhole : whole = read.batch.events) :
    AsOneRead accepts (read :: reads) whole ↔
      ServesNothing accepts (reads.map FinishedRead.batch) := by
  have hevents : read.batch.events = before.map Finished.event ++ [request.event] := by
    rw [FinishedRead.batch, hrequests, List.map_append, List.map_singleton]
  have hallowed : ∀ event ∈ read.batch.events, ¬ event.IsRefused := by
    rw [hevents, List.forall_mem_append, List.forall_mem_singleton]
    exact ⟨allowed_of_not_ends hgoes, hnot⟩
  have hnone : (read.batch.events.map HttpEvent.served).any (Disposition.upgrades accepts) =
      false := by
    refine not_upgrades_of_declined ?_
    rw [hevents, List.forall_mem_append, List.forall_mem_singleton]
    exact ⟨declined_of_not_ends hgoes, fun _ => hdeclined⟩
  have hhandle := @handleEvents_append_of_allowed _ [] hallowed
  rw [List.append_nil] at hhandle
  rw [← hhandle.trans (List.append_nil _)] at hnone
  refine asOneRead_iff_of_ends hhandle rfl hnone ?_ ?_
  · rw [hwhole, usesDeleted_of_not_upgrades hnone]
  · rw [hwhole, hhandle, handleEvents, List.append_nil, served_map_served]

/-- The `HttpHandler` hands the connection over, below its own loop. -/
theorem asOneRead_iff_of_accepted (hgoes : ∀ request ∈ before, ¬ request.Ends accepts)
    (hnot : ¬ request.event.IsRefused) (hupgrade : request.event.upgrade = true)
    (haccepted : accepts request.event.path = true)
    (hrequests : read.requests = before ++ request :: after) {rest : List HttpEvent}
    (hwhole : whole = read.batch.events ++ rest) :
    AsOneRead accepts (read :: reads) whole ↔ after = [] ∧ rest = [] := by
  have hallowed := allowed_of_not_ends hgoes
  have hnone := not_upgrades_of_declined (declined_of_not_ends hgoes)
  have hevents : read.batch.events = before.map Finished.event ++ request.event ::
      after.map Finished.event := by
    rw [FinishedRead.batch, hrequests, List.map_append, List.map_cons]
  have hhandle (rest : List HttpEvent) : handleEvents (before.map Finished.event ++
      request.event :: rest) = (before.map Finished.event).map HttpEvent.served ++
        request.event.served :: handleEvents rest := by
    rw [handleEvents_append_of_allowed hallowed, handleEvents_of_not_isRefused hnot]
  have hupgrades : request.event.served.upgrades accepts = true := by
    rw [upgrades_served, hupgrade, haccepted]
    rfl
  have hlast (rest : List HttpEvent) : usesDeleted accepts (handleEvents
      (before.map Finished.event ++ request.event :: rest)) = false ↔ rest = [] := by
    rw [hhandle, usesDeleted_append hnone, usesDeleted_cons_iff hupgrades]
    exact ⟨fun h => List.eq_nil_of_length_eq_zero (by rw [← length_handleEvents, h]; rfl),
      fun h => h ▸ rfl⟩
  have hwhole' : whole = before.map Finished.event ++ request.event ::
      (after.map Finished.event ++ rest) := by
    rw [hwhole, hevents, List.append_assoc, List.cons_append]
  constructor
  · rintro ⟨hsound, _⟩
    rw [hwhole', hlast, List.append_eq_nil_iff, List.map_eq_nil_iff] at hsound
    exact hsound
  · rintro ⟨rfl, rfl⟩
    rw [List.append_nil] at hwhole
    have hsound := (hlast []).2 rfl
    have hany : (handleEvents (before.map Finished.event ++ [request.event])).any
        (Disposition.upgrades accepts) = true := by
      rw [hhandle, List.any_append, List.any_cons, hupgrades, Bool.true_or, Bool.or_true]
    have hanswers : Batch.answersOf accepts ((read :: reads).map FinishedRead.batch) =
        .ok read.batch.answers := by
      rw [List.map_cons, Batch.answersOf, hevents, List.map_nil, hsound, hany]
      rfl
    refine ⟨hwhole ▸ hevents ▸ hsound, _, hanswers, ?_, by rw [Batch.served_answers, hwhole]⟩
    rw [Batch.answers, hevents, List.map_nil, hhandle, handleEvents, List.append_assoc,
      refusalFinal_append_iff, ← List.map_singleton (f := HttpEvent.served), refusalFinal_append_iff]
    exact refusalFinal_of_served_eq_nil (served_isError _)

/-- The read serves everything, and goes on. -/
theorem asOneRead_iff_of_goes (hgoes : ∀ request ∈ read.requests, ¬ request.Ends accepts)
    (herror : read.isError = true → ServesNothing accepts (reads.map FinishedRead.batch)) :
    AsOneRead accepts (read :: reads) (read.batch.events ++ whole) ↔
      AsOneRead accepts reads whole := by
  have hallowed : ∀ event ∈ read.batch.events, ¬ event.IsRefused := allowed_of_not_ends hgoes
  have hnone : (read.batch.events.map HttpEvent.served).any (Disposition.upgrades accepts) =
      false := not_upgrades_of_declined (declined_of_not_ends hgoes)
  have hhandle := @handleEvents_append_of_allowed _ [] hallowed
  rw [List.append_nil, handleEvents, List.append_nil] at hhandle
  have hnone' := hnone
  rw [← hhandle] at hnone'
  unfold AsOneRead
  rw [handleEvents_append_of_allowed hallowed, usesDeleted_append hnone, List.map_cons,
    answersOf_of_not_upgrades hnone']
  refine and_congr_right fun _ => ?_
  unfold ServesNothing at herror
  cases hrest : Batch.answersOf accepts (reads.map FinishedRead.batch) with
  | error fault =>
      refine iff_of_false ?_ ?_
      · rintro ⟨_, h, _⟩
        cases h
      · rintro ⟨_, h, _⟩
        cases h
  | ok rest =>
      rw [hrest] at herror
      have hfinal : RefusalFinal (read.batch.answers ++ rest) ↔ RefusalFinal rest := by
        rw [Batch.answers, hhandle, List.append_assoc, refusalFinal_append_iff]
        cases hfailed : read.batch.isError with
        | false => rfl
        | true =>
            obtain ⟨_, hanswers, hnothing⟩ := herror hfailed
            obtain rfl := Except.ok.inj hanswers
            exact iff_of_true (refusalFinal_cancelHandshake_iff.2 hnothing)
              (refusalFinal_of_served_eq_nil hnothing)
      have hserved : served (read.batch.answers ++ rest) =
          read.batch.events.map HttpEvent.served ++ served rest := by
        rw [served_append, Batch.served_answers, hhandle, served_map_served]
      rw [served_append, served_map_served]
      constructor
      · rintro ⟨_, hanswers, hrefusals, hsame⟩
        obtain rfl := Except.ok.inj hanswers
        exact ⟨rest, rfl, hfinal.1 hrefusals, List.append_cancel_left (hserved.symm.trans hsame)⟩
      · rintro ⟨_, hanswers, hrefusals, hsame⟩
        obtain rfl := Except.ok.inj hanswers
        exact ⟨_, rfl, hfinal.2 hrefusals, by rw [hserved, hsame]⟩

end Main

/-- A request of the read ends it, or none does. -/
theorem dropWhile_ends (accepts : Bytes → Bool) (requests : List Finished) :
    (requests.dropWhile fun request => ¬ request.Ends accepts) = [] ∧
        (∀ request ∈ requests, ¬ request.Ends accepts) ∨
      ∃ before request after,
        (requests.dropWhile fun request => ¬ request.Ends accepts) = request :: after ∧
          requests = before ++ request :: after ∧ request.Ends accepts ∧
            ∀ request ∈ before, ¬ request.Ends accepts := by
  induction requests with
  | nil => exact Or.inl ⟨rfl, fun _ hmem => absurd hmem List.not_mem_nil⟩
  | cons first requests ih =>
      by_cases hends : first.Ends accepts
      · refine Or.inr ⟨[], first, requests, ?_, rfl, hends, fun _ hmem => ?_⟩
        · rw [List.dropWhile_cons_of_neg (by simpa using hends)]
        · exact absurd hmem List.not_mem_nil
      · rw [List.dropWhile_cons_of_pos (by simpa using hends)]
        rcases ih with ⟨hnil, hgoes⟩ | ⟨before, request, after, hdrop, rfl, hrequest, hgoes⟩
        · exact Or.inl ⟨hnil, List.forall_mem_cons.2 ⟨hends, hgoes⟩⟩
        · exact Or.inr ⟨first :: before, request, after, hdrop, rfl, hrequest,
            List.forall_mem_cons.2 ⟨hends, hgoes⟩⟩

/-- The events of one read of all the bytes. -/
def wholeEvents (reads : List FinishedRead) : List HttpEvent :=
  (untilPause (reads.map FinishedRead.requests)).map Finished.event

theorem wholeEvents_cons (read : FinishedRead) (reads : List FinishedRead) :
    ∃ rest, wholeEvents (read :: reads) = read.batch.events ++ rest := by
  obtain ⟨rest, hrest⟩ := untilPause_cons read.requests (reads.map FinishedRead.requests)
  exact ⟨rest.map Finished.event, by rw [wholeEvents, List.map_cons, hrest, List.map_append]; rfl⟩

theorem wholeEvents_of_pauses {read : FinishedRead} (reads : List FinishedRead)
    (h : ∃ request ∈ read.requests, request.Pauses) :
    wholeEvents (read :: reads) = read.batch.events := by
  rw [wholeEvents, List.map_cons, untilPause, if_pos h]
  rfl

theorem wholeEvents_of_not_pauses {read : FinishedRead} (reads : List FinishedRead)
    (h : ∀ request ∈ read.requests, ¬ request.Pauses) :
    wholeEvents (read :: reads) = read.batch.events ++ wholeEvents reads := by
  have hnot : ¬ ∃ request ∈ read.requests, request.Pauses :=
    fun ⟨request, hrequest, hpauses⟩ => h request hrequest hpauses
  rw [wholeEvents, List.map_cons, untilPause, if_neg hnot, List.map_append]
  rfl

theorem wholeEvents_eq_nil_iff {reads : List FinishedRead} :
    wholeEvents reads = [] ↔ ∀ requests ∈ reads.map FinishedRead.requests, requests = [] := by
  rw [wholeEvents, List.map_eq_nil_iff, untilPause_eq_nil_iff]

theorem servesNothing_batch_iff {accepts : Bytes → Bool} (reads : List FinishedRead) :
    ServesNothing accepts (reads.map FinishedRead.batch) ↔
      ∀ requests ∈ reads.map FinishedRead.requests, ∀ first ∈ requests.head?,
        first.event.IsRefused := by
  rw [servesNothing_iff, List.map_map, List.forall_mem_map, List.forall_mem_map]
  refine forall₂_congr fun read _ => ?_
  change (∀ first ∈ (read.requests.map Finished.event).head?, first.IsRefused) ↔ _
  cases read.requests with
  | nil => exact iff_of_true (fun _ h => by cases h) fun _ h => by cases h
  | cons request requests => simp

section Ends

variable {accepts : Bytes → Bool} {before after : List Finished} {request : Finished}
  {read : FinishedRead} {reads : List FinishedRead}

/-- Behind a request behind which the parser pauses there is nothing, in the reads or in one. -/
theorem wholeEvents_of_last (hlast : PausesLast read.requests)
    (hrequests : read.requests = before ++ request :: after) (hpauses : request.Pauses)
    (reads : List FinishedRead) :
    after = [] ∧ wholeEvents (read :: reads) = read.batch.events := by
  refine ⟨hlast before request after hrequests hpauses,
    wholeEvents_of_pauses reads ⟨request, ?_, hpauses⟩⟩
  rw [hrequests]
  exact List.mem_append_right _ List.mem_cons_self

/-- An upgrade that is accepted must be the last request, also of one read. -/
theorem asOneRead_wholeEvents_iff_of_accepted (hgoes : ∀ request ∈ before, ¬ request.Ends accepts)
    (hnot : ¬ request.event.IsRefused) (hupgrade : request.event.upgrade = true)
    (haccepted : accepts request.event.path = true) (hlast : PausesLast read.requests)
    (hrequests : read.requests = before ++ request :: after) :
    AsOneRead accepts (read :: reads) (wholeEvents (read :: reads)) ↔
      after = [] ∧ (request.leftover = true →
        ∀ requests ∈ reads.map FinishedRead.requests, requests = []) := by
  cases hleftover : request.leftover with
  | false =>
      obtain ⟨rfl, hwhole⟩ := wholeEvents_of_last hlast hrequests ⟨hupgrade, hleftover⟩ reads
      rw [asOneRead_iff_of_accepted hgoes hnot hupgrade haccepted hrequests
        (hwhole.trans (List.append_nil _).symm)]
      simp
  | true =>
      cases after with
      | nil =>
          -- the parser goes on behind the upgrade, with the bytes of the next read
          have hpausing : ∀ request ∈ read.requests, ¬ request.Pauses := by
            rw [hrequests, List.forall_mem_append, List.forall_mem_singleton]
            exact ⟨not_pauses_of_not_ends hgoes, fun hpauses =>
              Bool.false_ne_true (hpauses.2.symm.trans hleftover)⟩
          rw [asOneRead_iff_of_accepted hgoes hnot hupgrade haccepted hrequests
            (wholeEvents_of_not_pauses reads hpausing), wholeEvents_eq_nil_iff]
          simp
      | cons next after =>
          obtain ⟨rest, hwhole⟩ := wholeEvents_cons read reads
          rw [asOneRead_iff_of_accepted hgoes hnot hupgrade haccepted hrequests hwhole]
          exact iff_of_false (fun h => by cases h.1) fun h => by cases h.1

end Ends

/-- The requests of the reads are answered as in one read, and with final refusals, exactly if they
end for good; the induction is on the reads. -/
theorem asOneRead_iff {accepts : Bytes → Bool} {reads : List FinishedRead}
    (hlast : ∀ read ∈ reads, PausesLast read.requests) (herror : ErrorLast reads) :
    AsOneRead accepts reads (wholeEvents reads) ↔
      EndsForGood accepts (reads.map FinishedRead.requests) := by
  induction reads with
  | nil => exact iff_of_true ⟨rfl, [], rfl, List.Pairwise.nil, rfl⟩ trivial
  | cons read reads ih =>
      have hrest := ih (fun other hother => hlast other (List.mem_cons_of_mem read hother))
        (List.pairwise_cons.1 herror).2
      have hread := hlast read List.mem_cons_self
      rw [List.map_cons, EndsForGood]
      rcases dropWhile_ends accepts read.requests with ⟨hdrop, hgoes⟩ |
        ⟨before, request, after, hdrop, hrequests, hends, hgoes⟩
      · rw [hdrop, wholeEvents_of_not_pauses reads (not_pauses_of_not_ends hgoes),
          asOneRead_iff_of_goes hgoes, hrest]
        intro hfailed
        rw [servesNothing_batch_iff]
        intro requests hmem first hfirst
        obtain ⟨later, hlater, rfl⟩ := List.mem_map.1 hmem
        rw [(List.pairwise_cons.1 herror).1 later hlater hfailed] at hfirst
        cases hfirst
      · rw [hdrop]
        dsimp only
        by_cases hrefused : request.event.IsRefused
        · obtain ⟨rest, hwhole⟩ := wholeEvents_cons read reads
          rw [if_neg fun h => h.1 hrefused, ← servesNothing_batch_iff,
            asOneRead_iff_of_refused hgoes hrefused hrequests hwhole]
        · obtain ⟨hupgrade, hhow⟩ := hends.resolve_left hrefused
          cases haccepts : accepts request.event.path with
          | false =>
              have hleftover := hhow.resolve_left (by simp [haccepts])
              obtain ⟨rfl, hwhole⟩ :=
                wholeEvents_of_last hread hrequests ⟨hupgrade, hleftover⟩ reads
              rw [if_neg fun h => Bool.false_ne_true h.2, ← servesNothing_batch_iff,
                asOneRead_iff_of_declined hgoes hrefused haccepts hrequests hwhole]
          | true =>
              rw [if_pos ⟨hrefused, rfl⟩, asOneRead_wholeEvents_iff_of_accepted hgoes hrefused hupgrade
                haccepts hread hrequests]

/-! ## The main result -/

section Serve

variable {p : graph.Parser} {handler : HttpHandler} {reads : List Bytes}
  {batches : List FinishedRead}

/-- What the handler answers depends on the requests that the reads finish. -/
theorem serve_eq (accepts : Bytes → Bool) (hempty : handler.events = [])
    (h : finishes p handler reads = .ok batches) :
    parser.serve accepts p handler reads =
      Batch.answersOf accepts (batches.map FinishedRead.batch) := by
  induction reads generalizing p handler batches with
  | nil =>
      obtain rfl := Except.ok.inj h
      rfl
  | cons data reads ih =>
      obtain ⟨last, requests, rest, hfold, _, hevents, hrest, rfl⟩ := finishes_cons hempty h
      have hserve := ih rfl hrest
      have hdata : (handler.onData (parser.execute p data).2).mapError ServeFault.memory =
          .ok ⟨{ last with events := [] }, (parser.execute p data).2.isError,
            handleEvents last.events⟩ := by
        rw [HttpHandler.onData, hfold]
        rfl
      rw [HttpParser.serve, hdata, List.map_cons, Batch.answersOf, FinishedRead.batch]
      dsimp only [bind, Except.bind]
      rw [hevents, hserve]
      split
      · rfl
      · split
        · rfl
        · cases Batch.answersOf accepts (rest.map FinishedRead.batch) <;> rfl

/-- The refusals on a connection in terms of the requests that its reads finish. -/
theorem refusesForGood_iff_asOneRead (accepts : Bytes → Bool)
    (h : finishes parser.init .init reads = .ok batches) :
    RefusesForGood parser accepts reads ↔ AsOneRead accepts batches (wholeEvents batches) := by
  -- one read of all the bytes
  have hwhole : ∃ isError, parser.serve accepts parser.init .init [reads.flatten] =
      Batch.answersOf accepts [⟨wholeEvents batches, isError⟩] := by
    obtain ⟨one, hone⟩ := exists_finishes parser.init .init rfl [reads.flatten]
    obtain ⟨last, requests, rest, hfold, _, hevents, hrest, rfl⟩ := finishes_cons rfl hone
    obtain rfl := Except.ok.inj hrest
    refine ⟨(parser.execute parser.init reads.flatten).2.isError, ?_⟩
    rw [serve_eq accepts rfl hone, List.map_singleton, FinishedRead.batch]
    dsimp only
    rw [hevents]
    cases reads with
    | nil =>
        obtain rfl := Except.ok.inj h
        have hnone : (parser.execute parser.init [].flatten).2.callbacks = [] := by
          decide +kernel
        rw [hnone] at hfold
        obtain rfl := Except.ok.inj hfold
        rfl
    | cons first reads =>
        obtain ⟨whole, hfold', hsame⟩ := foldlM_flatten Ready.init rfl h
        obtain rfl := Except.ok.inj (hfold.symm.trans hfold')
        rw [hsame, wholeEvents]
  obtain ⟨isError, hwhole⟩ := hwhole
  unfold RefusesForGood AsOneRead
  rw [serve_eq accepts rfl h, hwhole, answersOf_singleton]
  dsimp only
  cases hsound : usesDeleted accepts (handleEvents (wholeEvents batches)) with
  | true => exact iff_of_false (fun ⟨_, _, _, h, _⟩ => by cases h) fun h => by cases h.1
  | false =>
      rw [and_iff_right rfl]
      constructor
      · rintro ⟨dispositions, _, hanswers, hone, hfinal, hsame⟩
        obtain rfl := Except.ok.inj hone
        rw [Batch.served_answers] at hsame
        exact ⟨dispositions, hanswers, hfinal, hsame⟩
      · rintro ⟨dispositions, hanswers, hfinal, hsame⟩
        have hone := Batch.served_answers ⟨wholeEvents batches, isError⟩
        exact ⟨dispositions, _, hanswers, rfl, hfinal, hsame.trans hone.symm⟩

end Serve

/-- On every connection and however its bytes are cut into reads: refusals are final and the requests
served are those of one read exactly if the requests of the reads end for good. -/
theorem refusesForGood_iff (accepts : Bytes → Bool) (reads : List Bytes) :
    RefusesForGood parser accepts reads ↔
      ∃ batches, finishes parser.init .init reads = .ok batches ∧
        EndsForGood accepts (batches.map FinishedRead.requests) := by
  obtain ⟨batches, hfinishes⟩ := exists_finishes parser.init .init rfl reads
  rw [refusesForGood_iff_asOneRead accepts hfinishes,
    asOneRead_iff (pausesLast_of_finishes Ready.init rfl hfinishes)
      (errorLast_of_finishes rfl hfinishes)]
  constructor
  · intro hends
    exact ⟨batches, hfinishes, hends⟩
  · rintro ⟨others, hothers, hends⟩
    obtain rfl := Except.ok.inj (hfinishes.symm.trans hothers)
    exact hends

def getJson : Bytes := ascii "GET /json HTTP/1.1\r\n\r\n"

def post : Bytes := ascii "POST / HTTP/1.1\r\n\r\n"

/-- A refused request, and in the next read one that is served. -/
theorem not_refusesForGood_post_getJson :
    ¬ ∀ (accepts : Bytes → Bool) (reads : List Bytes), RefusesForGood parser accepts reads := by
  intro h
  obtain ⟨dispositions, _, hserve, _, hfinal, _⟩ := h (fun _ => true) [post, getJson]
  have hserved : parser.serve (fun _ => true) parser.init .init [post, getJson] =
      .ok [.cancelHandshake, .onHttpGet [] (ascii "/json")] := by
    decide +kernel
  obtain rfl := Except.ok.inj (hserved.symm.trans hserve)
  exact (List.pairwise_cons.1 hfinal).1 _ (List.mem_singleton.2 rfl) rfl trivial

end Llhttp
end Inspector
end V8JsiRuntime
