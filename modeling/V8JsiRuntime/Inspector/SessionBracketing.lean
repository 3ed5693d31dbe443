import V8JsiRuntime.Inspector.SocketServer

/-!
# SessionBracketing — which sessions are started and ended in pairs

Whether `EndSession` is called for a terminated session is read off the target id that was recorded
when it was upgraded, and that is the request path without its first character.
`bracketed_iff` says for which runs every started session is ended exactly once.
-/

namespace V8JsiRuntime
namespace Inspector

open Lib

namespace InspectorSocketServer

/-! ## Routing never leaves the path -/

theorem matchPathSegment_ok (path expected : Bytes) (hnul : ∀ c ∈ expected, c ≠ 0) :
    ∃ rest, matchPathSegment path expected = .ok rest := by
  rw [matchPathSegment, stringEqualNoCaseN_eq path expected hnul, ok_bind]
  cases hinitial : isPrefixNoCase path expected with
  | false => exact ⟨none, rfl⟩
  | true =>
      -- a path that begins with the segment is long enough for the character behind it
      have hlen : expected.length ≤ path.length := by
        have heq := congrArg List.length (beq_iff_eq.1 hinitial)
        simp only [List.length_map, List.length_take] at heq
        omega
      have hread : ∃ c, charAt path expected.length = .ok c :=
        ⟨_, readByte_of_lt (by simp; omega)⟩
      obtain ⟨c, hc⟩ := hread
      simp only [if_true, hc, ok_bind]
      split
      · exact ⟨_, rfl⟩
      · split
        · exact ⟨_, rfl⟩
        · exact ⟨_, rfl⟩

theorem routeGetRequest_ok (path : Bytes) : ∃ response, routeGetRequest path = .ok response := by
  obtain ⟨rest, hrest⟩ := matchPathSegment_ok path (ascii "/json") (by decide +kernel)
  cases rest with
  | none => exact ⟨none, by rw [routeGetRequest, hrest]; rfl⟩
  | some command =>
      obtain ⟨list, hlist⟩ := matchPathSegment_ok command (ascii "list") (by decide +kernel)
      obtain ⟨protocol, hprotocol⟩ := matchPathSegment_ok command (ascii "protocol") (by decide +kernel)
      obtain ⟨version, hversion⟩ := matchPathSegment_ok command (ascii "version") (by decide +kernel)
      have hread : ∃ c, charAt command 0 = .ok c := ⟨_, readByte_of_lt (by simp)⟩
      obtain ⟨first, hfirst⟩ := hread
      simp only [routeGetRequest, hrest, hlist, hprotocol, hversion, hfirst, ok_bind]
      split
      · exact ⟨_, rfl⟩
      · split
        · exact ⟨_, rfl⟩
        · split
          · exact ⟨_, rfl⟩
          · exact ⟨_, rfl⟩

end InspectorSocketServer

/-! ## Vocabulary -/

/-- The run terminates the session. -/
def Terminated (events : List ServerEvent) (sessionId : Nat) : Prop :=
  .delegateDestroyed sessionId ∈ events

/-- The run upgrades the session with that request path. -/
def UpgradedWith (events : List ServerEvent) (sessionId : Nat) (path : Bytes) : Prop :=
  ∃ host wsKey, .onSocketUpgrade sessionId host path wsKey ∈ events

namespace InspectorSocketServer

/-- The delegate was told that the session started. -/
def Started (server : InspectorSocketServer) (sessionId : Nat) : Prop :=
  ∃ targetId, .startSession sessionId targetId ∈ server.effects

/-- How often the delegate was told that the session ended. -/
def ends (server : InspectorSocketServer) (sessionId : Nat) : Nat :=
  server.effects.count (.endSession sessionId)

end InspectorSocketServer

/-- Session bracketing after a run: exactly the started sessions that terminated were ended, once
each, and no terminated session is in the map. -/
structure Bracketed (events : List ServerEvent) (server : InspectorSocketServer) : Prop where
  ended : ∀ sessionId, Terminated events sessionId → server.Started sessionId →
    server.ends sessionId = 1
  otherwise : ∀ sessionId, ¬ (Terminated events sessionId ∧ server.Started sessionId) →
    server.ends sessionId = 0
  removed : ∀ sessionId, Terminated events sessionId → sessionId ∉ server.connectedSessions

/-! ## The invariant -/

theorem terminated_concat (events : List ServerEvent) (event : ServerEvent) (sessionId : Nat) :
    Terminated (events ++ [event]) sessionId ↔
      Terminated events sessionId ∨ event = .delegateDestroyed sessionId := by
  simp [Terminated, eq_comm]

theorem upgradedWith_concat (events : List ServerEvent) (event : ServerEvent) (sessionId : Nat)
    (path : Bytes) : UpgradedWith (events ++ [event]) sessionId path ↔
      UpgradedWith events sessionId path ∨
        ∃ host wsKey, event = .onSocketUpgrade sessionId host path wsKey := by
  simp [UpgradedWith, exists_or, eq_comm]

theorem terminated_delegateDestroyed (events : List ServerEvent) (sessionId id : Nat) :
    Terminated (events ++ [.delegateDestroyed sessionId]) id ↔
      Terminated events id ∨ sessionId = id := by
  simp [terminated_concat]

theorem upgradedWith_delegateDestroyed (events : List ServerEvent) (sessionId id : Nat)
    (path : Bytes) : UpgradedWith (events ++ [.delegateDestroyed sessionId]) id path ↔
      UpgradedWith events id path := by
  simp [upgradedWith_concat]

/-- An entry of the map is a session that is not terminated; its target id is empty until it is
upgraded and the rest of the path afterwards. -/
def EntryOk (events : List ServerEvent) (sessionId : Nat) (entry : Bytes × SocketSession) : Prop :=
  ¬ Terminated events sessionId ∧
    match entry.2.protocol with
    | .http => entry.1 = [] ∧ ∀ path, ¬ UpgradedWith events sessionId path
    | .ws => ∃ path, UpgradedWith events sessionId path ∧ entry.1 = path.drop 1

/-- What the map and the history say after the events of a run. -/
structure SessionInv (events : List ServerEvent) (server : InspectorSocketServer) : Prop where
  noFault : server.fault = none
  hasDelegate : server.hasDelegate = true
  running : server.state = .kRunning
  unborn : ∀ sessionId, server.nextSessionId ≤ sessionId →
    ¬ Terminated events sessionId ∧ ∀ path, ¬ UpgradedWith events sessionId path
  members : ∀ sessionId, sessionId ∈ server.connectedSessions ↔
    sessionId < server.nextSessionId ∧ ¬ Terminated events sessionId
  connected : ∀ sessionId entry, server.connectedSessions.lookup sessionId = some entry →
    EntryOk events sessionId entry
  unique : ∀ sessionId path path', UpgradedWith events sessionId path →
    UpgradedWith events sessionId path' → path = path'
  started : ∀ sessionId, server.Started sessionId ↔ ∃ path, UpgradedWith events sessionId path
  ended : ∀ sessionId path, Terminated events sessionId → UpgradedWith events sessionId path →
    2 ≤ path.length → server.ends sessionId = 1
  notEnded : ∀ sessionId, (Terminated events sessionId →
    ∀ path, UpgradedWith events sessionId path → path.length < 2) → server.ends sessionId = 0

theorem SessionInv.lt_of_lookup {events : List ServerEvent} {server : InspectorSocketServer}
    (h : SessionInv events server) {sessionId : Nat} {entry : Bytes × SocketSession}
    (hentry : server.connectedSessions.lookup sessionId = some entry) :
    sessionId < server.nextSessionId := by
  have hmem : sessionId ∈ server.connectedSessions := by
    rw [← AList.lookup_isSome, hentry]
    rfl
  exact ((h.members sessionId).1 hmem).1

/-- The recorded target id is non-empty exactly for an upgrade with more than one character. -/
theorem SessionInv.target_iff {events : List ServerEvent} {server : InspectorSocketServer}
    (h : SessionInv events server) {sessionId : Nat} {entry : Bytes × SocketSession}
    (hentry : server.connectedSessions.lookup sessionId = some entry) :
    entry.1 ≠ [] ↔ ∃ path, UpgradedWith events sessionId path ∧ 2 ≤ path.length := by
  obtain ⟨_, hkind⟩ := h.connected sessionId entry hentry
  cases hprotocol : entry.2.protocol with
  | http =>
      rw [hprotocol] at hkind
      obtain ⟨hempty, hnone⟩ := hkind
      exact ⟨fun hne => absurd hempty hne, fun ⟨path, hpath, _⟩ => absurd hpath (hnone path)⟩
  | ws =>
      rw [hprotocol] at hkind
      obtain ⟨path, hpath, hdrop⟩ := hkind
      rw [hdrop, ne_eq, List.drop_eq_nil_iff, Nat.not_le]
      constructor
      · exact fun hlen => ⟨path, hpath, hlen⟩
      · rintro ⟨path', hpath', hlen⟩
        rw [h.unique sessionId path path' hpath hpath']
        exact hlen

/-- Events and effects that start, upgrade and end nothing. -/
theorem SessionInv.quiet {events : List ServerEvent} {server server' : InspectorSocketServer}
    (h : SessionInv events server) {event : ServerEvent}
    (hterm : ∀ sessionId, event ≠ .delegateDestroyed sessionId)
    (hupgrade : ∀ sessionId host path wsKey, event ≠ .onSocketUpgrade sessionId host path wsKey)
    (hfault : server'.fault = none) (hdelegate : server'.hasDelegate = true)
    (hstate : server'.state = server.state)
    (hnext : server'.nextSessionId = server.nextSessionId)
    (hmap : server'.connectedSessions = server.connectedSessions)
    (hstarted : ∀ sessionId, server'.Started sessionId ↔ server.Started sessionId)
    (hends : ∀ sessionId, server'.ends sessionId = server.ends sessionId) :
    SessionInv (events ++ [event]) server' := by
  have hterm' : ∀ sessionId, Terminated (events ++ [event]) sessionId ↔
      Terminated events sessionId := by
    intro sessionId
    rw [terminated_concat]
    exact or_iff_left (hterm sessionId)
  have hupgrade' : ∀ sessionId path, UpgradedWith (events ++ [event]) sessionId path ↔
      UpgradedWith events sessionId path := by
    intro sessionId path
    rw [upgradedWith_concat]
    exact or_iff_left fun ⟨host, wsKey, heq⟩ => hupgrade sessionId host path wsKey heq
  refine ⟨hfault, hdelegate, hstate.trans h.running, ?_, ?_, ?_, ?_, ?_, ?_, ?_⟩
  · simpa only [hnext, hterm', hupgrade'] using h.unborn
  · simpa only [hnext, hmap, hterm'] using h.members
  · simpa only [hmap, EntryOk, hterm', hupgrade'] using h.connected
  · simpa only [hupgrade'] using h.unique
  · simpa only [hstarted, hupgrade'] using h.started
  · simpa only [hends, hterm', hupgrade'] using h.ended
  · simpa only [hends, hterm', hupgrade'] using h.notEnded

theorem SessionInv.accept {events : List ServerEvent} {server : InspectorSocketServer}
    (h : SessionInv events server) (serverPort : Nat) :
    SessionInv (events ++ [.accept]) (server.accept serverPort) := by
  have hterm : ∀ sessionId, Terminated (events ++ [.accept]) sessionId ↔
      Terminated events sessionId := by
    simp [terminated_concat]
  have hupgrade : ∀ sessionId path, UpgradedWith (events ++ [.accept]) sessionId path ↔
      UpgradedWith events sessionId path := by
    simp [upgradedWith_concat]
  have hstarted : ∀ sessionId, (server.accept serverPort).Started sessionId ↔
      server.Started sessionId := fun _ => Iff.rfl
  have hends : ∀ sessionId, (server.accept serverPort).ends sessionId = server.ends sessionId :=
    fun _ => rfl
  refine ⟨h.noFault, h.hasDelegate, h.running, ?_, ?_, ?_, ?_, ?_, ?_, ?_⟩
  · intro sessionId hle
    simpa only [hterm, hupgrade] using h.unborn sessionId (Nat.le_of_succ_le hle)
  · intro sessionId
    rw [hterm, InspectorSocketServer.accept, AList.mem_insert, h.members, Nat.lt_succ_iff_lt_or_eq]
    have hnone := (h.unborn server.nextSessionId (Nat.le_refl _)).1
    constructor
    · rintro (rfl | ⟨hlt, hlive⟩)
      · exact ⟨Or.inr rfl, hnone⟩
      · exact ⟨Or.inl hlt, hlive⟩
    · rintro ⟨hlt | rfl, hlive⟩
      · exact Or.inr ⟨hlt, hlive⟩
      · exact Or.inl rfl
  · intro sessionId entry hentry
    by_cases hnew : sessionId = server.nextSessionId
    · subst hnew
      simp only [InspectorSocketServer.accept, AList.lookup_insert, Option.some.injEq] at hentry
      obtain ⟨hnone, hfresh⟩ := h.unborn _ (Nat.le_refl _)
      subst hentry
      simp only [EntryOk, hterm, hupgrade]
      exact ⟨hnone, trivial, hfresh⟩
    · simp only [InspectorSocketServer.accept, AList.lookup_insert_ne hnew] at hentry
      simpa only [EntryOk, hterm, hupgrade] using h.connected sessionId entry hentry
  · simpa only [hupgrade] using h.unique
  · simpa only [hstarted, hupgrade] using h.started
  · simpa only [hends, hterm, hupgrade] using h.ended
  · simpa only [hends, hterm, hupgrade] using h.notEnded

namespace InspectorSocketServer

/-- The state after a successful upgrade. -/
def upgraded (server : InspectorSocketServer) (sessionId : Nat) (session : SocketSession)
    (path wsKey : Bytes) : InspectorSocketServer :=
  { server with
    connectedSessions := server.connectedSessions.insert sessionId
      (path.drop 1, { session with protocol := .ws })
    effects := server.effects ++ [.acceptUpgrade sessionId wsKey] ++
      [.startSession sessionId (path.drop 1)] }

theorem onSocketUpgrade_eq {server : InspectorSocketServer} {sessionId : Nat}
    {session : SocketSession} (hdelegate : server.hasDelegate = true)
    (hsession : server.session sessionId = some session) (path wsKey : Bytes) :
    server.onSocketUpgrade sessionId path wsKey =
      .ok (server.upgraded sessionId session path wsKey) := by
  have hid : (if path.isEmpty then path else path.drop 1) = path.drop 1 := by
    cases path with
    | nil => rfl
    | cons c path => rfl
  rw [onSocketUpgrade, hid, sessionStarted, hsession]
  exact if_pos hdelegate

theorem started_upgraded (server : InspectorSocketServer) (sessionId : Nat)
    (session : SocketSession) (path wsKey : Bytes) (id : Nat) :
    (server.upgraded sessionId session path wsKey).Started id ↔
      server.Started id ∨ sessionId = id := by
  simp [Started, upgraded, exists_or, eq_comm]

theorem ends_upgraded (server : InspectorSocketServer) (sessionId : Nat)
    (session : SocketSession) (path wsKey : Bytes) (id : Nat) :
    (server.upgraded sessionId session path wsKey).ends id = server.ends id := by
  simp [ends, upgraded]

end InspectorSocketServer

theorem SessionInv.upgrade {events : List ServerEvent} {server : InspectorSocketServer}
    (h : SessionInv events server) {sessionId : Nat} {session : SocketSession}
    (hsession : server.session sessionId = some session) (hhttp : session.protocol = .http)
    (host path wsKey : Bytes) :
    SessionInv (events ++ [.onSocketUpgrade sessionId host path wsKey])
      (server.upgraded sessionId session path wsKey) := by
  obtain ⟨entry, hentry, rfl⟩ := Option.map_eq_some_iff.1 hsession
  obtain ⟨hlive, hkind⟩ := h.connected sessionId entry hentry
  rw [hhttp] at hkind
  obtain ⟨_, hfirst⟩ := hkind
  have hterm : ∀ id, Terminated (events ++ [.onSocketUpgrade sessionId host path wsKey]) id ↔
      Terminated events id := by
    simp [terminated_concat]
  have hupgrade : ∀ id p, UpgradedWith (events ++ [.onSocketUpgrade sessionId host path wsKey]) id p ↔
      UpgradedWith events id p ∨ (sessionId = id ∧ path = p) := by
    intro id p
    rw [upgradedWith_concat]
    simp
  have hlt := h.lt_of_lookup hentry
  refine ⟨h.noFault, h.hasDelegate, h.running, ?_, ?_, ?_, ?_, ?_, ?_, ?_⟩
  · intro id hle
    have hne : ¬ sessionId = id := Nat.ne_of_lt (Nat.lt_of_lt_of_le hlt hle)
    simpa only [hterm, hupgrade, hne, false_and, or_false] using h.unborn id hle
  · intro id
    rw [hterm, InspectorSocketServer.upgraded, AList.mem_insert, h.members id]
    constructor
    · rintro (rfl | hboth)
      · exact ⟨hlt, hlive⟩
      · exact hboth
    · exact Or.inr
  · intro id entry' hentry'
    by_cases hid : id = sessionId
    · subst hid
      simp only [InspectorSocketServer.upgraded, AList.lookup_insert, Option.some.injEq] at hentry'
      subst hentry'
      simp only [EntryOk, hterm, hupgrade]
      exact ⟨hlive, path, Or.inr ⟨trivial, rfl⟩, rfl⟩
    · have hne' : ¬ sessionId = id := fun heq => hid heq.symm
      simp only [InspectorSocketServer.upgraded, AList.lookup_insert_ne hid] at hentry'
      simpa only [EntryOk, hterm, hupgrade, hne', false_and, or_false] using
        h.connected id entry' hentry'
  · intro id p q hp hq
    rw [hupgrade] at hp hq
    rcases hp with hp | ⟨rfl, rfl⟩
    · rcases hq with hq | ⟨rfl, rfl⟩
      · exact h.unique id p q hp hq
      -- the session spoke HTTP until now, so that this is its only upgrade
      · exact absurd hp (hfirst p)
    · rcases hq with hq | ⟨_, rfl⟩
      · exact absurd hq (hfirst q)
      · rfl
  · intro id
    simp only [InspectorSocketServer.started_upgraded, h.started id, hupgrade, exists_or]
    simp
  · intro id p hdead hp hlen
    rw [hterm] at hdead
    rw [hupgrade] at hp
    rw [InspectorSocketServer.ends_upgraded]
    rcases hp with hp | ⟨rfl, rfl⟩
    · exact h.ended id p hdead hp hlen
    · exact absurd hdead hlive
  · intro id hshort
    rw [InspectorSocketServer.ends_upgraded]
    refine h.notEnded id fun hdead p hp => ?_
    exact hshort ((hterm id).2 hdead) p ((hupgrade id p).2 (Or.inl hp))

namespace InspectorSocketServer

/-- The state after a connected session is terminated. -/
def terminated (server : InspectorSocketServer) (sessionId : Nat) (targetId : Bytes) :
    InspectorSocketServer :=
  { server with
    connectedSessions := server.connectedSessions.erase sessionId
    effects := server.effects ++ if targetId = [] then [] else [.endSession sessionId] }

theorem sessionTerminated_eq {server : InspectorSocketServer} {sessionId : Nat}
    {entry : Bytes × SocketSession} (hdelegate : server.hasDelegate = true)
    (hstate : server.state = .kRunning)
    (hentry : server.connectedSessions.lookup sessionId = some entry) :
    server.sessionTerminated sessionId = .ok (server.terminated sessionId entry.1) := by
  rw [sessionTerminated, hentry]
  by_cases htarget : entry.1 = []
  · simp [htarget, hstate, terminated, bind, Except.bind, pure, Except.pure]
  · simp [htarget, hstate, terminated, callDelegate, hdelegate, act, bind, Except.bind, pure,
      Except.pure]

theorem started_terminated (server : InspectorSocketServer) (sessionId : Nat) (targetId : Bytes)
    (id : Nat) : (server.terminated sessionId targetId).Started id ↔ server.Started id := by
  simp only [Started, terminated, List.mem_append]
  refine exists_congr fun target => or_iff_left ?_
  split <;> simp

theorem ends_terminated (server : InspectorSocketServer) (sessionId : Nat) (targetId : Bytes) :
    (server.terminated sessionId targetId).ends sessionId =
      server.ends sessionId + if targetId = [] then 0 else 1 := by
  simp only [ends, terminated, List.count_append]
  split <;> simp

theorem ends_terminated_of_ne (server : InspectorSocketServer) {sessionId id : Nat}
    (targetId : Bytes) (hne : sessionId ≠ id) :
    (server.terminated sessionId targetId).ends id = server.ends id := by
  simp only [ends, terminated, List.count_append]
  split <;> simp [hne]

end InspectorSocketServer

/-- Destroying the delegate of a session that is gone already changes nothing. -/
theorem SessionInv.terminate_again {events : List ServerEvent} {server : InspectorSocketServer}
    (h : SessionInv events server) {sessionId : Nat} (hdead : Terminated events sessionId) :
    SessionInv (events ++ [.delegateDestroyed sessionId]) server := by
  have hterm : ∀ id, Terminated (events ++ [.delegateDestroyed sessionId]) id ↔
      Terminated events id := by
    intro id
    rw [terminated_delegateDestroyed]
    exact or_iff_left_of_imp fun heq => heq ▸ hdead
  have hupgrade := upgradedWith_delegateDestroyed events sessionId
  refine ⟨h.noFault, h.hasDelegate, h.running, ?_, ?_, ?_, ?_, ?_, ?_, ?_⟩
  · simpa only [hterm, hupgrade] using h.unborn
  · simpa only [hterm] using h.members
  · simpa only [EntryOk, hterm, hupgrade] using h.connected
  · simpa only [hupgrade] using h.unique
  · simpa only [hupgrade] using h.started
  · simpa only [hterm, hupgrade] using h.ended
  · simpa only [hterm, hupgrade] using h.notEnded

theorem SessionInv.terminate {events : List ServerEvent} {server : InspectorSocketServer}
    (h : SessionInv events server) {sessionId : Nat} {entry : Bytes × SocketSession}
    (hentry : server.connectedSessions.lookup sessionId = some entry) :
    SessionInv (events ++ [.delegateDestroyed sessionId])
      (server.terminated sessionId entry.1) := by
  obtain ⟨hlive, _⟩ := h.connected sessionId entry hentry
  have hterm := terminated_delegateDestroyed events sessionId
  have hupgrade := upgradedWith_delegateDestroyed events sessionId
  have hlt := h.lt_of_lookup hentry
  have hself : (server.terminated sessionId entry.1).ends sessionId =
      if entry.1 = [] then 0 else 1 := by
    -- before, the session was not ended
    have hbefore := h.notEnded sessionId fun hdead => absurd hdead hlive
    rw [InspectorSocketServer.ends_terminated, hbefore, Nat.zero_add]
  refine ⟨h.noFault, h.hasDelegate, h.running, ?_, ?_, ?_, ?_, ?_, ?_, ?_⟩
  · intro id hle
    have hne : ¬ sessionId = id := Nat.ne_of_lt (Nat.lt_of_lt_of_le hlt hle)
    simpa only [hterm, hupgrade, hne, or_false] using h.unborn id hle
  · intro id
    rw [hterm, InspectorSocketServer.terminated, AList.mem_erase, h.members id, not_or]
    constructor
    · rintro ⟨hne, hlt', hlive'⟩
      exact ⟨hlt', hlive', fun heq => hne heq.symm⟩
    · rintro ⟨hlt', hlive', hne⟩
      exact ⟨fun heq => hne heq.symm, hlt', hlive'⟩
  · intro id entry' hentry'
    have hne : id ≠ sessionId := by
      rintro rfl
      rw [InspectorSocketServer.terminated, AList.lookup_erase] at hentry'
      cases hentry'
    rw [InspectorSocketServer.terminated, AList.lookup_erase_ne hne] at hentry'
    simpa only [EntryOk, hterm, hupgrade, hne.symm, or_false] using h.connected id entry' hentry'
  · simpa only [hupgrade] using h.unique
  · simpa only [InspectorSocketServer.started_terminated, hupgrade] using h.started
  · intro id path hdead hpath hlen
    rw [hupgrade] at hpath
    rcases (hterm id).1 hdead with hold | rfl
    · have hne : sessionId ≠ id := by
        rintro rfl
        exact hlive hold
      rw [InspectorSocketServer.ends_terminated_of_ne server entry.1 hne]
      exact h.ended id path hold hpath hlen
    · rw [hself, if_neg ((h.target_iff hentry).2 ⟨path, hpath, hlen⟩)]
  · intro id hshort
    by_cases hid : sessionId = id
    · subst hid
      have hempty : entry.1 = [] := by
        by_contra hne
        obtain ⟨path, hpath, hlen⟩ := (h.target_iff hentry).1 hne
        have hdead := (hterm sessionId).2 (Or.inr rfl)
        have hlt := hshort hdead path ((hupgrade sessionId path).2 hpath)
        omega
      rw [hself, if_pos hempty]
    · rw [InspectorSocketServer.ends_terminated_of_ne server entry.1 hid]
      refine h.notEnded id fun hdead path hpath => ?_
      exact hshort ((hterm id).2 (Or.inl hdead)) path ((hupgrade id path).2 hpath)

/-! ## All runs -/

theorem sessionInv_started (port : Nat) : SessionInv [] (.started port) where
  noFault := rfl
  hasDelegate := rfl
  running := rfl
  unborn := by
    intro sessionId _
    exact ⟨by simp [Terminated], by simp [UpgradedWith]⟩
  members := by
    intro sessionId
    simp [InspectorSocketServer.started]
  connected := by
    intro sessionId entry hentry
    simp [InspectorSocketServer.started] at hentry
  unique := by
    intro sessionId path path' hpath
    simp [UpgradedWith] at hpath
  started := by
    intro sessionId
    simp [InspectorSocketServer.Started, InspectorSocketServer.started, UpgradedWith]
  ended := by
    intro sessionId path hdead
    simp [Terminated] at hdead
  notEnded := by
    intro sessionId _
    rfl

theorem started_act {server : InspectorSocketServer} {effect : ServerEffect}
    (h : ∀ sessionId targetId, effect ≠ .startSession sessionId targetId) (sessionId : Nat) :
    (server.act effect).Started sessionId ↔ server.Started sessionId := by
  simp only [InspectorSocketServer.Started, InspectorSocketServer.act, List.mem_append,
    List.mem_singleton]
  exact exists_congr fun targetId => or_iff_left fun heq => h sessionId targetId heq.symm

theorem ends_act {server : InspectorSocketServer} {effect : ServerEffect}
    (h : ∀ sessionId, effect ≠ .endSession sessionId) (sessionId : Nat) :
    (server.act effect).ends sessionId = server.ends sessionId := by
  simp [InspectorSocketServer.ends, InspectorSocketServer.act, h sessionId]

/-- A quiet event that only adds one quiet effect. -/
theorem SessionInv.act {events : List ServerEvent} {server : InspectorSocketServer}
    (h : SessionInv events server) {event : ServerEvent} {effect : ServerEffect}
    (hterm : ∀ sessionId, event ≠ .delegateDestroyed sessionId)
    (hupgrade : ∀ sessionId host path wsKey, event ≠ .onSocketUpgrade sessionId host path wsKey)
    (hstart : ∀ sessionId targetId, effect ≠ .startSession sessionId targetId)
    (hend : ∀ sessionId, effect ≠ .endSession sessionId) :
    SessionInv (events ++ [event]) (server.act effect) :=
  h.quiet hterm hupgrade h.noFault h.hasDelegate rfl rfl rfl (started_act hstart) (ends_act hend)

namespace InspectorSocketServer

/-- What an event other than `Stop` does to a running server. -/
inductive Transition (server : InspectorSocketServer) : ServerEvent → InspectorSocketServer → Prop
  | accept : Transition server .accept (server.accept server.port)
  /-- The event only adds an effect that starts and ends no session. -/
  | acts {event : ServerEvent} {effect : ServerEffect} :
      (∀ sessionId, event ≠ .delegateDestroyed sessionId) →
      (∀ sessionId host path wsKey, event ≠ .onSocketUpgrade sessionId host path wsKey) →
      (∀ sessionId targetId, effect ≠ .startSession sessionId targetId) →
      (∀ sessionId, effect ≠ .endSession sessionId) → Transition server event (server.act effect)
  | upgrade {sessionId : Nat} {host path wsKey : Bytes} {session : SocketSession} :
      server.session sessionId = some session → session.protocol = .http →
        Transition server (.onSocketUpgrade sessionId host path wsKey)
          (server.upgraded sessionId session path wsKey)
  /-- The session had been erased before. -/
  | terminateAgain {sessionId : Nat} : sessionId < server.nextSessionId →
      server.connectedSessions.lookup sessionId = none →
        Transition server (.delegateDestroyed sessionId) server
  | terminate {sessionId : Nat} {entry : Bytes × SocketSession} :
      server.connectedSessions.lookup sessionId = some entry →
        Transition server (.delegateDestroyed sessionId) (server.terminated sessionId entry.1)

/-- No event of a connected session faults. -/
theorem handle_running {server : InspectorSocketServer} {event : ServerEvent}
    (hstate : server.state = .kRunning) (hdelegate : server.hasDelegate = true)
    (hcan : server.CanOccur event) (hstop : event ≠ .stop) :
    ∃ next, server.handle event = .ok next ∧ Transition server event next := by
  cases event with
  | accept => exact ⟨_, rfl, .accept⟩
  | onHttpGet sessionId host path =>
      obtain ⟨session, hsession, _⟩ := Option.map_eq_some_iff.1 hcan
      obtain ⟨response, hroute⟩ := routeGetRequest_ok path
      simp only [handle, onHttpGet, hsession, hroute]
      cases response with
      | none => exact ⟨_, rfl, .acts nofun nofun nofun nofun⟩
      | some response =>
          cases response with
          | list => exact ⟨_, if_pos hdelegate, .acts nofun nofun nofun nofun⟩
          | protocol => exact ⟨_, rfl, .acts nofun nofun nofun nofun⟩
          | version => exact ⟨_, rfl, .acts nofun nofun nofun nofun⟩
  | onSocketUpgrade sessionId host path wsKey =>
      obtain ⟨session, hsession, hhttp⟩ := Option.map_eq_some_iff.1 hcan
      exact ⟨_, onSocketUpgrade_eq hdelegate hsession path wsKey, .upgrade hsession hhttp⟩
  | onWsFrame sessionId data => exact ⟨_, if_pos hdelegate, .acts nofun nofun nofun nofun⟩
  | delegateDestroyed sessionId =>
      cases hentry : server.connectedSessions.lookup sessionId with
      | none =>
          refine ⟨server, ?_, .terminateAgain hcan hentry⟩
          rw [handle, sessionTerminated, hentry]
      | some entry =>
          exact ⟨_, sessionTerminated_eq hdelegate hstate hentry, .terminate hentry⟩
  | stop => exact absurd rfl hstop

theorem step_ok {server next : InspectorSocketServer} {event : ServerEvent}
    (hnext : server.handle event = .ok next) {server' : InspectorSocketServer}
    (hstep : server.step event = some server') : server' = next := by
  unfold step at hstep
  split at hstep
  · rw [hnext] at hstep
    exact (Option.some.inj hstep).symm
  · cases hstep

theorem step_canOccur {server server' : InspectorSocketServer} {event : ServerEvent}
    (hstep : server.step event = some server') : server.CanOccur event := by
  unfold step at hstep
  split at hstep
  · rename_i hcan
    exact hcan.2
  · cases hstep

theorem step_transition {server server' : InspectorSocketServer} {event : ServerEvent}
    (hstate : server.state = .kRunning) (hdelegate : server.hasDelegate = true)
    (hstop : event ≠ .stop) (hstep : server.step event = some server') :
    Transition server event server' := by
  obtain ⟨next, hnext, htransition⟩ :=
    handle_running hstate hdelegate (step_canOccur hstep) hstop
  rwa [step_ok hnext hstep]

end InspectorSocketServer

/-- One event, other than `Stop`, keeps the invariant. -/
theorem SessionInv.step {events : List ServerEvent} {server server' : InspectorSocketServer}
    {event : ServerEvent} (h : SessionInv events server) (hstop : event ≠ .stop)
    (hstep : server.step event = some server') : SessionInv (events ++ [event]) server' := by
  cases InspectorSocketServer.step_transition h.running h.hasDelegate hstop hstep with
  | accept => exact h.accept server.port
  | acts hterm hupgrade hstart hend => exact h.act hterm hupgrade hstart hend
  | upgrade hsession hhttp => exact h.upgrade hsession hhttp _ _ _
  | @terminateAgain sessionId hknown hentry =>
      have hdead : Terminated events sessionId := by
        by_contra hlive
        have hmem := (h.members sessionId).2 ⟨hknown, hlive⟩
        -- a known session that is not connected any more was terminated before
        rw [AList.lookup_eq_none] at hentry
        exact hentry hmem
      exact h.terminate_again hdead
  | terminate hentry => exact h.terminate hentry

theorem sessionInv_run {port : Nat} {events : List ServerEvent} {server : InspectorSocketServer}
    (hstop : .stop ∉ events)
    (hrun : Run InspectorSocketServer.step (.started port) events server) :
    SessionInv events server := by
  revert hstop
  refine Run.induction (motive := fun events server => .stop ∉ events → SessionInv events server)
    (fun _ => sessionInv_started port) ?_ hrun
  intro events server event server' _ hstep ih hstop
  simp only [List.mem_append, List.mem_singleton, not_or] at hstop
  exact (ih hstop.1).step (fun heq => hstop.2 heq.symm) hstep

/-- After every run without `Stop`, sessions are bracketed exactly if every terminated session that
was upgraded was upgraded with a path of at least two characters. -/
theorem bracketed_iff (port : Nat) (events : List ServerEvent) (server : InspectorSocketServer)
    (hstop : .stop ∉ events)
    (hrun : Run InspectorSocketServer.step (.started port) events server) :
    Bracketed events server ↔ ∀ sessionId path, Terminated events sessionId →
      UpgradedWith events sessionId path → 2 ≤ path.length := by
  have h := sessionInv_run hstop hrun
  constructor
  · intro hbracketed sessionId path hdead hpath
    have hone := hbracketed.ended sessionId hdead ((h.started sessionId).2 ⟨path, hpath⟩)
    by_contra hshort
    have hzero := h.notEnded sessionId fun _ path' hpath' => by
      rw [h.unique sessionId path' path hpath' hpath]
      exact Nat.not_le.1 hshort
    omega
  · intro hlong
    refine ⟨?_, ?_, ?_⟩
    · intro sessionId hdead hstarted
      obtain ⟨path, hpath⟩ := (h.started sessionId).1 hstarted
      exact h.ended sessionId path hdead hpath (hlong sessionId path hdead hpath)
    · intro sessionId hnot
      refine h.notEnded sessionId fun hdead path hpath => ?_
      exact absurd ⟨hdead, (h.started sessionId).2 ⟨path, hpath⟩⟩ hnot
    · intro sessionId hdead hmem
      exact ((h.members sessionId).1 hmem).2 hdead

/-- One connection, upgraded with the given path and closed. -/
def oneSession (path : Bytes) : List ServerEvent :=
  [.accept, .onSocketUpgrade 0 [] path (ascii "k"), .delegateDestroyed 0]

/-- The server after such a connection. -/
def afterOneSession (effects : List ServerEffect) : InspectorSocketServer :=
  { InspectorSocketServer.started 9223 with nextSessionId := 1, effects := effects }

/-- A session upgraded with `/a` is bracketed. -/
theorem bracketed_upgrade_a :
    Bracketed (oneSession (ascii "/a"))
      (afterOneSession [.acceptUpgrade 0 (ascii "k"), .startSession 0 (ascii "a"), .endSession 0]) := by
  refine (bracketed_iff 9223 (oneSession (ascii "/a")) (afterOneSession _) (by decide) rfl).2 ?_
  intro sessionId path _ hpath
  obtain ⟨host, wsKey, hmem⟩ := hpath
  simp only [oneSession, List.mem_cons, reduceCtorEq, ServerEvent.onSocketUpgrade.injEq, false_or,
    List.not_mem_nil, or_false] at hmem
  rw [hmem.2.2.1]
  decide

/-- A session upgraded with `/` is started and never ended. -/
theorem not_bracketed_upgrade_root :
    ¬ ∀ (port : Nat) (events : List ServerEvent) (server : InspectorSocketServer),
      .stop ∉ events → Run InspectorSocketServer.step (.started port) events server →
        Bracketed events server := by
  intro h
  have hbracketed := h 9223 (oneSession (ascii "/"))
    (afterOneSession [.acceptUpgrade 0 (ascii "k"), .startSession 0 []]) (by decide) rfl
  have hone := hbracketed.ended 0 (by simp [Terminated, oneSession]) ⟨[], by decide⟩
  exact absurd hone (by decide)

end Inspector
end V8JsiRuntime
