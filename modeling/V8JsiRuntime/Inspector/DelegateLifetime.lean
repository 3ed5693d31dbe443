import V8JsiRuntime.Inspector.SessionBracketing

/-!
# DelegateLifetime — when the server still has its delegate

Two operations release `delegate_`: `Stop` and the last `SessionTerminated` after it.  `Stop` does so
at once, whether or not a session is connected, and the server goes on accepting connections.
`delegateLive_iff` says which runs keep the delegate for as long as a session could call it.
-/

namespace V8JsiRuntime
namespace Inspector

open Lib

namespace InspectorSocketServer

/-! ## Vocabulary -/

/-- No session is connected. -/
def Idle (server : InspectorSocketServer) : Prop :=
  server.connectedSessions.entries = []

instance (server : InspectorSocketServer) : Decidable server.Idle :=
  inferInstanceAs (Decidable (_ = _))

/-- The delegate lives as long as a session is connected, and no call went through a null one. -/
structure DelegateLive (server : InspectorSocketServer) : Prop where
  live : ¬ server.Idle → server.hasDelegate = true
  noNullCall : server.fault ≠ some .nullDelegate

/-- The step is neither `Stop` while a session is connected nor `Accept` after `Stop`. -/
def ReleasesInTime (server : InspectorSocketServer) : ServerEvent → Prop
  | .stop => server.state = .kStopped ∨ server.Idle
  | .accept => server.state ≠ .kStopped
  | _ => True

/-- The server runs with its delegate, or it is stopped and idle. -/
structure DelegateInv (server : InspectorSocketServer) : Prop where
  noFault : server.fault = none
  phase : (server.state = .kRunning ∧ server.hasDelegate = true) ∨
    (server.state = .kStopped ∧ server.hasDelegate = false ∧ server.Idle)

theorem DelegateInv.delegateLive {server : InspectorSocketServer} (h : server.DelegateInv) :
    server.DelegateLive := by
  refine ⟨fun hconnected => ?_, by simp [h.noFault]⟩
  rcases h.phase with ⟨_, hdelegate⟩ | ⟨_, _, hidle⟩
  · exact hdelegate
  · exact absurd hidle hconnected

/-! ## Sessions of an idle server -/

theorem Idle.session_eq_none {server : InspectorSocketServer} (h : server.Idle) (sessionId : Nat) :
    server.session sessionId = none := by
  have hlookup : server.connectedSessions.lookup sessionId = none := by
    rw [AList.lookup_eq_none, AList.mem_keys, AList.keys, h]
    exact List.not_mem_nil
  rw [session, hlookup, Option.map_none]

theorem not_idle_accept (server : InspectorSocketServer) (serverPort : Nat) :
    ¬ (server.accept serverPort).Idle := by
  simp [Idle, accept, AList.entries_insert]

/-! ## One step -/

/-- As long as the server runs, it keeps its delegate. -/
theorem Transition.running {server server' : InspectorSocketServer} {event : ServerEvent}
    (h : Transition server event server') :
    server'.state = server.state ∧ server'.hasDelegate = server.hasDelegate ∧
      server'.fault = server.fault := by
  cases h with
  | accept => exact ⟨rfl, rfl, rfl⟩
  | acts => exact ⟨rfl, rfl, rfl⟩
  | upgrade => exact ⟨rfl, rfl, rfl⟩
  | terminateAgain => exact ⟨rfl, rfl, rfl⟩
  | terminate => exact ⟨rfl, rfl, rfl⟩

/-- Once the server is stopped and idle, only a new connection changes it. -/
theorem handle_stopped {server : InspectorSocketServer} {event : ServerEvent}
    (hstate : server.state = .kStopped) (hidle : server.Idle) (hcan : server.CanOccur event)
    (haccept : event ≠ .accept) : server.handle event = .ok server := by
  cases event with
  | accept => exact absurd rfl haccept
  -- no connected session is there to call
  | onHttpGet sessionId host path => simp [CanOccur, hidle.session_eq_none] at hcan
  | onSocketUpgrade sessionId host path wsKey => simp [CanOccur, hidle.session_eq_none] at hcan
  | onWsFrame sessionId data => simp [CanOccur, hidle.session_eq_none] at hcan
  | delegateDestroyed sessionId =>
      have hentry : server.connectedSessions.lookup sessionId = none := by
        have hsession := hidle.session_eq_none sessionId
        rwa [session, Option.map_eq_none_iff] at hsession
      rw [handle, sessionTerminated, hentry]
  | stop => rw [handle, stop, if_pos hstate]

theorem stop_running {server : InspectorSocketServer} (hstate : server.state = .kRunning) :
    server.handle .stop = .ok { server with state := .kStopped, hasDelegate := false } := by
  rw [handle, stop, if_neg (by simp [hstate]), if_pos hstate]

theorem DelegateInv.step {server server' : InspectorSocketServer} {event : ServerEvent}
    (h : server.DelegateInv) (hevent : server.ReleasesInTime event)
    (hstep : server.step event = some server') : server'.DelegateInv := by
  have hcan := step_canOccur hstep
  rcases h.phase with ⟨hstate, hdelegate⟩ | ⟨hstate, _, hidle⟩
  · by_cases hstop : event = .stop
    -- `Stop` releases the delegate, and nobody is left who needs it
    · subst hstop
      obtain rfl := step_ok (stop_running hstate) hstep
      have hidle : server.Idle := hevent.resolve_left (by simp [hstate])
      exact ⟨h.noFault, Or.inr ⟨rfl, rfl, hidle⟩⟩
    · obtain ⟨hstate', hdelegate', hfault⟩ :=
        (step_transition hstate hdelegate hstop hstep).running
      exact ⟨hfault.trans h.noFault, Or.inl ⟨hstate'.trans hstate, hdelegate'.trans hdelegate⟩⟩
  -- after `Stop` only a new connection could need the delegate again
  · have haccept : event ≠ .accept := by
      rintro rfl
      exact hevent hstate
    obtain rfl := step_ok (handle_stopped hstate hidle hcan haccept) hstep
    exact h

/-- A step that does not release the delegate in time leaves a session without one. -/
theorem DelegateInv.not_delegateLive {server server' : InspectorSocketServer} {event : ServerEvent}
    (h : server.DelegateInv) (hevent : ¬ server.ReleasesInTime event)
    (hstep : server.step event = some server') : ¬ server'.DelegateLive := by
  cases event with
  | stop =>
      obtain ⟨hrunning, hconnected⟩ := not_or.1 hevent
      have hstate : server.state = .kRunning :=
        (h.phase.resolve_right fun hphase => hrunning hphase.1).1
      obtain rfl := step_ok (stop_running hstate) hstep
      exact fun hlive => absurd (hlive.live hconnected) (by simp)
  | accept =>
      have hstopped : server.state = .kStopped := not_not.1 hevent
      -- the session that is accepted now has no delegate to call
      have hnone : server.hasDelegate = false := by
        rcases h.phase with ⟨hrunning, _⟩ | ⟨_, hnone, _⟩
        · rw [hrunning] at hstopped
          cases hstopped
        · exact hnone
      obtain rfl := step_ok (rfl : server.handle .accept = .ok (server.accept server.port)) hstep
      intro hlive
      have hdelegate := hlive.live (server.not_idle_accept server.port)
      rw [accept, hnone] at hdelegate
      cases hdelegate
  | onHttpGet sessionId host path => exact absurd trivial hevent
  | onSocketUpgrade sessionId host path wsKey => exact absurd trivial hevent
  | onWsFrame sessionId data => exact absurd trivial hevent
  | delegateDestroyed sessionId => exact absurd trivial hevent

/-! ## All runs -/

/-- In a run of the server, every state has its delegate while a session is connected, exactly if
`Stop` is only called when no session is connected and no connection is accepted after it. -/
theorem delegateLive_iff (port : Nat) (events : List ServerEvent) (server : InspectorSocketServer)
    (hrun : Run step (.started port) events server) :
    Throughout step DelegateLive (.started port) events ↔
      Along step ReleasesInTime (.started port) events :=
  Run.throughout_iff_along DelegateInv ⟨rfl, Or.inl ⟨rfl, rfl⟩⟩ (fun _ h => h.delegateLive)
    (fun _ _ _ h hevent hstep => h.step hevent hstep)
    (fun _ _ _ h hevent hstep => h.not_delegateLive hevent hstep) hrun

/-- A session that ends before `Stop`. -/
theorem delegateLive_closedBeforeStop :
    ∃ server, Run step (.started 9223) [.accept, .delegateDestroyed 0, .stop] server ∧
      (Throughout step DelegateLive (.started 9223) [.accept, .delegateDestroyed 0, .stop] ↔
        Along step ReleasesInTime (.started 9223) [.accept, .delegateDestroyed 0, .stop]) :=
  ⟨_, rfl, delegateLive_iff 9223 _ _ rfl⟩

/-- `Stop` during a session leaves it connected to a server without delegate, and the next message
goes through the null pointer. -/
theorem not_delegateLive_stopDuringSession :
    ¬ ∀ (port : Nat) (events : List ServerEvent) (server : InspectorSocketServer),
      Run step (.started port) events server → server.DelegateLive := by
  intro h
  have hlive := h 9223 [.accept, .onSocketUpgrade 0 [] (ascii "/a") (ascii "k"), .stop,
    .onWsFrame 0 (ascii "m")] _ rfl
  exact hlive.noNullCall rfl

end InspectorSocketServer

end Inspector
end V8JsiRuntime
