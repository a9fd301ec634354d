import OnlineAccounts.Transition

/-! # Updates of the QML loopback server

A `QmlLoopbackServer` (`plugins/module/qml-loopback-server.cpp`) is told in QML on which port to
listen, and whether to listen at all.  It does not act on this at once: an update is queued for the
event loop, and only one at a time; while the component is being constructed none is queued, and the
first update runs when the construction is complete.

No change is lost: when no update is queued, the server does what was requested, or its last attempt
to listen has failed on the current port (`no_update_lost`). -/

namespace OnlineAccounts

open Transition

structure QmlLoopbackServer where
  updateQueued : Bool
  port : ℤ := 0
  /-- `m_listening`: whether to listen. -/
  listening : Bool := true
  /-- The port that the server listens on. -/
  serverPort : Option ℕ := none
  /-- The calls of `update()` that are in the event queue. -/
  updates : ℕ := 0
  isComplete : Bool := false
  /-- The port of the last call of `listen()`, and whether it succeeded. -/
  lastAttempt : Option (ℕ × Bool) := none
deriving DecidableEq

namespace QmlLoopbackServer

/-- The result of `listen()`, if it is called: the port, if it succeeds. -/
abbrev Outcome := Option ℕ

inductive Event where
  | setPort (port : ℤ)
  | setListening (listening : Bool)
  | componentComplete (outcome : Outcome)
  /-- The event loop calls `update()`. -/
  | update (outcome : Outcome)

/-- The server after `classBegin()`. -/
def classBegin : QmlLoopbackServer := { updateQueued := true }

def isListening (s : QmlLoopbackServer) : Bool := s.serverPort.isSome

/-- `uint16_t(m_port)`. -/
def requestedPort (s : QmlLoopbackServer) : ℕ := (s.port % 65536).toNat

def queueUpdate (s : QmlLoopbackServer) : QmlLoopbackServer :=
  if !s.updateQueued then { s with updates := s.updates + 1, updateQueued := true } else s

def listen (outcome : Outcome) (s : QmlLoopbackServer) : QmlLoopbackServer :=
  { s with serverPort := outcome, lastAttempt := some (s.requestedPort, outcome.isSome) }

def close (s : QmlLoopbackServer) : QmlLoopbackServer := { s with serverPort := none }

def update (outcome : Outcome) (s : QmlLoopbackServer) : QmlLoopbackServer :=
  let s := { s with updateQueued := false }
  let nothingToDo := s.listening == s.isListening
  if nothingToDo then s
  else if s.listening then s.listen outcome
  else s.close

def setPort (port : ℤ) (s : QmlLoopbackServer) : QmlLoopbackServer :=
  if s.isListening then s  -- cannot change port while already listening
  else if port = s.port then s
  else { s with port := port }.queueUpdate

def setListening (listening : Bool) (s : QmlLoopbackServer) : QmlLoopbackServer :=
  if listening = s.listening then s
  else { s with listening := listening }.queueUpdate

def componentComplete (outcome : Outcome) (s : QmlLoopbackServer) : QmlLoopbackServer :=
  { s with isComplete := true }.update outcome

def step (s : QmlLoopbackServer) : Event → QmlLoopbackServer
  | .setPort port => s.setPort port
  | .setListening listening => s.setListening listening
  | .componentComplete outcome => s.componentComplete outcome
  | .update outcome =>
      if s.updates = 0 then s else { s with updates := s.updates - 1 }.update outcome

/-- The server after `classBegin()`; no event fails. -/
def machine : Machine QmlLoopbackServer Event Empty := ⟨classBegin, fun s e => .ok (s.step e)⟩

/-! ### What the server has done -/

/-- The server does what is requested, or has failed to do it. -/
def Settled (s : QmlLoopbackServer) : Prop :=
  s.isListening = s.listening ∨
    (s.listening = true ∧ s.lastAttempt = some (s.requestedPort, false))

/-- A constructed server has settled its requests, or is going to update. -/
def Inv (s : QmlLoopbackServer) : Prop :=
  s.isComplete = true →
    (s.updateQueued = true ∧ 0 < s.updates) ∨ (s.updateQueued = false ∧ s.Settled)

/-! ### One event -/

theorem update_settled (outcome : Outcome) (s : QmlLoopbackServer) :
    (s.update outcome).updateQueued = false ∧ (s.update outcome).Settled := by
  unfold update
  dsimp only
  split
  · next hnothing => exact ⟨rfl, .inl (beq_iff_eq.1 hnothing).symm⟩
  · split
    · next hlistening =>
        cases outcome with
        | none => exact ⟨rfl, .inr ⟨hlistening, rfl⟩⟩
        | some port => exact ⟨rfl, .inl hlistening.symm⟩
    · next hlistening =>
        have hclosed : s.listening = false := by simpa using hlistening
        exact ⟨rfl, .inl hclosed.symm⟩

theorem inv_update (outcome : Outcome) (s : QmlLoopbackServer) : (s.update outcome).Inv :=
  fun _ => .inr (update_settled outcome s)

theorem queueUpdate_isComplete (s : QmlLoopbackServer) :
    s.queueUpdate.isComplete = s.isComplete := by
  unfold queueUpdate
  split <;> rfl

/-- A change is followed by an update, which is queued now if it was not before. -/
theorem inv_queueUpdate {s : QmlLoopbackServer}
    (h : s.isComplete = true → s.updateQueued = true → 0 < s.updates) : s.queueUpdate.Inv := by
  intro hcomplete
  rw [queueUpdate_isComplete] at hcomplete
  cases hqueued : s.updateQueued with
  | true =>
      have hsame : s.queueUpdate = s := by
        rw [queueUpdate, hqueued]
        rfl
      rw [hsame]
      exact .inl ⟨hqueued, h hcomplete hqueued⟩
  | false =>
      have hnew : s.queueUpdate = { s with updates := s.updates + 1, updateQueued := true } := by
        rw [queueUpdate, hqueued]
        rfl
      rw [hnew]
      exact .inl ⟨rfl, Nat.succ_pos _⟩

theorem Inv.updates_pos {s : QmlLoopbackServer} (h : s.Inv) (hcomplete : s.isComplete = true)
    (hqueued : s.updateQueued = true) : 0 < s.updates := by
  obtain ⟨_, hpos⟩ | ⟨hnot, _⟩ := h hcomplete
  · exact hpos
  · rw [hqueued] at hnot
    cases hnot

theorem Inv.step {s : QmlLoopbackServer} (h : s.Inv) (e : Event) : (s.step e).Inv := by
  cases e with
  | setPort port =>
      show (s.setPort port).Inv
      unfold setPort
      split
      · exact h
      · split
        · exact h
        · exact inv_queueUpdate h.updates_pos
  | setListening listening =>
      show (s.setListening listening).Inv
      unfold setListening
      split
      · exact h
      · exact inv_queueUpdate h.updates_pos
  | componentComplete outcome => exact inv_update outcome _
  | update outcome =>
      unfold QmlLoopbackServer.step
      dsimp only
      split
      · exact h
      · exact inv_update outcome _

/-! ### All runs -/

/-- After any sequence of requests and deliveries, a constructed server without a queued update has
done what was requested, or its last attempt has failed on the current port. -/
theorem no_update_lost {s : QmlLoopbackServer} (h : Reachable machine (fun _ _ => True) s)
    (hcomplete : s.isComplete = true) (hupdates : s.updates = 0) : s.Settled := by
  have hinv : s.Inv := by
    refine h.invariant ?_ ?_
    · exact fun hcomplete => nomatch hcomplete
    · intro s e s' hs _ hstep
      obtain rfl := Except.ok.inj hstep
      exact hs.step e
  obtain ⟨_, hpos⟩ | ⟨_, hsettled⟩ := hinv hcomplete
  · omega
  · exact hsettled

/-- The first attempt fails; the port is changed, and changed again before the update; the next
attempt succeeds, and the server is closed. -/
theorem no_update_lost_closed :
    ∃ s, machine.run classBegin [.setPort 80, .componentComplete none, .setPort 8080, .setPort 8081,
        .update (some 8081), .setListening false, .setPort 80, .update none] = .ok s ∧
      s.isComplete = true ∧ s.updates = 0 ∧ s.port = 8081 ∧ s.Settled := by
  obtain ⟨s, hs, hreach⟩ := exists_reachable machine (fun _ _ => True)
    [.setPort 80, .componentComplete none, .setPort 8080, .setPort 8081, .update (some 8081),
      .setListening false, .setPort 80, .update none] rfl (by decide)
  have hstate : s.isComplete = true ∧ s.updates = 0 ∧ s.port = 8081 := by
    obtain rfl := Except.ok.inj hs
    decide
  exact ⟨s, hs, hstate.1, hstate.2.1, hstate.2.2, no_update_lost hreach hstate.1 hstate.2.1⟩

end QmlLoopbackServer

end OnlineAccounts
