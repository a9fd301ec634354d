import OnlineAccounts.Reauthentication

/-! # The verdict of a reauthenticator

A `Reauthenticator` counts the outcomes of its sessions: an error at once for each session that
cannot be started, and later an error or a response from each of the others, in any order.  It
emits `finished` when it finds that it has counted one for each authentication data.

That happens once, when the last outcome is known, and the argument is true exactly if all sessions
were started and have responded (`finished_once`). -/

namespace OnlineAccounts.SignOnUi.Reauthenticator

/-- A signal: the place of its session among those which have not signalled yet, and whether it is
an error. -/
abbrev Signal := ℕ × Bool

/-- A session signals; what `finished` has been emitted with is kept in a list. -/
def deliver (s : Reauthenticator × List Bool) (signal : Signal) : Reauthenticator × List Bool :=
  let reauthenticator := s.1.onSignal signal.1 signal.2
  (reauthenticator, s.2 ++ reauthenticator.checkFinished.toList)

/-- What `finished` is emitted with by `start()` and the signals after it. -/
def emissions (createSession : ℕ → Bool) (clientData : List AuthData)
    (extraParameters : QVariantMap) (signals : List Signal) : List Bool :=
  let started := start createSession clientData extraParameters
  (signals.foldl deliver (started, started.checkFinished.toList)).2

/-- Every signal comes from a session that has not signalled yet. -/
def EachOnce (reauthenticator : Reauthenticator) : List Signal → Prop
  | [] => True
  | (i, error) :: signals =>
      i < reauthenticator.sessions.length ∧ EachOnce (reauthenticator.onSignal i error) signals

instance decidableEachOnce : ∀ (reauthenticator : Reauthenticator) (signals : List Signal),
    Decidable (reauthenticator.EachOnce signals)
  | _, [] => .isTrue trivial
  | reauthenticator, (i, error) :: signals =>
      have := decidableEachOnce (reauthenticator.onSignal i error) signals
      inferInstanceAs (Decidable (_ ∧ _))

/-- The number of sessions that cannot be started. -/
def notStarted (createSession : ℕ → Bool) (clientData : List AuthData) : ℕ :=
  (List.range clientData.length).countP fun i => !createSession i

/-- All sessions were started, and all have responded. -/
def verdict (createSession : ℕ → Bool) (clientData : List AuthData)
    (signals : List Signal) : Bool :=
  decide (∀ i < clientData.length, createSession i = true) && signals.all fun signal => !signal.2

/-! ### The loop of `start()` -/

theorem startSessions_errorCount (createSession : ℕ → Bool) (reauthenticator : Reauthenticator)
    (clientData : List (AuthData × ℕ)) :
    (reauthenticator.startSessions createSession clientData).errorCount =
      reauthenticator.errorCount + (clientData.map (·.2)).countP fun i => !createSession i := by
  induction clientData generalizing reauthenticator with
  | nil => rfl
  | cons entry clientData ih =>
      obtain ⟨authData, i⟩ := entry
      simp only [startSessions, List.map_cons, List.countP_cons]
      cases hcreated : createSession i with
      | true => simp only [if_true, ih, Bool.not_true, Bool.false_eq_true, if_false, add_zero]
      | false =>
          simp only [Bool.false_eq_true, if_false, ih, Bool.not_false, if_true]
          omega

theorem start_errorCount (createSession : ℕ → Bool) (clientData : List AuthData)
    (extraParameters : QVariantMap) :
    (start createSession clientData extraParameters).errorCount =
      notStarted createSession clientData := by
  rw [start, startSessions_errorCount, List.zipIdx_map_snd, notStarted, List.range_eq_range']
  exact Nat.zero_add _

theorem notStarted_eq_zero_iff (createSession : ℕ → Bool) (clientData : List AuthData) :
    notStarted createSession clientData = 0 ↔
      ∀ i < clientData.length, createSession i = true := by
  simp [notStarted, List.countP_eq_zero]

theorem notStarted_add_sessions (createSession : ℕ → Bool) (clientData : List AuthData)
    (extraParameters : QVariantMap) :
    notStarted createSession clientData +
      (start createSession clientData extraParameters).sessions.length = clientData.length := by
  obtain ⟨hdata, hresponses, _⟩ := startSessions_spec createSession
    { clientData := clientData, extraParameters := extraParameters } clientData.zipIdx
  have hbalanced := balanced_start createSession clientData extraParameters
  rw [Balanced, start_errorCount] at hbalanced
  simp only [start, hdata, hresponses] at hbalanced ⊢
  omega

/-! ### The signals -/

theorem onSignal_sessions (i : ℕ) (error : Bool) (reauthenticator : Reauthenticator) :
    (reauthenticator.onSignal i error).sessions = reauthenticator.sessions.eraseIdx i := by
  cases error <;> rfl

theorem onSignal_errorCount (i : ℕ) (error : Bool) (reauthenticator : Reauthenticator) :
    (reauthenticator.onSignal i error).errorCount =
      reauthenticator.errorCount + if error then 1 else 0 := by
  cases error <;> rfl

/-- The sessions that have to signal emit one verdict together, with the last signal. -/
theorem foldl_deliver {reauthenticator : Reauthenticator} (h : reauthenticator.Balanced)
    {signals : List Signal} (hsignals : reauthenticator.EachOnce signals) (emitted : List Bool)
    (hsessions : reauthenticator.sessions ≠ []) :
    (signals.foldl deliver (reauthenticator, emitted)).2 = emitted ++
      if signals.length < reauthenticator.sessions.length then []
      else [reauthenticator.errorCount == 0 && signals.all fun signal => !signal.2] := by
  induction signals generalizing reauthenticator emitted with
  | nil => simp [List.length_pos_iff.2 hsessions]
  | cons signal signals ih =>
      obtain ⟨i, error⟩ := signal
      obtain ⟨hi, hsignals⟩ := hsignals
      have hnext := h.onSignal hi error
      have hlength : (reauthenticator.onSignal i error).sessions.length + 1 =
          reauthenticator.sessions.length := by
        rw [onSignal_sessions, List.length_eraseIdx_of_lt hi]
        omega
      have hverdict : ((reauthenticator.onSignal i error).errorCount == 0) =
          (reauthenticator.errorCount == 0 && !error) := by
        rw [onSignal_errorCount]
        cases error <;> simp
      rw [List.foldl_cons, deliver, hnext.checkFinished]
      by_cases hlast : (reauthenticator.onSignal i error).sessions = []
      · -- no session is left for another signal
        have hnil : signals = [] := by
          cases signals with
          | nil => rfl
          | cons signal signals => simp [EachOnce, hlast] at hsignals
        rw [hlast, List.length_nil] at hlength
        simp [hlast, hnil, hverdict, ← hlength]
      · rw [if_neg hlast, ih hnext hsignals _ hlast, hverdict, List.length_cons, ← hlength]
        simp only [Option.toList_none, List.append_nil, List.all_cons, Bool.and_assoc,
          Nat.add_lt_add_iff_right]

/-! ### The verdict -/

/-- While outcomes are missing nothing is emitted, and from then on one verdict has been emitted;
all outcomes are known when all started sessions have signalled. -/
theorem finished_once (createSession : ℕ → Bool) (clientData : List AuthData)
    (extraParameters : QVariantMap) {signals : List Signal}
    (hsignals : (start createSession clientData extraParameters).EachOnce signals) :
    notStarted createSession clientData +
        (start createSession clientData extraParameters).sessions.length = clientData.length ∧
      emissions createSession clientData extraParameters signals =
        if notStarted createSession clientData + signals.length < clientData.length then []
        else [verdict createSession clientData signals] := by
  have hstarted := notStarted_add_sessions createSession clientData extraParameters
  have hbalanced := balanced_start createSession clientData extraParameters
  refine ⟨hstarted, ?_⟩
  have hverdict : ((start createSession clientData extraParameters).errorCount == 0 &&
      signals.all fun signal => !signal.2) = verdict createSession clientData signals := by
    rw [start_errorCount, verdict]
    congr 1
    rw [Bool.eq_iff_iff, beq_iff_eq, decide_eq_true_eq, notStarted_eq_zero_iff]
  simp only [emissions, hbalanced.checkFinished]
  by_cases hnone : (start createSession clientData extraParameters).sessions = []
  · have hnil : signals = [] := by
      cases signals with
      | nil => rfl
      | cons signal signals => simp [EachOnce, hnone] at hsignals
    subst hnil
    rw [hnone, List.length_nil] at hstarted
    rw [if_pos hnone, List.length_nil, if_neg (by omega), ← hverdict]
    simp
  · rw [foldl_deliver hbalanced hsignals _ hnone, if_neg hnone, hverdict, ← hstarted]
    simp

/-- Two sessions are started, and a third one cannot be; the second session responds before the
first one. -/
theorem finished_once_three :
    notStarted (· ≠ 1) (List.replicate 3 ⟨.nil, 1, "oauth2", "web_server"⟩) + 2 = 3 ∧
      emissions (· ≠ 1) (List.replicate 3 ⟨.nil, 1, "oauth2", "web_server"⟩) .nil
        [(1, false), (0, false)] = [false] := by
  have hsignals : (start (· ≠ 1) (List.replicate 3 ⟨.nil, 1, "oauth2", "web_server"⟩) .nil).EachOnce
      [(1, false), (0, false)] := by decide
  have h := finished_once _ _ _ hsignals
  exact ⟨h.1, h.2.trans (by decide)⟩

end OnlineAccounts.SignOnUi.Reauthenticator
