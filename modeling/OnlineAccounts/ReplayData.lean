import OnlineAccounts.IndicatorService

/-! # The data for a replay

The indicator service describes a failure twice: the account is listed in `Failures`, and the data
of the failed authentications is kept in `m_failureClientData`, for a replay.  `ReportFailure`
adds to both, and a reauthentication that succeeds takes the account from both.

`RemoveFailures` forgets the second one: it takes the accounts from the list and leaves their data
(`removed_failure_is_replayed`).  As long as it names no account with data, the data is that of
listed accounts only (`replay_data_listed`). -/

namespace OnlineAccounts.SignOnUi.IndicatorService

open Transition

/-- Data is held for listed accounts only. -/
def Listed (s : IndicatorService) : Prop :=
  ∀ accountId, accountId ∈ s.failureClientData → accountId ∈ s.failures

/-- There is nothing to replay for an account that is not listed: a call of
`ReauthenticateAccount` returns `false`, and does nothing else. -/
structure NothingStale (s : IndicatorService) : Prop where
  listed : s.Listed
  refused : ∀ accountId, accountId ∉ s.failures → ∀ extraParameters createSession,
    s.step (.reauthenticateAccount accountId extraParameters createSession) =
      ({ s with nextMessage := s.nextMessage + 1 }.emit (.returned s.nextMessage false))

/-- An event that does not remove the failure of an account with data. -/
def RemovesNoData (s : IndicatorService) : Event → Prop
  | .removeFailures accountIds => ∀ accountId ∈ accountIds, accountId ∉ s.failureClientData
  | _ => True

instance (s : IndicatorService) : DecidablePred s.RemovesNoData
  | .removeFailures _ => Finset.decidableDforallFinset
  | .clearErrorStatus | .reportFailure _ _ | .reauthenticateAccount _ _ _ | .signal _ _ _
  | .finished => .isTrue trivial

/-! ### The records of the failures -/

/-- Both records are left alone. -/
structure SameRecords (s s' : IndicatorService) : Prop where
  failures : s'.failures = s.failures
  failureClientData : s'.failureClientData = s.failureClientData

theorem SameRecords.listed {s s' : IndicatorService} (h : SameRecords s s') :
    s'.Listed ↔ s.Listed := by
  unfold Listed
  rw [h.failures, h.failureClientData]

theorem sameRecords_clearErrorStatus (s : IndicatorService) :
    SameRecords s s.clearErrorStatus := by
  unfold clearErrorStatus
  split
  · exact ⟨rfl, rfl⟩
  · exact ⟨rfl, rfl⟩

theorem sameRecords_showNotification (parameters : QVariantMap) (s : IndicatorService) :
    SameRecords s (s.showNotification parameters) := by
  unfold showNotification
  split
  · exact ⟨rfl, rfl⟩
  · exact ⟨rfl, rfl⟩

theorem sameRecords_checkFinished (r : ReauthenticatorId) (s : IndicatorService) :
    SameRecords s (s.checkFinished r) := by
  unfold checkFinished
  split
  · exact ⟨rfl, rfl⟩
  · exact ⟨rfl, rfl⟩

theorem sameRecords_reauthenticateAccount (accountId : ℕ) (extraParameters : QVariantMap)
    (createSession : ℕ → Bool) (s : IndicatorService) :
    SameRecords s (s.reauthenticateAccount accountId extraParameters createSession) := by
  unfold reauthenticateAccount
  dsimp only
  split
  · exact ⟨rfl, rfl⟩
  split
  · exact ⟨rfl, rfl⟩
  · have hchecked := sameRecords_checkFinished s.nextReauthenticator
    exact ⟨(hchecked _).failures, (hchecked _).failureClientData⟩

theorem removeFailures_records (accountIds : Finset ℕ) (s : IndicatorService) :
    (s.removeFailures accountIds).failures = s.failures \ accountIds ∧
      (s.removeFailures accountIds).failureClientData = s.failureClientData := by
  unfold removeFailures
  dsimp only
  split_ifs
  · exact ⟨rfl, rfl⟩
  · exact ⟨rfl, rfl⟩

theorem reportFailure_records (accountId : ℕ) (notification : QVariantMap) (s : IndicatorService) :
    (s.reportFailure accountId notification).failures = insert accountId s.failures ∧
      ∀ a, a ∈ (s.reportFailure accountId notification).failureClientData →
        a = accountId ∨ a ∈ s.failureClientData := by
  unfold reportFailure
  dsimp only
  rw [(sameRecords_showNotification notification _).failures,
    (sameRecords_showNotification notification _).failureClientData]
  split_ifs
  all_goals
    refine ⟨rfl, ?_⟩
    intro a ha
    simp [Std.TreeMap.mem_insert, isIdleChanged] at ha
    tauto

/-- A success takes the account from both records. -/
theorem onSuccess_records (accountId : ℕ) (s : IndicatorService) :
    (s.onSuccess accountId).failures = s.failures.erase accountId ∧
      (s.onSuccess accountId).failureClientData = s.failureClientData.erase accountId := by
  unfold onSuccess
  dsimp only
  split_ifs
  · have hcleared := sameRecords_clearErrorStatus
    exact ⟨(hcleared _).failures, (hcleared _).failureClientData⟩
  · exact ⟨rfl, rfl⟩

/-! ### One event -/

theorem Listed.reportFailure {s : IndicatorService} (h : s.Listed) (accountId : ℕ)
    (notification : QVariantMap) : (s.reportFailure accountId notification).Listed := by
  obtain ⟨hfailures, hdata⟩ := reportFailure_records accountId notification s
  intro a ha
  rw [hfailures]
  obtain rfl | hold := hdata a ha
  · exact Finset.mem_insert_self _ _
  · exact Finset.mem_insert_of_mem (h a hold)

theorem Listed.onSuccess {s : IndicatorService} (h : s.Listed) (accountId : ℕ) :
    (s.onSuccess accountId).Listed := by
  obtain ⟨hfailures, hdata⟩ := onSuccess_records accountId s
  intro a ha
  rw [hdata, Std.TreeMap.mem_erase] at ha
  rw [hfailures, Finset.mem_erase]
  refine ⟨?_, h a ha.2⟩
  rintro rfl
  simp at ha

theorem Listed.onReauthenticatorFinished {s : IndicatorService} (h : s.Listed)
    (r : ReauthenticatorId) (success : Bool) : (s.onReauthenticatorFinished r success).Listed := by
  unfold IndicatorService.onReauthenticatorFinished
  cases success with
  | false => exact h
  | true =>
      have hreplied : (s.emit (.replied s.clientMessage true)).Listed := h
      exact hreplied.onSuccess (s.accountOf r)

/-- `RemoveFailures` keeps the records together exactly if none of the accounts has data. -/
theorem Listed.removeFailures_iff {s : IndicatorService} (h : s.Listed) (accountIds : Finset ℕ) :
    (s.removeFailures accountIds).Listed ↔
      ∀ accountId ∈ accountIds, accountId ∉ s.failureClientData := by
  obtain ⟨hfailures, hdata⟩ := removeFailures_records accountIds s
  unfold Listed
  rw [hfailures, hdata]
  constructor
  · intro hlisted a ha hmem
    exact (Finset.mem_sdiff.mp (hlisted a hmem)).2 ha
  · intro hfree a hmem
    exact Finset.mem_sdiff.mpr ⟨h a hmem, fun ha => hfree a ha hmem⟩

/-- One event keeps the records together exactly if it removes no data's failure. -/
theorem Listed.step_iff {s : IndicatorService} (h : s.Listed) (e : Event) :
    (s.step e).Listed ↔ s.RemovesNoData e := by
  cases e with
  | removeFailures accountIds => exact h.removeFailures_iff accountIds
  | clearErrorStatus =>
      exact iff_of_true ((sameRecords_clearErrorStatus s).listed.mpr h) trivial
  | reportFailure accountId notification =>
      exact iff_of_true (h.reportFailure accountId notification) trivial
  | reauthenticateAccount accountId extraParameters createSession =>
      have hsame := sameRecords_reauthenticateAccount accountId extraParameters createSession s
      exact iff_of_true (hsame.listed.mpr h) trivial
  | signal r i error =>
      refine iff_of_true ?_ trivial
      unfold IndicatorService.step
      dsimp only
      split_ifs
      · exact (sameRecords_checkFinished r _).listed.mpr h
      · exact h
  | finished =>
      refine iff_of_true ?_ trivial
      unfold IndicatorService.step
      dsimp only
      cases s.queued with
      | nil => exact h
      | cons entry queued =>
          have hqueued : ({ s with queued := queued } : IndicatorService).Listed := h
          exact hqueued.onReauthenticatorFinished entry.1 entry.2

/-! ### All runs -/

theorem Listed.nothingStale {s : IndicatorService} (h : s.Listed) : s.NothingStale := by
  refine ⟨h, ?_⟩
  intro accountId hfailure extraParameters createSession
  have hdata : accountId ∉ s.failureClientData := fun hmem => hfailure (h accountId hmem)
  show s.reauthenticateAccount accountId extraParameters createSession = _
  unfold reauthenticateAccount
  dsimp only
  rw [if_pos hdata]

/-- As long as no failure of an account with data is removed, nothing is stale; and this stays so
with the next event exactly if it removes none. -/
theorem replay_data_listed {s : IndicatorService}
    (h : Reachable machine (fun s e => s.RemovesNoData e) s) :
    s.NothingStale ∧ ∀ e, (s.step e).NothingStale ↔ s.RemovesNoData e := by
  have hlisted : s.Listed := by
    refine h.invariant ?_ ?_
    · exact fun accountId hmem => absurd hmem Std.TreeMap.not_mem_emptyc
    · intro s e s' hs hg hstep
      obtain rfl := Except.ok.inj hstep
      exact (hs.step_iff e).mpr hg
  refine ⟨hlisted.nothingStale, ?_⟩
  intro e
  constructor
  · exact fun hstale => (hlisted.step_iff e).mp hstale.listed
  · exact fun hg => ((hlisted.step_iff e).mpr hg).nothingStale

/-- Account 1 fails with data and account 2 without; the failure of account 2 is removed, and
account 1 is reauthenticated. -/
theorem replay_data_listed_two :
    ∃ s, machine.run {} [.reportFailure 1 (.cons "ClientData" (.map .nil) .nil),
        .reportFailure 2 .nil, .removeFailures {2}, .reauthenticateAccount 1 .nil fun _ => true,
        .signal 0 0 false, .finished] = .ok s ∧
      s.NothingStale ∧ ∀ e, (s.step e).NothingStale ↔ s.RemovesNoData e := by
  refine (exists_reachable machine (fun s e => s.RemovesNoData e) _ ?_ ?_).imp fun s h =>
    ⟨h.1, replay_data_listed h.2⟩
  · decide
  · decide

/-- The failure of account 1 is removed; its data is still there, and is replayed. -/
theorem removed_failure_is_replayed :
    ∃ s, machine.run {} [.reportFailure 1 (.cons "ClientData" (.map .nil) .nil),
        .removeFailures {1}] = .ok s ∧
      1 ∉ s.failures ∧ 1 ∈ s.failureClientData ∧ ¬ s.NothingStale ∧
      .started 0 1 0 ∈ (s.step (.reauthenticateAccount 1 .nil fun _ => true)).log := by
  refine ⟨_, rfl, by decide, by decide, ?_, by decide⟩
  intro hstale
  have hlisted := hstale.listed 1 (by decide)
  revert hlisted
  decide

end OnlineAccounts.SignOnUi.IndicatorService
