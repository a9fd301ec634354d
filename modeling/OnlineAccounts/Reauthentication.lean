import OnlineAccounts.IndicatorService

/-! # Answers to reauthentications

The service has one member for the message of the client that waits for a reauthentication, but
may run a reauthenticator for each of several accounts.  As long as no reauthenticator is started
while another one is active (`Alone`), every call that has started one is answered once, when its
reauthenticator has finished, and with its outcome.  A call that is overtaken is never answered
(`reauthentication_answered`). -/

namespace OnlineAccounts.SignOnUi

/-! ### The reauthenticator -/

namespace Reauthenticator

/-- Every session has signalled or is going to. -/
def Balanced (reauthenticator : Reauthenticator) : Prop :=
  reauthenticator.sessions.length + reauthenticator.errorCount + reauthenticator.responseCount =
    reauthenticator.clientData.length

theorem startSessions_spec (createSession : ℕ → Bool) (reauthenticator : Reauthenticator)
    (clientData : List (AuthData × ℕ)) :
    let started := reauthenticator.startSessions createSession clientData
    started.clientData = reauthenticator.clientData ∧
      started.responseCount = reauthenticator.responseCount ∧
      started.sessions.length + started.errorCount =
        reauthenticator.sessions.length + reauthenticator.errorCount + clientData.length := by
  induction clientData generalizing reauthenticator with
  | nil => exact ⟨rfl, rfl, rfl⟩
  | cons entry clientData ih =>
      obtain ⟨authData, i⟩ := entry
      simp only [startSessions]
      split_ifs with hcreated
      · obtain ⟨hdata, hresponses, hlength⟩ := ih
          { reauthenticator with
            sessions := reauthenticator.sessions ++
              [(addParameters authData.sessionData reauthenticator.extraParameters,
                authData.mechanism)] }
        refine ⟨hdata, hresponses, ?_⟩
        rw [hlength]
        simp only [List.length_append, List.length_cons, List.length_nil]
        omega
      · obtain ⟨hdata, hresponses, hlength⟩ := ih
          { reauthenticator with errorCount := reauthenticator.errorCount + 1 }
        refine ⟨hdata, hresponses, ?_⟩
        rw [hlength, List.length_cons]
        dsimp only
        omega

theorem balanced_start (createSession : ℕ → Bool) (clientData : List AuthData)
    (extraParameters : QVariantMap) :
    (start createSession clientData extraParameters).Balanced := by
  obtain ⟨hdata, hresponses, hlength⟩ := startSessions_spec createSession
    { clientData := clientData, extraParameters := extraParameters } clientData.zipIdx
  unfold Balanced start
  rw [hdata, hresponses, hlength]
  simp

theorem Balanced.onSignal {reauthenticator : Reauthenticator} (h : reauthenticator.Balanced)
    {i : ℕ} (hi : i < reauthenticator.sessions.length) (error : Bool) :
    (reauthenticator.onSignal i error).Balanced := by
  have hlength := List.length_eraseIdx_of_lt hi
  unfold Balanced at h ⊢
  cases error with
  | true =>
      simp only [Reauthenticator.onSignal, if_true, hlength]
      omega
  | false =>
      simp only [Reauthenticator.onSignal, Bool.false_eq_true, if_false, hlength]
      omega

/-- It finishes when no session is left to signal. -/
theorem Balanced.checkFinished {reauthenticator : Reauthenticator}
    (h : reauthenticator.Balanced) : reauthenticator.checkFinished =
      if reauthenticator.sessions = [] then some (reauthenticator.errorCount == 0) else none := by
  unfold Balanced at h
  unfold Reauthenticator.checkFinished
  cases hs : reauthenticator.sessions with
  | nil =>
      rw [hs, List.length_nil] at h
      rw [if_neg (by omega), if_pos rfl]
  | cons session sessions =>
      rw [hs, List.length_cons] at h
      rw [if_pos (by omega), if_neg (List.cons_ne_nil _ _)]

end Reauthenticator

namespace IndicatorService

open Transition

/-! ### Calls and replies -/

/-- The replies to a call, the newest first. -/
def repliesTo (m : ℕ) (s : IndicatorService) : List Bool :=
  s.log.filterMap fun
    | .replied message reauthenticated => if message = some m then some reauthenticated else none
    | _ => none

/-- The reauthenticator works, or its signal `finished` has not been delivered yet. -/
def Active (s : IndicatorService) (r : ReauthenticatorId) : Prop :=
  (s.objects r).sessions ≠ [] ∨ r ∈ s.queued.map Prod.fst

instance (s : IndicatorService) (r : ReauthenticatorId) : Decidable (s.Active r) :=
  inferInstanceAs (Decidable (_ ∨ _))

/-- Every call that has started a reauthenticator has one reply, the outcome of this
reauthenticator, and none before it has finished. -/
def AnsweredOnce (s : IndicatorService) : Prop :=
  ∀ m accountId r, .started m accountId r ∈ s.log →
    s.repliesTo m = if s.Active r then [] else [(s.objects r).errorCount == 0]

/-- No reauthenticator is started while another one is active. -/
def Alone (s : IndicatorService) : Event → Prop
  | .reauthenticateAccount accountId _ _ =>
      s.Starts accountId → s.reauthenticators.isEmpty = true
  | _ => True

instance (s : IndicatorService) : ∀ e, Decidable (s.Alone e)
  | .reauthenticateAccount accountId _ _ =>
      inferInstanceAs (Decidable (s.Starts accountId → s.reauthenticators.isEmpty = true))
  | .clearErrorStatus | .removeFailures _ | .reportFailure _ _ | .signal _ _ _ | .finished =>
      .isTrue trivial

/-! ### What leaves the calls alone -/

/-- Neither starts nor answers a call. -/
def Emission.Quiet : Emission → Prop
  | .started _ _ _ | .replied _ _ => False
  | _ => True

/-- Nothing happens to the reauthenticators and to the calls that wait for them. -/
structure Frame (s s' : IndicatorService) : Prop where
  reauthenticators : s'.reauthenticators = s.reauthenticators
  clientMessage : s'.clientMessage = s.clientMessage
  objects : s'.objects = s.objects
  nextReauthenticator : s'.nextReauthenticator = s.nextReauthenticator
  nextMessage : s.nextMessage ≤ s'.nextMessage
  queued : s'.queued = s.queued
  log : ∃ es, s'.log = es ++ s.log ∧ ∀ e ∈ es, e.Quiet

theorem Frame.refl (s : IndicatorService) : Frame s s :=
  ⟨rfl, rfl, rfl, rfl, le_rfl, rfl, [], rfl, by simp⟩

theorem Frame.trans {s s' s'' : IndicatorService} (h : Frame s s') (h' : Frame s' s'') :
    Frame s s'' := by
  obtain ⟨es, hlog, hes⟩ := h.log
  obtain ⟨es', hlog', hes'⟩ := h'.log
  refine ⟨h'.reauthenticators.trans h.reauthenticators, h'.clientMessage.trans h.clientMessage,
    h'.objects.trans h.objects, h'.nextReauthenticator.trans h.nextReauthenticator,
    h.nextMessage.trans h'.nextMessage, h'.queued.trans h.queued, es' ++ es, ?_, ?_⟩
  · rw [hlog', hlog, List.append_assoc]
  · intro e he
    exact (List.mem_append.mp he).elim (hes' e) (hes e)

theorem Frame.emit {s s' : IndicatorService} (h : Frame s s') {e : Emission} (he : e.Quiet) :
    Frame s (s'.emit e) :=
  h.trans ⟨rfl, rfl, rfl, rfl, le_rfl, rfl, [e], rfl, by simpa using he⟩

theorem frame_clearErrorStatus (s : IndicatorService) : Frame s s.clearErrorStatus := by
  unfold clearErrorStatus
  split_ifs
  · exact ⟨rfl, rfl, rfl, rfl, le_rfl, rfl, [.propertyChanged (.errorStatus false)], rfl,
      by simp [Emission.Quiet]⟩
  · exact .refl s

theorem frame_records (s : IndicatorService) (failures : Finset ℕ)
    (failureClientData : Std.TreeMap ℕ (List AuthData)) :
    Frame s { s with failures := failures, failureClientData := failureClientData } :=
  ⟨rfl, rfl, rfl, rfl, le_rfl, rfl, [], rfl, by simp⟩

theorem frame_removeFailures (accountIds : Finset ℕ) (s : IndicatorService) :
    Frame s (s.removeFailures accountIds) := by
  have hnotified := (frame_records s (s.failures \ accountIds) s.failureClientData).emit
    (e := .propertyChanged (.failures (s.failures \ accountIds))) trivial
  unfold removeFailures
  dsimp only
  split_ifs
  · exact hnotified.emit trivial
  · exact hnotified

theorem frame_showNotification (parameters : QVariantMap) (s : IndicatorService) :
    Frame s (s.showNotification parameters) := by
  unfold showNotification
  split_ifs
  · exact .refl s
  · have hstatus : Frame s { s with errorStatus := true } :=
      ⟨rfl, rfl, rfl, rfl, le_rfl, rfl, [], rfl, by simp⟩
    exact (hstatus.emit (by trivial)).emit (by trivial)

theorem frame_reportFailure (accountId : ℕ) (notification : QVariantMap) (s : IndicatorService) :
    Frame s (s.reportFailure accountId notification) := by
  have hinserted := frame_records s (insert accountId s.failures) s.failureClientData
  unfold reportFailure
  dsimp only
  refine Frame.trans (Frame.emit ?_ (by trivial)) (frame_showNotification _ _)
  split_ifs
  · exact (hinserted.emit (by trivial)).trans (frame_records _ _ _)
  · exact hinserted.trans (frame_records _ _ _)
  · exact hinserted.emit (by trivial)
  · exact hinserted

theorem frame_onSuccess (accountId : ℕ) (s : IndicatorService) :
    Frame s (s.onSuccess accountId) := by
  have hnotified := (frame_records s (s.failures.erase accountId)
    (s.failureClientData.erase accountId)).emit
      (e := .propertyChanged (.failures (s.failures.erase accountId))) trivial
  unfold onSuccess
  dsimp only
  split_ifs
  · exact (hnotified.trans (frame_clearErrorStatus _)).emit trivial
  · exact hnotified

/-! ### The map of the reauthenticators -/

theorem toList_insert_of_nil {map : Std.TreeMap ℕ ReauthenticatorId} (h : map.toList = [])
    (accountId : ℕ) (r : ReauthenticatorId) :
    (map.insert accountId r).toList = [(accountId, r)] := by
  have hperm := Std.TreeMap.toList_insert_perm (t := map) (k := accountId) (v := r)
  rw [h] at hperm
  exact List.perm_singleton.mp hperm

theorem toList_erase_of_singleton {map : Std.TreeMap ℕ ReauthenticatorId} {accountId : ℕ}
    {r : ReauthenticatorId} (h : map.toList = [(accountId, r)]) :
    (map.erase accountId).toList = [] := by
  have hget : map[accountId]? = some r :=
    Std.TreeMap.mem_toList_iff_getElem?_eq_some.mp (by simp [h])
  have hcontains : map.contains accountId = true := by
    rw [Std.TreeMap.contains_eq_isSome_getElem?, hget]
    rfl
  have hsize : map.size = 1 := by
    rw [← Std.TreeMap.length_toList, h]
    rfl
  rw [← List.isEmpty_iff, Std.TreeMap.isEmpty_toList, Std.TreeMap.isEmpty_erase, hsize, hcontains]
  simp

/-! ### One reauthenticator at a time -/

/-- No reauthenticator is active. -/
structure Rests (s : IndicatorService) : Prop where
  map : s.reauthenticators.toList = []
  sessions : ∀ r, (s.objects r).sessions = []
  queued : s.queued = []

/-- The reauthenticator `r` of a call is active, and no other. -/
structure Serves (s : IndicatorService) (m accountId : ℕ) (r : ReauthenticatorId) : Prop where
  map : s.reauthenticators.toList = [(accountId, r)]
  started : .started m accountId r ∈ s.log
  message : s.clientMessage = some m
  unanswered : s.repliesTo m = []
  sessions : ∀ q, q ≠ r → (s.objects q).sessions = []
  queued : s.queued = ((s.objects r).checkFinished.map fun success => (r, success)).toList

/-- The messages and the reauthenticators of the calls. -/
structure Numbered (s : IndicatorService) : Prop where
  started : ∀ m accountId r, .started m accountId r ∈ s.log →
    m < s.nextMessage ∧ r < s.nextReauthenticator
  unique : ∀ m accountId r m' accountId' r', .started m accountId r ∈ s.log →
    .started m' accountId' r' ∈ s.log → (m = m' ↔ r = r')
  replied : ∀ m reauthenticated, .replied (some m) reauthenticated ∈ s.log → m < s.nextMessage

structure Inv (s : IndicatorService) : Prop where
  balanced : ∀ r, (s.objects r).Balanced
  numbered : s.Numbered
  answered : ∀ m accountId r, .started m accountId r ∈ s.log → ¬ s.Active r →
    s.repliesTo m = [(s.objects r).errorCount == 0]
  alone : s.Rests ∨ ∃ m accountId r, s.Serves m accountId r

theorem repliesTo_of_log {s s' : IndicatorService} {es : List Emission} (hlog : s'.log = es ++ s.log)
    (hes : ∀ e ∈ es, ∀ message reauthenticated, e ≠ .replied message reauthenticated) (m : ℕ) :
    s'.repliesTo m = s.repliesTo m := by
  have hnone : es.filterMap (fun
      | .replied message reauthenticated => if message = some m then some reauthenticated else none
      | _ => none) = [] := by
    rw [List.filterMap_eq_nil_iff]
    intro e he
    cases e with
    | replied message reauthenticated => exact absurd rfl (hes _ he message reauthenticated)
    | _ => rfl
  unfold repliesTo
  rw [hlog, List.filterMap_append, hnone, List.nil_append]

theorem repliesTo_eq_nil {s : IndicatorService} {m : ℕ}
    (h : ∀ reauthenticated, .replied (some m) reauthenticated ∉ s.log) : s.repliesTo m = [] := by
  unfold repliesTo
  rw [List.filterMap_eq_nil_iff]
  intro e he
  cases e with
  | replied message reauthenticated =>
      dsimp only
      rw [if_neg]
      rintro rfl
      exact h reauthenticated he
  | _ => rfl

theorem Frame.repliesTo {s s' : IndicatorService} (h : Frame s s') (m : ℕ) :
    s'.repliesTo m = s.repliesTo m := by
  obtain ⟨es, hlog, hes⟩ := h.log
  apply repliesTo_of_log hlog
  rintro e he message reauthenticated rfl
  exact hes _ he

theorem Frame.mem_log {s s' : IndicatorService} (h : Frame s s') {e : Emission}
    (he : ¬ e.Quiet) : e ∈ s'.log ↔ e ∈ s.log := by
  obtain ⟨es, hlog, hes⟩ := h.log
  rw [hlog, List.mem_append]
  constructor
  · intro hmem
    exact hmem.resolve_left fun hnew => he (hes e hnew)
  · exact Or.inr

theorem Frame.started {s s' : IndicatorService} (h : Frame s s') (m accountId : ℕ)
    (r : ReauthenticatorId) : .started m accountId r ∈ s'.log ↔ .started m accountId r ∈ s.log :=
  h.mem_log not_false

theorem Frame.replied {s s' : IndicatorService} (h : Frame s s') (message : Option ℕ)
    (reauthenticated : Bool) :
    .replied message reauthenticated ∈ s'.log ↔ .replied message reauthenticated ∈ s.log :=
  h.mem_log not_false

theorem Frame.active {s s' : IndicatorService} (h : Frame s s') (r : ReauthenticatorId) :
    s'.Active r ↔ s.Active r := by
  unfold Active
  rw [h.objects, h.queued]

theorem Numbered.frame {s s' : IndicatorService} (hn : s.Numbered) (h : Frame s s') :
    s'.Numbered := by
  refine ⟨?_, ?_, ?_⟩
  · intro m accountId r hmem
    obtain ⟨hm, hr⟩ := hn.started m accountId r ((h.started _ _ _).mp hmem)
    rw [h.nextReauthenticator]
    exact ⟨hm.trans_le h.nextMessage, hr⟩
  · intro m accountId r m' accountId' r' hmem hmem'
    exact hn.unique m accountId r m' accountId' r' ((h.started _ _ _).mp hmem)
      ((h.started _ _ _).mp hmem')
  · intro m reauthenticated hmem
    exact (hn.replied m reauthenticated ((h.replied _ _).mp hmem)).trans_le h.nextMessage

theorem Rests.frame {s s' : IndicatorService} (hr : s.Rests) (h : Frame s s') : s'.Rests := by
  refine ⟨?_, ?_, ?_⟩
  · rw [h.reauthenticators, hr.map]
  · rw [h.objects]
    exact hr.sessions
  · rw [h.queued, hr.queued]

theorem Serves.frame {s s' : IndicatorService} {m accountId : ℕ} {r : ReauthenticatorId}
    (hs : s.Serves m accountId r) (h : Frame s s') : s'.Serves m accountId r := by
  refine ⟨?_, (h.started _ _ _).mpr hs.started, ?_, ?_, ?_, ?_⟩
  · rw [h.reauthenticators, hs.map]
  · rw [h.clientMessage, hs.message]
  · rw [h.repliesTo, hs.unanswered]
  · rw [h.objects]
    exact hs.sessions
  · rw [h.queued, h.objects, hs.queued]

theorem Inv.frame {s s' : IndicatorService} (hi : s.Inv) (h : Frame s s') : s'.Inv := by
  refine ⟨?_, hi.numbered.frame h, ?_, ?_⟩
  · rw [h.objects]
    exact hi.balanced
  · intro m accountId r hmem hactive
    rw [h.active] at hactive
    rw [h.repliesTo, h.objects]
    exact hi.answered m accountId r ((h.started _ _ _).mp hmem) hactive
  · rcases hi.alone with hrests | ⟨m, accountId, r, hserves⟩
    · exact Or.inl (hrests.frame h)
    · exact Or.inr ⟨m, accountId, r, hserves.frame h⟩

/-! ### Steps -/

theorem checkFinished_queued (r : ReauthenticatorId) (s : IndicatorService) : s.checkFinished r =
    { s with queued := s.queued ++
        ((s.objects r).checkFinished.map fun success => (r, success)).toList } := by
  unfold checkFinished
  cases (s.objects r).checkFinished with
  | none => simp
  | some success => rfl

theorem reauthenticateAccount_starts {s : IndicatorService} {accountId : ℕ}
    (h : s.Starts accountId) (extraParameters : QVariantMap) (createSession : ℕ → Bool) :
    s.reauthenticateAccount accountId extraParameters createSession =
      (({ s with
        nextMessage := s.nextMessage + 1
        clientMessage := some s.nextMessage
        reauthenticators := s.reauthenticators.insert accountId s.nextReauthenticator
        objects := Function.update s.objects s.nextReauthenticator (Reauthenticator.start
          createSession (s.failureClientData[accountId]?.getD []) extraParameters)
        nextReauthenticator := s.nextReauthenticator + 1 }).emit
          (.started s.nextMessage accountId s.nextReauthenticator)).checkFinished
            s.nextReauthenticator := by
  unfold reauthenticateAccount
  rw [if_neg (not_not.mpr h.1), if_neg h.2]

theorem frame_reauthenticateAccount {s : IndicatorService} {accountId : ℕ}
    (h : ¬ s.Starts accountId) (extraParameters : QVariantMap) (createSession : ℕ → Bool) :
    Frame s (s.reauthenticateAccount accountId extraParameters createSession) := by
  have hnext : Frame s { s with nextMessage := s.nextMessage + 1 } :=
    ⟨rfl, rfl, rfl, rfl, Nat.le_succ _, rfl, [], rfl, by simp⟩
  unfold reauthenticateAccount
  by_cases hdata : accountId ∈ s.failureClientData
  · have hactive : accountId ∈ s.reauthenticators := by
      by_contra hactive
      exact h ⟨hdata, hactive⟩
    rw [if_neg (not_not.mpr hdata), if_pos hactive]
    exact hnext.emit (by trivial)
  · rw [if_pos hdata]
    exact hnext.emit (by trivial)

theorem Numbered.start {s s' : IndicatorService} (hn : s.Numbered) {accountId : ℕ}
    (hlog : s'.log = .started s.nextMessage accountId s.nextReauthenticator :: s.log)
    (hmessage : s'.nextMessage = s.nextMessage + 1)
    (hnext : s'.nextReauthenticator = s.nextReauthenticator + 1) : s'.Numbered := by
  have hmem {m a : ℕ} {r : ReauthenticatorId} (h : .started m a r ∈ s'.log) :
      m = s.nextMessage ∧ r = s.nextReauthenticator ∨
        .started m a r ∈ s.log ∧ m < s.nextMessage ∧ r < s.nextReauthenticator := by
    rw [hlog, List.mem_cons] at h
    rcases h with h | h
    · cases h
      exact Or.inl ⟨rfl, rfl⟩
    · exact Or.inr ⟨h, hn.started _ _ _ h⟩
  refine ⟨?_, ?_, ?_⟩
  · intro m a r h
    rw [hmessage, hnext]
    rcases hmem h with ⟨rfl, rfl⟩ | ⟨-, hm, hr⟩
    · exact ⟨Nat.lt_succ_self _, Nat.lt_succ_self _⟩
    · exact ⟨Nat.lt_succ_of_lt hm, Nat.lt_succ_of_lt hr⟩
  · intro m a r m' a' r' h h'
    rcases hmem h with ⟨rfl, rfl⟩ | ⟨h, hm, hr⟩ <;>
      rcases hmem h' with ⟨rfl, rfl⟩ | ⟨h', hm', hr'⟩
    · exact iff_of_true rfl rfl
    · exact iff_of_false hm'.ne' hr'.ne'
    · exact iff_of_false hm.ne hr.ne
    · exact hn.unique m a r m' a' r' h h'
  · intro m reauthenticated h
    rw [hlog, List.mem_cons] at h
    have hlt := hn.replied m reauthenticated (h.resolve_left (by simp))
    omega

theorem Inv.start {s : IndicatorService} (hi : s.Inv) (hr : s.Rests) {accountId : ℕ}
    (h : s.Starts accountId) (extraParameters : QVariantMap) (createSession : ℕ → Bool) :
    (s.reauthenticateAccount accountId extraParameters createSession).Inv := by
  have hbalanced := Reauthenticator.balanced_start createSession
    (s.failureClientData[accountId]?.getD []) extraParameters
  rw [reauthenticateAccount_starts h, checkFinished_queued]
  set started := Reauthenticator.start createSession
    (s.failureClientData[accountId]?.getD []) extraParameters with hstarted
  have hunanswered : s.repliesTo s.nextMessage = [] :=
    repliesTo_eq_nil fun reauthenticated hmem =>
      (hi.numbered.replied _ reauthenticated hmem).false
  refine ⟨?_, hi.numbered.start rfl rfl rfl, ?_, Or.inr ⟨s.nextMessage, accountId,
    s.nextReauthenticator, ?_, ?_, rfl, ?_, ?_, ?_⟩⟩
  · intro r
    by_cases hr : r = s.nextReauthenticator
    · subst hr
      simpa using hbalanced
    · simpa [hr] using hi.balanced r
  · intro m a r hmem hactive
    have hold : .started m a r ∈ s.log := by
      rcases List.mem_cons.mp hmem with hnew | hold
      · cases hnew
        refine absurd ?_ hactive
        unfold Active
        by_cases hsessions : started.sessions = []
        · right
          simp [hbalanced.checkFinished, hsessions]
        · left
          simpa using hsessions
      · exact hold
    have hne : r ≠ s.nextReauthenticator := (hi.numbered.started m a r hold).2.ne
    have hinactive : ¬ s.Active r := by
      simp [Active, hr.sessions, hr.queued]
    have hanswered := hi.answered m a r hold hinactive
    simpa [repliesTo, hne] using hanswered
  · exact toList_insert_of_nil hr.map accountId s.nextReauthenticator
  · exact List.mem_cons_self
  · simpa [repliesTo] using hunanswered
  · intro q hq
    simpa [hq] using hr.sessions q
  · simp [hr.queued]

theorem Inv.onSignal {s : IndicatorService} (hi : s.Inv) {r : ReauthenticatorId} {i : ℕ}
    (h : i < (s.objects r).sessions.length) (error : Bool) : (s.onSignal r i error).Inv := by
  have hne : (s.objects r).sessions ≠ [] := by
    intro hnil
    simp [hnil] at h
  have hbalanced := (hi.balanced r).onSignal h error
  obtain hrests | ⟨m, accountId, q, hserves⟩ := hi.alone
  · exact absurd (hrests.sessions r) hne
  obtain rfl : r = q := by
    by_contra hrq
    exact hne (hserves.sessions r hrq)
  have hqueued : s.queued = [] := by
    rw [hserves.queued, (hi.balanced r).checkFinished, if_neg hne]
    rfl
  unfold IndicatorService.onSignal
  rw [checkFinished_queued]
  refine ⟨?_, ⟨hi.numbered.started, hi.numbered.unique, hi.numbered.replied⟩, ?_,
    Or.inr ⟨m, accountId, r, hserves.map, hserves.started, hserves.message, hserves.unanswered,
      ?_, ?_⟩⟩
  · intro q
    by_cases hq : q = r
    · subst hq
      simpa using hbalanced
    · simpa [hq] using hi.balanced q
  · intro m' a q hmem hactive
    by_cases hq : q = r
    · subst hq
      refine absurd ?_ hactive
      unfold Active
      by_cases hsessions : ((s.objects q).onSignal i error).sessions = []
      · right
        simp [hbalanced.checkFinished, hsessions]
      · left
        simpa using hsessions
    · have hinactive : ¬ s.Active q := by
        simp [Active, hserves.sessions q hq, hqueued]
      simpa [repliesTo, hq] using hi.answered m' a q hmem hinactive
  · intro q hq
    simpa [hq] using hserves.sessions q hq
  · simp [hqueued]

theorem accountOf_singleton {s : IndicatorService} {accountId : ℕ} {r : ReauthenticatorId}
    (h : s.reauthenticators.toList = [(accountId, r)]) : s.accountOf r = accountId := by
  unfold accountOf
  rw [h]
  simp

theorem onReauthenticatorFinished_frame (r : ReauthenticatorId) (success : Bool)
    (s : IndicatorService) :
    ∃ t, Frame (s.emit (.replied s.clientMessage success)) t ∧
      s.onReauthenticatorFinished r success =
        { t with reauthenticators := t.reauthenticators.erase (s.accountOf r) } := by
  cases success with
  | true => exact ⟨_, frame_onSuccess (s.accountOf r) _, rfl⟩
  | false => exact ⟨_, .refl _, rfl⟩

/-- The reauthenticator whose signal is delivered is the active one, and it has finished. -/
theorem Inv.serves_of_queued {s : IndicatorService} (hi : s.Inv) {r : ReauthenticatorId}
    {success : Bool} {queued : List (ReauthenticatorId × Bool)}
    (h : s.queued = (r, success) :: queued) :
    (∃ m accountId, s.Serves m accountId r) ∧ (s.objects r).sessions = [] ∧
      success = ((s.objects r).errorCount == 0) ∧ queued = [] := by
  obtain hrests | ⟨m, accountId, q, hserves⟩ := hi.alone
  · rw [hrests.queued] at h
    cases h
  · have hall := hserves.queued
    rw [(hi.balanced q).checkFinished, h] at hall
    by_cases hsessions : (s.objects q).sessions = []
    · rw [if_pos hsessions] at hall
      obtain ⟨⟨rfl, rfl⟩, rfl⟩ : (r = q ∧ success = ((s.objects q).errorCount == 0)) ∧
          queued = [] := by
        simpa using hall
      exact ⟨⟨m, accountId, hserves⟩, hsessions, rfl, rfl⟩
    · rw [if_neg hsessions] at hall
      cases hall

/-- The signal of the active reauthenticator `r` answers the call `m`. -/
structure Delivered (m : ℕ) (r : ReauthenticatorId) (s s' : IndicatorService) : Prop where
  map : s'.reauthenticators.toList = []
  objects : s'.objects = s.objects
  queued : s'.queued = []
  nextMessage : s.nextMessage ≤ s'.nextMessage
  nextReauthenticator : s'.nextReauthenticator = s.nextReauthenticator
  started : ∀ m' accountId q, .started m' accountId q ∈ s'.log ↔ .started m' accountId q ∈ s.log
  replied : ∀ m' reauthenticated, .replied (some m') reauthenticated ∈ s'.log →
    m' = m ∨ .replied (some m') reauthenticated ∈ s.log
  repliesTo : ∀ m', s'.repliesTo m' =
    if m = m' then [(s.objects r).errorCount == 0] else s.repliesTo m'

theorem Serves.delivered {s : IndicatorService} {m accountId : ℕ} {r : ReauthenticatorId}
    (h : s.Serves m accountId r) : Delivered m r s ({ s with queued := [] }.onReauthenticatorFinished
      r ((s.objects r).errorCount == 0)) := by
  obtain ⟨t, hframe, ht⟩ := onReauthenticatorFinished_frame r ((s.objects r).errorCount == 0)
    { s with queued := [] }
  rw [ht, accountOf_singleton (s := { s with queued := [] }) h.map]
  refine ⟨?_, hframe.objects, hframe.queued, hframe.nextMessage, hframe.nextReauthenticator,
    ?_, ?_, ?_⟩
  · apply toList_erase_of_singleton (r := r)
    rw [hframe.reauthenticators]
    exact h.map
  · intro m' a q
    rw [hframe.started]
    simp
  · intro m' reauthenticated hmem
    rcases List.mem_cons.mp ((hframe.replied _ _).mp hmem) with hnew | hold
    · obtain ⟨rfl, -⟩ : m' = m ∧ _ := by
        simpa [h.message] using hnew
      exact Or.inl rfl
    · exact Or.inr hold
  · intro m'
    change t.repliesTo m' = _
    rw [hframe.repliesTo]
    by_cases hm : m = m'
    · subst hm
      have hunanswered := h.unanswered
      unfold IndicatorService.repliesTo at hunanswered ⊢
      simp [h.message, hunanswered]
    · simp [IndicatorService.repliesTo, h.message, hm]

theorem Numbered.delivered {s s' : IndicatorService} {m : ℕ} {r : ReauthenticatorId}
    (hn : s.Numbered) (hm : m < s.nextMessage) (h : Delivered m r s s') : s'.Numbered where
  started m' a q hmem := by
    obtain ⟨hm', hq⟩ := hn.started m' a q ((h.started m' a q).mp hmem)
    rw [h.nextReauthenticator]
    exact ⟨hm'.trans_le h.nextMessage, hq⟩
  unique m' a q m'' a' q' hmem hmem' :=
    hn.unique m' a q m'' a' q' ((h.started m' a q).mp hmem) ((h.started m'' a' q').mp hmem')
  replied m' reauthenticated hmem := by
    apply Nat.lt_of_lt_of_le _ h.nextMessage
    rcases h.replied m' reauthenticated hmem with rfl | hold
    · exact hm
    · exact hn.replied m' reauthenticated hold

theorem Inv.finished {s : IndicatorService} (hi : s.Inv) {r : ReauthenticatorId} {success : Bool}
    {queued : List (ReauthenticatorId × Bool)} (h : s.queued = (r, success) :: queued) :
    ({ s with queued := queued }.onReauthenticatorFinished r success).Inv := by
  obtain ⟨⟨m, accountId, hserves⟩, hsessions, rfl, rfl⟩ := hi.serves_of_queued h
  have hdelivered := hserves.delivered
  have hlt : m < s.nextMessage := (hi.numbered.started m accountId r hserves.started).1
  refine ⟨?_, hi.numbered.delivered hlt hdelivered, ?_,
    Or.inl ⟨hdelivered.map, ?_, hdelivered.queued⟩⟩
  · intro q
    rw [hdelivered.objects]
    exact hi.balanced q
  · intro m' a q hmem _
    have hold := (hdelivered.started m' a q).mp hmem
    have hunique := hi.numbered.unique m accountId r m' a q hserves.started hold
    rw [hdelivered.repliesTo, hdelivered.objects]
    by_cases hq : r = q
    · subst hq
      rw [if_pos (hunique.mpr rfl)]
    · rw [if_neg (mt hunique.mp hq)]
      apply hi.answered m' a q hold
      simp [Active, hserves.sessions q (Ne.symm hq), h, Ne.symm hq]
  · intro q
    rw [hdelivered.objects]
    by_cases hq : q = r
    · rw [hq, hsessions]
    · exact hserves.sessions q hq

theorem Inv.step {s : IndicatorService} (hi : s.Inv) {e : Event} (h : s.Alone e) :
    (s.step e).Inv := by
  cases e with
  | clearErrorStatus => exact hi.frame (frame_clearErrorStatus s)
  | removeFailures accountIds => exact hi.frame (frame_removeFailures accountIds s)
  | reportFailure accountId notification =>
      exact hi.frame (frame_reportFailure accountId notification s)
  | reauthenticateAccount accountId extraParameters createSession =>
      by_cases hstarts : s.Starts accountId
      · obtain hrests | ⟨m, accountId', r, hserves⟩ := hi.alone
        · exact hi.start hrests hstarts extraParameters createSession
        · have hempty := h hstarts
          rw [← Std.TreeMap.isEmpty_toList, hserves.map] at hempty
          cases hempty
      · exact hi.frame (frame_reauthenticateAccount hstarts extraParameters createSession)
  | signal r i error =>
      unfold IndicatorService.step
      dsimp only
      split_ifs with hsession
      · exact hi.onSignal hsession error
      · exact hi
  | finished =>
      unfold IndicatorService.step
      dsimp only
      cases hqueued : s.queued with
      | nil => exact hi
      | cons entry queued => exact hi.finished hqueued

theorem inv_start : Inv {} := by
  refine ⟨fun _ => rfl, ⟨?_, ?_, ?_⟩, ?_, Or.inl ⟨rfl, fun _ => rfl, rfl⟩⟩
  · exact fun _ _ _ hmem => absurd hmem List.not_mem_nil
  · exact fun _ _ _ _ _ _ hmem => absurd hmem List.not_mem_nil
  · exact fun _ _ hmem => absurd hmem List.not_mem_nil
  · exact fun _ _ _ hmem => absurd hmem List.not_mem_nil

theorem reachable_inv {s : IndicatorService}
    (h : Reachable machine (fun s e => s.Alone e) s) : s.Inv :=
  h.invariant inv_start fun _ _ _ hi ha hrun => by
    obtain rfl := Except.ok.inj hrun
    exact hi.step ha

theorem Inv.answeredOnce {s : IndicatorService} (hi : s.Inv) : s.AnsweredOnce := by
  intro m accountId r hmem
  by_cases hactive : s.Active r
  · rw [if_pos hactive]
    obtain hrests | ⟨m', accountId', q, hserves⟩ := hi.alone
    · simp [Active, hrests.sessions, hrests.queued] at hactive
    · have hr : q = r := by
        by_contra hne
        have hsessions := hserves.sessions r (Ne.symm hne)
        unfold Active at hactive
        rw [hserves.queued, hsessions] at hactive
        cases hfinished : (s.objects q).checkFinished <;> simp [hfinished, Ne.symm hne] at hactive
      obtain rfl := (hi.numbered.unique _ _ _ _ _ _ hserves.started hmem).mpr hr
      exact hserves.unanswered
  · rw [if_neg hactive]
    exact hi.answered m accountId r hmem hactive

/-! ### A call that is overtaken -/

/-- The call has no reply, and the service does not have its message any more. -/
structure Overtaken (s : IndicatorService) (m : ℕ) : Prop where
  old : m < s.nextMessage
  message : s.clientMessage ≠ some m
  unanswered : s.repliesTo m = []

theorem Overtaken.frame {s s' : IndicatorService} {m : ℕ} (h : s.Overtaken m)
    (hframe : Frame s s') : s'.Overtaken m := by
  refine ⟨h.old.trans_le hframe.nextMessage, ?_, ?_⟩
  · rw [hframe.clientMessage]
    exact h.message
  · rw [hframe.repliesTo, h.unanswered]

theorem overtaken_of_starts {s : IndicatorService} {m accountId : ℕ} (hm : m < s.nextMessage)
    (hunanswered : s.repliesTo m = []) (hstarts : s.Starts accountId)
    (extraParameters : QVariantMap) (createSession : ℕ → Bool) :
    (s.reauthenticateAccount accountId extraParameters createSession).Overtaken m := by
  rw [reauthenticateAccount_starts hstarts, checkFinished_queued]
  refine ⟨Nat.lt_succ_of_lt hm, ?_, ?_⟩
  · intro hmessage
    rw [← Option.some.inj hmessage] at hm
    omega
  · simpa [repliesTo] using hunanswered

theorem Overtaken.finished {s : IndicatorService} {m : ℕ} (h : s.Overtaken m)
    (r : ReauthenticatorId) (success : Bool) (queued : List (ReauthenticatorId × Bool)) :
    ({ s with queued := queued }.onReauthenticatorFinished r success).Overtaken m := by
  obtain ⟨t, hframe, ht⟩ := onReauthenticatorFinished_frame r success { s with queued := queued }
  rw [ht]
  have hreplied : Overtaken (({ s with queued := queued } : IndicatorService).emit
      (.replied s.clientMessage success)) m := by
    refine ⟨h.old, h.message, ?_⟩
    have hunanswered := h.unanswered
    unfold repliesTo at hunanswered ⊢
    simp [h.message, hunanswered]
  obtain ⟨hold, hmessage, hunanswered⟩ := hreplied.frame hframe
  exact ⟨hold, hmessage, hunanswered⟩

theorem Overtaken.step {s : IndicatorService} {m : ℕ} (h : s.Overtaken m) (e : Event) :
    (s.step e).Overtaken m := by
  cases e with
  | clearErrorStatus => exact h.frame (frame_clearErrorStatus s)
  | removeFailures accountIds => exact h.frame (frame_removeFailures accountIds s)
  | reportFailure accountId notification =>
      exact h.frame (frame_reportFailure accountId notification s)
  | reauthenticateAccount accountId extraParameters createSession =>
      by_cases hstarts : s.Starts accountId
      · exact overtaken_of_starts h.old h.unanswered hstarts extraParameters createSession
      · exact h.frame (frame_reauthenticateAccount hstarts extraParameters createSession)
  | signal r i error =>
      unfold IndicatorService.step
      dsimp only
      split_ifs
      · unfold IndicatorService.onSignal
        rw [checkFinished_queued]
        exact ⟨h.old, h.message, h.unanswered⟩
      · exact h
  | finished =>
      unfold IndicatorService.step
      dsimp only
      cases s.queued with
      | nil => exact h
      | cons entry queued => exact h.finished entry.1 entry.2 queued

theorem Overtaken.run {s s' : IndicatorService} {m : ℕ} (h : s.Overtaken m) (es : List Event)
    (hrun : machine.run s es = .ok s') : s'.Overtaken m := by
  induction es generalizing s with
  | nil =>
      obtain rfl := Except.ok.inj hrun
      exact h
  | cons e es ih => exact ih (h.step e) hrun

/-- A reauthenticator that is started while another one is active overtakes its call. -/
theorem Inv.overtakes {s : IndicatorService} (hi : s.Inv) {e : Event} (h : ¬ s.Alone e) :
    ∃ m accountId r, .started m accountId r ∈ s.log ∧ (s.step e).Overtaken m := by
  cases e with
  | reauthenticateAccount accountId extraParameters createSession =>
      obtain ⟨hstarts, hactive⟩ := Classical.not_imp.mp h
      obtain hrests | ⟨m, accountId', r, hserves⟩ := hi.alone
      · rw [← Std.TreeMap.isEmpty_toList, hrests.map] at hactive
        exact absurd rfl hactive
      · refine ⟨m, accountId', r, hserves.started, ?_⟩
        have hlt := (hi.numbered.started m accountId' r hserves.started).1
        exact overtaken_of_starts hlt hserves.unanswered hstarts extraParameters createSession
  | clearErrorStatus | removeFailures _ | reportFailure _ _ | signal _ _ _ | finished =>
      exact absurd trivial h

/-- As long as no reauthenticator is started while another one is active, every call that has
started one is answered once, with its outcome; after that, there is a call that is never
answered. -/
theorem reauthentication_answered {s : IndicatorService}
    (h : Reachable machine (fun s e => s.Alone e) s) : s.AnsweredOnce ∧
      ∀ e, ¬ s.Alone e → ∃ m accountId r, .started m accountId r ∈ s.log ∧
        ∀ es s', machine.run (s.step e) es = .ok s' → s'.repliesTo m = [] := by
  have hi := reachable_inv h
  refine ⟨hi.answeredOnce, ?_⟩
  intro e he
  obtain ⟨m, accountId, r, hstarted, hovertaken⟩ := hi.overtakes he
  refine ⟨m, accountId, r, hstarted, ?_⟩
  intro es s' hrun
  exact (hovertaken.run es hrun).unanswered

/-- Failures of two accounts, with their client data. -/
def twoFailures : List Event :=
  [.reportFailure 1 (.cons "ClientData" (.map .nil) .nil),
    .reportFailure 2 (.cons "ClientData" (.map .nil) .nil)]

/-- The two accounts are reauthenticated one after the other. -/
theorem reauthentication_answered_in_turn :
    ∃ s, machine.run {} (twoFailures ++
        [.reauthenticateAccount 1 .nil fun _ => true, .signal 0 0 false, .finished,
          .reauthenticateAccount 2 .nil fun _ => true, .signal 1 0 true]) = .ok s ∧
      s.AnsweredOnce ∧
      ∀ e, ¬ s.Alone e → ∃ m accountId r, .started m accountId r ∈ s.log ∧
        ∀ es s', machine.run (s.step e) es = .ok s' → s'.repliesTo m = [] := by
  refine (exists_reachable machine (fun s e => s.Alone e) _ ?_ ?_).imp fun s h =>
    ⟨h.1, reauthentication_answered h.2⟩
  · decide
  · decide

/-- Two accounts are reauthenticated at the same time: the first call gets no reply, and the
second one gets two. -/
theorem first_call_unanswered :
    ∃ s, machine.run {} (twoFailures ++
        [.reauthenticateAccount 1 .nil fun _ => true, .reauthenticateAccount 2 .nil fun _ => true,
          .signal 0 0 true, .finished, .signal 1 0 false, .finished]) = .ok s ∧
      s.repliesTo 0 = [] ∧ s.repliesTo 1 = [true, false] ∧ ¬ s.AnsweredOnce := by
  refine ⟨_, rfl, by decide, by decide, ?_⟩
  intro h
  have hfirst := h 0 1 0 (by decide)
  revert hfirst
  decide

end IndicatorService

end OnlineAccounts.SignOnUi
