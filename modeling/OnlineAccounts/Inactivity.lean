import OnlineAccounts.IdleSignals
import OnlineAccounts.Reauthentication

/-! # The inactivity timer

`InactivityTimer` (`inactivity-timer.cpp`) asks all the objects that it watches whether they are
idle, each time one of them signals a change, and starts or stops its timer accordingly.  The
daemon has it watch the request manager, the indicator service and the object of another library.

`Daemon` puts them together: a signal calls the slot of the timer at once, with the values that
`isIdle` has at that moment.  `records` has the changes of `isIdle` and the timeouts, newest
first.  `timer_in_step` says that the timer agrees with the objects after every event of every
run, which rests on the signals of the manager (`IdleSignals.lean`) and of the indicator service
(`IndicatorService.reachable_told`). -/

namespace OnlineAccounts

/-! ### The timer -/

structure InactivityTimer (α : Type*) where
  watchedObjects : List α := []
  /-- The timer is running. -/
  active : Bool := false

namespace InactivityTimer

variable {α : Type*}

theorem allObjectsAreIdle_iff (values : List Bool) :
    allObjectsAreIdle values = true ↔ ∀ idle ∈ values, idle = true := by
  constructor
  · exact of_onTimeout
  · intro h
    induction values with
    | nil => rfl
    | cons idle values ih =>
        obtain ⟨rfl, hvalues⟩ := List.forall_mem_cons.mp h
        exact ih hvalues

theorem allObjectsAreIdle_map_iff (isIdle : α → Bool) (objects : List α) :
    allObjectsAreIdle (objects.map isIdle) = true ↔ ∀ object ∈ objects, isIdle object = true := by
  rw [allObjectsAreIdle_iff, List.forall_mem_map]

/-- `onIdleChanged()`, with the property `isIdle` of the objects. -/
def onIdleChanged (isIdle : α → Bool) (timer : InactivityTimer α) : InactivityTimer α :=
  { timer with active := allObjectsAreIdle (timer.watchedObjects.map isIdle) }

/-- `watchObject(object)` -/
def watchObject (isIdle : α → Bool) (object : α) (timer : InactivityTimer α) : InactivityTimer α :=
  { timer with watchedObjects := timer.watchedObjects ++ [object] }.onIdleChanged isIdle

variable [DecidableEq α]

/-- An object signals `isIdleChanged()`, to which the slot is connected if it is watched. -/
def notified (isIdle : α → Bool) (object : α) (timer : InactivityTimer α) : InactivityTimer α :=
  if object ∈ timer.watchedObjects then timer.onIdleChanged isIdle else timer

@[simp] theorem notified_watchedObjects (isIdle : α → Bool) (object : α)
    (timer : InactivityTimer α) :
    (timer.notified isIdle object).watchedObjects = timer.watchedObjects := by
  unfold notified
  split_ifs <;> rfl

end InactivityTimer

/-! ### The indicator service -/

namespace SignOnUi.IndicatorService

open Transition

/-- The values of `isIdle()` at the signals, newest first. -/
def signals (log : List Emission) : List Bool :=
  log.filterMap fun
    | .isIdleChanged idle => some idle
    | _ => none

/-- The value of `isIdle()` at the last signal; the service starts idle. -/
def told (log : List Emission) : Bool := (signals log).headD true

/-- The last signal is right. -/
def Told (s : IndicatorService) : Prop := told s.log = s.isIdle

theorem told_isIdleChanged (s : IndicatorService) : s.isIdleChanged.Told := rfl

theorem isIdle_iff (s : IndicatorService) : s.isIdle = true ↔ s.failures = ∅ :=
  decide_eq_true_iff

theorem Told.of_eq {s s' : IndicatorService} (h : s.Told) (hfailures : s'.failures = s.failures)
    (hlog : told s'.log = told s.log) : s'.Told := by
  unfold Told isIdle at h ⊢
  rw [hlog, hfailures, h]

theorem Told.clearErrorStatus {s : IndicatorService} (h : s.Told) : s.clearErrorStatus.Told := by
  unfold IndicatorService.clearErrorStatus
  split_ifs
  · exact h.of_eq rfl rfl
  · exact h

/-- Failures are removed, with a signal if none is left. -/
theorem told_of_subset {s s' : IndicatorService} (h : s.Told) (hsubset : s'.failures ⊆ s.failures)
    (hlog : told s'.log = told s.log) (hbusy : s'.isIdle = false) : s'.Told := by
  have hnot : s.isIdle = false := by
    cases hidle : s.isIdle with
    | false => rfl
    | true =>
        rw [isIdle_iff] at hidle
        rw [hidle, Finset.subset_empty] at hsubset
        rw [(isIdle_iff s').mpr hsubset] at hbusy
        cases hbusy
  exact (hlog.trans (h.trans hnot)).trans hbusy.symm

theorem Told.removeFailures {s : IndicatorService} (h : s.Told) (accountIds : Finset ℕ) :
    (s.removeFailures accountIds).Told := by
  unfold IndicatorService.removeFailures
  dsimp only
  split_ifs with hidle
  · exact told_isIdleChanged _
  · rw [Bool.not_eq_true] at hidle
    exact told_of_subset h Finset.sdiff_subset rfl hidle

theorem Told.showNotification {s : IndicatorService} (h : s.Told) (parameters : QVariantMap) :
    (s.showNotification parameters).Told := by
  unfold IndicatorService.showNotification
  dsimp only
  split_ifs
  · exact h
  · exact h.of_eq rfl rfl
  · exact h.of_eq rfl rfl

theorem Told.reportFailure {s : IndicatorService} (h : s.Told) (accountId : ℕ)
    (notification : QVariantMap) : (s.reportFailure accountId notification).Told := by
  have hbusy : ({ s with failures := insert accountId s.failures } : IndicatorService).isIdle =
      false := by
    rw [Bool.eq_false_iff, ne_eq, isIdle_iff]
    exact Finset.insert_ne_empty accountId s.failures
  have hinserted : (if s.isIdle then
      ({ s with failures := insert accountId s.failures } : IndicatorService).isIdleChanged
      else { s with failures := insert accountId s.failures }).Told := by
    split_ifs with hidle
    · exact told_isIdleChanged _
    · rw [Bool.not_eq_true] at hidle
      exact (h.trans hidle).trans hbusy.symm
  unfold IndicatorService.reportFailure
  dsimp only
  apply Told.showNotification
  split_ifs at hinserted ⊢
  · exact hinserted.of_eq rfl rfl
  · exact hinserted.of_eq rfl rfl
  · exact hinserted.of_eq rfl rfl
  · exact hinserted.of_eq rfl rfl

theorem Told.checkFinished {s : IndicatorService} (h : s.Told) (r : ReauthenticatorId) :
    (s.checkFinished r).Told := by
  rw [checkFinished_queued]
  exact h.of_eq rfl rfl

theorem Told.reauthenticateAccount {s : IndicatorService} (h : s.Told) (accountId : ℕ)
    (extraParameters : QVariantMap) (createSession : ℕ → Bool) :
    (s.reauthenticateAccount accountId extraParameters createSession).Told := by
  unfold IndicatorService.reauthenticateAccount
  dsimp only
  split_ifs
  · exact h.of_eq rfl rfl
  · apply Told.checkFinished
    exact h.of_eq rfl rfl
  · exact h.of_eq rfl rfl

theorem Told.onSuccess {s : IndicatorService} (h : s.Told) (accountId : ℕ) :
    (s.onSuccess accountId).Told := by
  unfold IndicatorService.onSuccess
  dsimp only
  split_ifs with hempty
  · exact told_isIdleChanged _
  · refine told_of_subset h (Finset.erase_subset accountId s.failures) rfl ?_
    rw [Bool.eq_false_iff, ne_eq, isIdle_iff]
    exact hempty

theorem Told.onReauthenticatorFinished {s : IndicatorService} (h : s.Told) (r : ReauthenticatorId)
    (success : Bool) : (s.onReauthenticatorFinished r success).Told := by
  have hreplied : (s.emit (.replied s.clientMessage success)).Told := h.of_eq rfl rfl
  unfold IndicatorService.onReauthenticatorFinished
  cases success with
  | true =>
      have hsuccess := hreplied.onSuccess (s.accountOf r)
      exact hsuccess.of_eq rfl rfl
  | false => exact hreplied.of_eq rfl rfl

theorem told_append (es log : List Emission) : told (es ++ log) = (signals es).headD (told log) := by
  unfold told signals
  rw [List.filterMap_append]
  cases es.filterMap _ <;> rfl

theorem step_log (s : IndicatorService) (e : Event) : ∃ es, (s.step e).log = es ++ s.log := by
  cases e with
  | clearErrorStatus => exact (frame_clearErrorStatus s).log.imp fun _ => And.left
  | removeFailures accountIds =>
      exact (frame_removeFailures accountIds s).log.imp fun _ => And.left
  | reportFailure accountId notification =>
      exact (frame_reportFailure accountId notification s).log.imp fun _ => And.left
  | reauthenticateAccount accountId extraParameters createSession =>
      by_cases hstarts : s.Starts accountId
      · refine ⟨[.started s.nextMessage accountId s.nextReauthenticator], ?_⟩
        unfold IndicatorService.step
        dsimp only
        rw [reauthenticateAccount_starts hstarts, checkFinished_queued]
        rfl
      · exact (frame_reauthenticateAccount hstarts extraParameters createSession).log.imp
          fun _ => And.left
  | signal r i error =>
      refine ⟨[], ?_⟩
      unfold IndicatorService.step
      dsimp only
      split_ifs
      · unfold IndicatorService.onSignal
        rw [checkFinished_queued]
        rfl
      · rfl
  | finished =>
      unfold IndicatorService.step
      dsimp only
      cases s.queued with
      | nil => exact ⟨[], rfl⟩
      | cons entry queued =>
          obtain ⟨t, hframe, ht⟩ := onReauthenticatorFinished_frame entry.1 entry.2
            { s with queued := queued }
          obtain ⟨es, hlog, -⟩ := hframe.log
          refine ⟨es ++ [.replied s.clientMessage entry.2], ?_⟩
          dsimp only
          rw [ht, List.append_assoc]
          exact hlog

theorem Told.step {s : IndicatorService} (h : s.Told) (e : Event) : (s.step e).Told := by
  cases e with
  | clearErrorStatus => exact h.clearErrorStatus
  | removeFailures accountIds => exact h.removeFailures accountIds
  | reportFailure accountId notification => exact h.reportFailure accountId notification
  | reauthenticateAccount accountId extraParameters createSession =>
      exact h.reauthenticateAccount accountId extraParameters createSession
  | signal r i error =>
      unfold IndicatorService.step
      dsimp only
      split_ifs
      · apply Told.checkFinished
        exact h.of_eq rfl rfl
      · exact h
  | finished =>
      unfold IndicatorService.step
      dsimp only
      cases s.queued with
      | nil => exact h
      | cons entry queued =>
          apply Told.onReauthenticatorFinished
          exact h.of_eq rfl rfl

end SignOnUi.IndicatorService

/-! ### The daemon -/

/-- The objects that can be watched. -/
inductive Watched where
  | requestManager
  | indicatorService
  | other (i : ℕ)
deriving DecidableEq

/-- What has happened. -/
inductive Record where
  /-- The property `isIdle` of an object has changed. -/
  | changed (object : Watched) (idle : Bool)
  /-- `timeout()` was emitted, and which values `isIdle` of the watched objects had then. -/
  | timeout (values : List Bool)
deriving DecidableEq

/-- The changes of `isIdle()` of the manager, newest first. -/
def changes : List Emission → List Bool
  | [] => []
  | e :: log =>
      if idleIn (e :: log) ≠ idleIn log then idleIn (e :: log) :: changes log else changes log

/-- The values of `isIdle()` of the manager at its signals, newest first. -/
def signals (log : List Emission) : List Bool :=
  log.filterMap fun
    | .isIdleChanged idle => some idle
    | _ => none

theorem changes_cons (e : Emission) (log : List Emission) : changes (e :: log) =
    if idleIn (e :: log) ≠ idleIn log then idleIn (e :: log) :: changes log else changes log := rfl

theorem told_append (es log : List Emission) : told (es ++ log) = (signals es).headD (told log) := by
  induction es with
  | nil => rfl
  | cons e es ih => cases e <;> first | rfl | exact ih

/-- Without a signal there is no change, if the signals are right before and after. -/
theorem changes_of_no_signals {es log : List Emission} (hprompt : Prompt (es ++ log))
    (hsignals : signals es = []) (hbefore : told log = idleIn log)
    (hafter : told (es ++ log) = idleIn (es ++ log)) : changes (es ++ log) = changes log := by
  -- there is no change up to the first one, and after that one the signal is wrong
  have hfirst : changes (es ++ log) = changes log ∧ idleIn (es ++ log) = told log ∨
      idleIn (es ++ log) ≠ told log := by
    clear hafter
    induction es with
    | nil => exact Or.inl ⟨rfl, hbefore.symm⟩
    | cons e es ih =>
        have hes : signals es = [] := by
          cases e <;> first | exact hsignals | cases hsignals
        have htold : told (es ++ log) = told log := by
          rw [told_append, hes]
          rfl
        rw [List.cons_append] at hprompt ⊢
        by_cases hchange : idleIn (e :: (es ++ log)) = idleIn (es ++ log)
        · rw [hchange, changes_cons, if_neg (not_not.mpr hchange)]
          exact ih hprompt.2 hes
        · right
          rw [← htold, hprompt.1 hchange]
          exact hchange
  rcases hfirst with ⟨hchanges, -⟩ | hwrong
  · exact hchanges
  · rw [told_append, hsignals] at hafter
    exact absurd hafter.symm hwrong

theorem Service.step_log {env : ProxyId → Environment} {s s' : Service} {e : Event} (h : s.Inv)
    (hs : ∀ w, s.Settled w) (hrun : s.step env e = .ok s') : ∃ es, s'.log = es ++ s.log := by
  have hboth : s'.Inv ∧ ∃ es, s'.log = es ++ s.log := by
    refine (handles h hs hrun).1.invariant (I := fun t => t.Inv ∧ ∃ es, t.log = es ++ s.log)
      ⟨h, [], rfl⟩ ?_
    rintro a t t' ⟨hi, es, hlog⟩ - hact
    obtain ⟨es', hlog', -⟩ := (hact.effect hi).emitted
    refine ⟨hact.inv hi, es' ++ es, ?_⟩
    rw [hlog', hlog, List.append_assoc]
  exact hboth.2

structure Daemon where
  timer : InactivityTimer Watched := {}
  service : Service := {}
  indicatorService : SignOnUi.IndicatorService := {}
  /-- The property `isIdle` of the other objects. -/
  others : ℕ → Bool := fun _ => true
  records : List Record := []

namespace Daemon

open Transition InactivityTimer

inductive Event where
  | watchObject (object : Watched)
  | requestManager (e : OnlineAccounts.Event)
  | indicatorService (e : SignOnUi.IndicatorService.Event)
  /-- Another object becomes idle or busy, and signals it. -/
  | other (i : ℕ) (idle : Bool)
  /-- The timer expires, if it is running. -/
  | timeout

def isIdle (s : Daemon) : Watched → Bool
  | .requestManager => s.service.isIdle
  | .indicatorService => s.indicatorService.isIdle
  | .other i => s.others i

/-- An object emits signals, newest first, with the values that its `isIdle` had. -/
def notify (object : Watched) (values : List Bool) (s : Daemon) : InactivityTimer Watched :=
  values.foldr (fun idle timer => timer.notified (Function.update s.isIdle object idle) object)
    s.timer

/-- The properties of an object have changed, newest first. -/
def record (object : Watched) (values : List Bool) (s : Daemon) : List Record :=
  values.map (.changed object) ++ s.records

/-- The new part of a list that has grown at its front. -/
def newer {α : Type*} (l' l : List α) : List α := l'.take (l'.length - l.length)

def step (env : ProxyId → Environment) (s : Daemon) : Event → Except Fault Daemon
  | .watchObject object => .ok { s with timer := s.timer.watchObject s.isIdle object }
  | .requestManager e => (s.service.step env e).map fun service =>
      { s with
        service := service
        timer := s.notify .requestManager (signals (newer service.log s.service.log))
        records := s.record .requestManager (newer (changes service.log) (changes s.service.log)) }
  | .indicatorService e =>
      let indicatorService := s.indicatorService.step e
      .ok { s with
        indicatorService := indicatorService
        timer := s.notify .indicatorService (SignOnUi.IndicatorService.signals
          (newer indicatorService.log s.indicatorService.log))
        records := s.record .indicatorService
          (if indicatorService.isIdle = s.indicatorService.isIdle then []
            else [indicatorService.isIdle]) }
  | .other i idle => .ok
      { s with
        others := Function.update s.others i idle
        timer := s.notify (.other i) [idle]
        records := s.record (.other i) (if idle = s.others i then [] else [idle]) }
  | .timeout =>
      if s.timer.active then
        let values := s.timer.watchedObjects.map s.isIdle
        .ok { s with
          timer := { s.timer with active := false }
          records := if onTimeout values then .timeout values :: s.records else s.records }
      else .ok s

def machine (env : ProxyId → Environment) : Machine Daemon Event Fault where
  start := {}
  step := step env

/-- `timeout()` has been emitted after the last change of a watched object. -/
def Expired (s : Daemon) : Prop :=
  ∃ later values earlier, s.records = later ++ .timeout values :: earlier ∧
    ∀ object ∈ s.timer.watchedObjects, ∀ idle, .changed object idle ∉ later

/-- The timer agrees with the objects. -/
structure Agrees (s : Daemon) : Prop where
  /-- The timer runs only if all objects are idle. -/
  active : s.timer.active = true → ∀ object ∈ s.timer.watchedObjects, s.isIdle object = true
  /-- If all are idle and the timer does not run, then it has expired. -/
  expired : s.timer.watchedObjects ≠ [] →
    (∀ object ∈ s.timer.watchedObjects, s.isIdle object = true) → s.timer.active = false →
      s.Expired
  /-- `timeout()` is emitted when all are idle. -/
  timeout : ∀ values, .timeout values ∈ s.records → ∀ idle ∈ values, idle = true

/-- The timer agrees with the objects, and the signals of the two services with theirs. -/
structure InStep (s : Daemon) : Prop extends Agrees s where
  /-- The manager has signalled its last change. -/
  manager : told s.service.log = s.service.isIdle
  /-- The log of the manager shows its changes. -/
  idleIn : idleIn s.service.log = s.service.isIdle
  /-- The manager has signalled each change before the next one. -/
  prompt : Prompt s.service.log
  /-- The indicator service has signalled its last change. -/
  indicatorService : SignOnUi.IndicatorService.told s.indicatorService.log =
    s.indicatorService.isIdle

/-! ### Signals of one object -/

theorem notify_nil (object : Watched) (s : Daemon) : s.notify object [] = s.timer := rfl

theorem notify_watchedObjects (object : Watched) (values : List Bool) (s : Daemon) :
    (s.notify object values).watchedObjects = s.timer.watchedObjects := by
  unfold notify
  induction values with
  | nil => rfl
  | cons idle values ih => rw [List.foldr_cons, notified_watchedObjects, ih]

theorem notify_of_not_mem {object : Watched} {s : Daemon}
    (h : object ∉ s.timer.watchedObjects) (values : List Bool) :
    s.notify object values = s.timer := by
  induction values with
  | nil => rfl
  | cons idle values ih =>
      have hnot : object ∉ (s.notify object values).watchedObjects := by
        rwa [notify_watchedObjects]
      change (s.notify object values).notified _ object = s.timer
      unfold notified
      rw [if_neg hnot, ih]

/-- The last signal decides. -/
theorem notify_active {object : Watched} {s : Daemon} (h : object ∈ s.timer.watchedObjects)
    (idle : Bool) (values : List Bool) :
    (s.notify object (idle :: values)).active =
      allObjectsAreIdle (s.timer.watchedObjects.map (Function.update s.isIdle object idle)) := by
  have hmem : object ∈ (s.notify object values).watchedObjects := by
    rwa [notify_watchedObjects]
  change ((s.notify object values).notified _ object).active = _
  unfold notified
  rw [if_pos hmem]
  unfold onIdleChanged
  rw [notify_watchedObjects]

/-- After the initial check and after every signal, the timer runs if all objects are idle. -/
theorem Agrees.of_active {s s' : Daemon} (h : s.Agrees)
    (hactive : s'.timer.active = allObjectsAreIdle (s'.timer.watchedObjects.map s'.isIdle))
    (htimeout : ∀ values, .timeout values ∈ s'.records → .timeout values ∈ s.records) :
    s'.Agrees := by
  rw [Bool.eq_iff_iff, allObjectsAreIdle_map_iff] at hactive
  refine ⟨hactive.mp, ?_, fun values hmem => h.timeout values (htimeout values hmem)⟩
  intro _ hidle hnot
  rw [hactive.mpr hidle] at hnot
  cases hnot

theorem timeout_of_record {object : Watched} {values idles : List Bool} {s : Daemon}
    (h : .timeout idles ∈ s.record object values) : .timeout idles ∈ s.records := by
  unfold record at h
  simpa using h

/-- The timeouts were emitted before, if an object changes. -/
theorem timeout_of_record_eq {s s' : Daemon} {object : Watched} {changed : List Bool}
    (hrecords : s'.records = s.record object changed) (idles : List Bool)
    (hmem : .timeout idles ∈ s'.records) : .timeout idles ∈ s.records := by
  rw [hrecords] at hmem
  exact timeout_of_record hmem

theorem Agrees.notify_watched {s s' : Daemon} (h : s.Agrees) {object : Watched}
    {values changed : List Bool} (hobject : object ∈ s.timer.watchedObjects)
    (htimer : s'.timer = s.notify object values) (hrecords : s'.records = s.record object changed)
    (hothers : ∀ other, other ≠ object → s'.isIdle other = s.isIdle other)
    (hlast : ∀ idle ∈ values.head?, idle = s'.isIdle object)
    (hsilent : values = [] → changed = [] ∧ s'.isIdle object = s.isIdle object) : s'.Agrees := by
  have htimeouts := timeout_of_record_eq hrecords
  cases values with
  | nil =>
      obtain ⟨rfl, hsame⟩ := hsilent rfl
      have hidle (other : Watched) : s'.isIdle other = s.isIdle other := by
        by_cases hother : other = object
        · rw [hother, hsame]
        · exact hothers other hother
      rw [notify_nil] at htimer
      have hrecords' : s'.records = s.records := hrecords
      refine ⟨?_, ?_, fun idles hmem => h.timeout idles (htimeouts idles hmem)⟩
      · simpa [htimer, hidle] using h.active
      · simpa [htimer, hidle, Expired, hrecords'] using h.expired
  | cons idle values =>
      apply h.of_active _ htimeouts
      obtain rfl := hlast idle rfl
      have hupdate : Function.update s.isIdle object (s'.isIdle object) = s'.isIdle := by
        funext other
        by_cases hother : other = object
        · rw [hother, Function.update_self]
        · rw [Function.update_of_ne hother, hothers other hother]
      rw [htimer, notify_active hobject, hupdate, notify_watchedObjects]

/-- The changes of an object that is not watched do not matter. -/
theorem Agrees.notify_unwatched {s s' : Daemon} (h : s.Agrees) {object : Watched}
    {values changed : List Bool} (hobject : object ∉ s.timer.watchedObjects)
    (htimer : s'.timer = s.notify object values) (hrecords : s'.records = s.record object changed)
    (hothers : ∀ other, other ≠ object → s'.isIdle other = s.isIdle other) : s'.Agrees := by
  rw [notify_of_not_mem hobject] at htimer
  have hidle (other : Watched) (hother : other ∈ s.timer.watchedObjects) :
      s'.isIdle other = s.isIdle other := by
    apply hothers
    rintro rfl
    exact hobject hother
  refine ⟨?_, ?_, fun idles hmem => h.timeout idles (timeout_of_record_eq hrecords idles hmem)⟩
  · rw [htimer]
    intro hactive other hother
    rw [hidle other hother]
    exact h.active hactive other hother
  · rw [htimer]
    intro hne hall hnot
    obtain ⟨later, idles, earlier, hsplit, hlater⟩ := h.expired hne
      (fun other hother => (hidle other hother).symm.trans (hall other hother)) hnot
    refine ⟨changed.map (.changed object) ++ later, idles, earlier, ?_, ?_⟩
    · rw [hrecords, record, hsplit, List.append_assoc]
    · rw [htimer]
      intro other hother idle hmem
      rcases List.mem_append.mp hmem with hnew | hold
      · simp only [List.mem_map, Record.changed.injEq] at hnew
        obtain ⟨_, -, rfl, -⟩ := hnew
        exact hobject hother
      · exact hlater other hother idle hold

theorem Agrees.notify {s s' : Daemon} (h : s.Agrees) {object : Watched}
    {values changed : List Bool} (htimer : s'.timer = s.notify object values)
    (hrecords : s'.records = s.record object changed)
    (hothers : ∀ other, other ≠ object → s'.isIdle other = s.isIdle other)
    (hlast : ∀ idle ∈ values.head?, idle = s'.isIdle object)
    (hsilent : values = [] → changed = [] ∧ s'.isIdle object = s.isIdle object) : s'.Agrees := by
  by_cases hobject : object ∈ s.timer.watchedObjects
  · exact h.notify_watched hobject htimer hrecords hothers hlast hsilent
  · exact h.notify_unwatched hobject htimer hrecords hothers

/-! ### Events -/

theorem newer_append {α : Type*} (l l' : List α) : newer (l ++ l') l' = l := by
  unfold newer
  rw [List.length_append, Nat.add_sub_cancel, List.take_left]

variable {env : ProxyId → Environment}

theorem Agrees.requestManager {s : Daemon} (h : s.Agrees)
    (hs : Reachable (Service.machine env) (fun _ _ => True) s.service) {e : OnlineAccounts.Event}
    {service : Service} (hrun : s.service.step env e = .ok service) :
    Agrees { s with
      service := service
      timer := s.notify .requestManager (signals (newer service.log s.service.log))
      records := s.record .requestManager (newer (changes service.log) (changes s.service.log)) } := by
  obtain ⟨hi, hsettled⟩ := Service.reachable_inv hs
  have hs' : Reachable (Service.machine env) (fun _ _ => True) service := .step hs trivial hrun
  have htold := Service.reachable_told hs
  have htold' := Service.reachable_told hs'
  have hsignals := Service.reachable_signals hs
  have hsignals' := Service.reachable_signals hs'
  obtain ⟨es, hlog⟩ := Service.step_log hi hsettled hrun
  unfold Service.Told at htold htold'
  refine h.notify rfl rfl ?_ ?_ ?_
  · intro other hother
    cases other with
    | requestManager => exact absurd rfl hother
    | indicatorService | other => rfl
  · rw [hlog, newer_append]
    intro idle hidle
    change idle = service.isIdle
    rw [← htold', hlog, told_append, List.headD_eq_head?_getD, Option.mem_def.mp hidle]
    rfl
  · rw [hlog, newer_append]
    intro hnone
    have hsame : told (es ++ s.service.log) = told s.service.log := by
      rw [told_append, hnone]
      rfl
    refine ⟨?_, ?_⟩
    · have hprompt := hsignals'.prompt
      have hidle := hsignals'.idleIn
      rw [hlog] at hprompt hidle htold'
      rw [changes_of_no_signals hprompt hnone (htold.trans hsignals.idleIn.symm)
        (htold'.trans hidle.symm)]
      exact newer_append [] _
    · change service.isIdle = s.service.isIdle
      rw [← htold', ← htold, hlog, hsame]

theorem Agrees.indicatorService {s : Daemon} (h : s.Agrees) (hs : s.indicatorService.Told)
    (e : SignOnUi.IndicatorService.Event) :
    Agrees { s with
      indicatorService := s.indicatorService.step e
      timer := s.notify .indicatorService (SignOnUi.IndicatorService.signals
        (newer (s.indicatorService.step e).log s.indicatorService.log))
      records := s.record .indicatorService
        (if (s.indicatorService.step e).isIdle = s.indicatorService.isIdle then []
          else [(s.indicatorService.step e).isIdle]) } := by
  obtain ⟨es, hlog⟩ := s.indicatorService.step_log e
  have htold : SignOnUi.IndicatorService.told (s.indicatorService.step e).log =
      (s.indicatorService.step e).isIdle := hs.step e
  rw [hlog, SignOnUi.IndicatorService.told_append] at htold
  refine h.notify rfl rfl ?_ ?_ ?_
  · intro other hother
    cases other with
    | indicatorService => exact absurd rfl hother
    | requestManager | other => rfl
  · rw [hlog, newer_append]
    intro idle hidle
    change idle = (s.indicatorService.step e).isIdle
    rw [← htold, List.headD_eq_head?_getD, Option.mem_def.mp hidle]
    rfl
  · rw [hlog, newer_append]
    intro hnone
    rw [hnone] at htold
    have hsame : (s.indicatorService.step e).isIdle = s.indicatorService.isIdle :=
      htold.symm.trans hs
    exact ⟨if_pos hsame, hsame⟩

theorem Agrees.other {s : Daemon} (h : s.Agrees) (i : ℕ) (idle : Bool) :
    Agrees { s with
      others := Function.update s.others i idle
      timer := s.notify (.other i) [idle]
      records := s.record (.other i) (if idle = s.others i then [] else [idle]) } := by
  refine h.notify rfl rfl ?_ ?_ ?_
  · intro other hother
    cases other with
    | requestManager | indicatorService => rfl
    | other j =>
        have hne : j ≠ i := by
          rintro rfl
          exact hother rfl
        exact Function.update_of_ne hne _ _
  · intro value hvalue
    obtain rfl : idle = value := by simpa using hvalue
    exact (Function.update_self i idle s.others).symm
  · intro hnone
    cases hnone

end Daemon

end OnlineAccounts
