import OnlineAccounts.Transition
import OnlineAccounts.Variant

/-! # The indicator service

`IndicatorService` (`indicator-service.cpp`) records the accounts that could not be
authenticated, and replays their failed authentications on request: `ReauthenticateAccount` makes
a `Reauthenticator` (`reauthenticator.cpp`), which starts a session for each of them and emits
`finished(success)` when the last one has signalled.  The signal is queued; the slot
`onReauthenticatorFinished` then answers the call.

The state keeps the reauthenticators and the queued signals beside the members of the class.  An
`Event` is a call on the bus, a signal of a session, or the delivery of the next queued signal, in
any order.  Calls are numbered in the order of their arrival, which tells their messages apart.
`log` has what can be seen from the outside, newest first. -/

namespace OnlineAccounts.SignOnUi

structure AuthData where
  sessionData : QVariantMap
  identity : ℕ
  method : String
  mechanism : String
deriving DecidableEq

abbrev ReauthenticatorId := ℕ

/-! ### The reauthenticator -/

structure Reauthenticator where
  clientData : List AuthData := []
  extraParameters : QVariantMap := .nil
  errorCount : ℕ := 0
  responseCount : ℕ := 0
  /-- The data and the mechanism that were given to the sessions which have not signalled yet. -/
  sessions : List (QVariantMap × String) := []

namespace Reauthenticator

/-- The session data with the extra parameters. -/
def addParameters (sessionData extraParameters : QVariantMap) : QVariantMap :=
  extraParameters.entries.foldl (fun data e => data.insert e.1 e.2) sessionData

/-- The loop of `start()`, where `createSession` tells at which indices there is a session. -/
def startSessions (createSession : ℕ → Bool) (reauthenticator : Reauthenticator) :
    List (AuthData × ℕ) → Reauthenticator
  | [] => reauthenticator
  | (authData, i) :: clientData =>
      if createSession i then
        startSessions createSession
          { reauthenticator with
            sessions := reauthenticator.sessions ++
              [(addParameters authData.sessionData reauthenticator.extraParameters,
                authData.mechanism)] } clientData
      else
        startSessions createSession
          { reauthenticator with errorCount := reauthenticator.errorCount + 1 } clientData

/-- The constructor and `start()`, up to `checkFinished()`. -/
def start (createSession : ℕ → Bool) (clientData : List AuthData) (extraParameters : QVariantMap) :
    Reauthenticator :=
  startSessions createSession { clientData := clientData, extraParameters := extraParameters }
    clientData.zipIdx

/-- `checkFinished()`: the argument of `finished` if it is emitted. -/
def checkFinished (reauthenticator : Reauthenticator) : Option Bool :=
  if reauthenticator.errorCount + reauthenticator.responseCount <
      reauthenticator.clientData.length then none
  else some (reauthenticator.errorCount == 0)

/-- `onError` or `onResponse`, for the session at index `i`. -/
def onSignal (i : ℕ) (error : Bool) (reauthenticator : Reauthenticator) : Reauthenticator :=
  let reauthenticator :=
    { reauthenticator with sessions := reauthenticator.sessions.eraseIdx i }
  if error then { reauthenticator with errorCount := reauthenticator.errorCount + 1 }
  else { reauthenticator with responseCount := reauthenticator.responseCount + 1 }

end Reauthenticator

/-! ### The service -/

namespace IndicatorService

/-- A property of the D-Bus object, with its value. -/
inductive Property where
  | failures (failures : Finset ℕ)
  | errorStatus (errorStatus : Bool)
deriving DecidableEq

/-- What the log records. -/
inductive Emission where
  /-- A reauthenticator was started for a call, whose reply is delayed. -/
  | started (message accountId : ℕ) (r : ReauthenticatorId)
  /-- A call returned at once. -/
  | returned (message : ℕ) (reauthenticated : Bool)
  /-- A delayed reply, to `m_clientMessage`. -/
  | replied (message : Option ℕ) (reauthenticated : Bool)
  | propertyChanged (property : Property)
  | notification (summary message : String)
  /-- `isIdleChanged()`, with the value of `isIdle()` at that moment. -/
  | isIdleChanged (idle : Bool)
deriving DecidableEq

end IndicatorService

open IndicatorService in
structure IndicatorService where
  failures : Finset ℕ := ∅
  failureClientData : Std.TreeMap ℕ (List AuthData) := ∅
  reauthenticators : Std.TreeMap ℕ ReauthenticatorId := ∅
  /-- `m_clientMessage`: the call whose message it is. -/
  clientMessage : Option ℕ := none
  errorStatus : Bool := false
  objects : ReauthenticatorId → Reauthenticator := fun _ => {}
  nextReauthenticator : ReauthenticatorId := 0
  nextMessage : ℕ := 0
  /-- The signals `finished(success)` that have not been delivered yet. -/
  queued : List (ReauthenticatorId × Bool) := []
  log : List Emission := []

namespace IndicatorService

open Transition

inductive Event where
  | clearErrorStatus
  | removeFailures (accountIds : Finset ℕ)
  | reportFailure (accountId : ℕ) (notification : QVariantMap)
  /-- A call of `ReauthenticateAccount`, and which sessions can be created. -/
  | reauthenticateAccount (accountId : ℕ) (extraParameters : QVariantMap) (createSession : ℕ → Bool)
  /-- A session of a reauthenticator signals an error or a response. -/
  | signal (r : ReauthenticatorId) (i : ℕ) (error : Bool)
  /-- The next queued signal is delivered. -/
  | finished

@[simps] def emit (e : Emission) (s : IndicatorService) : IndicatorService :=
  { s with log := e :: s.log }

def isIdle (s : IndicatorService) : Bool := decide (s.failures = ∅)

def isIdleChanged (s : IndicatorService) : IndicatorService := s.emit (.isIdleChanged s.isIdle)

/-! ### Failures -/

def clearErrorStatus (s : IndicatorService) : IndicatorService :=
  if s.errorStatus then
    { s with errorStatus := false }.emit (.propertyChanged (.errorStatus false))
  else s

def removeFailures (accountIds : Finset ℕ) (s : IndicatorService) : IndicatorService :=
  let failures := s.failures \ accountIds
  let s := { s with failures := failures }.emit (.propertyChanged (.failures failures))
  if s.isIdle then s.isIdleChanged else s

/-- `showNotification(parameters)`: one notification until the error status is cleared. -/
def showNotification (parameters : QVariantMap) (s : IndicatorService) : IndicatorService :=
  if s.errorStatus then s
  else
    let applicationName := (parameters.value "DisplayName").toString
    let summary :=
      if applicationName = "" then
        "Applications can no longer access some of your Online Accounts"
      else "Applications can no longer access your " ++ applicationName ++ " Online Account"
    ({ s with errorStatus := true }.emit (.propertyChanged (.errorStatus true))).emit
      (.notification summary ("Choose <b>Online Accounts</b> from the user " ++
        "menu to reinstate access to this account."))

/-- The authentication that failed, from the parameters of `ReportFailure`. -/
def authData (notification : QVariantMap) : AuthData where
  sessionData := (notification.value "ClientData").toMap
  identity := (notification.value "Identity").toUInt
  method := (notification.value "Method").toString
  mechanism := (notification.value "Mechanism").toString

/-- `ReportFailure`: the authentication is remembered if there is client data. -/
def reportFailure (accountId : ℕ) (notification : QVariantMap) (s : IndicatorService) :
    IndicatorService :=
  let wasIdle := s.isIdle
  let s := { s with failures := insert accountId s.failures }
  let s := if wasIdle then s.isIdleChanged else s
  let s :=
    if notification.contains "ClientData" then
      { s with
        failureClientData := s.failureClientData.insert accountId
          (s.failureClientData[accountId]?.getD [] ++ [authData notification]) }
    else s
  (s.emit (.propertyChanged (.failures s.failures))).showNotification notification

/-! ### Reauthentication -/

/-- `checkFinished()` of reauthenticator `r`, whose signal is queued. -/
def checkFinished (r : ReauthenticatorId) (s : IndicatorService) : IndicatorService :=
  match (s.objects r).checkFinished with
  | none => s
  | some success => { s with queued := s.queued ++ [(r, success)] }

/-- A call of `ReauthenticateAccount` with this account starts a reauthenticator. -/
def Starts (s : IndicatorService) (accountId : ℕ) : Prop :=
  accountId ∈ s.failureClientData ∧ accountId ∉ s.reauthenticators

instance (s : IndicatorService) (accountId : ℕ) : Decidable (s.Starts accountId) :=
  inferInstanceAs (Decidable (_ ∧ _))

def reauthenticateAccount (accountId : ℕ) (extraParameters : QVariantMap)
    (createSession : ℕ → Bool) (s : IndicatorService) : IndicatorService :=
  let message := s.nextMessage
  let s := { s with nextMessage := message + 1 }
  if accountId ∉ s.failureClientData then s.emit (.returned message false)
  else if accountId ∈ s.reauthenticators then s.emit (.returned message false)
  else
    let r := s.nextReauthenticator
    let failedAuthentications := s.failureClientData[accountId]?.getD []
    let s := { s with
      clientMessage := some message
      reauthenticators := s.reauthenticators.insert accountId r
      objects := Function.update s.objects r
        (Reauthenticator.start createSession failedAuthentications extraParameters)
      nextReauthenticator := r + 1 }
    (s.emit (.started message accountId r)).checkFinished r

/-- `onError` or `onResponse` of a session of reauthenticator `r`. -/
def onSignal (r : ReauthenticatorId) (i : ℕ) (error : Bool) (s : IndicatorService) :
    IndicatorService :=
  { s with objects := Function.update s.objects r ((s.objects r).onSignal i error) }.checkFinished r

/-- The account of a reauthenticator, by a search of the map. -/
def accountOf (r : ReauthenticatorId) (s : IndicatorService) : ℕ :=
  match s.reauthenticators.toList.find? fun entry => entry.2 == r with
  | none => 0
  | some entry => entry.1

/-- What `onReauthenticatorFinished(true)` does to the records of the account. -/
def onSuccess (accountId : ℕ) (s : IndicatorService) : IndicatorService :=
  let s := { s with
    failureClientData := s.failureClientData.erase accountId
    failures := s.failures.erase accountId }
  let s := s.emit (.propertyChanged (.failures s.failures))
  if s.failures = ∅ then s.clearErrorStatus.isIdleChanged else s

/-- `onReauthenticatorFinished(success)`, for sender `r`. -/
def onReauthenticatorFinished (r : ReauthenticatorId) (success : Bool) (s : IndicatorService) :
    IndicatorService :=
  let accountId := s.accountOf r
  let s := s.emit (.replied s.clientMessage success)
  let s := if success then s.onSuccess accountId else s
  { s with reauthenticators := s.reauthenticators.erase accountId }

/-- One event.  An event that cannot happen in a state changes nothing. -/
def step (s : IndicatorService) : Event → IndicatorService
  | .clearErrorStatus => s.clearErrorStatus
  | .removeFailures accountIds => s.removeFailures accountIds
  | .reportFailure accountId notification => s.reportFailure accountId notification
  | .reauthenticateAccount accountId extraParameters createSession =>
      s.reauthenticateAccount accountId extraParameters createSession
  | .signal r i error => if i < (s.objects r).sessions.length then s.onSignal r i error else s
  | .finished => match s.queued with
    | [] => s
    | (r, success) :: queued => { s with queued := queued }.onReauthenticatorFinished r success

/-- The service at its start; no event faults. -/
def machine : Machine IndicatorService Event Empty where
  start := {}
  step s e := .ok (s.step e)

end IndicatorService

end OnlineAccounts.SignOnUi
