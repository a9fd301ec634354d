import OnlineAccounts.Accounts
import Std.Data.TreeMap

/-! # Requests and the proxy of a UI process

`Request` (`online-accounts-service/request.cpp`) is a D-Bus call waiting for its reply, and
`UiProxy` (`ui-proxy.cpp`) hands requests to one UI process over a local socket.  Objects are
referred to by numbers (`RequestId`), which stand for the pointers of the source.

The methods here are those that stay within one object.  Replies and the signal `completed()`
reach other objects, so they are in `RequestManager.lean`; a proxy method that may emit
`finished()` returns whether it does.

What the proxy finds outside of the program is in its `Environment`: the platform, the prompt
session, whether the socket can be set up and the process started, and the accounts.  Request
ids count up from `0` and are below `2 ^ 31` for any number of requests that a proxy sees. -/

namespace OnlineAccounts

open Accounts

abbrev RequestId := ℕ

/-- A request: the D-Bus message it came with, and how far it has got. -/
structure Request where
  interface : String
  parameters : QVariantMap := .nil
  clientApparmorProfile : String := ""
  inProgress : Bool := false
  delay : ℤ := 0
deriving DecidableEq

namespace Request

def windowId (r : Request) : ℕ := (r.parameters.value OAU_KEY_WINDOW_ID).toUInt

def clientPid (r : Request) : ℕ :=
  if r.interface = OAU_INTERFACE then (r.parameters.value OAU_KEY_PID).toUInt
  else if r.interface = SIGNONUI_INTERFACE then
    let clientData := (r.parameters.value SSOUI_KEY_CLIENT_DATA).toMap
    if r.clientApparmorProfile = "unconfined" ∧ clientData.contains "requestorPid" then
      (clientData.value "requestorPid").toUInt
    else (r.parameters.value SSOUI_KEY_PID).toUInt
  else 0

def providerId (manager : Manager) (r : Request) : String :=
  if r.interface = OAU_INTERFACE then
    let providerId := (r.parameters.value OAU_KEY_PROVIDER).toString
    if providerId = "" ∧ r.parameters.contains OAU_KEY_SERVICE_ID then
      let serviceId := (r.parameters.value OAU_KEY_SERVICE_ID).toString
      match manager.service serviceId with
      | some service => service.provider
      | none => providerId
    else providerId
  else ""

end Request

/-- What a request is answered with on the bus. -/
inductive Reply where
  | result (data : QVariantMap)
  | error (name message : String)
deriving DecidableEq

/-- The operations exchanged with the UI process, by their code. -/
inductive Operation where
  | process (id : ℤ) (data : QVariantMap) (interface clientProfile : String)
  | finished (id : ℤ) (data : QVariantMap) (delay : ℤ) (interface : String)
  | failed (id : ℤ) (interface errorName errorMessage : String)
  | newHandler (handlerId : String)
  | other (code : String)
deriving DecidableEq

/-- What a proxy finds outside of the program. -/
structure Environment where
  /-- `QT_QPA_PLATFORM` -/
  platform : String := ""
  /-- The socket of the prompt session for the client, if one can be created. -/
  promptSession : Option String := none
  /-- Whether the server can listen on its socket, and the full name of it. -/
  listens : Bool := true
  serverName : String := ""
  runtimeDir : String := ""
  installBinDir : String := ""
  /-- `OAU_WRAPPER` -/
  wrapper : String := ""
  /-- Whether the process can be started. -/
  starts : Bool := true
  accounts : Manager := {}

inductive Status where
  | null | ready | loading | error
deriving DecidableEq

/-- The socket to the UI process. -/
inductive Socket where
  | none | connected | disconnected
deriving DecidableEq

/-- The UI process. -/
inductive Process where
  | notStarted | failedToStart | running | exited
deriving DecidableEq

structure UiProxy where
  clientPid : ℕ
  status : Status := .null
  listening : Bool := false
  socket : Socket := .none
  /-- The operations written to the socket, in order. -/
  sent : List Operation := []
  /-- The interval of the finished timer while it is active. -/
  finishedTimer : Option ℤ := none
  nextRequestId : ℤ := 0
  requests : Std.TreeMap ℤ RequestId := ∅
  handlers : List String := []
  providerId : String := ""
  promptSession : Bool := false
  process : Process := .notStarted
  program : String := ""
  arguments : List String := []
  environment : List (String × String) := []

namespace UiProxy

variable (env : Environment)

/-! ### Starting the UI process -/

def setupPromptSession (proxy : UiProxy) : UiProxy × Bool :=
  if proxy.clientPid = 0 then (proxy, false)
  else match env.promptSession with
    | none => (proxy, false)
    | some mirSocket =>
        if mirSocket = "" then (proxy, false)
        else ({ proxy with
                promptSession := true
                environment := proxy.environment ++ [("MIR_SOCKET", mirSocket)] }, true)

/-- `init()`: the proxy, and whether it can be used. -/
def init (proxy : UiProxy) : UiProxy × Bool :=
  if "ubuntu".toList.isPrefixOf env.platform.toList then setupPromptSession env proxy
  else ({ proxy with
          environment := proxy.environment ++ [("DESKTOP_FILE_HINT", "online-accounts-ui")] }, true)

/-- `findAppArmorProfile()`, for the accounts and the provider id of a proxy. -/
def findAppArmorProfile (manager : Manager) (providerId : String) : String :=
  if providerId = "" then ""
  else match manager.provider providerId with
    | none => ""
    | some provider => provider.domDocument.root.childText "profile"

def startProcess (proxy : UiProxy) : UiProxy :=
  if env.listens then
    let found := findAppArmorProfile env.accounts proxy.providerId
    let profile := if found = "" then "unconfined" else found
    let arguments := proxy.arguments ++ ["--socket", env.serverName, "--profile", profile]
    let accountsUi := env.installBinDir ++ "/online-accounts-ui"
    { proxy with
      listening := true
      environment := proxy.environment ++ (if found = "" then [] else
        [("APP_ID", profile),
          ("TMPDIR", env.runtimeDir ++ "/" ++ (split '_' profile).headD "")])
      program := if env.wrapper = "" then accountsUi else env.wrapper
      arguments := if env.wrapper = "" then arguments else accountsUi :: arguments
      status := if env.starts then .loading else .error
      process := if env.starts then .running else .failedToStart }
  else { proxy with status := .error }

/-! ### Requests -/

/-- The operation that asks the UI process to process a request. -/
def processOperation (requestId : ℤ) (request : Request) : Operation :=
  .process requestId request.parameters request.interface request.clientApparmorProfile

/-- `sendRequest(requestId, request)`. -/
def sendRequest (requestId : ℤ) (request : Request) (proxy : UiProxy) : UiProxy :=
  { proxy with sent := proxy.sent ++ [processOperation requestId request] }

/-- `handleRequest(request)`, for the request object `r`; the caller marks the request as in
progress and connects its `completed()` to the proxy. -/
def handleRequest (r : RequestId) (request : Request) (proxy : UiProxy) : UiProxy :=
  let requestId := proxy.nextRequestId
  let proxy := { proxy with
    providerId := if proxy.providerId = "" then request.providerId env.accounts else proxy.providerId
    nextRequestId := requestId + 1
    requests := proxy.requests.insert requestId r }
  match proxy.status with
  | .ready => proxy.sendRequest requestId request
  | .null => proxy.startProcess env
  | _ => proxy

/-- `m_requests.key(request, -1)`, for the requests of a proxy. -/
def key (r : RequestId) (proxy : UiProxy) : Option ℤ :=
  (proxy.requests.toList.find? fun e => e.2 = r).map Prod.fst

/-- `onRequestCompleted()`, for the completed request `r` with its delay. -/
def onRequestCompleted (r : RequestId) (delay : ℤ) (proxy : UiProxy) : UiProxy :=
  { proxy with
    finishedTimer := some delay
    requests := match proxy.key r with
      | some id => proxy.requests.erase id
      | none => proxy.requests }

/-- `hasHandlerFor(parameters)`. -/
def hasHandlerFor (parameters : QVariantMap) (proxy : UiProxy) : Bool :=
  if parameters.contains SSOUI_KEY_CLIENT_DATA then
    let clientData := (parameters.value SSOUI_KEY_CLIENT_DATA).toMap
    let matchId := (clientData.value OAU_REQUEST_MATCH_KEY).toString
    if matchId = "" then false else proxy.handlers.contains matchId
  else false

def registerHandler (handlerId : String) (proxy : UiProxy) : UiProxy :=
  { proxy with handlers := proxy.handlers ++ [handlerId] }

/-! ### The socket and the timer -/

/-- `onNewConnection()`: the pending requests are sent in the order of their ids. -/
def onNewConnection (request : RequestId → Request) (proxy : UiProxy) : UiProxy :=
  if proxy.socket = .none then
    proxy.requests.toList.foldl (fun proxy e => proxy.sendRequest e.1 (request e.2))
      { proxy with socket := .connected, listening := false, status := .ready }
  else proxy

/-- `onDisconnected()`: the proxy has finished unless the timer is going to say so. -/
def onDisconnected (proxy : UiProxy) : UiProxy × Bool :=
  ({ proxy with socket := .disconnected }, proxy.finishedTimer.isNone)

/-- The finished timer expires. -/
def onFinishedTimer (proxy : UiProxy) : UiProxy × Bool :=
  ({ proxy with finishedTimer := none }, proxy.requests.isEmpty)

/-! ### What the methods leave alone -/

theorem init_eq (proxy : UiProxy) : ∃ promptSession environment, (proxy.init env).1 =
    { proxy with promptSession := promptSession, environment := environment } := by
  unfold init setupPromptSession
  split_ifs
  · exact ⟨_, _, rfl⟩
  · cases env.promptSession with
    | none => exact ⟨_, _, rfl⟩
    | some mirSocket =>
        simp only
        split_ifs <;> exact ⟨_, _, rfl⟩
  · exact ⟨_, _, rfl⟩

@[simp] theorem sendRequest_requests (requestId : ℤ) (request : Request) (proxy : UiProxy) :
    (proxy.sendRequest requestId request).requests = proxy.requests := rfl

@[simp] theorem startProcess_requests (proxy : UiProxy) :
    (proxy.startProcess env).requests = proxy.requests := by
  unfold startProcess; split_ifs <;> rfl

@[simp] theorem startProcess_providerId (proxy : UiProxy) :
    (proxy.startProcess env).providerId = proxy.providerId := by
  unfold startProcess; split_ifs <;> rfl

@[simp] theorem handleRequest_requests (r : RequestId) (request : Request) (proxy : UiProxy) :
    (proxy.handleRequest env r request).requests = proxy.requests.insert proxy.nextRequestId r := by
  unfold handleRequest; cases h : proxy.status <;> simp

@[simp] theorem handleRequest_providerId (r : RequestId) (request : Request) (proxy : UiProxy) :
    (proxy.handleRequest env r request).providerId =
      if proxy.providerId = "" then request.providerId env.accounts else proxy.providerId := by
  unfold handleRequest; cases h : proxy.status <;> simp [sendRequest]

@[simp] theorem handleRequest_nextRequestId (r : RequestId) (request : Request) (proxy : UiProxy) :
    (proxy.handleRequest env r request).nextRequestId = proxy.nextRequestId + 1 := by
  unfold handleRequest startProcess
  cases h : proxy.status <;> simp only [sendRequest]
  split_ifs <;> rfl

theorem sendAll_eq (request : RequestId → Request) (es : List (ℤ × RequestId)) (proxy : UiProxy) :
    es.foldl (fun proxy e => proxy.sendRequest e.1 (request e.2)) proxy =
      { proxy with sent := proxy.sent ++ es.map fun e => processOperation e.1 (request e.2) } := by
  induction es generalizing proxy with
  | nil => simp
  | cons e es ih =>
      rw [List.foldl_cons, ih]
      simp [sendRequest]

/-! ### The registered requests -/

/-- The request is registered in `m_requests`. -/
def Holds (proxy : UiProxy) (r : RequestId) : Prop := ∃ id : ℤ, proxy.requests[id]? = some r

/-- The ids that are given out are used up, and no request is registered twice. -/
structure Valid (proxy : UiProxy) : Prop where
  fresh : ∀ (id : ℤ) (r : RequestId), proxy.requests[id]? = some r → id < proxy.nextRequestId
  injective : ∀ (id id' : ℤ) (r : RequestId),
    proxy.requests[id]? = some r → proxy.requests[id']? = some r → id = id'

theorem holds_iff_mem_toList (proxy : UiProxy) (r : RequestId) :
    proxy.Holds r ↔ r ∈ proxy.requests.toList.map Prod.snd := by
  simp [Holds, Std.TreeMap.mem_toList_iff_getElem?_eq_some]

theorem key_eq_some {proxy : UiProxy} {r : RequestId} {id : ℤ} (h : proxy.key r = some id) :
    proxy.requests[id]? = some r := by
  unfold key at h
  obtain ⟨e, he, rfl⟩ := Option.map_eq_some_iff.mp h
  have hr : e.2 = r := by simpa using List.find?_some he
  have hm := Std.TreeMap.mem_toList_iff_getElem?_eq_some.mp (List.mem_of_find?_eq_some he)
  rw [hm, hr]

theorem key_eq_none {proxy : UiProxy} {r : RequestId} (h : proxy.key r = none) :
    ¬ proxy.Holds r := by
  rintro ⟨id, hid⟩
  unfold key at h
  rw [Option.map_eq_none_iff, List.find?_eq_none] at h
  have := h (id, r) (Std.TreeMap.mem_toList_iff_getElem?_eq_some.mpr hid)
  simp at this

theorem Valid.fresh_none {proxy : UiProxy} (h : proxy.Valid) :
    proxy.requests[proxy.nextRequestId]? = none := by
  cases hr : proxy.requests[proxy.nextRequestId]? with
  | none => rfl
  | some r => exact absurd (h.fresh _ _ hr) (lt_irrefl _)

theorem holds_handleRequest {proxy : UiProxy} (h : proxy.Valid) (r q : RequestId)
    (request : Request) :
    (proxy.handleRequest env r request).Holds q ↔ q = r ∨ proxy.Holds q := by
  have hnone := h.fresh_none
  simp only [Holds, handleRequest_requests, Std.TreeMap.getElem?_insert, compare_eq_iff_eq]
  constructor
  · rintro ⟨id, hid⟩
    split_ifs at hid with he
    · exact .inl (Option.some.inj hid).symm
    · exact .inr ⟨id, hid⟩
  · rintro (rfl | ⟨id, hid⟩)
    · exact ⟨proxy.nextRequestId, by simp⟩
    · refine ⟨id, ?_⟩
      rw [if_neg, hid]
      rintro rfl
      simp [hnone] at hid

theorem Valid.handleRequest {proxy : UiProxy} (h : proxy.Valid) {r : RequestId}
    (hr : ¬ proxy.Holds r) (request : Request) : (proxy.handleRequest env r request).Valid := by
  constructor
  · intro id q hid
    rw [handleRequest_requests, Std.TreeMap.getElem?_insert] at hid
    rw [handleRequest_nextRequestId]
    split_ifs at hid with he
    · rw [compare_eq_iff_eq] at he
      omega
    · have := h.fresh id q hid
      omega
  · intro id id' q hid hid'
    rw [handleRequest_requests, Std.TreeMap.getElem?_insert] at hid hid'
    simp only [compare_eq_iff_eq] at hid hid'
    split_ifs at hid hid' with he he' he'
    · exact he.symm.trans he'
    · obtain rfl := Option.some.inj hid
      exact absurd ⟨id', hid'⟩ hr
    · obtain rfl := Option.some.inj hid'
      exact absurd ⟨id, hid⟩ hr
    · exact h.injective id id' q hid hid'

theorem holds_onRequestCompleted {proxy : UiProxy} (h : proxy.Valid) (r q : RequestId)
    (delay : ℤ) : (proxy.onRequestCompleted r delay).Holds q ↔ q ≠ r ∧ proxy.Holds q := by
  unfold onRequestCompleted
  cases hk : proxy.key r with
  | none =>
      have hr := key_eq_none hk
      exact ⟨fun hq => ⟨fun he => hr (he ▸ hq), hq⟩, And.right⟩
  | some k =>
      have hkr := key_eq_some hk
      simp only [Holds, Std.TreeMap.getElem?_erase, compare_eq_iff_eq]
      constructor
      · rintro ⟨id, hid⟩
        split_ifs at hid with he
        refine ⟨?_, id, hid⟩
        rintro rfl
        exact he (h.injective k id q hkr hid)
      · rintro ⟨hne, id, hid⟩
        refine ⟨id, ?_⟩
        rw [if_neg, hid]
        rintro rfl
        exact hne (Option.some.inj (hid.symm.trans hkr))

/-- A completion registers nothing. -/
theorem requests_onRequestCompleted (proxy : UiProxy) (r : RequestId) (delay : ℤ) (id : ℤ)
    (q : RequestId) (h : (proxy.onRequestCompleted r delay).requests[id]? = some q) :
    proxy.requests[id]? = some q := by
  unfold onRequestCompleted at h
  cases hk : proxy.key r with
  | none => simpa [hk] using h
  | some k =>
      simp only [hk, Std.TreeMap.getElem?_erase] at h
      split_ifs at h
      exact h

theorem Valid.onRequestCompleted {proxy : UiProxy} (h : proxy.Valid) (r : RequestId) (delay : ℤ) :
    (proxy.onRequestCompleted r delay).Valid := by
  have hsub := requests_onRequestCompleted proxy r delay
  exact ⟨fun id q hid => h.fresh id q (hsub id q hid),
    fun id id' q hid hid' => h.injective id id' q (hsub id q hid) (hsub id' q hid')⟩

end UiProxy

end OnlineAccounts
