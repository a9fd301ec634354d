import OnlineAccounts.Transition
import OnlineAccounts.UiProxy

/-! # The request manager and its proxies

`RequestManager` (`request-manager.cpp`) keeps a queue of requests for each window, and runs the
head of each queue in a new `UiProxy`; a request for which an existing proxy has registered a
handler goes straight to that proxy.  `Request` and `UiProxy` are in `UiProxy.lean`; what is
here is the state that they share (`Service`), and all that reaches from one object to another.

`completed()` calls the slots that are connected to a request in the order in which they were
connected.  The slot of the manager dequeues the request and starts the next one, which may
fail and complete within the same call; so `completed` and `runQueue` call each other.  The
recursion is opened (`run`) and closed with the length of the queue as a bound, which is never
used up (`runQueue_spec`).

An `Event` is what the event loop delivers: calls on the bus, what happens to the sockets,
processes and timers of the proxies, and deferred deletions, in any order.  The code faults
where it takes the head of an empty queue or answers a request that is not there.  `log` records
what can be seen from the outside, newest first.  A proxy whose `init` fails is never used again
and is left out. -/

namespace OnlineAccounts

abbrev ProxyId := ℕ

/-- A slot that is connected to the signal `completed()` of a request. -/
inductive Slot where
  | manager
  | deleteLater
  | proxy (p : ProxyId)
deriving DecidableEq

/-- What the log records. -/
inductive Emission where
  /-- `enqueue` put the request into the queue of a window. -/
  | queued (r : RequestId) (windowId : ℕ)
  /-- `enqueue` gave the request to a proxy that has a handler for it. -/
  | routed (r : RequestId) (p : ProxyId)
  /-- `runQueue` gave the request to a new proxy, for the queue of a window. -/
  | handed (r : RequestId) (windowId : ℕ) (p : ProxyId)
  | replied (r : RequestId) (reply : Reply)
  | completed (r : RequestId)
  /-- `onRequestCompleted` was entered for a request that is not first in its queue. -/
  | notFirst (r : RequestId)
  /-- `isIdleChanged()`, with the value of `isIdle()` at that moment. -/
  | isIdleChanged (idle : Bool)
  | finished (p : ProxyId)
deriving DecidableEq

inductive Fault where
  | headOfEmptyQueue
  | nullRequest
  | outOfFuel
deriving DecidableEq

structure Service where
  requests : RequestId → Request := fun _ => { interface := "" }
  slots : RequestId → List Slot := fun _ => []
  allRequests : List RequestId := []
  /-- The requests that are going to be deleted. -/
  deletions : List RequestId := []
  nextRequest : RequestId := 0
  proxies : ProxyId → Option UiProxy := fun _ => none
  nextProxy : ProxyId := 0
  /-- `m_proxies` -/
  managed : List ProxyId := []
  /-- The proxies that are going to be deleted. -/
  doomed : List ProxyId := []
  /-- `m_requests` -/
  queues : Std.TreeMap ℕ (List RequestId) := ∅
  log : List Emission := []

inductive Event where
  /-- `requestAccess` or `queryDialog`. -/
  | call (interface : String) (parameters : QVariantMap) (clientApparmorProfile : String)
  | cancelUiRequest (requestId : String)
  | newConnection (p : ProxyId)
  | disconnected (p : ProxyId)
  | dataReady (p : ProxyId) (operation : Operation)
  | finishedTimer (p : ProxyId)
  | promptSessionFinished (p : ProxyId)
  | processExited (p : ProxyId)
  | deleteProxy (p : ProxyId)
  | deleteRequest (r : RequestId)

namespace Service

/-! ### Single steps on the state -/

@[simps] def emit (e : Emission) (s : Service) : Service := { s with log := e :: s.log }

@[simps] def setRequest (r : RequestId) (f : Request → Request) (s : Service) : Service :=
  { s with requests := Function.update s.requests r (f (s.requests r)) }

@[simps] def setProxy (p : ProxyId) (f : UiProxy → UiProxy) (s : Service) : Service :=
  { s with proxies := Function.update s.proxies p ((s.proxies p).map f) }

@[simps] def connect (r : RequestId) (slot : Slot) (s : Service) : Service :=
  { s with slots := Function.update s.slots r (s.slots r ++ [slot]) }

@[simps] def deleteLater (r : RequestId) (s : Service) : Service :=
  { s with deletions := s.deletions ++ [r] }

@[simps] def setQueue (w : ℕ) (queue : List RequestId) (s : Service) : Service :=
  { s with queues := s.queues.insert w queue }

def windowId (s : Service) (r : RequestId) : ℕ := (s.requests r).windowId

/-- `queueForWindowId(windowId)`: empty when there is none. -/
def queue (s : Service) (w : ℕ) : List RequestId := s.queues[w]?.getD []

def isIdle (s : Service) : Bool := s.queues.isEmpty

/-- `isIdleChanged()`. -/
def isIdleChanged (s : Service) : Service := s.emit (.isIdleChanged s.isIdle)

/-- A new request object. -/
@[simps] def newRequest (request : Request) (s : Service) : Service :=
  { s with
    requests := Function.update s.requests s.nextRequest request
    slots := Function.update s.slots s.nextRequest []
    allRequests := s.allRequests ++ [s.nextRequest]
    nextRequest := s.nextRequest + 1 }

/-- `Request::find(match)`. -/
def find (m : QVariantMap) (s : Service) : Option RequestId :=
  s.allRequests.find? fun r => mapIsSuperset (s.requests r).parameters m

/-! ### Completion -/

section

variable (run : ℕ → Service → Except Fault Service)

/-- `RequestManagerPrivate::onRequestCompleted()`, for sender `r`. -/
def onRequestCompleted (r : RequestId) (s : Service) : Except Fault Service :=
  let w := s.windowId r
  match s.queue w with
  | [] => .error .headOfEmptyQueue
  | head :: rest =>
      if r ≠ head then .ok (s.emit (.notFirst r))
      else
        let s := s.deleteLater r
        let next := if rest = [] then .ok { s with queues := s.queues.erase w }
          else run w (s.setQueue w rest)
        next.map fun s => if s.isIdle then s.isIdleChanged else s

def callSlot (r : RequestId) (s : Service) : Slot → Except Fault Service
  | .manager => s.onRequestCompleted run r
  | .deleteLater => .ok (s.deleteLater r)
  | .proxy p => .ok (s.setProxy p (·.onRequestCompleted r (s.requests r).delay))

/-- `completed()`: the slots that were connected when the signal is emitted are called. -/
def completed (r : RequestId) (s : Service) : Except Fault Service :=
  (s.slots r).foldlM (callSlot run r) (s.emit (.completed r))

def fail (r : RequestId) (name message : String) (s : Service) : Except Fault Service :=
  (s.emit (.replied r (.error name message))).completed run r

def setCanceled (r : RequestId) (s : Service) : Except Fault Service :=
  if (s.requests r).inProgress then
    (s.fail run r OAU_ERROR_USER_CANCELED "Canceled").map
      (·.setRequest r ({ · with inProgress := false }))
  else .ok s

def setResult (r : RequestId) (result : QVariantMap) (s : Service) : Except Fault Service :=
  if (s.requests r).inProgress then
    ((s.emit (.replied r (.result result))).completed run r).map
      (·.setRequest r ({ · with inProgress := false }))
  else .ok s

end

variable (env : ProxyId → Environment)

/-- `UiProxy::handleRequest(request)`, with what it does to the request. -/
def handleRequest (p : ProxyId) (r : RequestId) (s : Service) : Service :=
  ((s.setProxy p (·.handleRequest (env p) r (s.requests r))).connect r (.proxy p)).setRequest r
    ({ · with inProgress := true })

/-- The new proxy for a request, and whether its `init` succeeds. -/
def newProxy (s : Service) (r : RequestId) : UiProxy × Bool :=
  UiProxy.init (env s.nextProxy) { clientPid := (s.requests r).clientPid }

/-- `RequestManagerPrivate::runQueue(queue)`, for the queue of window `w`. -/
def runQueue : ℕ → ℕ → Service → Except Fault Service
  | 0, _, _ => .error .outOfFuel
  | fuel + 1, w, s => match s.queue w with
    | [] => .error .headOfEmptyQueue
    | r :: _ =>
        if (s.requests r).inProgress then .ok s
        else
          let s := s.connect r .manager
          let p := s.nextProxy
          let (proxy, initialised) := s.newProxy env r
          let s := { s with nextProxy := p + 1 }
          if initialised then
            let s := { s with
              proxies := Function.update s.proxies p (some proxy)
              managed := s.managed ++ [p] }
            .ok ((s.emit (.handed r w p)).handleRequest env p r)
          else s.fail (runQueue fuel) r OAU_ERROR_PROMPT_SESSION "Could not create a prompt session"

/-- `runQueue`, with enough fuel. -/
def run (w : ℕ) (s : Service) : Except Fault Service := s.runQueue env (s.queue w).length w

/-- The first proxy that has a handler for a request with these parameters. -/
def handlerFor (parameters : QVariantMap) (s : Service) : Option ProxyId :=
  s.managed.find? fun p => (s.proxies p).any (·.hasHandlerFor parameters)

/-- `RequestManagerPrivate::enqueue(request)`. -/
def enqueue (r : RequestId) (s : Service) : Except Fault Service :=
  match s.handlerFor (s.requests r).parameters with
  | some p =>
      .ok (((s.emit (.routed r p)).connect r .deleteLater).handleRequest env p r)
  | none =>
      let wasIdle := s.isIdle
      let w := s.windowId r
      let s := (s.setQueue w (s.queue w ++ [r])).emit (.queued r w)
      run env w (if wasIdle then s.isIdleChanged else s)

/-! ### The proxies -/

/-- `onProxyFinished()`, for sender `p`. -/
@[simps] def onProxyFinished (p : ProxyId) (s : Service) : Service :=
  { s.emit (.finished p) with
    managed := s.managed.erase p
    doomed := if p ∈ s.doomed then s.doomed else s.doomed ++ [p] }

/-- A method of proxy `p` that may emit `finished()`. -/
def mayFinish (p : ProxyId) (method : UiProxy → UiProxy × Bool) (proxy : UiProxy) (s : Service) :
    Service :=
  let s' := s.setProxy p fun proxy => (method proxy).1
  if (method proxy).2 then s'.onProxyFinished p else s'

/-- `UiProxyPrivate::onDataReady(data)`, for the operation in the data. -/
def onDataReady (p : ProxyId) (proxy : UiProxy) (s : Service) : Operation → Except Fault Service
  | .finished id data delay _ => match proxy.requests[id]? with
    | none => .error .nullRequest
    | some r => (s.setRequest r ({ · with delay := delay })).setResult (run env) r data
  | .failed id _ errorName errorMessage => match proxy.requests[id]? with
    | none => .error .nullRequest
    | some r => s.fail (run env) r errorName errorMessage
  | .newHandler handlerId => .ok (s.setProxy p (·.registerHandler handlerId))
  | _ => .ok s

/-- `~UiProxyPrivate()` and the end of the object. -/
def deleteProxy (p : ProxyId) (proxy : UiProxy) (s : Service) : Except Fault Service :=
  ((proxy.requests.toList.map Prod.snd).foldlM (fun s r => setCanceled (run env) r s) s).map
    fun s => { s with
      proxies := Function.update s.proxies p none
      doomed := s.doomed.erase p }

/-! ### Events -/

/-- `new Request` and `enqueue`. -/
def call (request : Request) (s : Service) : Except Fault Service :=
  (s.newRequest request).enqueue env s.nextRequest

/-- The request that a call of `cancelUiRequest(requestId)` is about. -/
def findUiRequest (requestId : String) (s : Service) : Option RequestId :=
  s.find (.cons SSOUI_KEY_REQUESTID (.string requestId) .nil)

def cancelUiRequest (requestId : String) (s : Service) : Except Fault Service :=
  match s.findUiRequest requestId with
  | none => .ok s
  | some r => s.setCanceled (run env) r

/-- What an event does with proxy `p`; nothing when the proxy is not there. -/
def withProxy (p : ProxyId) (s : Service) (f : UiProxy → Except Fault Service) :
    Except Fault Service :=
  match s.proxies p with
  | none => .ok s
  | some proxy => f proxy

/-- One event.  An event that cannot happen in a state changes nothing. -/
def step (s : Service) : Event → Except Fault Service
  | .call interface parameters clientApparmorProfile => s.call env
      { interface := interface
        parameters := parameters
        clientApparmorProfile := clientApparmorProfile }
  | .cancelUiRequest requestId => s.cancelUiRequest env requestId
  | .newConnection p => s.withProxy p fun proxy =>
      if proxy.listening then .ok (s.setProxy p (·.onNewConnection s.requests)) else .ok s
  | .disconnected p => s.withProxy p fun proxy =>
      if proxy.socket = .connected then .ok (s.mayFinish p UiProxy.onDisconnected proxy) else .ok s
  | .dataReady p operation => s.withProxy p fun proxy =>
      if proxy.socket = .connected then s.onDataReady env p proxy operation else .ok s
  | .finishedTimer p => s.withProxy p fun proxy =>
      if proxy.finishedTimer.isSome then .ok (s.mayFinish p UiProxy.onFinishedTimer proxy)
      else .ok s
  | .promptSessionFinished p => s.withProxy p fun proxy =>
      if proxy.promptSession then .ok (s.onProxyFinished p) else .ok s
  | .processExited p => s.withProxy p fun proxy =>
      if proxy.process = .running then .ok (s.setProxy p ({ · with process := .exited }))
      else .ok s
  | .deleteProxy p => s.withProxy p fun proxy =>
      if p ∈ s.doomed then Service.deleteProxy env p proxy s else .ok s
  | .deleteRequest r =>
      if r ∈ s.deletions then
        .ok { s with
          deletions := s.deletions.filter (· ≠ r)
          allRequests := s.allRequests.erase r
          slots := Function.update s.slots r [] }
      else .ok s

/-- The service, started without requests and proxies. -/
def machine : Transition.Machine Service Event Fault where
  start := {}
  step := step env

end Service

end OnlineAccounts
