import OnlineAccounts.HandlerBinding
import OnlineAccounts.InFlight

/-! # From a handler to its requests

A sign-on request that names a handler (`X-RequestHandler` in its client data) passes three places:
`enqueue` gives it to the first proxy with such a handler (`hasHandlerFor`), the proxy sends it to
its UI process, and there `findMatching` looks for the handler.  The names are `matchId`s, made of
the process id and a counter of the UI process; the proxy learns them by the operations
`newHandler`, which are in flight like all others.

`routed_to_creator` says that a request only goes to a proxy whose own UI process has made the
handler, and `handlerFor_eq_some_iff` that the manager finds it as soon as the operation is
delivered. -/

namespace OnlineAccounts

/-- The `matchId` of the handler with a number, in the process with an id. -/
def matchId (pid number : ℕ) : String := pid.repr ++ "-" ++ number.repr

/-- The handler that the parameters of a request name. -/
def namedHandler (parameters : QVariantMap) : Option String :=
  if parameters.contains SSOUI_KEY_CLIENT_DATA then
    let clientData := (parameters.value SSOUI_KEY_CLIENT_DATA).toMap
    let matchId := (clientData.value OAU_REQUEST_MATCH_KEY).toString
    if matchId = "" then none else some matchId
  else none

/-- The handler that an operation registers. -/
def Operation.registers : Operation → Option String
  | .newHandler handlerId => some handlerId
  | _ => none

theorem UiProxy.hasHandlerFor_iff {proxy : UiProxy} {parameters : QVariantMap} :
    proxy.hasHandlerFor parameters = true ↔
      ∃ handlerId ∈ proxy.handlers, namedHandler parameters = some handlerId := by
  unfold UiProxy.hasHandlerFor namedHandler
  by_cases hdata : parameters.contains SSOUI_KEY_CLIENT_DATA = true
  · by_cases hempty : ((parameters.value SSOUI_KEY_CLIENT_DATA).toMap.value
        OAU_REQUEST_MATCH_KEY).toString = ""
    · simp [hdata, hempty]
    · simp [hdata, hempty]
  · simp [hdata]

/-! ### The names are different -/

theorem toList_repr (n : ℕ) : n.repr.toList = Nat.toDigits 10 n := by
  simp [Nat.repr]

theorem dash_notMem_repr (n : ℕ) : '-' ∉ n.repr.toList := by
  intro hmem
  rw [toList_repr] at hmem
  have := Nat.isDigit_of_mem_toDigits (by decide) (by decide) hmem
  revert this
  decide

theorem repr_injective : Function.Injective Nat.repr := by
  intro m n h
  have hdigits : Nat.toDigits 10 m = Nat.toDigits 10 n := by
    rw [← toList_repr, ← toList_repr, h]
  calc
    m = Nat.ofDigitChars 10 (Nat.toDigits 10 m) 0 := Nat.ofDigitChars_ten_toDigits.symm
    _ = Nat.ofDigitChars 10 (Nat.toDigits 10 n) 0 := by rw [hdigits]
    _ = n := Nat.ofDigitChars_ten_toDigits

/-- The names are taken apart at the dash. -/
theorem matchId_inj {pid number pid' number' : ℕ} (h : matchId pid number = matchId pid' number') :
    pid = pid' ∧ number = number' := by
  have hlists := congrArg String.toList h
  have hdash : "-".toList = ['-'] := rfl
  simp only [matchId, String.toList_append, List.append_assoc, hdash, List.singleton_append]
    at hlists
  obtain ⟨hpid, -, hnumber⟩ := (List.append_cons_inj_of_notMem (dash_notMem_repr pid)
    (dash_notMem_repr number)).mp hlists
  exact ⟨repr_injective (String.toList_injective hpid),
    repr_injective (String.toList_injective hnumber)⟩

/-! ### What an event of the service keeps -/

namespace UiProxy

@[simp] theorem handleRequest_handlers (env : Environment) (proxy : UiProxy) (r : RequestId)
    (request : Request) : (proxy.handleRequest env r request).handlers = proxy.handlers := by
  unfold handleRequest startProcess
  cases h : proxy.status <;> simp only [sendRequest]
  split_ifs <;> rfl

@[simp] theorem onNewConnection_handlers (requests : RequestId → Request) (proxy : UiProxy) :
    (proxy.onNewConnection requests).handlers = proxy.handlers := by
  unfold onNewConnection
  rw [sendAll_eq]
  split_ifs <;> rfl

end UiProxy

namespace Service

open Transition UiProxy

variable {env : ProxyId → Environment} {p : ProxyId}

/-- Proxy `p` has the handlers that it had, or it is new and has none; a proxy that is gone does not
come back.  The requests keep their parameters, and none was routed. -/
structure Keeps (p : ProxyId) (s s' : Service) : Prop where
  nextProxy : s.nextProxy ≤ s'.nextProxy
  nextRequest : s.nextRequest ≤ s'.nextRequest
  handlers : ∀ proxy', s'.proxies p = some proxy' →
    (∃ proxy, s.proxies p = some proxy ∧ proxy'.handlers = proxy.handlers) ∨
      (s.nextProxy ≤ p ∧ proxy'.handlers = [])
  parameters : ∀ r < s.nextRequest, (s'.requests r).parameters = (s.requests r).parameters
  routed : ∀ r q, .routed r q ∈ s'.log → .routed r q ∈ s.log

theorem Keeps.refl (p : ProxyId) (s : Service) : Keeps p s s :=
  ⟨le_rfl, le_rfl, fun proxy hp => .inl ⟨proxy, hp, rfl⟩, fun _ _ => rfl, fun _ _ => id⟩

theorem Keeps.trans {s t u : Service} (h : Keeps p s t) (h' : Keeps p t u) : Keeps p s u where
  nextProxy := h.nextProxy.trans h'.nextProxy
  nextRequest := h.nextRequest.trans h'.nextRequest
  handlers proxy'' hp'' := by
    rcases h'.handlers proxy'' hp'' with ⟨proxy', hp', he'⟩ | ⟨hle, hnil⟩
    · rcases h.handlers proxy' hp' with ⟨proxy, hp, he⟩ | ⟨hle, hnil⟩
      · exact .inl ⟨proxy, hp, he'.trans he⟩
      · exact .inr ⟨hle, he'.trans hnil⟩
    · exact .inr ⟨h.nextProxy.trans hle, hnil⟩
  parameters r hr := (h'.parameters r (hr.trans_le h.nextRequest)).trans (h.parameters r hr)
  routed r q hmem := h.routed r q (h'.routed r q hmem)

theorem Keeps.of_same {s s' : Service} (hnext : s.nextProxy ≤ s'.nextProxy)
    (hrequest : s'.nextRequest = s.nextRequest)
    (hproxies : ∀ proxy', s'.proxies p = some proxy' →
      ∃ proxy, s.proxies p = some proxy ∧ proxy'.handlers = proxy.handlers)
    (hparameters : ∀ r, (s'.requests r).parameters = (s.requests r).parameters)
    (es : List Emission) (hlog : s'.log = es ++ s.log) (hes : ∀ r q, .routed r q ∉ es) :
    Keeps p s s' where
  nextProxy := hnext
  nextRequest := hrequest.ge
  handlers proxy' hp' := .inl (hproxies proxy' hp')
  parameters r _ := hparameters r
  routed r q hmem := by
    rw [hlog, List.mem_append] at hmem
    exact hmem.resolve_left (hes r q)

theorem Keeps.setProxy (s : Service) (q : ProxyId) {f : UiProxy → UiProxy}
    (hf : ∀ proxy, (f proxy).handlers = proxy.handlers) : Keeps p s (s.setProxy q f) := by
  refine .of_same le_rfl rfl (fun proxy' hp' => ?_) (fun _ => rfl) [] rfl
    (fun _ _ => List.not_mem_nil)
  obtain ⟨proxy, hp, rfl⟩ := setProxy_some.mp hp'
  refine ⟨proxy, hp, ?_⟩
  split_ifs
  · exact hf proxy
  · rfl

theorem Keeps.unregister (s : Service) (q : ProxyId) (r : RequestId) :
    Keeps p s (s.unregister q r) :=
  .setProxy s q fun _ => rfl

theorem Keeps.answer {s s' : Service} {r : RequestId} {reply : Reply}
    (hnext : s.nextProxy ≤ s'.nextProxy) (hrequest : s'.nextRequest = s.nextRequest)
    (hlog : s'.log = .completed r :: .replied r reply :: s.log)
    (hproxies : s'.proxies = s.proxies) (hrequests : s'.requests = s.requests) : Keeps p s s' :=
  .of_same hnext hrequest (fun proxy' hp' => ⟨proxy', hproxies ▸ hp', rfl⟩)
    (fun r => by rw [hrequests]) [.completed r, .replied r reply] hlog (by simp)

theorem Keeps.completeAgain (s : Service) (r : RequestId) (reply : Reply) :
    Keeps p s (s.completeAgain r reply) := by
  refine completeAgain_induction (I := Keeps p s) (.answer le_rfl rfl rfl rfl rfl)
    fun t slot ht => ht.trans ?_
  cases slot with
  | manager =>
      exact .of_same le_rfl rfl (fun proxy hp => ⟨proxy, hp, rfl⟩) (fun _ => rfl) [.notFirst r] rfl
        (by simp)
  | deleteLater =>
      exact .of_same le_rfl rfl (fun proxy hp => ⟨proxy, hp, rfl⟩) (fun _ => rfl) [] rfl (by simp)
  | proxy q => exact .unregister t q r

theorem newProxy_handlers (s : Service) (r : RequestId) : (s.newProxy env r).1.handlers = [] := by
  obtain ⟨promptSession, environment, hinit⟩ :=
    UiProxy.init_eq (env s.nextProxy) { clientPid := (s.requests r).clientPid }
  rw [newProxy, hinit]

theorem parameters_setRequest {s : Service} {r : RequestId} {f : Request → Request}
    (hf : ∀ request, (f request).parameters = request.parameters) (q : RequestId) :
    ((s.setRequest r f).requests q).parameters = (s.requests q).parameters := by
  by_cases hq : q = r
  · subst hq
    simp [hf]
  · simp [hq]

theorem Act.keeps {a : Label} {s s' : Service} (h : Act env a s s') (ht : a ≠ .touch)
    (hroute : a ≠ .route) : Keeps p s s' := by
  cases h with
  | touch => exact absurd rfl ht
  | route => exact absurd rfl hroute
  | accept request _ =>
      refine ⟨le_rfl, Nat.le_succ _, fun proxy hp => .inl ⟨proxy, hp, rfl⟩, fun r hr => ?_,
        fun r q hmem => ?_⟩
      · simp [Service.accept, Nat.ne_of_lt hr]
      · exact (List.mem_cons.mp hmem).resolve_left (by simp)
  | @hand _ w r rest _ _ _ =>
      refine ⟨Nat.le_succ _, le_rfl, fun proxy' hp' => ?_, fun q _ => ?_, fun q q' hmem => ?_⟩
      · by_cases hp : p = s.nextProxy
        · subst hp
          simp only [Service.hand, Service.handleRequest, setRequest_proxies, connect_proxies,
            setProxy_proxies, emit_proxies, Function.update_self, Option.map_some] at hp'
          refine .inr ⟨le_rfl, ?_⟩
          rw [← Option.some.inj hp', handleRequest_handlers, newProxy_handlers]
        · refine .inl ⟨proxy', ?_, rfl⟩
          simpa [Service.hand, Service.handleRequest, hp] using hp'
      · exact parameters_setRequest (s := s) (r := r) (f := ({ · with inProgress := true }))
          (fun _ => rfl) q
      · exact (List.mem_cons.mp hmem).resolve_left (by simp)
  | refuse => exact .answer (Nat.le_succ _) rfl rfl rfl rfl
  | @complete _ w r rest q reply _ _ =>
      have ht : Keeps p s (((s.answer r reply).deleteLater r).dequeue w rest) :=
        .answer le_rfl rfl rfl rfl rfl
      exact ht.trans (.unregister _ q r)
  | @completeRouted _ r q reply _ =>
      have ht : Keeps p s ((s.answer r reply).deleteLater r) := .answer le_rfl rfl rfl rfl rfl
      exact ht.trans (.unregister _ q r)
  | completeAgain reply => exact .completeAgain s _ reply
  | idle =>
      exact .of_same le_rfl rfl (fun proxy hp => ⟨proxy, hp, rfl⟩) (fun _ => rfl)
        [.isIdleChanged s.isIdle] rfl (by simp)
  | @finish _ q =>
      exact .of_same le_rfl rfl (fun proxy hp => ⟨proxy, hp, rfl⟩) (fun _ => rfl) [.finished q] rfl
        (by simp)
  | clear | delay =>
      exact .of_same le_rfl rfl (fun proxy hp => ⟨proxy, hp, rfl⟩)
        (parameters_setRequest fun _ => rfl) [] rfl (by simp)
  | @deleteProxy _ q _ =>
      refine .of_same le_rfl rfl (fun proxy hp => ⟨proxy, ?_, rfl⟩) (fun _ => rfl) [] rfl (by simp)
      by_cases hq : p = q
      · simp [hq] at hp
      · simpa [hq] using hp
  | deleteRequest =>
      exact .of_same le_rfl rfl (fun proxy hp => ⟨proxy, hp, rfl⟩) (fun _ => rfl) [] rfl (by simp)

theorem Keeps.onProxyFinished (s : Service) (q : ProxyId) : Keeps p s (s.onProxyFinished q) :=
  .of_same le_rfl rfl (fun proxy hp => ⟨proxy, hp, rfl⟩) (fun _ => rfl) [.finished q] rfl (by simp)

theorem Keeps.mayFinish (s : Service) (q : ProxyId) {method : UiProxy → UiProxy × Bool}
    (hmethod : ∀ proxy, (method proxy).1.handlers = proxy.handlers) (proxy : UiProxy) :
    Keeps p s (s.mayFinish q method proxy) := by
  have hset : Keeps p s (s.setProxy q fun proxy => (method proxy).1) := .setProxy s q hmethod
  unfold Service.mayFinish
  dsimp only
  split_ifs
  · exact hset.trans (.onProxyFinished _ q)
  · exact hset

/-- Every event keeps it, but for a request that is routed and a handler that is registered. -/
theorem step_keeps {s s' : Service} {e : Event} (hi : s.Inv) (hs : ∀ w, s.Settled w)
    (hrun : s.step env e = .ok s') (hroutes : ¬ s.Routes e)
    (hhandler : ∀ handlerId, e ≠ .dataReady p (.newHandler handlerId)) : Keeps p s s' := by
  by_cases he : ¬ e.IsCall ∧ ¬ e.MayAnswer
  · cases local_cases he hrun with
    | nothing => exact .refl p s
    | newConnection => exact .setProxy s _ fun proxy => onNewConnection_handlers _ proxy
    | disconnected => exact .mayFinish s _ (fun _ => rfl) _
    | @newHandler q _ _ _ handlerId =>
        have hq : p ≠ q := fun hq => hhandler handlerId (hq ▸ rfl)
        refine .of_same le_rfl rfl (fun proxy hp => ⟨proxy, ?_, rfl⟩) (fun _ => rfl) [] rfl (by simp)
        simpa [hq] using hp
    | finishedTimer => exact .mayFinish s _ (fun _ => rfl) _
    | promptSessionFinished => exact .onProxyFinished s _
    | processExited => exact .setProxy s _ fun _ => rfl
    | deleteRequest =>
        exact .of_same le_rfl rfl (fun proxy hp => ⟨proxy, hp, rfl⟩) (fun _ => rfl) [] rfl (by simp)
  · refine (handles hi hs hrun).1.invariant (I := Keeps p s) (.refl p s)
      fun a t t' ht hallowed hact => ht.trans (hact.keeps ?_ ?_)
    · rintro rfl
      exact he hallowed
    · rintro rfl
      exact hroutes hallowed

end Service

/-! ### What a UI process registers -/

/-- The handlers that some operations register, in order. -/
def registrations (operations : List Operation) : List String :=
  operations.filterMap Operation.registers

theorem registrations_append (os os' : List Operation) :
    registrations (os ++ os') = registrations os ++ registrations os' :=
  List.filterMap_append

/-- The handler that an event makes. -/
def UiEvent.newHandlers : UiEvent → List String
  | .newHandler handlerId => [handlerId]
  | _ => []

namespace UiServer

theorem completed_registrations (server : UiServer) (i : ℕ) :
    registrations (server.completed i).sent = registrations server.sent := by
  unfold completed
  cases server.requests[i]? with
  | none => rfl
  | some request =>
      have hnone : request.operation.registers = none := by
        unfold UiRequest.operation
        split_ifs <;> rfl
      simp only
      split_ifs
      · rfl
      · have hsent : registrations (server.sent ++ [request.operation]) =
            registrations server.sent := by
          simp [registrations, hnone]
        exact hsent

theorem handle_registrations (server : UiServer) (e : UiEvent) :
    registrations (server.handle e).sent = registrations server.sent ++ e.newHandlers := by
  cases e with
  | setDelay => exact (List.append_nil _).symm
  | newHandler handlerId => exact registrations_append _ _
  | fail i name message =>
      exact (completed_registrations _ i).trans (List.append_nil _).symm
  | setCanceled i =>
      refine Eq.trans ?_ (List.append_nil _).symm
      simp only [handle, setCanceled]
      split_ifs
      · exact completed_registrations _ i
      · rfl
  | setResult i result =>
      refine Eq.trans ?_ (List.append_nil _).symm
      simp only [handle, setResult]
      split_ifs
      · exact completed_registrations _ i
      · rfl

theorem onDataReady_sent (server : UiServer) (operation : Operation) :
    (server.onDataReady operation).sent = server.sent := by
  cases operation <;> rfl

end UiServer

namespace System

open Transition

variable {env : ProxyId → Environment} {pid : ProxyId → ℕ}

/-- The UI process of proxy `p` has the id `pid p` and names its handlers by it, one after the
other; a socket delivers only while it is connected. -/
def NamesHandlers (pid : ProxyId → ℕ) (s : System) : Event → Prop
  | .ui p (.newHandler handlerId) =>
      handlerId = matchId (pid p) ((registrations (s.servers p).sent).length + 1)
  | .deliver p => ∃ proxy ∈ s.service.proxies p, proxy.socket = .connected
  | _ => True

instance : ∀ (s : System) (e : Event), Decidable (NamesHandlers pid s e)
  | s, .ui p (.newHandler handlerId) => inferInstanceAs
      (Decidable (handlerId = matchId (pid p) ((registrations (s.servers p).sent).length + 1)))
  | s, .deliver p => inferInstanceAs
      (Decidable (∃ proxy ∈ s.service.proxies p, proxy.socket = .connected))
  | _, .service _ | _, .read _ | _, .ui _ (.setDelay _ _) | _, .ui _ (.fail _ _ _)
  | _, .ui _ (.setCanceled _) | _, .ui _ (.setResult _ _) => .isTrue trivial

/-- The names of the first handlers of a process. -/
def names (pid count : ℕ) : List String := (List.range count).map fun i => matchId pid (i + 1)

theorem names_succ (pid count : ℕ) :
    names pid (count + 1) = names pid count ++ [matchId pid (count + 1)] := by
  simp [names, List.range_succ]

/-- The proxies know the handlers whose operations have been delivered, and what was routed was
routed to one of them. -/
structure Registered (pid : ProxyId → ℕ) (s : System) : Prop where
  made : ∀ p, registrations (s.servers p).sent =
    names (pid p) (registrations (s.servers p).sent).length
  handlers : ∀ p proxy, s.service.proxies p = some proxy →
    proxy.handlers = registrations (s.arrived p)
  fresh : ∀ p, s.service.nextProxy ≤ p → s.delivered p = 0
  delivered_le : ∀ p, s.delivered p ≤ (s.servers p).sent.length
  routed : ∀ r p, .routed r p ∈ s.service.log → r < s.service.nextRequest ∧
    ∃ handlerId ∈ registrations (s.arrived p),
      namedHandler (s.service.requests r).parameters = some handlerId

theorem registered_start (pid : ProxyId → ℕ) : Registered pid {} where
  made _ := rfl
  handlers _ _ hp := by cases hp
  fresh _ _ := rfl
  delivered_le _ := Nat.zero_le _
  routed _ _ hmem := absurd hmem List.not_mem_nil

/-- What has arrived is the beginning of what was sent. -/
theorem arrived_prefix (s : System) (p : ProxyId) :
    registrations (s.arrived p) <+: registrations (s.servers p).sent :=
  (List.take_prefix _ _).filterMap _

/-- The handlers whose registrations have arrived, by their numbers. -/
theorem Registered.mem_arrived {s : System} (h : s.Registered pid) {p : ProxyId}
    {handlerId : String} : handlerId ∈ registrations (s.arrived p) ↔
      ∃ number, 1 ≤ number ∧ number ≤ (registrations (s.arrived p)).length ∧
        handlerId = matchId (pid p) number := by
  have harrived : registrations (s.arrived p) =
      names (pid p) (registrations (s.arrived p)).length := by
    have hle := (s.arrived_prefix p).length_le
    conv_lhs => rw [List.prefix_iff_eq_take.mp (s.arrived_prefix p), h.made p]
    rw [names, ← List.map_take, List.take_range, min_eq_left hle]
    rfl
  conv_lhs => rw [harrived]
  simp only [names, List.mem_map, List.mem_range]
  constructor
  · rintro ⟨i, hi, rfl⟩
    exact ⟨i + 1, by omega, by omega, rfl⟩
  · rintro ⟨number, hpos, hle, rfl⟩
    exact ⟨number - 1, by omega, by rw [Nat.sub_add_cancel hpos]⟩

theorem Registered.of_keeps {s : System} (h : s.Registered pid) {service : Service}
    (hkeeps : ∀ p, Service.Keeps p s.service service) :
    Registered pid { s with service := service } where
  made := h.made
  handlers p proxy' hp' := by
    rcases (hkeeps p).handlers proxy' hp' with ⟨proxy, hp, he⟩ | ⟨hle, hnil⟩
    · exact he.trans (h.handlers p proxy hp)
    · have hzero : s.arrived p = [] := by
        rw [arrived, h.fresh p hle, List.take_zero]
      rw [hnil]
      exact (congrArg registrations hzero).symm
  fresh p hp := h.fresh p ((hkeeps p).nextProxy.trans hp)
  delivered_le := h.delivered_le
  routed r p hmem := by
    obtain ⟨hlt, handlerId, harrived, hnamed⟩ := h.routed r p ((hkeeps p).routed r p hmem)
    refine ⟨hlt.trans_le (hkeeps p).nextRequest, handlerId, harrived, ?_⟩
    rw [(hkeeps p).parameters r hlt]
    exact hnamed

theorem Registered.route {s : System} (h : s.Registered pid) (request : Request) {q : ProxyId}
    (hq : s.service.handlerFor request.parameters = some q) :
    Registered pid { s with service := s.service.route env q request } := by
  obtain ⟨-, proxy, hproxy, hhandler⟩ := Service.handlerFor_some hq
  refine ⟨h.made, fun p proxy' hp' => ?_, h.fresh, h.delivered_le, fun r p hmem => ?_⟩
  · have hp'' : (s.service.setProxy q fun proxy => proxy.handleRequest (env q)
        s.service.nextRequest ((s.service.newRequest request).requests
          s.service.nextRequest)).proxies p = some proxy' := hp'
    obtain ⟨proxy, hp, rfl⟩ := Service.setProxy_some.mp hp''
    have hold := h.handlers p proxy hp
    split_ifs
    · rw [UiProxy.handleRequest_handlers]
      exact hold
    · exact hold
  · rcases List.mem_cons.mp hmem with he | hmem
    · obtain ⟨rfl, rfl⟩ := Emission.routed.inj he
      obtain ⟨handlerId, hhandler, hnamed⟩ := UiProxy.hasHandlerFor_iff.mp hhandler
      refine ⟨Nat.lt_succ_self _, handlerId, h.handlers _ _ hproxy ▸ hhandler, ?_⟩
      simpa [Service.route, Service.handleRequest] using hnamed
    · obtain ⟨hlt, handlerId, harrived, hnamed⟩ := h.routed r p hmem
      refine ⟨Nat.lt_succ_of_lt hlt, handlerId, harrived, ?_⟩
      have hne : r ≠ s.service.nextRequest := Nat.ne_of_lt hlt
      simpa [Service.route, Service.handleRequest, hne] using hnamed

theorem Registered.service {s : System} (h : s.Registered pid)
    (hs : Reachable (Service.machine env) (fun _ _ => True) s.service) {e : OnlineAccounts.Event}
    (he : ∀ p handlerId, e ≠ .dataReady p (.newHandler handlerId)) {service : Service}
    (hrun : s.service.step env e = .ok service) :
    Registered pid { s with service := service } := by
  obtain ⟨hi, hsettled⟩ := Service.reachable_inv hs
  by_cases hroutes : s.service.Routes e
  · cases e with
    | call interface parameters profile =>
        obtain ⟨q, hq⟩ := Option.isSome_iff_exists.mp hroutes
        let request : Request :=
          { interface := interface, parameters := parameters, clientApparmorProfile := profile }
        have hcall : s.service.call env request = .ok (s.service.route env q request) :=
          Service.call_routed hq
        obtain rfl := Except.ok.inj (hcall.symm.trans hrun)
        exact h.route request hq
    | _ => exact hroutes.elim
  · exact h.of_keeps fun p => Service.step_keeps hi hsettled hrun hroutes (he p)

theorem Registered.setServer {s : System} (h : s.Registered pid) (p : ProxyId)
    {f : UiServer → UiServer} (hsent : (s.servers p).sent <+: (f (s.servers p)).sent)
    (hmade : registrations (f (s.servers p)).sent =
      names (pid p) (registrations (f (s.servers p)).sent).length) :
    (s.setServer p f).Registered pid := by
  have hservers (q : ProxyId) (hq : q ≠ p) : (s.setServer p f).servers q = s.servers q := by
    simp [System.setServer, hq]
  have hserver : (s.setServer p f).servers p = f (s.servers p) := by
    simp [System.setServer]
  have harrived (q : ProxyId) : (s.setServer p f).arrived q = s.arrived q := by
    by_cases hq : q = p
    · subst hq
      obtain ⟨rest, hrest⟩ := hsent
      rw [arrived, hserver, ← hrest]
      exact List.take_append_of_le_length (h.delivered_le q)
    · rw [arrived, hservers q hq]
      rfl
  refine ⟨fun q => ?_, fun q proxy hq => ?_, h.fresh, fun q => ?_, fun r q hmem => ?_⟩
  · by_cases hq : q = p
    · subst hq
      rw [hserver]
      exact hmade
    · rw [hservers q hq]
      exact h.made q
  · rw [harrived]
    exact h.handlers q proxy hq
  · by_cases hq : q = p
    · subst hq
      rw [hserver]
      exact (h.delivered_le q).trans hsent.length_le
    · rw [hservers q hq]
      exact h.delivered_le q
  · rw [harrived]
    exact h.routed r q hmem

/-- One more operation has arrived, which registers a handler or none. -/
theorem arrived_deliver {s : System} {p : ProxyId} {operation : Operation}
    (hu : s.undelivered p = some operation) (service : Service) (q : ProxyId) :
    System.arrived { s with
        service := service
        delivered := Function.update s.delivered p (s.delivered p + 1) } q =
      s.arrived q ++ if q = p then [operation] else [] := by
  by_cases hq : q = p
  · subst hq
    have hget : (s.servers q).sent[s.delivered q]? = some operation := hu
    simp only [arrived, Function.update_self, if_true]
    rw [List.take_add_one, hget]
    rfl
  · simp [arrived, hq]

theorem Registered.deliver {s : System} (h : s.Registered pid)
    (hs : Reachable (Service.machine env) (fun _ _ => True) s.service) {p : ProxyId}
    {proxy : UiProxy} (hproxy : s.service.proxies p = some proxy)
    (hsocket : proxy.socket = .connected) {operation : Operation}
    (hu : s.undelivered p = some operation) {service : Service}
    (hrun : s.service.step env (.dataReady p operation) = .ok service) :
    Registered pid { s with
      service := service
      delivered := Function.update s.delivered p (s.delivered p + 1) } := by
  have harrived := s.arrived_deliver hu service
  have hlt : s.delivered p < (s.servers p).sent.length := (List.getElem?_eq_some_iff.mp hu).1
  have hinside (q : ProxyId) : Function.update s.delivered p (s.delivered p + 1) q ≤
      (s.servers q).sent.length := by
    by_cases hq : q = p
    · subst hq
      simpa using hlt
    · simpa [hq] using h.delivered_le q
  have hfresh (hnext : s.service.nextProxy ≤ service.nextProxy) (q : ProxyId)
      (hq : service.nextProxy ≤ q) : Function.update s.delivered p (s.delivered p + 1) q = 0 := by
    have hne : q ≠ p := by
      rintro rfl
      exact absurd ((Service.reachable_inv hs).1.proxy_lt hproxy) (Nat.not_lt.mpr (hnext.trans hq))
    simpa [hne] using h.fresh q (hnext.trans hq)
  cases hregisters : operation.registers with
  | none =>
      have hsame (q : ProxyId) : registrations (System.arrived { s with
          service := service
          delivered := Function.update s.delivered p (s.delivered p + 1) } q) =
            registrations (s.arrived q) := by
        rw [harrived, registrations_append]
        split_ifs
        · simp [registrations, hregisters]
        · simp [registrations]
      have hservice : Registered pid { s with service := service } := by
        refine h.service hs ?_ hrun
        rintro q handlerId he
        rw [(Event.dataReady.inj he).2] at hregisters
        cases hregisters
      have hnext : s.service.nextProxy ≤ service.nextProxy := by
        obtain ⟨hi, hsettled⟩ := Service.reachable_inv hs
        refine (Service.step_keeps (p := p) hi hsettled hrun id ?_).nextProxy
        rintro handlerId he
        rw [(Event.dataReady.inj he).2] at hregisters
        cases hregisters
      refine ⟨h.made, fun q proxy hq => ?_, hfresh hnext, hinside, fun r q hmem => ?_⟩
      · rw [hsame]
        exact hservice.handlers q proxy hq
      · rw [hsame]
        exact hservice.routed r q hmem
  | some handlerId =>
      obtain rfl : operation = .newHandler handlerId := by
        cases operation with
        | newHandler handlerId' =>
            obtain rfl := Option.some.inj hregisters
            rfl
        | _ => cases hregisters
      have hstep : s.service.step env (.dataReady p (.newHandler handlerId)) =
          .ok (s.service.setProxy p (·.registerHandler handlerId)) := by
        simp [Service.step, Service.withProxy, hproxy, hsocket, Service.onDataReady]
      obtain rfl := Except.ok.inj (hstep.symm.trans hrun)
      refine ⟨h.made, fun q proxy' hq => ?_, hfresh le_rfl, hinside, fun r q hmem => ?_⟩
      · obtain ⟨proxy'', hq', rfl⟩ := Service.setProxy_some.mp hq
        rw [harrived, registrations_append, ← h.handlers q proxy'' hq']
        split_ifs
        · rfl
        · simp [registrations]
      · obtain ⟨hlt, named, hnamed, hparameters⟩ := h.routed r q hmem
        refine ⟨hlt, named, ?_, hparameters⟩
        rw [harrived, registrations_append]
        exact List.mem_append_left _ hnamed

theorem reachable_registered {s : System}
    (h : Reachable (machine env) (NamesHandlers pid) s) : s.Registered pid := by
  induction h with
  | start => exact registered_start pid
  | @step s s' e h hg hrun ih =>
      have hs := reachable_service h
      cases step_cases hrun with
      | nothing => exact ih
      | service he hstep => exact ih.service hs (fun p handlerId => he p _) hstep
      | @read p operation hu =>
          have hsent := (s.servers p).onDataReady_sent operation
          exact ih.setServer p (hsent ▸ List.prefix_rfl) (hsent ▸ ih.made p)
      | ui p e =>
          refine ih.setServer p ((s.servers p).handle_sent e) ?_
          rw [UiServer.handle_registrations]
          cases e with
          | newHandler handlerId =>
              have hname : handlerId =
                  matchId (pid p) ((registrations (s.servers p).sent).length + 1) := hg
              rw [UiEvent.newHandlers, List.length_append, List.length_singleton, names_succ,
                ← ih.made p, hname]
          | _ => simpa [UiEvent.newHandlers] using ih.made p
      | deliver hu hstep =>
          obtain ⟨proxy, hproxy, hsocket⟩ := hg
          exact ih.deliver hs hproxy hsocket hu hstep

end System

/-! ### The UI process finds the handler -/

namespace SignOnUi.UiProcess

open Transition

theorem findMatching_eq (parameters : QVariantMap) (s : UiProcess) :
    s.findMatching parameters = (namedHandler parameters).bind fun matchId =>
      (s.allRequestHandlers.find? (·.matchId = matchId)).map (·.number) := by
  unfold findMatching namedHandler
  by_cases hdata : parameters.contains SSOUI_KEY_CLIENT_DATA = true
  · by_cases hempty : ((parameters.value SSOUI_KEY_CLIENT_DATA).toMap.value
        OAU_REQUEST_MATCH_KEY).toString = ""
    · simp [hdata, hempty]
    · simp [hdata, hempty]
  · simp [hdata]

/-- The handlers have the names that the process gives them. -/
def Names (pid : ℕ) (s : UiProcess) : Prop :=
  s.pid = pid ∧ ∀ handler ∈ s.allRequestHandlers, handler.matchId = matchId pid handler.number

theorem setRequest_name (request : Option ℕ) (handler : RequestHandler) :
    (handler.setRequest request).matchId = handler.matchId ∧
      (handler.setRequest request).number = handler.number := by
  unfold RequestHandler.setRequest
  split_ifs <;> exact ⟨rfl, rfl⟩

variable {pid : ℕ} {s : UiProcess}

theorem Names.map (h : s.Names pid) {f : RequestHandler → RequestHandler}
    (hf : ∀ handler, (f handler).matchId = handler.matchId ∧ (f handler).number = handler.number) :
    ({ s with allRequestHandlers := s.allRequestHandlers.map f } : UiProcess).Names pid := by
  refine ⟨h.1, fun handler hmem => ?_⟩
  obtain ⟨old, hold, rfl⟩ := List.mem_map.mp hmem
  rw [(hf old).1, (hf old).2]
  exact h.2 old hold

theorem Names.setRequest (h : s.Names pid) (number : ℕ) (request : Option ℕ) :
    (s.setRequest number request).Names pid := by
  refine h.map fun handler => ?_
  split_ifs
  · exact setRequest_name request handler
  · exact ⟨rfl, rfl⟩

theorem Names.closeView (h : s.Names pid) (i : ℕ) : (s.closeView i).Names pid := by
  unfold UiProcess.closeView
  cases s.handlerOf i with
  | none => exact h
  | some number => exact h.setRequest number none

theorem Names.step (h : s.Names pid) (e : Event) : (s.step e).Names pid := by
  cases e with
  | newHandler =>
      refine ⟨h.1, fun handler hmem => ?_⟩
      rcases List.mem_append.mp hmem with hmem | hmem
      · exact h.2 handler hmem
      · rw [List.mem_singleton.mp hmem, ← h.1]
        rfl
  | handlerDestroyed number =>
      exact ⟨h.1, fun handler hmem => h.2 handler (List.mem_of_mem_filter hmem)⟩
  | process parameters =>
      have hs : Names pid { s with
          requests := s.requests ++ [{ handler := s.findMatching parameters }] } := h
      change (s.process parameters).Names pid
      unfold UiProcess.process
      dsimp only
      cases hfound : s.findMatching parameters with
      | none =>
          rw [hfound] at hs
          exact hs
      | some number =>
          rw [hfound] at hs
          exact hs.setRequest number _
  | cancel i =>
      change (if s.Alive i then s.cancel i else s).Names pid
      split_ifs
      · exact Names.closeView (s := s.setResult i _) h i
      · exact h
  | finished i reply =>
      change (if s.Alive i then s.onFinished i reply else s).Names pid
      split_ifs
      · exact h.closeView i
      · exact h
  | failTimeout i =>
      change (if s.Alive i then s.onFailTimer i else s).Names pid
      split_ifs
      · exact h.closeView i
      · exact h
  | destroyed i =>
      change (if s.Alive i then s.destroy i else s).Names pid
      split_ifs
      · refine Names.map (s := (s.closeView i).modifyRequest i ({ · with destroyed := true }))
          (h.closeView i) fun handler => ?_
        split_ifs <;> exact ⟨rfl, rfl⟩
      · exact h

theorem reachable_names (h : Reachable (machine pid) (fun _ _ => True) s) : s.Names pid := by
  refine h.invariant ⟨rfl, fun _ hmem => absurd hmem List.not_mem_nil⟩ fun s e s' hs _ hrun => ?_
  obtain rfl := Except.ok.inj hrun
  exact hs.step e

/-- A handler is found by its name as long as it has not been destroyed. -/
theorem Names.findMatching (h : s.Names pid) {parameters : QVariantMap} {number : ℕ}
    (hnamed : namedHandler parameters = some (matchId pid number)) :
    s.findMatching parameters =
      if number ∈ s.allRequestHandlers.map (·.number) then some number else none := by
  rw [findMatching_eq, hnamed, Option.bind_some]
  split_ifs with hmem
  · obtain ⟨handler, hhandler, rfl⟩ := List.mem_map.mp hmem
    obtain ⟨found, hfound⟩ : ∃ found, s.allRequestHandlers.find?
        (·.matchId = matchId pid handler.number) = some found := by
      rw [← Option.isSome_iff_exists, List.find?_isSome]
      exact ⟨handler, hhandler, by simp [h.2 handler hhandler]⟩
    have hname : found.matchId = matchId pid handler.number := by
      simpa using List.find?_some hfound
    have hmatch := (h.2 found (List.mem_of_find?_eq_some hfound)).symm.trans hname
    rw [hfound, Option.map_some, (matchId_inj hmatch).2]
  · rw [List.find?_eq_none.mpr, Option.map_none]
    intro handler hhandler hname
    have hmatch := (h.2 handler hhandler).symm.trans (by simpa using hname)
    exact hmem (List.mem_map.mpr ⟨handler, hhandler, (matchId_inj hmatch).2⟩)

end SignOnUi.UiProcess

namespace System

open Transition

variable {env : ProxyId → Environment} {pid : ProxyId → ℕ}

/-- **A routed request goes to the creator of its handler**: whatever the order of the events, the
request names a handler that the UI process of its proxy has made, and the UI process binds the
request to it unless the handler has been destroyed. -/
theorem routed_to_creator {s : System} (h : Reachable (machine env) (NamesHandlers pid) s)
    {r : RequestId} {p : ProxyId} (hr : .routed r p ∈ s.service.log) :
    ∃ number, 1 ≤ number ∧ number ≤ (registrations (s.servers p).sent).length ∧
      ∀ u, Reachable (SignOnUi.UiProcess.machine (pid p)) (fun _ _ => True) u →
        u.findMatching (s.service.requests r).parameters =
          if number ∈ u.allRequestHandlers.map (·.number) then some number else none := by
  have hregistered := reachable_registered h
  obtain ⟨-, handlerId, harrived, hnamed⟩ := hregistered.routed r p hr
  obtain ⟨number, hpos, hle, rfl⟩ := hregistered.mem_arrived.mp harrived
  refine ⟨number, hpos, hle.trans (s.arrived_prefix p).length_le, fun u hu => ?_⟩
  exact (SignOnUi.UiProcess.reachable_names hu).findMatching hnamed

/-- Two UI processes have each made a handler, and a request names the one of the second process. -/
def twoHandlers : List Event :=
  [.service (.queryDialog 1 "a"), .service (.queryDialog 2 "b"), .service (.newConnection 0),
    .service (.newConnection 1), .ui 0 (.newHandler "7-1"), .ui 1 (.newHandler "8-1"), .deliver 0,
    .deliver 1, .service (.queryDialogFor "8-1")]

theorem routed_to_creator_second : ∃ s, (machine fun _ => {}).run {} twoHandlers = .ok s ∧
    .routed 2 1 ∈ s.service.log ∧
      ∃ number, 1 ≤ number ∧ number ≤ (registrations (s.servers 1).sent).length ∧
        ∀ u, Reachable (SignOnUi.UiProcess.machine 8) (fun _ _ => True) u →
          u.findMatching (s.service.requests 2).parameters =
            if number ∈ u.allRequestHandlers.map (·.number) then some number else none := by
  obtain ⟨s, hs, hr⟩ := exists_reachable (machine fun _ => {}) (NamesHandlers (7 + ·)) twoHandlers
    (by decide) (by decide)
  have hend : ((machine fun _ => {}).run {} twoHandlers).map
      (fun s => decide (.routed 2 1 ∈ s.service.log)) = .ok true := by decide
  have hrouted : .routed 2 1 ∈ s.service.log := of_decide_eq_true (Except.ok.inj (hs ▸ hend))
  exact ⟨s, hs, hrouted, routed_to_creator hr hrouted⟩

/-- **Where a request goes**: while the managed proxies have processes of their own, the manager
gives a request to a proxy exactly if the request names one of the handlers whose registrations
have been delivered to the proxy. -/
theorem handlerFor_eq_some_iff {s : System} (h : Reachable (machine env) (NamesHandlers pid) s)
    (hpid : ∀ p ∈ s.service.managed, ∀ q ∈ s.service.managed, pid p = pid q → p = q)
    (parameters : QVariantMap) (p : ProxyId) :
    s.service.handlerFor parameters = some p ↔
      p ∈ s.service.managed ∧ (s.service.proxies p).isSome ∧
        ∃ number, 1 ≤ number ∧ number ≤ (registrations (s.arrived p)).length ∧
          namedHandler parameters = some (matchId (pid p) number) := by
  have hregistered := reachable_registered h
  have hhandler (q : ProxyId) : (s.service.proxies q).any (·.hasHandlerFor parameters) = true ↔
      (s.service.proxies q).isSome ∧ ∃ number, 1 ≤ number ∧
        number ≤ (registrations (s.arrived q)).length ∧
          namedHandler parameters = some (matchId (pid q) number) := by
    cases hq : s.service.proxies q with
    | none => simp
    | some proxy =>
        rw [Option.any_some, UiProxy.hasHandlerFor_iff, hregistered.handlers q proxy hq]
        constructor
        · rintro ⟨handlerId, harrived, hnamed⟩
          obtain ⟨number, hpos, hle, rfl⟩ := hregistered.mem_arrived.mp harrived
          exact ⟨rfl, number, hpos, hle, hnamed⟩
        · rintro ⟨-, number, hpos, hle, hnamed⟩
          exact ⟨_, hregistered.mem_arrived.mpr ⟨number, hpos, hle, rfl⟩, hnamed⟩
  unfold Service.handlerFor
  constructor
  · intro hfound
    have hany := List.find?_some (p := fun q => (s.service.proxies q).any
      (·.hasHandlerFor parameters)) hfound
    exact ⟨List.mem_of_find?_eq_some hfound, (hhandler p).mp hany⟩
  · rintro ⟨hmanaged, hp⟩
    obtain ⟨q, hfound⟩ : ∃ q, s.service.managed.find?
        (fun q => (s.service.proxies q).any (·.hasHandlerFor parameters)) = some q := by
      rw [← Option.isSome_iff_exists, List.find?_isSome]
      exact ⟨p, hmanaged, (hhandler p).mpr hp⟩
    -- the handler that is found has the same name
    have hany := List.find?_some (p := fun q => (s.service.proxies q).any
      (·.hasHandlerFor parameters)) hfound
    obtain ⟨-, number, -, -, hnamed⟩ := (hhandler q).mp hany
    obtain ⟨-, number', -, -, hnamed'⟩ := hp
    have hname := matchId_inj (Option.some.inj (hnamed.symm.trans hnamed'))
    rw [hfound, hpid q (List.mem_of_find?_eq_some hfound) p hmanaged hname.1]

theorem handlerFor_eq_some_iff_second :
    ∃ s, (machine fun _ => {}).run {} twoHandlers = .ok s ∧
      (s.service.handlerFor (SignOnUi.UiProcess.browse "8-1") = some 1 ↔
        1 ∈ s.service.managed ∧ (s.service.proxies 1).isSome ∧
          ∃ number, 1 ≤ number ∧ number ≤ (registrations (s.arrived 1)).length ∧
            namedHandler (SignOnUi.UiProcess.browse "8-1") = some (matchId 8 number)) := by
  obtain ⟨s, hs, hr⟩ := exists_reachable (machine fun _ => {}) (NamesHandlers (7 + ·)) twoHandlers
    (by decide) (by decide)
  refine ⟨s, hs, handlerFor_eq_some_iff hr ?_ _ 1⟩
  intro p _ q _ hpid
  exact Nat.add_left_cancel hpid

end System

end OnlineAccounts
