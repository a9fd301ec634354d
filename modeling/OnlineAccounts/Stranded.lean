import OnlineAccounts.Idle
import OnlineAccounts.Shutdown

/-! # Stranded requests

A request is stranded when the UI process that should answer it is gone and nothing is going to
happen to its proxy any more.  The error paths of `ui-proxy.cpp` leave three gaps: `startProcess`
tells nobody that it has failed, nobody listens to the end of a process that never connects, and
`onFinishedTimer` does not look at the socket, so that a disconnection which was left to the timer
(`onDisconnected`) is forgotten when other requests are registered.

`not_stranded_iff` says that there are no others: a proxy whose process can be started strands no
request as long as the last two do not happen to it (`WindsUp`).  One whose process can't be
started strands the request that it is made for (`stranded_of_not_started`). -/

namespace OnlineAccounts

namespace UiProxy

/-- The UI process could not be started, has exited before connecting, or has disconnected. -/
def Gone (proxy : UiProxy) : Prop :=
  proxy.status = .error ∨ (proxy.process = .exited ∧ proxy.socket = .none) ∨
    proxy.socket = .disconnected

instance (proxy : UiProxy) : Decidable proxy.Gone := inferInstanceAs (Decidable (_ ∨ _))

/-- A proxy that was started, and whose end is near (the timer runs, or `ending`) if its UI
process is gone. -/
structure Started (ending : Prop) (proxy : UiProxy) : Prop where
  status : proxy.status ≠ .error
  gone : proxy.Gone → proxy.finishedTimer.isSome ∨ ending

/-- The end is also near if no request is registered. -/
structure Proper (ending : Prop) (proxy : UiProxy) : Prop extends Started ending proxy where
  empty : proxy.requests.isEmpty → proxy.finishedTimer.isSome ∨ ending

theorem Proper.mono {ending ending' : Prop} {proxy : UiProxy} (h : Proper ending proxy)
    (hle : ending → ending') : Proper ending' proxy where
  status := h.status
  gone hgone := (h.gone hgone).imp_right hle
  empty hempty := (h.empty hempty).imp_right hle

/-- Any proxy that was started, if its end is near. -/
theorem Proper.of_ending {ending : Prop} {proxy : UiProxy} (h : proxy.status ≠ .error)
    (hend : proxy.finishedTimer.isSome ∨ ending) : Proper ending proxy :=
  ⟨⟨h, fun _ => hend⟩, fun _ => hend⟩

variable {env : Environment}

theorem init_started (ending : Prop) (clientPid : ℕ) :
    Started ending (UiProxy.init env { clientPid := clientPid }).1 := by
  obtain ⟨promptSession, environment, h⟩ := UiProxy.init_eq env { clientPid := clientPid }
  rw [h]
  exact ⟨by simp, fun hgone => by simp [Gone] at hgone⟩

theorem handleRequest_not_started (hnot : env.listens = false ∨ env.starts = false)
    (clientPid : ℕ) (r : RequestId) (request : Request) :
    ((UiProxy.init env { clientPid := clientPid }).1.handleRequest env r request).status = .error ∧
      ((UiProxy.init env { clientPid := clientPid }).1.handleRequest env r request).finishedTimer =
        none := by
  obtain ⟨promptSession, environment, h⟩ := UiProxy.init_eq env { clientPid := clientPid }
  rw [h]
  unfold UiProxy.handleRequest startProcess
  rcases hnot with hlistens | hstarts
  · simp [hlistens]
  · cases hlistens : env.listens <;> simp [hstarts]

theorem Started.handleRequest {ending : Prop} {proxy : UiProxy} (h : Started ending proxy)
    (hlistens : env.listens = true) (hstarts : env.starts = true) (r : RequestId)
    (request : Request) : Proper ending (proxy.handleRequest env r request) := by
  obtain ⟨hstatus, hgone, htimer⟩ : (proxy.handleRequest env r request).status ≠ .error ∧
      ((proxy.handleRequest env r request).Gone → proxy.Gone) ∧
      (proxy.handleRequest env r request).finishedTimer = proxy.finishedTimer := by
    unfold UiProxy.handleRequest startProcess
    cases hs : proxy.status with
    | null =>
        simp only [hlistens, hstarts, if_true, Gone]
        exact ⟨by simp, fun hg => .inr (.inr (by simpa using hg)), trivial⟩
    | ready => simp [sendRequest, Gone, hs]
    | loading => simp [Gone, hs]
    | error => exact absurd hs h.status
  exact ⟨⟨hstatus, fun hg => htimer ▸ h.gone (hgone hg)⟩, fun he => by simp at he⟩

theorem Proper.onRequestCompleted {ending : Prop} {proxy : UiProxy} (h : Proper ending proxy)
    (r : RequestId) (delay : ℤ) : Proper ending (proxy.onRequestCompleted r delay) :=
  .of_ending h.status (.inl rfl)

end UiProxy

namespace Service

open Transition

variable {env : ProxyId → Environment}

/-- Proxy `p` has a request that waits for its reply, but will not get one. -/
def Stranded (s : Service) (p : ProxyId) : Prop :=
  ∃ proxy, s.proxies p = some proxy ∧ proxy.Gone ∧ proxy.finishedTimer = none ∧ p ∉ s.doomed ∧
    ∃ r, proxy.Holds r ∧ ∀ reply, .replied r reply ∉ s.log

/-- The event is neither the end of a process that has not connected, nor the expiry of the timer
of a proxy whose UI process is gone while requests are registered, unless the end of the proxy is
near. -/
def WindsUp (p : ProxyId) (s : Service) : Event → Prop
  | .processExited q => q = p → ∀ proxy ∈ s.proxies p, proxy.process = .running →
      proxy.socket = .none → proxy.finishedTimer.isSome ∨ p ∈ s.doomed
  | .finishedTimer q => q = p → ∀ proxy ∈ s.proxies p, proxy.finishedTimer.isSome →
      proxy.Gone → proxy.requests.isEmpty ∨ p ∈ s.doomed
  | _ => True

/-- Proxy `p` is proper, where its end is near if it is going to be deleted. -/
def Proper (p : ProxyId) (s : Service) : Prop :=
  ∀ proxy, s.proxies p = some proxy → UiProxy.Proper (p ∈ s.doomed) proxy

theorem Proper.mono {p : ProxyId} {s s' : Service} (h : s.Proper p)
    (hproxies : s'.proxies p = s.proxies p) (hdoomed : p ∈ s.doomed → p ∈ s'.doomed) :
    s'.Proper p :=
  fun proxy hp => (h proxy (hproxies ▸ hp)).mono hdoomed

theorem Proper.setProxy {p q : ProxyId} {s : Service} (h : s.Proper p) {f : UiProxy → UiProxy}
    (hf : ∀ proxy, UiProxy.Proper (p ∈ s.doomed) proxy → UiProxy.Proper (p ∈ s.doomed) (f proxy)) :
    (s.setProxy q f).Proper p := by
  intro proxy hp
  obtain ⟨proxy', hp', rfl⟩ := setProxy_some.mp hp
  split_ifs
  · exact hf proxy' (h proxy' hp')
  · exact h proxy' hp'

theorem Proper.handleRequest {p q : ProxyId} {s : Service} {r : RequestId}
    (hlistens : (env p).listens = true) (hstarts : (env p).starts = true)
    (h : ∀ proxy, s.proxies p = some proxy → UiProxy.Started (p ∈ s.doomed) proxy ∧
      (p ≠ q → UiProxy.Proper (p ∈ s.doomed) proxy)) :
    (s.handleRequest env q r).Proper p := by
  intro proxy hp
  have hp : (s.setProxy q (·.handleRequest (env q) r (s.requests r))).proxies p = some proxy := hp
  obtain ⟨proxy', hp', rfl⟩ := setProxy_some.mp hp
  split_ifs with hq
  · subst hq
    exact (h proxy' hp').1.handleRequest hlistens hstarts r _
  · exact (h proxy' hp').2 hq

theorem Proper.completeAgain {p : ProxyId} {s : Service} (h : s.Proper p) (r : RequestId)
    (reply : Reply) : (s.completeAgain r reply).Proper p := by
  refine completeAgain_induction (I := Proper p) h fun t slot ht => ?_
  cases slot with
  | manager | deleteLater => exact ht
  | proxy q => exact ht.setProxy fun proxy hproper => hproper.onRequestCompleted r _

theorem Act.proper {p : ProxyId} {a : Label} {s s' : Service} (h : Act env a s s')
    (hlistens : (env p).listens = true) (hstarts : (env p).starts = true) (ht : a ≠ .touch)
    (hs : s.Proper p) : s'.Proper p := by
  cases h with
  | accept | refuse | idle | clear | delay | deleteRequest => exact hs
  | finish =>
      refine hs.mono rfl fun hp => ?_
      simp only [onProxyFinished_doomed]
      split_ifs
      · exact hp
      · exact List.mem_append_left _ hp
  | route request hp =>
      exact .handleRequest hlistens hstarts fun proxy hp =>
        ⟨(hs proxy hp).toStarted, fun _ => hs proxy hp⟩
  | hand hq hr hinit =>
      refine .handleRequest hlistens hstarts fun proxy hp => ?_
      simp only [emit_proxies] at hp
      by_cases hp' : p = s.nextProxy
      · rw [hp', Function.update_self] at hp
        obtain rfl := Option.some.inj hp
        exact ⟨UiProxy.init_started _ _, fun hne => absurd hp' hne⟩
      · rw [Function.update_of_ne hp'] at hp
        exact ⟨(hs proxy hp).toStarted, fun _ => hs proxy hp⟩
  | complete | completeRouted =>
      exact Proper.setProxy hs fun proxy hproper => hproper.onRequestCompleted _ _
  | completeAgain reply => exact hs.completeAgain _ reply
  | touch => exact absurd rfl ht
  | @deleteProxy _ q _ =>
      by_cases hq : p = q
      · intro proxy hp
        simp [hq] at hp
      · refine hs.mono (by simp [hq]) fun hp => ?_
        exact (List.mem_erase_of_ne hq).mpr hp

/-! ### The events of the proxies -/

theorem mem_doomed_finished (s : Service) (p q : ProxyId) :
    p ∈ (s.onProxyFinished q).doomed ↔ p ∈ s.doomed ∨ p = q := by
  rw [onProxyFinished_doomed]
  split_ifs with hq
  · exact ⟨.inl, fun h => h.elim id fun he => he ▸ hq⟩
  · simp

theorem Proper.mayFinish {p q : ProxyId} {s : Service} (h : s.Proper p)
    {method : UiProxy → UiProxy × Bool} {proxy : UiProxy} (hq : s.proxies q = some proxy)
    (hf : p = q → UiProxy.Proper (p ∈ s.doomed ∨ (method proxy).2 = true) (method proxy).1) :
    (s.mayFinish q method proxy).Proper p := by
  have hset : ∀ proxy', (s.setProxy q fun proxy => (method proxy).1).proxies p = some proxy' →
      UiProxy.Proper (p ∈ s.doomed ∨ (p = q ∧ (method proxy).2 = true)) proxy' := by
    intro proxy' hp
    obtain ⟨proxy'', hp', rfl⟩ := setProxy_some.mp hp
    split_ifs with he
    · subst he
      obtain rfl := Option.some.inj (hq.symm.trans hp')
      exact (hf rfl).mono (Or.imp_right fun h => ⟨rfl, h⟩)
    · exact (h proxy'' hp').mono .inl
  unfold Service.mayFinish
  simp only
  split_ifs with hfinish
  · intro proxy' hp
    refine (hset proxy' hp).mono fun hend => ?_
    rw [mem_doomed_finished]
    exact hend.imp_right And.left
  · intro proxy' hp
    exact (hset proxy' hp).mono fun hend => hend.resolve_right fun hend => hfinish hend.2

/-- The events that are neither calls nor answers, unless they strand a request. -/
theorem LocalStep.proper {p : ProxyId} {s s' : Service} {e : Event} (h : LocalStep s e s')
    (hp : s.Proper p) (hw : WindsUp p s e) : s'.Proper p := by
  cases h with
  | nothing | deleteRequest _ => exact hp
  | newConnection _ _ =>
      refine hp.setProxy fun proxy hproper => ?_
      unfold UiProxy.onNewConnection
      rw [UiProxy.sendAll_eq]
      split_ifs
      · exact ⟨⟨by simp, fun hg => by simp [UiProxy.Gone] at hg⟩, hproper.empty⟩
      · exact hproper
  | @disconnected q proxy hq _ =>
      refine hp.mayFinish hq fun hpq => ?_
      subst hpq
      refine .of_ending (hp proxy hq).status ?_
      cases htimer : proxy.finishedTimer <;> simp [UiProxy.onDisconnected, htimer]
  | newHandler _ _ _ =>
      exact hp.setProxy fun proxy hproper => ⟨⟨hproper.status, hproper.gone⟩, hproper.empty⟩
  | @finishedTimer q proxy hq htimer =>
      refine hp.mayFinish hq fun hpq => ?_
      subst hpq
      exact ⟨⟨(hp proxy hq).status, fun hg => .inr (hw rfl proxy hq htimer hg).symm⟩,
        fun hempty => .inr (.inr hempty)⟩
  | @promptSessionFinished q _ _ _ =>
      exact hp.mono rfl fun h => (mem_doomed_finished s p q).mpr (.inl h)
  | @processExited q proxy hq hrunning =>
      intro proxy' hp'
      obtain ⟨proxy'', hp'', rfl⟩ := setProxy_some.mp hp'
      have hproper := hp proxy'' hp''
      split_ifs with hpq
      · subst hpq
        obtain rfl := Option.some.inj (hq.symm.trans hp'')
        refine ⟨⟨hproper.status, fun hg => ?_⟩, hproper.empty⟩
        rcases hg with hstatus | ⟨-, hsocket⟩ | hsocket
        · exact absurd hstatus hproper.status
        · exact hw rfl proxy hq hrunning hsocket
        · exact hproper.gone (.inr (.inr hsocket))
      · exact hproper

/-- A proxy whose process can be started stays proper. -/
theorem step_proper {p : ProxyId} (hlistens : (env p).listens = true)
    (hstarts : (env p).starts = true) {s s' : Service} {e : Event} (h : s.Inv)
    (hs : ∀ w, s.Settled w) (hp : s.Proper p) (hw : WindsUp p s e)
    (hrun : s.step env e = .ok s') : s'.Proper p := by
  by_cases he : ¬ e.IsCall ∧ ¬ e.MayAnswer
  · exact (local_cases he hrun).proper hp hw
  · refine (handles h hs hrun).1.invariant (I := Proper p) hp fun a t t' ht ha hact => ?_
    refine hact.proper hlistens hstarts ?_ ht
    rintro rfl
    exact he ha

theorem reachable_proper {p : ProxyId} (hlistens : (env p).listens = true)
    (hstarts : (env p).starts = true) {s : Service}
    (h : Reachable (machine env) (WindsUp p) s) : s.Proper p := by
  induction h with
  | start => exact fun proxy hp => by cases hp
  | step h hw hrun ih =>
      obtain ⟨hi, hs⟩ := reachable_inv h
      exact step_proper hlistens hstarts hi hs ih hw hrun

theorem Proper.not_stranded {p : ProxyId} {s : Service} (h : s.Proper p) : ¬ s.Stranded p := by
  rintro ⟨proxy, hp, hgone, htimer, hdoomed, -⟩
  rcases (h proxy hp).gone hgone with hsome | hend
  · simp [htimer] at hsome
  · exact hdoomed hend

/-! ### What strands a request -/

instance (p : ProxyId) (s : Service) : ∀ e : Event, Decidable (WindsUp p s e)
  | .processExited q => inferInstanceAs (Decidable (q = p → ∀ proxy ∈ s.proxies p,
      proxy.process = .running → proxy.socket = .none →
        proxy.finishedTimer.isSome ∨ p ∈ s.doomed))
  | .finishedTimer q => inferInstanceAs (Decidable (q = p → ∀ proxy ∈ s.proxies p,
      proxy.finishedTimer.isSome → proxy.Gone → proxy.requests.isEmpty ∨ p ∈ s.doomed))
  | .call _ _ _ | .cancelUiRequest _ | .newConnection _ | .disconnected _ | .dataReady _ _
  | .promptSessionFinished _ | .deleteProxy _ | .deleteRequest _ => .isTrue trivial

theorem Inv.exists_waiting {s : Service} (h : s.Inv) (hh : s.History) {p : ProxyId}
    {proxy : UiProxy} (hp : s.proxies p = some proxy) (hempty : proxy.requests.isEmpty = false) :
    ∃ r, proxy.Holds r ∧ ∀ reply, .replied r reply ∉ s.log := by
  obtain ⟨id, hid⟩ := Std.TreeMap.isEmpty_eq_false_iff_exists_mem.mp hempty
  have hr := Std.TreeMap.getElem?_eq_some_getElem hid
  refine ⟨_, ⟨id, hr⟩, fun reply hreply => ?_⟩
  have hheld := (h.holds p _).mp ⟨proxy, hp, id, hr⟩
  have hdone : s.phase proxy.requests[id] = .done := hh _ hreply
  simp [hdone, Phase.HeldBy] at hheld

theorem stranded_of_not_windsUp {p : ProxyId} {s s' : Service} {e : Event} (h : s.Inv)
    (hh : s.History) (hp : s.Proper p) (hw : ¬ WindsUp p s e) (hrun : s.step env e = .ok s') :
    s'.Stranded p := by
  cases e with
  | processExited q =>
      simp only [WindsUp, Classical.not_imp, not_forall, not_or] at hw
      obtain ⟨rfl, proxy, hproxy, hrunning, hsocket, htimer, hdoomed⟩ := hw
      have hs' : s' = s.setProxy q ({ · with process := .exited }) := by
        simp only [step, withProxy, Option.mem_def.mp hproxy, hrunning, if_true] at hrun
        exact (Except.ok.inj hrun).symm
      have hempty : proxy.requests.isEmpty = false := by
        by_contra hempty
        exact ((hp proxy hproxy).empty (by simpa using hempty)).elim htimer hdoomed
      obtain ⟨r, hr, hnone⟩ := h.exists_waiting hh hproxy hempty
      rw [hs']
      refine ⟨{ proxy with process := .exited }, by simp [Option.mem_def.mp hproxy],
        .inr (.inl ⟨rfl, hsocket⟩), by simpa using htimer, hdoomed, r, hr, hnone⟩
  | finishedTimer q =>
      simp only [WindsUp, Classical.not_imp, not_forall, not_or] at hw
      obtain ⟨rfl, proxy, hproxy, htimer, hgone, hempty, hdoomed⟩ := hw
      rw [Bool.not_eq_true] at hempty
      have hs' : s' = s.setProxy q fun proxy => (UiProxy.onFinishedTimer proxy).1 := by
        simp only [step, withProxy, Option.mem_def.mp hproxy, htimer, if_true, mayFinish,
          UiProxy.onFinishedTimer, hempty, Bool.false_eq_true, if_false] at hrun
        exact (Except.ok.inj hrun).symm
      obtain ⟨r, hr, hnone⟩ := h.exists_waiting hh hproxy hempty
      rw [hs']
      exact ⟨{ proxy with finishedTimer := none },
        by simp [Option.mem_def.mp hproxy, UiProxy.onFinishedTimer], hgone, rfl, hdoomed, r, hr,
        hnone⟩
  | _ => exact absurd trivial hw

/-- **Stranded requests**: a proxy whose socket can be set up and whose process can be started
strands no request, as long as neither its process exits before connecting nor its timer forgets
a disconnection; and the next event strands a request if and only if it is one of these. -/
theorem not_stranded_iff (env : ProxyId → Environment) {p : ProxyId}
    (hlistens : (env p).listens = true) (hstarts : (env p).starts = true) {s : Service}
    (h : Reachable (machine env) (WindsUp p) s) :
    ¬ s.Stranded p ∧ ∀ e s', s.step env e = .ok s' → (¬ s'.Stranded p ↔ WindsUp p s e) := by
  have hp := reachable_proper hlistens hstarts h
  obtain ⟨hi, hs⟩ := reachable_inv h
  refine ⟨hp.not_stranded, fun e s' hrun => ⟨fun hnot => ?_, fun hw => ?_⟩⟩
  · by_contra hw
    exact hnot (stranded_of_not_windsUp hi (reachable_history h) hp hw hrun)
  · exact (step_proper hlistens hstarts hi hs hp hw hrun).not_stranded

/-- A call that is not routed puts its request alone into the queue of a window without requests,
and runs this queue. -/
theorem exists_call_eq_run {s : Service} {request : Request}
    (hhandler : s.handlerFor request.parameters = none) (hqueue : s.queue request.windowId = []) :
    ∃ t : Service, s.call env request = run env request.windowId t ∧
      t.queue request.windowId = [s.nextRequest] ∧ t.requests s.nextRequest = request ∧
        t.nextProxy = s.nextProxy ∧ t.doomed = s.doomed := by
  have hrequest : (s.newRequest request).requests s.nextRequest = request :=
    Function.update_self _ _ _
  have hroute : (s.newRequest request).handlerFor request.parameters = none := hhandler
  have hwindow : (s.newRequest request).windowId s.nextRequest = request.windowId := by
    rw [windowId, hrequest]
  have hempty : (s.newRequest request).queue request.windowId = [] := hqueue
  unfold call enqueue
  rw [hrequest, hroute]
  dsimp only
  rw [hwindow, hempty, List.nil_append]
  refine ⟨_, rfl, ?_⟩
  split_ifs
  · exact ⟨by simp [queue, isIdleChanged], hrequest, rfl, rfl⟩
  · exact ⟨by simp [queue], hrequest, rfl, rfl⟩

/-- A proxy whose socket can't be set up or whose process can't be started strands the request that
it is made for, in the call that makes it. -/
theorem stranded_of_not_started {es : List Event} {s : Service}
    (h : (machine env).run {} es = .ok s) {interface clientApparmorProfile : String}
    {parameters : QVariantMap} {request : Request}
    (hrequest : request = {
      interface := interface
      parameters := parameters
      clientApparmorProfile := clientApparmorProfile })
    (hhandler : s.handlerFor request.parameters = none) (hqueue : s.queue request.windowId = [])
    (hinit : (UiProxy.init (env s.nextProxy) { clientPid := request.clientPid }).2 = true)
    (hnot : (env s.nextProxy).listens = false ∨ (env s.nextProxy).starts = false) :
    ∃ s', s.step env (.call interface parameters clientApparmorProfile) = .ok s' ∧
      s'.Stranded s.nextProxy := by
  obtain ⟨hr, hdeparts⟩ := run_departs h
  obtain ⟨t, hcall, hq, ht, hnext, hdoomed⟩ := exists_call_eq_run hhandler hqueue
  have hstep : s.step env (.call interface parameters clientApparmorProfile) =
      .ok (t.hand env request.windowId s.nextRequest) := by
    have hcalled : s.step env (.call interface parameters clientApparmorProfile) =
        s.call env request := by rw [hrequest]; rfl
    have hnew : (t.newProxy env s.nextRequest).2 = true := by
      rw [newProxy, hnext, ht]
      exact hinit
    have hidle : (t.requests s.nextRequest).inProgress = false := by
      rw [ht, hrequest]
    rw [hcalled, hcall, run, hq]
    exact runQueue_hand hq hidle hnew
  have hreached : Reachable (machine env) (fun _ _ => True)
      (t.hand env request.windowId s.nextRequest) :=
    .step (e := .call interface parameters clientApparmorProfile) hr trivial hstep
  obtain ⟨hi, -⟩ := reachable_inv hreached
  have hhistory := reachable_history hreached
  have hproxy : (t.hand env request.windowId s.nextRequest).proxies s.nextProxy =
      some ((UiProxy.init (env s.nextProxy) { clientPid := request.clientPid }).1.handleRequest
        (env s.nextProxy) s.nextRequest request) := by
    simp [hand, handleRequest, newProxy, hnext, ht]
  obtain ⟨hstatus, htimer⟩ :=
    UiProxy.handleRequest_not_started hnot request.clientPid s.nextRequest request
  refine ⟨_, hstep, _, hproxy, .inl hstatus, htimer, ?_, hi.exists_waiting hhistory hproxy ?_⟩
  · intro hmem
    have hmem : s.nextProxy ∈ s.doomed := hdoomed ▸ hmem
    exact (hdeparts.doomed _ hmem).2.false
  · rw [UiProxy.handleRequest_requests]
    simp

/-- The UI process disconnects while the timer of an answered request runs, and the timer
expires. -/
theorem not_stranded_iff_disconnected :
    ∃ s, (machine fun _ => {}).run {}
        [.queryDialog 1 "a", .newConnection 0, .dataReady 0 (.finished 0 .nil 1000 ""),
          .disconnected 0, .finishedTimer 0] = .ok s ∧
      ¬ s.Stranded 0 ∧ ∀ e s', s.step (fun _ => {}) e = .ok s' →
        (¬ s'.Stranded 0 ↔ WindsUp 0 s e) := by
  refine (exists_reachable (machine fun _ => {}) (WindsUp 0) _ ?_ ?_).imp
    fun s h => ⟨h.1, not_stranded_iff _ rfl rfl h.2⟩
  · decide
  · decide

/-- The same, but another request has been routed to the proxy meanwhile. -/
theorem stranded_by_the_timer :
    ∃ s, (machine fun _ => {}).run {}
        [.queryDialog 1 "a", .newConnection 0, .dataReady 0 (.newHandler "h"),
          .queryDialogFor "h", .dataReady 0 (.finished 0 .nil 1000 ""), .disconnected 0,
          .finishedTimer 0] = .ok s ∧
      s.Stranded 0 := by
  obtain ⟨s, hs, hr⟩ := exists_reachable (machine fun _ => {}) (fun _ _ => True)
    [.queryDialog 1 "a", .newConnection 0, .dataReady 0 (.newHandler "h"),
      .queryDialogFor "h", .dataReady 0 (.finished 0 .nil 1000 ""), .disconnected 0,
      .finishedTimer 0] (by decide) (by decide)
  have hend : ((machine fun _ => {}).run {}
      [.queryDialog 1 "a", .newConnection 0, .dataReady 0 (.newHandler "h"),
        .queryDialogFor "h", .dataReady 0 (.finished 0 .nil 1000 ""), .disconnected 0,
        .finishedTimer 0]).map (fun s => (s.doomed, (s.proxies 0).any fun proxy =>
          proxy.Gone ∧ proxy.finishedTimer = none ∧ proxy.requests.isEmpty = false)) =
      .ok ([], true) := by decide
  obtain ⟨hdoomed, hany⟩ := Prod.mk.inj (Except.ok.inj (hs ▸ hend))
  obtain ⟨proxy, hp, hproxy⟩ := (Option.any_eq_true _ _).mp hany
  obtain ⟨hgone, htimer, hempty⟩ := of_decide_eq_true hproxy
  exact ⟨s, hs, proxy, hp, hgone, htimer, by simp [hdoomed],
    (reachable_inv hr).1.exists_waiting (reachable_history hr) hp hempty⟩

end Service

end OnlineAccounts
