import OnlineAccounts.Answers
import OnlineAccounts.Pairing

/-! # Answers in flight

An id that was sent to a connected UI process is dropped when its request is not registered any
more (`Dropped`).  Two things drop an id: the answer of the UI process, and a cancellation on the
side of the service, of which the UI process is not told.  In the second case the answer is still
to come, and `onDataReady` finds no request for it.

`answers_registered` says that there is no other case: as long as no request that has been sent to
a connected UI process is cancelled (`CancelsSent`), every answer finds its request. -/

namespace OnlineAccounts

namespace UiProxy

/-- The UI process is connected and has been sent this id, which is not registered any more. -/
structure Dropped (id : ℤ) (proxy : UiProxy) : Prop where
  socket : proxy.socket = .connected
  sent : id ∈ proxy.sent.filterMap Operation.processed
  unregistered : proxy.requests[id]? = none

variable {unsent : ℕ → Prop} {read : List Operation} {handled : List RequestId}
  {requests : RequestId → Request} {proxy : UiProxy} {id : ℤ}

theorem Dropped.of_handleRequest (hd : proxy.Dispatched unsent read handled requests)
    {env : Environment} {r : RequestId} {request : Request}
    (h : (proxy.handleRequest env r request).Dropped id) : proxy.Dropped id := by
  obtain ⟨hsocket, hid, hnone⟩ := h
  obtain ⟨hsame, hcases⟩ := handleRequest_cases env proxy r request
  rw [handleRequest_requests, Std.TreeMap.getElem?_insert] at hnone
  split_ifs at hnone with he
  rw [compare_eq_iff_eq] at he
  have hstatus : proxy.status = .ready := hd.ready.mpr (by simp [← hsame, hsocket])
  have hsent := (hcases.resolve_right fun hnot => hnot.1 hstatus).2.2
  rw [hsent, List.filterMap_append, List.mem_append] at hid
  refine ⟨hsame ▸ hsocket, hid.resolve_right fun hnew => he ?_, hnone⟩
  exact (List.mem_singleton.mp hnew).symm

theorem Dropped.of_onNewConnection (hd : proxy.Dispatched unsent read handled requests)
    (h : (proxy.onNewConnection requests).Dropped id) : proxy.Dropped id := by
  unfold UiProxy.onNewConnection at h
  rw [sendAll_eq] at h
  split_ifs at h with hsocket
  · obtain ⟨-, hid, hnone⟩ := h
    obtain ⟨es, hes⟩ := hd.sent
    have hnil : proxy.sent = [] := by
      rw [hes.sent, hes.before fun hready => hd.ready.mp hready hsocket]
      rfl
    simp only [hnil, List.nil_append, List.filterMap_map, List.mem_filterMap] at hid
    obtain ⟨e, he, hid⟩ := hid
    obtain rfl : e.1 = id := Option.some.inj hid
    rw [Std.TreeMap.mem_toList_iff_getElem?_eq_some, hnone] at he
    cases he
  · exact h

end UiProxy

namespace Service

open Transition UiProxy

variable {env : ProxyId → Environment} {p : ProxyId}

/-! ### What the proxies keep -/

/-- If the UI process of proxy `p` is connected, then it was connected before, nothing has been
written to it since, and nothing has been registered. -/
def Continues (p : ProxyId) (s s' : Service) : Prop :=
  ∀ proxy', s'.proxies p = some proxy' → proxy'.socket = .connected →
    ∃ proxy, s.proxies p = some proxy ∧ proxy.socket = .connected ∧ proxy'.sent = proxy.sent ∧
      ∀ (id : ℤ) (r : RequestId), proxy'.requests[id]? = some r → proxy.requests[id]? = some r

theorem Continues.of_eq {s s' : Service} (h : s'.proxies p = s.proxies p) : Continues p s s' :=
  fun proxy' hp hsocket => ⟨proxy', h ▸ hp, hsocket, rfl, fun _ _ => id⟩

theorem Continues.trans {s t u : Service} (h : Continues p s t) (h' : Continues p t u) :
    Continues p s u := by
  intro proxy'' hp'' hsocket''
  obtain ⟨proxy', hp', hsocket', hsent', hrequests'⟩ := h' proxy'' hp'' hsocket''
  obtain ⟨proxy, hp, hsocket, hsent, hrequests⟩ := h proxy' hp' hsocket'
  exact ⟨proxy, hp, hsocket, hsent'.trans hsent, fun id r hr => hrequests id r (hrequests' id r hr)⟩

theorem Continues.unregister (s : Service) (q : ProxyId) (r : RequestId) :
    Continues p s (s.unregister q r) := by
  intro proxy' hp' hsocket
  obtain ⟨proxy, hp, rfl⟩ := setProxy_some.mp hp'
  refine ⟨proxy, hp, ?_, ?_, fun id a ha => ?_⟩
  · split_ifs at hsocket <;> exact hsocket
  · split_ifs <;> rfl
  · split_ifs at ha
    · exact requests_onRequestCompleted proxy r _ id a ha
    · exact ha

theorem Continues.hand (env : ProxyId → Environment) (s : Service) (w : ℕ) (r : RequestId) :
    Continues p s (s.hand env w r) := by
  by_cases hp : p = s.nextProxy
  · subst hp
    intro proxy' hp hsocket
    simp only [Service.hand, Service.handleRequest, setRequest_proxies, connect_proxies,
      setProxy_proxies, emit_proxies, Function.update_self, Option.map_some] at hp
    obtain rfl := Option.some.inj hp
    obtain ⟨promptSession, environment, hinit⟩ :=
      UiProxy.init_eq (env s.nextProxy) { clientPid := (s.requests r).clientPid }
    rw [(handleRequest_cases _ _ r _).1, newProxy, hinit] at hsocket
    cases hsocket
  · exact .of_eq (by simp [Service.hand, Service.handleRequest, hp])

/-- Only a routed request is written to a connected UI process. -/
theorem Act.continues {a : Label} {s s' : Service} (h : Act env a s s') (ht : a ≠ .touch)
    (hr : a ≠ .route) : Continues p s s' := by
  cases h with
  | accept | refuse | idle | clear | delay | finish | deleteRequest => exact .of_eq rfl
  | route => exact absurd rfl hr
  | hand => exact .hand env s _ _
  | complete reply _ _ => exact .unregister (((s.answer _ reply).deleteLater _).dequeue _ _) _ _
  | completeRouted reply _ => exact .unregister ((s.answer _ reply).deleteLater _) _ _
  | completeAgain reply _ =>
      refine completeAgain_induction (I := Continues p s) (.of_eq rfl) fun t slot ht => ?_
      cases slot with
      | manager | deleteLater => exact ht.trans (.of_eq rfl)
      | proxy q => exact ht.trans (.unregister t q _)
  | touch => exact absurd rfl ht
  | @deleteProxy _ q _ =>
      by_cases hq : p = q
      · intro proxy' hp
        simp [hq] at hp
      · exact .of_eq (by simp [hq])

theorem Handled.continues {s s' : Service} {e : Event} (h : Handled env e s s')
    (he : ¬ (¬ e.IsCall ∧ ¬ e.MayAnswer)) (hr : ¬ s.Routes e) : Continues p s s' := by
  refine h.1.invariant (I := Continues p s) (.of_eq rfl) fun a t t' hc ha hact => ?_
  refine hc.trans (hact.continues ?_ ?_)
  · rintro rfl
    exact he ha
  · rintro rfl
    exact hr ha

/-! ### What an event drops -/

/-- The UI process of proxy `p` has been sent this id, which is not registered any more. -/
def Dropped (s : Service) (p : ProxyId) (id : ℤ) : Prop :=
  ∃ proxy, s.proxies p = some proxy ∧ proxy.Dropped id

variable {unsent : ℕ → Prop} {read : List Operation} {id : ℤ}

theorem Dropped.of_setProxy {s : Service} {q : ProxyId} {f : UiProxy → UiProxy}
    (h : (s.setProxy q f).Dropped p id)
    (hf : ∀ proxy, s.proxies p = some proxy → p = q → (f proxy).Dropped id → proxy.Dropped id) :
    s.Dropped p id := by
  obtain ⟨proxy', hp', hdropped⟩ := h
  obtain ⟨proxy, hp, rfl⟩ := setProxy_some.mp hp'
  refine ⟨proxy, hp, ?_⟩
  split_ifs at hdropped with hq
  · exact hf proxy hp hq hdropped
  · exact hdropped

theorem Dropped.of_mayFinish {s : Service} {q : ProxyId} {method : UiProxy → UiProxy × Bool}
    {proxy : UiProxy} (h : (s.mayFinish q method proxy).Dropped p id)
    (hf : ∀ proxy, (method proxy).1.Dropped id → proxy.Dropped id) : s.Dropped p id := by
  have hset : (s.setProxy q fun proxy => (method proxy).1).Dropped p id := by
    unfold mayFinish at h
    simp only at h
    split_ifs at h <;> exact h
  exact hset.of_setProxy fun proxy _ _ => hf proxy

theorem Dropped.of_route {s : Service} (hd : s.Dispatches unsent read p) {q : ProxyId}
    {request : Request} (h : (s.route env q request).Dropped p id) : s.Dropped p id := by
  have hset : (s.setProxy q (·.handleRequest (env q) s.nextRequest
      ((s.newRequest request).requests s.nextRequest))).Dropped p id := h
  exact hset.of_setProxy fun proxy hp _ hdropped => hdropped.of_handleRequest (hd.proxy proxy hp)

theorem LocalStep.dropped {s s' : Service} {e : Event} (h : LocalStep s e s')
    (hd : s.Dispatches unsent read p) (hdropped : s'.Dropped p id) : s.Dropped p id := by
  cases h with
  | nothing | promptSessionFinished _ _ | deleteRequest _ => exact hdropped
  | newConnection _ _ =>
      exact hdropped.of_setProxy fun proxy hp _ h => h.of_onNewConnection (hd.proxy proxy hp)
  | disconnected _ _ => exact hdropped.of_mayFinish fun proxy h => by cases h.socket
  | finishedTimer _ _ => exact hdropped.of_mayFinish fun proxy h => ⟨h.1, h.2, h.3⟩
  | newHandler _ _ _ | processExited _ _ =>
      exact hdropped.of_setProxy fun proxy _ _ h => ⟨h.1, h.2, h.3⟩

/-- An event drops the ids of the requests that it ends. -/
theorem step_dropped {s s' : Service} {e : Event} (hi : s.Inv) (hs : ∀ w, s.Settled w)
    (ho : s.ServedOnce) (hd : s.Dispatches unsent read p) (hrun : s.step env e = .ok s')
    (hdropped : s'.Dropped p id) : s.Dropped p id ∨
      ∃ proxy r, s.proxies p = some proxy ∧ proxy.socket = .connected ∧
        proxy.requests[id]? = some r ∧ s.Ends r e := by
  by_cases he : ¬ e.IsCall ∧ ¬ e.MayAnswer
  · exact .inl ((local_cases he hrun).dropped hd hdropped)
  by_cases hr : s.Routes e
  · obtain ⟨q, request, rfl⟩ := step_routed hr hrun
    exact .inl (hdropped.of_route hd)
  have hhandled := handles hi hs hrun
  obtain ⟨proxy', hp', hsocket', hid, hnone⟩ := hdropped
  obtain ⟨proxy, hp, hsocket, hsent, hrequests⟩ :=
    hhandled.continues he hr proxy' hp' hsocket'
  cases hreq : proxy.requests[id]? with
  | none => exact .inl ⟨proxy, hp, hsocket, hsent ▸ hid, hreq⟩
  | some r =>
      refine .inr ⟨proxy, r, hp, hsocket, hreq, ?_⟩
      by_contra hnot
      -- the request would still be registered
      have hi' : s'.Inv := hi.path hhandled.1
      have hheld := (hi.holds p r).mp ⟨proxy, hp, id, hreq⟩
      have hphase := (step_answered hi hs ho hrun).phase r p hheld hnot
      obtain ⟨proxy'', hp'', id', hid'⟩ := (hi'.holds p r).mpr (hphase.symm ▸ hheld)
      obtain rfl := Option.some.inj (hp'.symm.trans hp'')
      obtain rfl := (hi.valid p proxy hp).injective _ _ _ (hrequests _ _ hid') hreq
      simp [hnone] at hid'

end Service

namespace System

open Transition UiProxy

variable {env : ProxyId → Environment}

/-- The answer that is delivered to a proxy next finds its request. -/
def AnswersRegistered (s : System) : Prop :=
  ∀ p proxy operation id, s.service.proxies p = some proxy → proxy.socket = .connected →
    s.undelivered p = some operation → operation.answers = some id →
      ∃ r, proxy.requests[id]? = some r

/-- The event cancels a request that has been sent to a connected UI process. -/
def CancelsSent (s : System) : Event → Prop
  | .service (.cancelUiRequest requestId) => ∃ r ∈ s.service.findUiRequest requestId,
      ∃ p ∈ List.range s.service.nextProxy, ∃ proxy ∈ s.service.proxies p,
        proxy.socket = .connected ∧ r ∈ proxy.requests.toList.map Prod.snd
  | _ => False

instance : ∀ (s : System) (e : Event), Decidable (s.CancelsSent e)
  | s, .service (.cancelUiRequest requestId) =>
      inferInstanceAs (Decidable (∃ r ∈ s.service.findUiRequest requestId,
        ∃ p ∈ List.range s.service.nextProxy, ∃ proxy ∈ s.service.proxies p,
          proxy.socket = .connected ∧ r ∈ proxy.requests.toList.map Prod.snd))
  | _, .service (.call _ _ _) | _, .service (.newConnection _) | _, .service (.disconnected _)
  | _, .service (.dataReady _ _) | _, .service (.finishedTimer _)
  | _, .service (.promptSessionFinished _) | _, .service (.processExited _)
  | _, .service (.deleteProxy _) | _, .service (.deleteRequest _)
  | _, .read _ | _, .ui _ _ | _, .deliver _ => .isFalse id

/-- The operations of the UI process that have been delivered to proxy `p`. -/
def arrived (s : System) (p : ProxyId) : List Operation := (s.servers p).sent.take (s.delivered p)

/-- The answers to the ids that are not registered any more have arrived. -/
def Accounted (s : System) : Prop :=
  ∀ p id, s.service.Dropped p id → id ∈ (s.arrived p).filterMap Operation.answers

/-- What has arrived stays, and the ids that are dropped have been answered. -/
theorem Accounted.of_arrived {s s' : System} (h : s.Accounted)
    (harrived : ∀ p, (s.arrived p).Sublist (s'.arrived p))
    (hdropped : ∀ p id, s'.service.Dropped p id → s.service.Dropped p id ∨
      id ∈ (s'.arrived p).filterMap Operation.answers) : s'.Accounted := by
  intro p id hid
  rcases hdropped p id hid with hold | hnew
  · exact ((harrived p).filterMap _).subset (h p id hold)
  · exact hnew

theorem Accounted.setServer {s : System} (h : s.Accounted) (p : ProxyId) {f : UiServer → UiServer}
    (hf : (s.servers p).sent <+: (f (s.servers p)).sent) : (s.setServer p f).Accounted := by
  refine h.of_arrived (fun q => ?_) fun _ _ => .inl
  by_cases hq : q = p
  · subst hq
    simpa [arrived, System.setServer] using (hf.take _).sublist
  · simp [arrived, System.setServer, hq]

theorem deleteProxy_none {s s' : Service} (hi : s.Inv) {p : ProxyId} (hdoomed : p ∈ s.doomed)
    (hrun : s.step env (.deleteProxy p) = .ok s') : s'.proxies p = none := by
  rcases Service.withProxy_ok hrun with ⟨rfl, hnot⟩ | ⟨proxy, hp, -, hrun⟩
  · cases hp : s'.proxies p with
    | none => rfl
    | some proxy => exact absurd hdoomed (hnot proxy hp)
  · obtain ⟨t, -, -, ht⟩ := Service.deleteProxy_spec env hi hp
    obtain rfl := Except.ok.inj (ht.symm.trans hrun)
    simp

/-- An event of the service that is not a delivery drops no id, unless it cancels a request that
has been sent. -/
theorem dropped_of_service {s : System} (hs : Reachable (Service.machine env) (fun _ _ => True)
    s.service) (hl : s.Linked) {e : OnlineAccounts.Event} (he : ∀ p o, e ≠ .dataReady p o)
    (hg : ¬ s.CancelsSent (.service e)) {service : Service}
    (hrun : s.service.step env e = .ok service) {p : ProxyId} {id : ℤ}
    (h : service.Dropped p id) : s.service.Dropped p id := by
  obtain ⟨hi, hsettled⟩ := Service.reachable_inv hs
  rcases Service.step_dropped hi hsettled (Service.reachable_servedOnce hs) (hl.dispatches p) hrun
    h with hold | ⟨proxy, r, hp, hsocket, hreq, hends⟩
  · exact hold
  have hheld : (s.service.phase r).HeldBy p := (hi.holds p r).mp ⟨proxy, hp, id, hreq⟩
  cases e with
  | dataReady q operation => exact absurd rfl (he q operation)
  | cancelUiRequest requestId =>
      refine absurd ⟨r, hends, p, List.mem_range.mpr (hi.lt_nextProxy hheld), proxy, hp, hsocket,
        ?_⟩ hg
      exact ((hi.registered hp).2 r).mpr hheld
  | deleteProxy q =>
      -- the proxy of the request is gone
      obtain ⟨hdoomed, proxy', hp', hr⟩ := hends
      obtain rfl := hheld.unique (((hi.registered hp').2 r).mp hr)
      obtain ⟨proxy'', hp'', -⟩ := h
      rw [deleteProxy_none hi hdoomed hrun] at hp''
      cases hp''
  | _ => exact hends.elim

theorem dropped_of_deliver {s : System} (hs : Reachable (Service.machine env) (fun _ _ => True)
    s.service) (hl : s.Linked) {q : ProxyId} {operation : Operation} {service : Service}
    (hrun : s.service.step env (.dataReady q operation) = .ok service) {p : ProxyId} {id : ℤ}
    (h : service.Dropped p id) :
    s.service.Dropped p id ∨ (p = q ∧ operation.answers = some id) := by
  obtain ⟨hi, hsettled⟩ := Service.reachable_inv hs
  refine (Service.step_dropped hi hsettled (Service.reachable_servedOnce hs) (hl.dispatches p) hrun
    h).imp_right ?_
  rintro ⟨proxy, r, hp, hsocket, hreq, proxy', hp', -, id', hid', hreq'⟩
  obtain rfl : p = q :=
    ((hi.holds p r).mp ⟨proxy, hp, id, hreq⟩).unique ((hi.holds q r).mp ⟨proxy', hp', id', hreq'⟩)
  obtain rfl := Option.some.inj (hp.symm.trans hp')
  obtain rfl := (hi.valid p proxy hp).injective _ _ _ hreq hreq'
  exact ⟨rfl, hid'⟩

theorem reachable_accounted {s : System}
    (h : Reachable (machine env) (fun s e => ¬ s.CancelsSent e) s) : s.Accounted := by
  induction h with
  | start => exact fun p id ⟨proxy, hp, _⟩ => by cases hp
  | @step s s' e h hg hrun ih =>
      have hs := reachable_service h
      have hl := reachable_linked h
      cases step_cases hrun with
      | nothing => exact ih
      | read hu =>
          refine ih.setServer _ ?_
          unfold UiServer.onDataReady
          split <;> exact List.prefix_rfl
      | ui p e => exact ih.setServer p (UiServer.handle_sent _ e)
      | service he hstep =>
          exact ih.of_arrived (fun _ => List.Sublist.refl _)
            fun p id hid => .inl (dropped_of_service hs hl he hg hstep hid)
      | @deliver q operation service hu hstep =>
          have harrived : arrived { s with
              service := service
              delivered := Function.update s.delivered q (s.delivered q + 1) } q =
                s.arrived q ++ [operation] := by
            unfold arrived
            simp only [Function.update_self, List.take_add_one]
            exact congrArg (s.arrived q ++ ·.toList) hu
          refine ih.of_arrived (fun p => ?_) fun p id hid => ?_
          · by_cases hp : p = q
            · subst hp
              rw [harrived]
              exact List.sublist_append_left _ _
            · simp [arrived, hp]
          · refine (dropped_of_deliver hs hl hstep hid).imp_right ?_
            rintro ⟨rfl, hanswer⟩
            rw [harrived, List.filterMap_append]
            exact List.mem_append_right _ (List.mem_filterMap.mpr ⟨operation, by simp, hanswer⟩)

/-- An id is answered once, so that the answer to an id that is not registered has arrived. -/
theorem Accounted.answersRegistered {s : System} (h : s.Accounted) (hl : s.Linked) :
    s.AnswersRegistered := by
  intro p proxy operation id hp hsocket hu hid
  cases hreq : proxy.requests[id]? with
  | some r => exact ⟨r, rfl⟩
  | none =>
      have ho : operation ∈ (s.servers p).sent := List.mem_of_getElem? hu
      obtain ⟨request, -, rfl, -, horigin⟩ := hl.answers_sent hp ho hid
      have hsent : request.id ∈ proxy.sent.filterMap Operation.processed :=
        List.mem_filterMap.mpr ⟨_, horigin, rfl⟩
      have harrived := h p request.id ⟨proxy, hp, hsocket, hsent, hreq⟩
      -- the answer would be there twice
      have hnd := (hl.valid p).answers
      rw [← List.take_append_drop (s.delivered p) (s.servers p).sent, List.filterMap_append] at hnd
      have hnext : operation ∈ (s.servers p).sent.drop (s.delivered p) := by
        refine List.mem_iff_getElem?.mpr ⟨0, ?_⟩
        rw [List.getElem?_drop]
        exact hu
      exact absurd rfl ((List.nodup_append.mp hnd).2.2 _ harrived _
        (List.mem_filterMap.mpr ⟨operation, hnext, hid⟩))

/-- **Answers in flight**: as long as no request that has been sent to a connected UI process is
cancelled, every answer that is delivered finds its request. -/
theorem answers_registered (env : ProxyId → Environment) {s : System}
    (h : Reachable (machine env) (fun s e => ¬ s.CancelsSent e) s) : s.AnswersRegistered :=
  (reachable_accounted h).answersRegistered (reachable_linked h)

/-- A waiting request is cancelled while the first one is answered. -/
theorem answers_registered_waiting :
    ∃ s, (machine fun _ => {}).run {}
        [.service (.queryDialog 1 "a"), .service (.queryDialog 1 "b"),
          .service (.newConnection 0), .read 0, .service (.cancelUiRequest "b"),
          .ui 0 (.setResult 0 .nil)] = .ok s ∧
      s.AnswersRegistered := by
  refine (exists_reachable (machine fun _ => {}) (fun s e => ¬ s.CancelsSent e) _ ?_ ?_).imp
    fun s h => ⟨h.1, answers_registered _ h.2⟩
  · decide
  · decide

/-- The UI process answers before the request is cancelled, and the answer is delivered after
that. -/
theorem canceled_in_flight :
    ∃ s, (machine fun _ => {}).run {}
        [.service (.queryDialog 1 "a"), .service (.newConnection 0), .read 0,
          .ui 0 (.setResult 0 .nil), .service (.cancelUiRequest "a")] = .ok s ∧
      ¬ s.AnswersRegistered ∧ s.step (fun _ => {}) (.deliver 0) = .error .nullRequest := by
  obtain ⟨s, hs, hr⟩ := exists_reachable (machine fun _ => {}) (fun _ _ => True)
    [.service (.queryDialog 1 "a"), .service (.newConnection 0), .read 0,
      .ui 0 (.setResult 0 .nil), .service (.cancelUiRequest "a")] (by decide) (by decide)
  have hend : ((machine fun _ => {}).run {}
      [.service (.queryDialog 1 "a"), .service (.newConnection 0), .read 0,
        .ui 0 (.setResult 0 .nil), .service (.cancelUiRequest "a")]).map
      (fun s => (s.undelivered 0, (s.service.proxies 0).map fun proxy =>
        (proxy.socket, proxy.requests[(0 : ℤ)]?))) =
      .ok (some (.finished 0 .nil 0 SIGNONUI_INTERFACE), some (.connected, none)) := by decide
  obtain ⟨hu, hproxy⟩ := Prod.mk.inj (Except.ok.inj (hs ▸ hend))
  obtain ⟨proxy, hp, hpair⟩ := Option.map_eq_some_iff.mp hproxy
  obtain ⟨hsocket, hnone⟩ := Prod.mk.inj hpair
  refine ⟨s, hs, fun hregistered => ?_, ?_⟩
  · obtain ⟨r, hr⟩ := hregistered 0 proxy _ 0 hp hsocket hu rfl
    cases hnone.symm.trans hr
  · have hnull : s.service.step (fun _ => {})
        (.dataReady 0 (.finished 0 .nil 0 SIGNONUI_INTERFACE)) = .error .nullRequest := by
      simp only [Service.step, Service.withProxy, hp, hsocket, if_true]
      exact Service.onDataReady_null rfl hnone
    simp only [step, hu, hnull]
    rfl

end System

end OnlineAccounts
