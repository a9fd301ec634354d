import OnlineAccounts.QueueDiscipline

/-! # The end of a proxy

A proxy emits `finished()` when its timer expires and no request is registered, when its socket is
disconnected, or when its prompt session ends.  The manager then forgets the proxy and has it
deleted; its destructor cancels the requests that are still registered.

`timer_kills_nothing` says that the timer never takes a request with it: a proxy whose timer made
it emit `finished()` has no request, and gets none afterwards.  So the destructor cancels requests
only after a disconnection or the end of the prompt session. -/

namespace OnlineAccounts

/-- No proxy gets a request after it has emitted `finished()`. -/
def HandedInTime : List Emission → Prop
  | [] => True
  | e :: log => HandedInTime log ∧
      ∀ p, (∃ r w, e = .handed r w p) ∨ (∃ r, e = .routed r p) → .finished p ∉ log

/-- Gives no request to a proxy, and ends none. -/
def Emission.Stays : Emission → Prop
  | .handed _ _ _ | .routed _ _ | .finished _ => False
  | _ => True

theorem HandedInTime.append {log : List Emission} (h : HandedInTime log) {es : List Emission}
    (hes : ∀ e ∈ es, e.Stays) : HandedInTime (es ++ log) := by
  induction es with
  | nil => exact h
  | cons e es ih =>
      obtain ⟨hstays, hes⟩ := List.forall_mem_cons.mp hes
      refine ⟨ih hes, ?_⟩
      rintro p (⟨r, w, rfl⟩ | ⟨r, rfl⟩)
      · exact hstays.elim
      · exact hstays.elim

theorem HandedInTime.split {later earlier : List Emission} {p : ProxyId}
    (h : HandedInTime (later ++ .finished p :: earlier)) :
    (∀ r w, .handed r w p ∉ later) ∧ ∀ r, .routed r p ∉ later := by
  induction later with
  | nil => exact ⟨fun _ _ => List.not_mem_nil, fun _ => List.not_mem_nil⟩
  | cons e later ih =>
      obtain ⟨hlater, hnot⟩ := h
      obtain ⟨hhanded, hrouted⟩ := ih hlater
      have hfinished : .finished p ∈ later ++ .finished p :: earlier :=
        List.mem_append_right later List.mem_cons_self
      refine ⟨?_, ?_⟩
      · intro r w hmem
        rcases List.mem_cons.mp hmem with he | hmem
        · exact hnot p (Or.inl ⟨r, w, he.symm⟩) hfinished
        · exact hhanded r w hmem
      · intro r hmem
        rcases List.mem_cons.mp hmem with he | hmem
        · exact hnot p (Or.inr ⟨r, he.symm⟩) hfinished
        · exact hrouted r hmem

namespace Service

open Transition

variable {env : ProxyId → Environment}

/-- The proxies that go: they are not managed any more, and those that take requests with them
are disconnected, or excused. -/
structure Departs (excused : ProxyId → Prop) (s : Service) : Prop where
  nodup : s.managed.Nodup
  managed : ∀ p ∈ s.managed, p < s.nextProxy
  doomed : ∀ p ∈ s.doomed, p ∉ s.managed ∧ p < s.nextProxy
  finished : ∀ p, .finished p ∈ s.log → p ∉ s.managed ∧ p < s.nextProxy
  inTime : HandedInTime s.log
  held : ∀ p ∈ s.doomed, ∀ proxy, s.proxies p = some proxy → ∀ r, proxy.Holds r →
    proxy.socket = .disconnected ∨ excused p

variable {excused : ProxyId → Prop}

theorem departs_start : Departs excused {} := by
  refine ⟨List.nodup_nil, ?_, ?_, ?_, trivial, ?_⟩
  · exact fun _ hp => absurd hp List.not_mem_nil
  · exact fun _ hp => absurd hp List.not_mem_nil
  · exact fun _ hp => absurd hp List.not_mem_nil
  · exact fun _ hp => absurd hp List.not_mem_nil

theorem Departs.mono {excused' : ProxyId → Prop} {s : Service} (h : s.Departs excused)
    (hle : ∀ p, excused p → excused' p) : s.Departs excused' :=
  ⟨h.nodup, h.managed, h.doomed, h.finished, h.inTime,
    fun p hp proxy hproxy r hr => (h.held p hp proxy hproxy r hr).imp_right (hle p)⟩

/-- The proxies of `s'` are those of `s`, with no more requests and no new connection. -/
def Shrinks (s s' : Service) : Prop :=
  ∀ p proxy', s'.proxies p = some proxy' → ∃ proxy, s.proxies p = some proxy ∧
    (proxy.socket = .disconnected → proxy'.socket = .disconnected) ∧
      ∀ r, proxy'.Holds r → proxy.Holds r

theorem Shrinks.of_eq {s s' : Service} (h : s'.proxies = s.proxies) : Shrinks s s' := by
  intro p proxy' hp
  rw [h] at hp
  exact ⟨proxy', hp, id, fun _ => id⟩

theorem shrinks_setProxy (s : Service) (p : ProxyId) {f : UiProxy → UiProxy}
    (hsocket : ∀ proxy, proxy.socket = .disconnected → (f proxy).socket = .disconnected)
    (hholds : ∀ proxy r, (f proxy).Holds r → proxy.Holds r) : Shrinks s (s.setProxy p f) := by
  intro q proxy' hq
  obtain ⟨proxy, hproxy, rfl⟩ := setProxy_some.mp hq
  refine ⟨proxy, hproxy, ?_⟩
  split_ifs
  · exact ⟨hsocket proxy, hholds proxy⟩
  · exact ⟨id, fun _ => id⟩

theorem shrinks_unregister (s : Service) (p : ProxyId) (r : RequestId) :
    Shrinks s (s.unregister p r) := by
  apply shrinks_setProxy
  · exact fun _ => id
  · rintro proxy q ⟨id, hid⟩
    exact ⟨id, UiProxy.requests_onRequestCompleted proxy r _ id q hid⟩

theorem Shrinks.trans {s s' s'' : Service} (h : Shrinks s s') (h' : Shrinks s' s'') :
    Shrinks s s'' := by
  intro p proxy'' hp
  obtain ⟨proxy', hproxy', hsocket', hholds'⟩ := h' p proxy'' hp
  obtain ⟨proxy, hproxy, hsocket, hholds⟩ := h p proxy' hproxy'
  exact ⟨proxy, hproxy, fun hs => hsocket' (hsocket hs), fun r hr => hholds r (hholds' r hr)⟩

theorem Departs.shrink {s s' : Service} (h : s.Departs excused)
    (hmanaged : s'.managed = s.managed) (hnext : s.nextProxy ≤ s'.nextProxy)
    (hdoomed : ∀ p ∈ s'.doomed, p ∈ s.doomed) (hproxies : Shrinks s s') (es : List Emission)
    (hlog : s'.log = es ++ s.log) (hes : ∀ e ∈ es, e.Stays) : s'.Departs excused := by
  refine ⟨?_, ?_, ?_, ?_, ?_, ?_⟩
  · rw [hmanaged]
    exact h.nodup
  · rw [hmanaged]
    exact fun p hp => (h.managed p hp).trans_le hnext
  · rw [hmanaged]
    intro p hp
    obtain ⟨hnot, hlt⟩ := h.doomed p (hdoomed p hp)
    exact ⟨hnot, hlt.trans_le hnext⟩
  · rw [hmanaged, hlog]
    intro p hp
    rcases List.mem_append.mp hp with hnew | hold
    · exact (hes _ hnew).elim
    · obtain ⟨hnot, hlt⟩ := h.finished p hold
      exact ⟨hnot, hlt.trans_le hnext⟩
  · rw [hlog]
    exact h.inTime.append hes
  · intro p hp proxy' hproxy' r hr
    obtain ⟨proxy, hproxy, hsocket, hholds⟩ := hproxies p proxy' hproxy'
    exact (h.held p (hdoomed p hp) proxy hproxy r (hholds r hr)).imp_left hsocket

/-- A proxy goes; if it has requests, it is disconnected or excused. -/
theorem Departs.finish {s : Service} (h : s.Departs excused) {p : ProxyId}
    (hp : p < s.nextProxy)
    (hheld : ∀ proxy, s.proxies p = some proxy → ∀ r, proxy.Holds r →
      proxy.socket = .disconnected ∨ excused p) : (s.onProxyFinished p).Departs excused := by
  have hnot {q : ProxyId} (hq : q ∉ s.managed) : q ∉ s.managed.erase p :=
    fun hmem => hq (List.mem_of_mem_erase hmem)
  have hself : p ∉ s.managed.erase p := h.nodup.not_mem_erase
  have hdoomed {q : ProxyId} (hq : q ∈ (s.onProxyFinished p).doomed) : q ∈ s.doomed ∨ q = p := by
    simp only [onProxyFinished_doomed] at hq
    split_ifs at hq
    · exact Or.inl hq
    · simpa using hq
  refine ⟨?_, ?_, ?_, ?_, ?_, ?_⟩
  · exact h.nodup.erase p
  · exact fun q hq => h.managed q (List.mem_of_mem_erase hq)
  · intro q hq
    rcases hdoomed hq with hold | rfl
    · exact ⟨hnot (h.doomed q hold).1, (h.doomed q hold).2⟩
    · exact ⟨hself, hp⟩
  · intro q hq
    rcases List.mem_cons.mp hq with hnew | hold
    · cases hnew
      exact ⟨hself, hp⟩
    · exact ⟨hnot (h.finished q hold).1, (h.finished q hold).2⟩
  · refine ⟨h.inTime, ?_⟩
    rintro q (⟨r, w, hq⟩ | ⟨r, hq⟩)
    · cases hq
    · cases hq
  · intro q hq proxy hproxy r hr
    rcases hdoomed hq with hold | rfl
    · exact h.held q hold proxy hproxy r hr
    · exact hheld proxy hproxy r hr

theorem Departs.give {s s' : Service} (h : s.Departs excused) {p : ProxyId}
    (hp : p ∈ s.managed ∨ p = s.nextProxy) (e : Emission)
    (he : (∃ r w, e = .handed r w p) ∨ ∃ r, e = .routed r p) (hlog : s'.log = e :: s.log)
    (hmanaged : s'.managed = if p ∈ s.managed then s.managed else s.managed ++ [p])
    (hnext : s.nextProxy ≤ s'.nextProxy) (hlt : p < s'.nextProxy) (hdoomed : s'.doomed = s.doomed)
    (hproxies : ∀ q, q ≠ p → s'.proxies q = s.proxies q) : s'.Departs excused := by
  have hne {q : ProxyId} (hq : q ∉ s.managed ∧ q < s.nextProxy) : q ≠ p := by
    rintro rfl
    exact absurd (hp.resolve_left hq.1) hq.2.ne
  have hgone {q : ProxyId} (hq : q ∉ s.managed ∧ q < s.nextProxy) :
      q ∉ s'.managed ∧ q < s'.nextProxy := by
    refine ⟨?_, hq.2.trans_le hnext⟩
    rw [hmanaged]
    split_ifs with hmem
    · exact hq.1
    · simp [hq.1, hne hq]
  refine ⟨?_, ?_, ?_, ?_, ?_, ?_⟩
  · rw [hmanaged]
    split_ifs with hmem
    · exact h.nodup
    · rw [List.nodup_append]
      refine ⟨h.nodup, List.nodup_singleton p, ?_⟩
      rintro a ha b hb rfl
      rw [List.mem_singleton] at hb
      exact hmem (hb ▸ ha)
  · intro q hq
    rw [hmanaged] at hq
    split_ifs at hq
    · exact (h.managed q hq).trans_le hnext
    · rcases List.mem_append.mp hq with hq | hq
      · exact (h.managed q hq).trans_le hnext
      · rw [List.mem_singleton.mp hq]
        exact hlt
  · rw [hdoomed]
    intro q hq
    exact hgone (h.doomed q hq)
  · rw [hlog]
    intro q hq
    rcases List.mem_cons.mp hq with hnew | hold
    · rcases he with ⟨r, w, rfl⟩ | ⟨r, rfl⟩ <;> cases hnew
    · exact hgone (h.finished q hold)
  · rw [hlog]
    refine ⟨h.inTime, ?_⟩
    intro q hq hfinished
    obtain rfl : q = p := by
      rcases he with ⟨r, w, rfl⟩ | ⟨r, rfl⟩ <;> rcases hq with ⟨r', w', hq⟩ | ⟨r', hq⟩ <;> cases hq <;> rfl
    exact hne (h.finished q hfinished) rfl
  · rw [hdoomed]
    intro q hq proxy hproxy r hr
    rw [hproxies q (hne (h.doomed q hq))] at hproxy
    exact h.held q hq proxy hproxy r hr

/-! ### Actions and events -/

theorem shrinks_completeAgain (r : RequestId) (reply : Reply) (s : Service) :
    Shrinks s (s.completeAgain r reply) := by
  refine completeAgain_induction (I := fun t => Shrinks s t) (.of_eq rfl) fun t slot ht => ?_
  cases slot with
  | manager | deleteLater => exact ht.trans (.of_eq rfl)
  | proxy p => exact ht.trans (shrinks_unregister t p r)

theorem completeAgain_keeps (r : RequestId) (reply : Reply) (s : Service) :
    (s.completeAgain r reply).managed = s.managed ∧
      (s.completeAgain r reply).nextProxy = s.nextProxy ∧
      (s.completeAgain r reply).doomed = s.doomed := by
  refine completeAgain_induction (I := fun t => t.managed = s.managed ∧
    t.nextProxy = s.nextProxy ∧ t.doomed = s.doomed) ⟨rfl, rfl, rfl⟩ fun t slot ht => ?_
  cases slot <;> exact ht

theorem Departs.act {a : Label} {s s' : Service} (h : s.Departs excused) (hact : Act env a s s')
    (hroute : a ≠ .route) (hfinish : ∀ p, a ≠ .finish p) (htouch : a ≠ .touch) :
    s'.Departs excused := by
  cases hact with
  | route => exact absurd rfl hroute
  | finish => exact absurd rfl (hfinish _)
  | touch => exact absurd rfl htouch
  | accept request _ =>
      exact h.shrink rfl le_rfl (fun _ => id) (.of_eq rfl) [.queued _ _] rfl (by simp [Emission.Stays])
  | @hand _ w r rest _ _ _ =>
      have hnew : s.nextProxy ∉ s.managed := fun hmem => (h.managed _ hmem).false
      refine h.give (Or.inr rfl) (.handed r w s.nextProxy) (Or.inl ⟨r, w, rfl⟩) rfl ?_
        (Nat.le_succ _) (Nat.lt_succ_self _) rfl ?_
      · rw [if_neg hnew]
        rfl
      · intro q hq
        simp [Service.hand, handleRequest, hq]
  | @refuse _ w r rest _ _ _ =>
      exact h.shrink rfl (Nat.le_succ _) (fun _ => id) (.of_eq rfl) [.completed r, .replied r _] rfl
        (by simp [Emission.Stays])
  | idle =>
      exact h.shrink rfl le_rfl (fun _ => id) (.of_eq rfl) [.isIdleChanged _] rfl
        (by simp [Emission.Stays])
  | @complete _ w r rest p reply _ _ =>
      refine h.shrink rfl le_rfl (fun _ => id) ?_ [.completed r, .replied r reply] rfl
        (by simp [Emission.Stays])
      exact Shrinks.trans (.of_eq rfl)
        (shrinks_unregister (((s.answer r reply).deleteLater r).dequeue w rest) p r)
  | @completeRouted _ r p reply _ =>
      refine h.shrink rfl le_rfl (fun _ => id) ?_ [.completed r, .replied r reply] rfl
        (by simp [Emission.Stays])
      exact Shrinks.trans (.of_eq rfl) (shrinks_unregister ((s.answer r reply).deleteLater r) p r)
  | @completeAgain _ r reply _ =>
      obtain ⟨es, hlog, hes⟩ := completeAgain_log r s reply
      obtain ⟨hmanaged, hnext, hdoomed⟩ := completeAgain_keeps r reply s
      refine h.shrink hmanaged hnext.ge (fun _ hp => hdoomed ▸ hp) (shrinks_completeAgain r reply s)
        (es ++ [.completed r, .replied r reply]) ?_ ?_
      · rw [hlog, List.append_assoc]
        rfl
      · intro e he
        rcases List.mem_append.mp he with he | he
        · have hanswers := hes e he
          cases e <;> trivial
        · simp only [List.mem_cons, List.not_mem_nil, or_false] at he
          rcases he with rfl | rfl <;> trivial
  | clear | delay | deleteRequest =>
      exact h.shrink rfl le_rfl (fun _ => id) (.of_eq rfl) [] rfl (by simp)
  | @deleteProxy _ p _ =>
      refine h.shrink rfl le_rfl (fun _ => List.mem_of_mem_erase) ?_ [] rfl (by simp)
      intro q proxy hq
      have hne : q ≠ p := by
        rintro rfl
        simp at hq
      exact ⟨proxy, by simpa [hne] using hq, id, fun _ => id⟩

theorem Departs.mayFinish {s : Service} (h : s.Departs excused) (hi : s.Inv) {p : ProxyId}
    {proxy : UiProxy} (hp : s.proxies p = some proxy) {method : UiProxy → UiProxy × Bool}
    (hsocket : ∀ proxy, proxy.socket = .disconnected → (method proxy).1.socket = .disconnected)
    (hholds : ∀ proxy r, (method proxy).1.Holds r → proxy.Holds r)
    (hheld : (method proxy).2 = true → ∀ r, (method proxy).1.Holds r →
      (method proxy).1.socket = .disconnected) :
    (s.mayFinish p method proxy).Departs excused := by
  have hset : (s.setProxy p fun proxy => (method proxy).1).Departs excused :=
    h.shrink rfl le_rfl (fun _ => id) (shrinks_setProxy s p hsocket hholds) [] rfl (by simp)
  have hlt : p < s.nextProxy := hi.proxy_lt hp
  unfold Service.mayFinish
  dsimp only
  split_ifs with hfinished
  · refine hset.finish hlt ?_
    intro proxy' hproxy' r hr
    obtain ⟨proxy₀, hproxy₀, rfl⟩ := setProxy_some.mp hproxy'
    obtain rfl := Option.some.inj (hp.symm.trans hproxy₀)
    rw [if_pos rfl] at hr ⊢
    exact Or.inl (hheld hfinished r hr)
  · exact hset

theorem not_holds_of_isEmpty {proxy : UiProxy} (h : proxy.requests.isEmpty = true)
    (r : RequestId) : ¬ proxy.Holds r := by
  rintro ⟨id, hid⟩
  rw [Std.TreeMap.isEmpty_iff_forall_not_mem] at h
  rw [Std.TreeMap.getElem?_eq_none (h id)] at hid
  cases hid

theorem Departs.localStep {s s' : Service} {e : Event} (h : s.Departs excused) (hi : s.Inv)
    (hstep : LocalStep s e s')
    (hended : ∀ p proxy, e = .promptSessionFinished p → s.proxies p = some proxy →
      proxy.promptSession = true → excused p) : s'.Departs excused := by
  cases hstep with
  | nothing => exact h
  | newConnection =>
      refine h.shrink rfl le_rfl (fun _ => id) (shrinks_setProxy s _ ?_ ?_) [] rfl (by simp)
      · intro proxy hsocket
        unfold UiProxy.onNewConnection
        rw [if_neg (by simp [hsocket]), hsocket]
      · intro proxy r hr
        unfold UiProxy.onNewConnection at hr
        rw [UiProxy.sendAll_eq] at hr
        split_ifs at hr <;> exact hr
  | disconnected hp _ =>
      exact h.mayFinish hi hp (fun _ _ => rfl) (fun _ _ => id) fun _ _ _ => rfl
  | newHandler =>
      exact h.shrink rfl le_rfl (fun _ => id)
        (shrinks_setProxy s _ (fun _ => id) fun _ _ => id) [] rfl (by simp)
  | finishedTimer hp _ =>
      refine h.mayFinish hi hp (fun _ => id) (fun _ _ => id) ?_
      intro hempty r hr
      exact absurd hr (not_holds_of_isEmpty hempty r)
  | @promptSessionFinished p proxy hp hsession =>
      exact h.finish (hi.proxy_lt hp) fun _ _ _ _ => Or.inr (hended p proxy rfl hp hsession)
  | processExited =>
      exact h.shrink rfl le_rfl (fun _ => id)
        (shrinks_setProxy s _ (fun _ => id) fun _ _ => id) [] rfl (by simp)
  | deleteRequest => exact h.shrink rfl le_rfl (fun _ => id) (.of_eq rfl) [] rfl (by simp)

theorem Departs.step {s s' : Service} {e : Event} (h : s.Departs excused) (hi : s.Inv)
    (hs : ∀ w, s.Settled w) (hrun : s.step env e = .ok s')
    (hended : ∀ p proxy, e = .promptSessionFinished p → s.proxies p = some proxy →
      proxy.promptSession = true → excused p) : s'.Departs excused := by
  by_cases he : ¬ e.IsCall ∧ ¬ e.MayAnswer
  · exact h.localStep hi (local_cases he hrun) hended
  · by_cases hroutes : s.Routes e
    · cases e with
      | call interface parameters profile =>
          obtain ⟨p, hp⟩ := Option.isSome_iff_exists.mp hroutes
          obtain ⟨hmem, -⟩ := handlerFor_some hp
          let request : Request :=
            { interface := interface, parameters := parameters, clientApparmorProfile := profile }
          have hcall : s.call env request = .ok (s.route env p request) := call_routed hp
          obtain rfl := Except.ok.inj (hcall.symm.trans hrun)
          refine h.give (Or.inl hmem) (.routed s.nextRequest p) (Or.inr ⟨_, rfl⟩) rfl ?_ le_rfl
            (h.managed p hmem) rfl ?_
          · rw [if_pos hmem]
            rfl
          · intro q hq
            simp [Service.route, handleRequest, hq]
      | _ => exact hroutes.elim
    · refine (handles hi hs hrun).1.invariant h fun a t t' ht hallowed hact =>
        ht.act hact ?_ ?_ ?_
      · rintro rfl
        exact hroutes hallowed
      · rintro p rfl
        rcases hallowed with rfl | rfl | rfl <;> exact he ⟨id, id⟩
      · rintro rfl
        exact he hallowed

/-! ### Runs -/

/-- The prompt session of proxy `p` has ended in the run. -/
def PromptSessionEnded (env : ProxyId → Environment) (es : List Event) (p : ProxyId) : Prop :=
  ∃ before after t proxy, es = before ++ .promptSessionFinished p :: after ∧
    (machine env).run {} before = .ok t ∧ t.proxies p = some proxy ∧ proxy.promptSession = true

/-- The timers of the proxies take no request with them, at the end of a run. -/
structure TimersHarmless (env : ProxyId → Environment) (es : List Event) (s : Service) : Prop where
  /-- A proxy that emits `finished()` because its timer expires has no request. -/
  timer : ∀ p s', s.step env (.finishedTimer p) = .ok s' → s'.log = .finished p :: s.log →
    ∀ r, ¬ s'.Holds p r
  /-- No request is given to a proxy that has emitted `finished()`. -/
  inTime : ∀ later earlier p, s.log = later ++ .finished p :: earlier →
    (∀ r w, .handed r w p ∉ later) ∧ ∀ r, .routed r p ∉ later
  /-- Only a proxy whose UI process has disconnected or whose prompt session has ended cancels
  requests when it is deleted. -/
  deletion : ∀ p s', s.step env (.deleteProxy p) = .ok s' → s'.log ≠ s.log →
    ∃ proxy, s.proxies p = some proxy ∧
      (proxy.socket = .disconnected ∨ PromptSessionEnded env es p)

theorem run_append {s : Service} (es : List Event) (e : Event) {t : Service}
    (h : (machine env).run s (es ++ [e]) = .ok t) :
    ∃ u, (machine env).run s es = .ok u ∧ u.step env e = .ok t := by
  induction es generalizing s with
  | nil =>
      refine ⟨s, rfl, ?_⟩
      unfold Machine.run at h
      cases he : (machine env).step s e with
      | error fault =>
          simp only [List.nil_append, he] at h
          cases h
      | ok u =>
          simp only [List.nil_append, he] at h
          cases h
          exact he
  | cons e' es ih =>
      rw [List.cons_append] at h
      unfold Machine.run at h ⊢
      cases he : (machine env).step s e' with
      | error fault =>
          simp only [he] at h
          cases h
      | ok u =>
          simp only [he] at h ⊢
          exact ih h

theorem run_departs {es : List Event} {s : Service} (h : (machine env).run {} es = .ok s) :
    Reachable (machine env) (fun _ _ => True) s ∧ s.Departs (PromptSessionEnded env es) := by
  induction es using List.reverseRecOn generalizing s with
  | nil =>
      cases h
      exact ⟨.start, departs_start⟩
  | append_singleton es e ih =>
      obtain ⟨u, hu, hstep⟩ := run_append es e h
      obtain ⟨hr, hd⟩ := ih hu
      obtain ⟨hi, hs⟩ := reachable_inv hr
      have hmono : u.Departs (PromptSessionEnded env (es ++ [e])) := by
        refine hd.mono ?_
        rintro p ⟨before, after, t, proxy, rfl, ht, hp, hsession⟩
        exact ⟨before, after ++ [e], t, proxy, by simp, ht, hp, hsession⟩
      refine ⟨.step hr trivial hstep, hmono.step hi hs hstep ?_⟩
      rintro p proxy rfl hp hsession
      exact ⟨es, [], u, proxy, rfl, hu, hp, hsession⟩

/-- A proxy that emits `finished()` because its timer expires has no request. -/
theorem finishedTimer_empty {s s' : Service} {p : ProxyId}
    (hrun : s.step env (.finishedTimer p) = .ok s') (hlog : s'.log = .finished p :: s.log)
    (r : RequestId) : ¬ s'.Holds p r := by
  have hne : s'.log ≠ s.log := by
    rw [hlog]
    exact List.cons_ne_self _ _
  rcases withProxy_ok hrun with ⟨rfl, -⟩ | ⟨proxy, hp, -, hrun⟩
  · exact absurd rfl hne
  · obtain rfl := Except.ok.inj hrun
    unfold mayFinish at hne ⊢
    dsimp only at hne ⊢
    split_ifs at hne ⊢ with hempty
    · rintro ⟨proxy', hproxy', hr⟩
      obtain ⟨proxy₀, hproxy₀, rfl⟩ := setProxy_some.mp hproxy'
      obtain rfl := Option.some.inj (hp.symm.trans hproxy₀)
      rw [if_pos rfl] at hr
      exact not_holds_of_isEmpty hempty r hr
    · exact absurd rfl hne

theorem holds_of_deleteProxy {s s' : Service} {p : ProxyId}
    (hrun : s.step env (.deleteProxy p) = .ok s') (hlog : s'.log ≠ s.log) :
    p ∈ s.doomed ∧ ∃ proxy, s.proxies p = some proxy ∧ ∃ r, proxy.Holds r := by
  rcases withProxy_ok hrun with ⟨rfl, -⟩ | ⟨proxy, hp, hdoomed, hrun⟩
  · exact absurd rfl hlog
  · refine ⟨hdoomed, proxy, hp, ?_⟩
    by_contra hnone
    have hnil : proxy.requests.toList.map Prod.snd = [] := by
      rw [List.eq_nil_iff_forall_not_mem]
      intro r hr
      exact hnone ⟨r, (UiProxy.holds_iff_mem_toList proxy r).mpr hr⟩
    unfold Service.deleteProxy at hrun
    rw [hnil] at hrun
    obtain rfl := Except.ok.inj hrun
    exact hlog rfl

/-- A shutdown by the timer never takes a request with it, in any run. -/
theorem timer_kills_nothing (env : ProxyId → Environment) {es : List Event} {s : Service}
    (h : (machine env).run {} es = .ok s) : TimersHarmless env es s := by
  obtain ⟨-, hd⟩ := run_departs h
  refine ⟨?_, ?_, ?_⟩
  · intro p s' hrun hlog
    exact finishedTimer_empty hrun hlog
  · intro later earlier p hlog
    have hinTime := hd.inTime
    rw [hlog] at hinTime
    exact hinTime.split
  · intro p s' hrun hlog
    obtain ⟨hdoomed, proxy, hp, r, hr⟩ := holds_of_deleteProxy hrun hlog
    exact ⟨proxy, hp, hd.held p hdoomed proxy hp r hr⟩

/-- A request is routed to a proxy whose timer runs, and answered before the timer expires. -/
def reusedProxy : List Event :=
  [.queryDialog 1 "a", .newConnection 0, .dataReady 0 (.newHandler "h"),
    .dataReady 0 (.finished 0 .nil 1000 ""), .queryDialogFor "h", .finishedTimer 0,
    .dataReady 0 (.finished 1 .nil 0 ""), .finishedTimer 0, .deleteProxy 0]

theorem timer_kills_nothing_reused :
    ∃ s, (machine fun _ => {}).run {} reusedProxy = .ok s ∧
      TimersHarmless (fun _ => {}) reusedProxy s := by
  obtain ⟨s, hs, -⟩ := exists_reachable (machine fun _ => {}) (fun _ _ => True) reusedProxy
    (by decide) (by decide)
  exact ⟨s, hs, timer_kills_nothing (fun _ => {}) hs⟩

end Service

end OnlineAccounts
