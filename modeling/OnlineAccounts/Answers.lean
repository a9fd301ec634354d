import OnlineAccounts.Effects

/-! # What an event answers

An event answers a request that is registered with a proxy if `Ends` says so: an operation of the
UI process or a cancellation answers the request that it names, and the end of a proxy all the
requests that are left.  Every other registered request stays as it is, and the queue of an
answered request is launched (`step_answered`).

The end of a proxy answers several requests, one after the other.  Since a proxy serves only one
request of a queue (`ServedOnce`), only one queue is launched by it. -/

namespace OnlineAccounts

namespace Service

open Transition

variable {env : ProxyId → Environment}

/-! ### What an event answers -/

/-- The event answers request `r`, if it is registered with a proxy. -/
def Ends (s : Service) (r : RequestId) : Event → Prop
  | .dataReady p operation => ∃ proxy ∈ s.proxies p, proxy.socket = .connected ∧
      ∃ id ∈ operation.answers, proxy.requests[id]? = some r
  | .cancelUiRequest requestId => s.findUiRequest requestId = some r
  | .deleteProxy p => p ∈ s.doomed ∧
      ∃ proxy ∈ s.proxies p, r ∈ proxy.requests.toList.map Prod.snd
  | _ => False

instance : ∀ (s : Service) (r : RequestId) (e : Event), Decidable (s.Ends r e)
  | s, r, .dataReady p operation => inferInstanceAs (Decidable (∃ proxy ∈ s.proxies p,
      proxy.socket = .connected ∧ ∃ id ∈ operation.answers, proxy.requests[id]? = some r))
  | s, r, .cancelUiRequest requestId =>
      inferInstanceAs (Decidable (s.findUiRequest requestId = some r))
  | s, r, .deleteProxy p => inferInstanceAs (Decidable (p ∈ s.doomed ∧
      ∃ proxy ∈ s.proxies p, r ∈ proxy.requests.toList.map Prod.snd))
  | _, _, .call _ _ _ | _, _, .newConnection _ | _, _, .disconnected _ | _, _, .finishedTimer _
  | _, _, .promptSessionFinished _ | _, _, .processExited _ | _, _, .deleteRequest _ => .isFalse id

/-- Only a completion ends the service of a registered request. -/
theorem Act.phase_held {a : Label} {s s' : Service} (h : Act env a s s') (ha : a ≠ .complete)
    (hs : s.Inv) {r : RequestId} {p : ProxyId} (hr : (s.phase r).HeldBy p) :
    s'.phase r = s.phase r := by
  have hborn : s.nextRequest ≠ r := by
    rintro rfl
    simp [hs.phase_next, Phase.HeldBy] at hr
  have hwaiting {q : RequestId} (hq : s.phase q = .waiting) : q ≠ r := by
    rintro rfl
    simp [hq, Phase.HeldBy] at hr
  cases h with
  | accept request _ => rw [phase_accept, if_neg hborn]
  | route request _ => rw [phase_route, if_neg hborn]
  | hand _ hq _ => rw [phase_hand, if_neg (hwaiting hq)]
  | refuse _ hq _ => rw [phase_refuse, if_neg (hwaiting hq)]
  | complete | completeRouted => exact absurd rfl ha
  | completeAgain reply hq => exact (completeAgain_same _ s reply hq).2 r
  | _ => rfl

/-- What an event does to the requests that it answers, and to no others. -/
structure Answered (env : ProxyId → Environment) (ends : RequestId → Prop) (s s' : Service) :
    Prop where
  phase : ∀ r p, (s.phase r).HeldBy p → ¬ ends r → s'.phase r = s.phase r
  done : ∀ r p, (s.phase r).HeldBy p → ends r → s'.phase r = .done
  launch : ∀ w r rest, s.queue w = r :: rest → ends r →
    s'.queue w = survivors env s.requests s.nextProxy rest

theorem Completes.answered {s s' : Service} {r : RequestId} {reply : Reply}
    (h : Completes env r reply s s') :
    Answered env (· = r) s s' where
  phase q _ hq hne := h.phase q (Ne.symm hne) hq.ne_waiting
  done _ _ _ he := he ▸ h.done
  launch w _ rest hq he := h.launch w rest (he ▸ hq)

/-- A proxy serves one request only; the others that it has were routed to it. -/
def ServedOnce (s : Service) : Prop :=
  ∀ p r q, s.phase r = .served p → s.phase q = .served p → r = q

theorem Act.servedOnce {a : Label} {s s' : Service} (h : Act env a s s') (hs : s.Inv)
    (ho : s.ServedOnce) : s'.ServedOnce := by
  have hkept (hserved : ∀ p r, s'.phase r = .served p → s.phase r = .served p) :
      s'.ServedOnce := fun p r q hr hq => ho p r q (hserved p r hr) (hserved p q hq)
  have hdone {r : RequestId} {p : ProxyId} {φ : Phase} {c : Prop} [Decidable c]
      (hφ : φ ≠ .served p) (hr : (if c then φ else s.phase r) = .served p) :
      s.phase r = .served p := by
    split_ifs at hr
    · exact absurd hr hφ
    · exact hr
  cases h with
  | accept request _ => exact hkept fun p r hr => hdone (by simp) (phase_accept s request r ▸ hr)
  | route request _ => exact hkept fun p r hr => hdone (by simp) (phase_route s _ request r ▸ hr)
  | @hand w r₀ rest hq hr₀ hinit =>
      intro p r q hr hq
      rw [phase_hand] at hr hq
      have hlt {q : RequestId} (hq : s.phase q = .served s.nextProxy) : False :=
        absurd (hs.lt_nextProxy (.inl hq)) (lt_irrefl _)
      split_ifs at hr hq with h₁ h₂ h₂
      · exact h₁.symm.trans h₂
      · cases hr
        exact (hlt hq).elim
      · cases hq
        exact (hlt hr).elim
      · exact ho p r q hr hq
  | refuse _ _ _ => exact hkept fun p r hr => hdone (by simp) (phase_refuse s _ _ _ r ▸ hr)
  | complete reply _ _ => exact hkept fun p r hr => hdone (by simp) (phase_answer _ reply s r ▸ hr)
  | completeRouted reply _ =>
      exact hkept fun p r hr => hdone (by simp) (phase_answer _ reply s r ▸ hr)
  | completeAgain reply hq =>
      exact hkept fun p r hr => ((completeAgain_same _ s reply hq).2 r).symm.trans hr
  | _ => exact ho

theorem reachable_servedOnce {guard : Service → Event → Prop} {s : Service}
    (h : Reachable (machine env) guard s) : s.ServedOnce :=
  reachable_acts h (fun _ _ _ hr => by cases hr) fun _ _ _ _ _ _ _ hi ho hact =>
    hact.servedOnce hi ho

/-! ### Several requests at once -/

theorem CompletesAll.phase {rs : List RequestId} {s s' : Service} (h : CompletesAll env rs s s')
    {q : RequestId} (hq : q ∉ rs) (hw : s.phase q ≠ .waiting) : s'.phase q = s.phase q := by
  induction h with
  | nil => rfl
  | cons h _ ih =>
      obtain ⟨hne, hnot⟩ := not_or.mp (mt List.mem_cons.mpr hq)
      have hfirst := h.phase q (Ne.symm hne) hw
      rw [ih hnot (hfirst ▸ hw), hfirst]

theorem CompletesAll.done {rs : List RequestId} {s s' : Service} (h : CompletesAll env rs s s')
    (hnd : rs.Nodup) {r : RequestId} (hr : r ∈ rs) : s'.phase r = .done := by
  induction h with
  | nil => exact absurd hr List.not_mem_nil
  | cons h hrest ih =>
      obtain ⟨hnot, hnd⟩ := List.nodup_cons.mp hnd
      rcases List.mem_cons.mp hr with rfl | hr
      · rw [hrest.phase hnot (by simp [h.done]), h.done]
      · exact ih hnd hr

theorem Inv.not_mem_queue {s : Service} (h : s.Inv) {r : RequestId} {p : ProxyId}
    (hr : s.phase r = .routed p) (w : ℕ) : r ∉ s.queue w := by
  simp [h.mem_queue, hr, Phase.Queued]

/-- Routed requests complete without the queues. -/
theorem CompletesAll.queue_routed {rs : List RequestId} {s s' : Service}
    (h : CompletesAll env rs s s') (hs : s.Inv) (hnd : rs.Nodup) {p : ProxyId}
    (hrouted : ∀ q ∈ rs, s.phase q = .routed p) (w : ℕ) : s'.queue w = s.queue w := by
  induction h with
  | nil => rfl
  | @cons r rs _ s t u h _ ih =>
      obtain ⟨hr, hnd⟩ := List.nodup_cons.mp hnd
      have hinv : t.Inv := hs.path h.path
      have hnot := hs.not_mem_queue (hrouted r List.mem_cons_self)
      rw [ih hinv hnd fun q hq => ?_, h.queue w (hnot w)]
      have hold := hrouted q (List.mem_cons_of_mem r hq)
      rw [h.phase q (fun he => hr (he ▸ hq)) (by simp [hold]), hold]

theorem CompletesAll.launch {rs : List RequestId} {s s' : Service} (h : CompletesAll env rs s s')
    (hs : s.Inv) (hnd : rs.Nodup) {p : ProxyId} {w : ℕ} {r : RequestId} {rest : List RequestId}
    (hrouted : ∀ q ∈ rs, q ≠ r → s.phase q = .routed p) (hq : s.queue w = r :: rest)
    (hr : r ∈ rs) : s'.queue w = survivors env s.requests s.nextProxy rest := by
  induction h with
  | nil => exact absurd hr List.not_mem_nil
  | @cons a rs _ s t u h hrest ih =>
      obtain ⟨ha, hnd⟩ := List.nodup_cons.mp hnd
      have hinv : t.Inv := hs.path h.path
      have hkept {q : RequestId} (hmem : q ∈ rs) (hne : q ≠ r) : t.phase q = .routed p := by
        have hold := hrouted q (List.mem_cons_of_mem a hmem) hne
        rw [h.phase q (fun he => ha (he ▸ hmem)) (by simp [hold]), hold]
      by_cases hra : a = r
      · -- the others do not touch the queue any more
        subst hra
        rw [hrest.queue_routed hinv hnd (fun q hmem => hkept hmem fun he => ha (he ▸ hmem)) w]
        exact h.launch w rest hq
      · have hnot := hs.not_mem_queue (hrouted a List.mem_cons_self hra)
        have hmem : r ∈ rs := (List.mem_cons.mp hr).resolve_left (Ne.symm hra)
        rw [ih hinv hnd (fun q => hkept) (by rw [h.queue w (hnot w), hq]) hmem,
          h.nextProxy hnot]
        exact survivors_congr h.clientPid _ _

theorem CompletesAll.answered {rs : List RequestId} {s s' : Service}
    (h : CompletesAll env rs s s') (hs : s.Inv) (ho : s.ServedOnce) (hnd : rs.Nodup) {p : ProxyId}
    (hheld : ∀ r ∈ rs, (s.phase r).HeldBy p) : Answered env (· ∈ rs) s s' where
  phase q _ hq hnot := h.phase hnot hq.ne_waiting
  done q _ _ hq := h.done hnd hq
  launch w r rest hq hr := by
    have hmem : r ∈ s.queue w := by simp [hq]
    have hserved : s.phase r = .served p := by
      refine (hheld r hr).resolve_right fun hrouted => ?_
      exact hs.not_mem_queue hrouted w hmem
    refine h.launch (p := p) hs hnd (fun q hmem hne => ?_) hq hr
    exact (hheld q hmem).resolve_left fun hq => hne (ho p q r hq hserved)

/-! ### What an event does to the requests -/

theorem Handled.phase {s s' : Service} {e : Event} (h : Handled env e s s') (hs : s.Inv)
    (he : ¬ e.MayAnswer) {r : RequestId} {p : ProxyId} (hr : (s.phase r).HeldBy p) :
    s'.phase r = s.phase r := by
  have hboth : s'.Inv ∧ s'.phase r = s.phase r := by
    refine h.1.invariant (I := fun t => t.Inv ∧ t.phase r = s.phase r) ⟨hs, rfl⟩ ?_
    rintro a t t' ⟨hi, hphase⟩ ha hact
    refine ⟨hact.inv hi, (hact.phase_held ?_ hi (hphase.symm ▸ hr)).trans hphase⟩
    rintro rfl
    exact he ha
  exact hboth.2

theorem Ends.mayAnswer {s : Service} {r : RequestId} {e : Event} (h : s.Ends r e) :
    e.MayAnswer := by
  cases e with
  | dataReady p operation =>
      obtain ⟨-, -, -, id, hid, -⟩ := h
      exact Option.isSome_of_mem hid
  | cancelUiRequest | deleteProxy => trivial
  | _ => exact h

theorem setCanceled_phase {s s' : Service} (h : s.Inv) {r : RequestId}
    (hr : ∀ p, ¬ (s.phase r).HeldBy p) (hrun : s.setCanceled (run env) r = .ok s') (q : RequestId) :
    s'.phase q = s.phase q := by
  cases hflag : (s.requests r).inProgress with
  | false =>
      unfold Service.setCanceled at hrun
      rw [hflag] at hrun
      obtain rfl := Except.ok.inj hrun
      rfl
  | true =>
      have hdone : s.phase r = .done :=
        (h.held_or_done hflag).resolve_left fun ⟨p, hheld⟩ => hr p hheld
      rcases setCanceled_done (run env) h hdone hflag with ht | ht
      · obtain rfl := Except.ok.inj (ht.symm.trans hrun)
        exact (completeAgain_same r s _ hdone).2 q
      · cases ht.symm.trans hrun

theorem Answered.of_iff {ends ends' : RequestId → Prop} {s s' : Service}
    (h : Answered env ends s s') (he : ∀ r, ends' r ↔ ends r) : Answered env ends' s s' where
  phase r p hr hnot := h.phase r p hr (mt (he r).mpr hnot)
  done r p hr hends := h.done r p hr ((he r).mp hends)
  launch w r rest hq hr := h.launch w r rest hq ((he r).mp hr)

theorem Answered.refl {ends : RequestId → Prop} (s : Service) (he : ∀ r, ¬ ends r) :
    Answered env ends s s where
  phase _ _ _ _ := rfl
  done r _ _ hr := absurd hr (he r)
  launch _ r _ _ hr := absurd hr (he r)

theorem cancelUiRequest_answered {s s' : Service} {requestId : String} (h : s.Inv)
    (hs : ∀ w, s.Settled w) (hrun : s.cancelUiRequest env requestId = .ok s') :
    Answered env (s.Ends · (.cancelUiRequest requestId)) s s' := by
  unfold cancelUiRequest at hrun
  cases hr : s.findUiRequest requestId with
  | none =>
      rw [hr] at hrun
      obtain rfl := Except.ok.inj hrun
      exact .refl s fun r => by simp [Ends, hr]
  | some r =>
      simp only [hr] at hrun
      have hends (q : RequestId) : s.Ends q (.cancelUiRequest requestId) ↔ q = r := by
        simp [Ends, hr, eq_comm]
      by_cases hheld : ∃ p, (s.phase r).HeldBy p
      · obtain ⟨p, hp⟩ := hheld
        obtain ⟨t, ht, hc⟩ := h.setCanceled env hp
        obtain rfl := Except.ok.inj (ht.symm.trans hrun)
        exact hc.answered.of_iff hends
      · rw [not_exists] at hheld
        refine ⟨fun q _ _ _ => setCanceled_phase h hheld hrun q, fun q p hq he => ?_,
          fun w q rest hq he => ?_⟩
        · obtain rfl := (hends q).mp he
          exact absurd hq (hheld p)
        · obtain rfl := (hends q).mp he
          obtain ⟨p, hp⟩ := hs w q rest hq
          exact absurd (.inl hp) (hheld p)

theorem onDataReady_answered {s s' : Service} {p : ProxyId} {proxy : UiProxy}
    {operation : Operation} {id : ℤ} (h : s.Inv) (hp : s.proxies p = some proxy)
    (hid : operation.answers = some id) (hsocket : proxy.socket = .connected)
    (hrun : s.onDataReady env p proxy operation = .ok s') :
    Answered env (s.Ends · (.dataReady p operation)) s s' := by
  obtain ⟨r, reply, delay, hr, hc⟩ := onDataReady_answers h hp hid hrun
  have hends (q : RequestId) : s.Ends q (.dataReady p operation) ↔ q = r := by
    simp [Ends, hp, hid, hsocket, hr, eq_comm]
  have hanswered := hc.answered.of_iff hends
  refine ⟨hanswered.phase, hanswered.done,
    fun w q rest hq he => (hanswered.launch w q rest hq he).trans ?_⟩
  refine survivors_congr (fun a => ?_) _ _
  by_cases ha : a = r
  · subst ha
    simp [Request.clientPid]
  · simp [ha]

/-- An event answers the registered requests that it ends, and no others. -/
theorem step_answered {s s' : Service} {e : Event} (h : s.Inv) (hs : ∀ w, s.Settled w)
    (ho : s.ServedOnce) (hrun : s.step env e = .ok s') : Answered env (s.Ends · e) s s' := by
  by_cases he : e.MayAnswer
  · cases e with
    | cancelUiRequest requestId => exact cancelUiRequest_answered h hs hrun
    | dataReady p operation =>
        obtain ⟨id, hid⟩ := Option.isSome_iff_exists.mp he
        rcases withProxy_ok hrun with ⟨rfl, hnot⟩ | ⟨proxy, hp, hsocket, hrun⟩
        · refine .refl s' fun r => ?_
          rintro ⟨proxy, hp, hsocket, -⟩
          exact hnot proxy hp hsocket
        · exact onDataReady_answered h hp hid hsocket hrun
    | deleteProxy p =>
        rcases withProxy_ok hrun with ⟨rfl, hnot⟩ | ⟨proxy, hp, hdoomed, hrun⟩
        · refine .refl s' fun r => ?_
          rintro ⟨hdoomed, proxy, hp, -⟩
          exact hnot proxy hp hdoomed
        · obtain ⟨t, hall, -, ht⟩ := deleteProxy_spec env h hp
          obtain rfl := Except.ok.inj (ht.symm.trans hrun)
          obtain ⟨hnd, hmem⟩ := h.registered hp
          have hanswered : Answered env (s.Ends · (.deleteProxy p)) s t :=
            (hall.answered h ho hnd fun r hr => (hmem r).mp hr).of_iff fun r => by
              simp [Ends, hp, hdoomed]
          exact ⟨hanswered.phase, hanswered.done, hanswered.launch⟩
    | _ => exact he.elim
  · exact ⟨fun r p hr _ => (handles h hs hrun).phase h he hr,
      fun r p _ hr => absurd hr.mayAnswer he, fun w r rest _ hr => absurd hr.mayAnswer he⟩

end Service

end OnlineAccounts
