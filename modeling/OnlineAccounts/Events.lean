import OnlineAccounts.Refinement
import OnlineAccounts.UiServer

/-! # Every event is a path of actions

`handles` is what one event can do: a path of actions from a settled state to a settled state.
Most events allow only the actions of a completion; `Allowed` says which events allow the
others.  A request is routed only by a call for which a proxy has a handler (`Routes`), and is
completed once more only by the cancellation of a request that is done but still flagged as in
progress (`Repeats`).

`reachable_inv` carries the invariant to all reachable states. -/

namespace OnlineAccounts

/-- A call of `queryDialog` for a window, with a request id. -/
def Event.queryDialog (windowId : ℕ) (requestId : String) : Event :=
  .call SIGNONUI_INTERFACE (.cons SSOUI_KEY_REQUESTID (.string requestId)
    (.cons OAU_KEY_WINDOW_ID (.uint windowId) .nil)) "unconfined"

/-- A call of `queryDialog` that is meant for a handler. -/
def Event.queryDialogFor (matchId : String) : Event :=
  .call SIGNONUI_INTERFACE (.cons SSOUI_KEY_CLIENT_DATA
    (.map (.cons OAU_REQUEST_MATCH_KEY (.string matchId) .nil)) .nil) "unconfined"

/-- The event is a call that makes a new request. -/
def Event.IsCall : Event → Prop
  | .call _ _ _ => True
  | _ => False

/-- The event may answer requests. -/
def Event.MayAnswer : Event → Prop
  | .cancelUiRequest _ | .deleteProxy _ => True
  | .dataReady _ operation => operation.answers.isSome
  | _ => False

namespace Service

open Transition

variable {env : ProxyId → Environment}

/-- The event is a call that is handed to a proxy past the queues. -/
def Routes (s : Service) : Event → Prop
  | .call _ parameters _ => (s.handlerFor parameters).isSome
  | _ => False

/-- The event cancels a request that is done but still flagged as in progress. -/
def Repeats (s : Service) : Event → Prop
  | .cancelUiRequest requestId => ∃ r ∈ s.findUiRequest requestId,
      s.phase r = .done ∧ (s.requests r).inProgress = true
  | _ => False

instance : ∀ (s : Service) (e : Event), Decidable (s.Routes e)
  | s, .call _ parameters _ => inferInstanceAs (Decidable (s.handlerFor parameters).isSome)
  | _, .cancelUiRequest _ | _, .newConnection _ | _, .disconnected _ | _, .dataReady _ _
  | _, .finishedTimer _ | _, .promptSessionFinished _ | _, .processExited _
  | _, .deleteProxy _ | _, .deleteRequest _ => .isFalse id

instance : ∀ (s : Service) (e : Event), Decidable (s.Repeats e)
  | s, .cancelUiRequest requestId => inferInstanceAs (Decidable (∃ r ∈ s.findUiRequest requestId,
      s.phase r = .done ∧ (s.requests r).inProgress = true))
  | _, .call _ _ _ | _, .newConnection _ | _, .disconnected _ | _, .dataReady _ _
  | _, .finishedTimer _ | _, .promptSessionFinished _ | _, .processExited _
  | _, .deleteProxy _ | _, .deleteRequest _ => .isFalse id

/-- The actions that an event may consist of. -/
def Allowed (s : Service) (e : Event) : Label → Prop
  | .accept => e.IsCall
  | .route => s.Routes e
  | .complete => e.MayAnswer
  | .completeAgain => s.Repeats e
  | .touch => ¬ e.IsCall ∧ ¬ e.MayAnswer
  | .finish p => e = .disconnected p ∨ e = .finishedTimer p ∨ e = .promptSessionFinished p
  | .deleteProxy p => e = .deleteProxy p
  | _ => True

theorem Launching.allowed {w : ℕ} {s : Service} {e : Event} {a : Label} (h : Launching w a) :
    s.Allowed e a := by
  cases a <;> trivial

theorem Completing.allowed {s : Service} {e : Event} {a : Label} (h : Completing a)
    (he : e.MayAnswer) : s.Allowed e a := by
  cases a <;> trivial

/-- The event leads to a settled state by allowed actions. -/
def Handled (env : ProxyId → Environment) (e : Event) (s s' : Service) : Prop :=
  Path (Act env) (s.Allowed e) s s' ∧ ∀ w, s'.Settled w

theorem Settled.congr {s s' : Service} {w : ℕ} (h : s.Settled w) (hqueues : s'.queues = s.queues)
    (hphase : ∀ r, s'.phase r = s.phase r) : s'.Settled w := by
  intro r rest hr
  rw [queue_congr hqueues] at hr
  rw [hphase]
  exact h r rest hr

theorem Completes.handled {s s' : Service} {r : RequestId} {reply : Reply}
    (h : Completes env r reply s s')
    (hs : ∀ w, s.Settled w) {e : Event} (he : e.MayAnswer) : Handled env e s s' :=
  ⟨h.path.mono fun _ ha => ha.allowed he, h.settled hs⟩

theorem Handled.single {e : Event} {s s' : Service} {a : Label} (h : Act env a s s')
    (ha : s.Allowed e a) (hs : ∀ w, s.Settled w) (hqueues : s'.queues = s.queues)
    (hphase : ∀ r, s'.phase r = s.phase r) : Handled env e s s' :=
  ⟨.single h ha, fun w => (hs w).congr hqueues hphase⟩

theorem Handled.refl {e : Event} {s : Service} (hs : ∀ w, s.Settled w) : Handled env e s s :=
  ⟨.refl s, hs⟩

/-! ### Calls -/

theorem Inv.ready_accept {s : Service} (h : s.Inv) {request : Request}
    (hf : request.inProgress = false) (hq : s.queue request.windowId = []) :
    Ready request.windowId (s.accept request) := by
  have hqueue : (s.accept request).queue request.windowId = [s.nextRequest] := by
    rw [queue_accept, if_pos rfl, hq]
    rfl
  refine ⟨by rw [hqueue]; exact List.nodup_singleton _, fun r hr => ?_⟩
  obtain rfl : r = s.nextRequest := by simpa [hqueue] using hr
  have hphase : (s.accept request).phase s.nextRequest = .waiting := by
    rw [phase_accept, if_pos rfl]
  have hfits := (h.accept request hf).fits s.nextRequest
  rw [hphase] at hfits
  refine ⟨?_, hphase, hfits.1, hfits.2⟩
  simp [Service.accept, windowId]

theorem accept_settled {s : Service} (h : s.Inv) (hs : ∀ w, s.Settled w) (request : Request) {w : ℕ}
    (hw : request.windowId ≠ w ∨ s.queue w ≠ []) : (s.accept request).Settled w := by
  intro r rest hr
  have hphase (q : RequestId) : (s.accept request).phase q =
      if s.nextRequest = q then .waiting else s.phase q := by
    simp only [Service.accept, phase_emit, Emission.phaseOf]
    split_ifs <;> rfl
  have hqueue : (s.accept request).queue w =
      if request.windowId = w then s.queue request.windowId ++ [s.nextRequest] else s.queue w :=
    queue_setQueue _ _ _ _
  -- the head is the old one
  obtain ⟨rest', hold⟩ : ∃ rest', s.queue w = r :: rest' := by
    rw [queue_accept] at hr
    split_ifs at hr with he
    · subst he
      have hne := hw.resolve_left (fun hne => hne rfl)
      cases hold : s.queue request.windowId with
      | nil => exact absurd hold hne
      | cons a rest' =>
          rw [hold] at hr
          exact ⟨rest', by rw [(List.cons.inj hr).1]⟩
    · exact ⟨rest, hr⟩
  obtain ⟨p, hp⟩ := hs w r rest' hold
  refine ⟨p, ?_⟩
  rw [phase_accept, if_neg, hp]
  rintro rfl
  simp [h.phase_next] at hp

theorem run_busy {s : Service} (h : s.Inv) {w : ℕ} {r : RequestId} {rest : List RequestId}
    {p : ProxyId} (hq : s.queue w = r :: rest) (hr : s.phase r = .served p) :
    s.run env w = .ok s := by
  unfold run
  rw [hq, List.length_cons, runQueue]
  simp only [hq, h.inProgress (.inl hr), if_true]

theorem handlerFor_some {s : Service} {parameters : QVariantMap} {p : ProxyId}
    (h : s.handlerFor parameters = some p) : p ∈ s.managed ∧
      ∃ proxy, s.proxies p = some proxy ∧ proxy.hasHandlerFor parameters = true := by
  unfold handlerFor at h
  refine ⟨List.mem_of_find?_eq_some h, ?_⟩
  have hfound := List.find?_some h
  cases hp : s.proxies p with
  | none => simp [hp] at hfound
  | some proxy => exact ⟨proxy, rfl, by simpa [hp] using hfound⟩

theorem call_routed {s : Service} {request : Request} {p : ProxyId}
    (hp : s.handlerFor request.parameters = some p) :
    s.call env request = .ok (s.route env p request) := by
  have hp' : (s.newRequest request).handlerFor
      ((s.newRequest request).requests s.nextRequest).parameters = some p := by
    rw [newRequest_requests, Function.update_self]
    exact hp
  rw [call, enqueue, hp']
  rfl

theorem call_queued {s : Service} {request : Request}
    (hp : s.handlerFor request.parameters = none) :
    s.call env request = run env request.windowId
      (if s.isIdle then (s.accept request).isIdleChanged else s.accept request) := by
  have hp' : (s.newRequest request).handlerFor
      ((s.newRequest request).requests s.nextRequest).parameters = none := by
    rw [newRequest_requests, Function.update_self]
    exact hp
  have hw : (s.newRequest request).windowId s.nextRequest = request.windowId := by
    simp [windowId]
  rw [call, enqueue, hp']
  simp only [hw]
  rfl

theorem accepted_cases {s t : Service} {request : Request}
    (ht : (if s.isIdle then (s.accept request).isIdleChanged else s.accept request) = t) :
    t = s.accept request ∨ t = (s.accept request).isIdleChanged := by
  rw [← ht]
  split_ifs
  · exact .inr rfl
  · exact .inl rfl

variable (env) in
theorem Inv.run_accept {s t : Service} (h : s.Inv) (hs : ∀ w, s.Settled w) {request : Request}
    (hf : request.inProgress = false)
    (ht : t = s.accept request ∨ t = (s.accept request).isIdleChanged) :
    ∃ u, run env request.windowId t = .ok u ∧
      Path (Act env) (Launching request.windowId) t u ∧ ∀ w, u.Settled w := by
  obtain ⟨hinv, hqueues, hphase, hready⟩ : t.Inv ∧ t.queues = (s.accept request).queues ∧
      (∀ r, t.phase r = (s.accept request).phase r) ∧
        (Ready request.windowId (s.accept request) → Ready request.windowId t) := by
    rcases ht with rfl | rfl
    · exact ⟨h.accept request hf, rfl, fun _ => rfl, id⟩
    · exact ⟨Act.inv (.idle : Act env _ _ _) (h.accept request hf), rfl, fun _ => rfl,
        fun hready => ⟨hready.nodup, hready.waiting⟩⟩
  by_cases hq : s.queue request.windowId = []
  · have hne : t.queue request.windowId ≠ [] := by
      rw [queue_congr hqueues, queue_accept, if_pos rfl]
      simp
    obtain ⟨u, hu, hlaunch, hsettled, -⟩ :=
      runQueue_spec env _ (hready (h.ready_accept hf hq)) hne le_rfl
    refine ⟨u, hu, hlaunch, fun w => ?_⟩
    by_cases hw : request.windowId = w
    · exact hw ▸ hsettled
    · exact (Path.launched hlaunch).settled hw
        ((accept_settled h hs request (.inl hw)).congr hqueues hphase)
  · have hacceptted := accept_settled h hs request (w := request.windowId) (.inr hq)
    have hsettled : t.Settled request.windowId := hacceptted.congr hqueues hphase
    obtain ⟨r, rest, hr⟩ : ∃ r rest, t.queue request.windowId = r :: rest := by
      refine List.exists_cons_of_ne_nil ?_
      rw [queue_congr hqueues, queue_accept, if_pos rfl]
      simp
    obtain ⟨p, hp⟩ := hsettled r rest hr
    refine ⟨t, run_busy hinv hr hp, .refl t, fun w => ?_⟩
    by_cases hw : request.windowId = w
    · exact hw ▸ hsettled
    · exact (accept_settled h hs request (.inl hw)).congr hqueues hphase

variable (env) in
/-- A call does not fault. -/
theorem call_spec {s : Service} (h : s.Inv) (hs : ∀ w, s.Settled w) {request : Request}
    (hf : request.inProgress = false) {e : Event} (he : e.IsCall)
    (hroute : (s.handlerFor request.parameters).isSome → s.Routes e) :
    ∃ s', s.call env request = .ok s' ∧ Handled env e s s' := by
  cases hp : s.handlerFor request.parameters with
  | some p =>
      obtain ⟨-, proxy, hproxy, -⟩ := handlerFor_some hp
      refine ⟨_, call_routed hp, .single (.route request hproxy) (hroute (by rw [hp]; rfl)),
        fun w r rest hr => ?_⟩
      obtain ⟨q, hq⟩ := hs w r rest hr
      refine ⟨q, ?_⟩
      rw [phase_route, if_neg, hq]
      rintro rfl
      simp [h.phase_next] at hq
  | none =>
      rw [call_queued hp]
      obtain ⟨t, ht⟩ : ∃ t,
          (if s.isIdle then (s.accept request).isIdleChanged else s.accept request) = t := ⟨_, rfl⟩
      have hcases := accepted_cases ht
      have haccept : Act env .accept s (s.accept request) := .accept request hf
      have hpath : Path (Act env) (s.Allowed e) s t := by
        rcases hcases with rfl | rfl
        · exact .single haccept he
        · exact .head haccept he (.single .idle trivial)
      obtain ⟨u, hu, hlaunch, hsettled⟩ := h.run_accept env hs hf hcases
      rw [ht]
      exact ⟨u, hu, hpath.trans (hlaunch.mono fun _ ha => ha.allowed), hsettled⟩

/-! ### Cancellations -/

theorem callSlotAgain_same (r : RequestId) (s : Service) (slot : Slot) :
    (s.callSlotAgain r slot).queues = s.queues ∧
      ∀ q, (s.callSlotAgain r slot).phase q = s.phase q := by
  cases slot <;> exact ⟨rfl, fun _ => rfl⟩

/-- A request that is done has no place in a queue, so that the slot of the manager finds another
request first in the queue or no queue at all. -/
theorem callSlot_done (run : ℕ → Service → Except Fault Service) {r : RequestId} {s : Service}
    (hs : s.Inv) (hr : s.phase r = .done) (slot : Slot) :
    callSlot run r s slot = .ok (s.callSlotAgain r slot) ∨
      callSlot run r s slot = .error .headOfEmptyQueue := by
  cases slot with
  | deleteLater => exact .inl rfl
  | proxy p => exact .inl rfl
  | manager =>
      unfold callSlot onRequestCompleted
      cases hq : s.queue (s.windowId r) with
      | nil => exact .inr (by simp only [hq])
      | cons head rest =>
          have hne : r ≠ head := by
            rintro rfl
            have hmem : r ∈ s.queue (s.windowId r) := by simp [hq]
            have := ((hs.mem_queue _ r).mp hmem).2
            simp [hr, Phase.Queued] at this
          exact .inl (by
            simp only [hq, ne_eq, hne, not_false_eq_true, if_true, callSlotAgain])

theorem foldlM_callSlot_done (run : ℕ → Service → Except Fault Service) {r : RequestId} :
    ∀ (slots : List Slot) {s : Service}, s.Inv → s.phase r = .done →
      slots.foldlM (callSlot run r) s = .ok (slots.foldl (callSlotAgain r) s) ∨
        slots.foldlM (callSlot run r) s = .error .headOfEmptyQueue
  | [], _, _, _ => .inl rfl
  | slot :: slots, s, hs, hr => by
      rw [List.foldlM_cons]
      rcases callSlot_done run hs hr slot with ht | ht
      · obtain ⟨hinv, hdone⟩ := hs.callSlotAgain hr slot
        rw [ht]
        exact foldlM_callSlot_done run slots hinv hdone
      · exact .inr (by rw [ht]; rfl)

theorem setCanceled_done (run : ℕ → Service → Except Fault Service) {r : RequestId} {s : Service}
    (hs : s.Inv) (hr : s.phase r = .done) (hflag : (s.requests r).inProgress = true) :
    s.setCanceled run r =
        .ok ((s.completeAgain r (.error OAU_ERROR_USER_CANCELED "Canceled")).setRequest r
          ({ · with inProgress := false })) ∨
      s.setCanceled run r = .error .headOfEmptyQueue := by
  let reply : Reply := .error OAU_ERROR_USER_CANCELED "Canceled"
  have hdone : (s.answer r reply).phase r = .done := by simp
  unfold Service.setCanceled fail completed
  rw [if_pos hflag]
  rcases foldlM_callSlot_done run (s.slots r) (hs.answer hr reply) hdone with ht | ht
  · exact .inl (congrArg _ ht)
  · exact .inr (congrArg _ ht)

theorem completeAgain_same (r : RequestId) (s : Service) (reply : Reply) (hr : s.phase r = .done) :
    (s.completeAgain r reply).queues = s.queues ∧
      ∀ q, (s.completeAgain r reply).phase q = s.phase q := by
  refine completeAgain_induction (I := fun t => t.queues = s.queues ∧ ∀ q, t.phase q = s.phase q)
    ⟨rfl, fun q => ?_⟩ fun t slot ⟨hq, hp⟩ => ?_
  · rw [phase_answer]
    split_ifs with he
    · rw [← he, hr]
    · rfl
  · obtain ⟨hq', hp'⟩ := callSlotAgain_same r t slot
    exact ⟨hq'.trans hq, fun q => (hp' q).trans (hp q)⟩

theorem setCanceled_handled {s s' : Service} (h : s.Inv) (hs : ∀ w, s.Settled w) {r : RequestId}
    {e : Event} (he : e.MayAnswer) (hrun : s.setCanceled (run env) r = .ok s')
    (hagain : s.phase r = .done → (s.requests r).inProgress = true → s.Repeats e) :
    Handled env e s s' := by
  cases hflag : (s.requests r).inProgress with
  | false =>
      unfold Service.setCanceled at hrun
      rw [hflag] at hrun
      obtain rfl := Except.ok.inj hrun
      exact .refl hs
  | true =>
      rcases h.held_or_done hflag with ⟨p, hheld⟩ | hr
      · obtain ⟨t, ht, hc⟩ := h.setCanceled env hheld
        obtain rfl := Except.ok.inj (ht.symm.trans hrun)
        exact hc.handled hs he
      · rcases setCanceled_done (run env) h hr hflag with ht | ht
        · obtain rfl := Except.ok.inj (ht.symm.trans hrun)
          obtain ⟨hqueues, hphase⟩ := completeAgain_same r s
            (.error OAU_ERROR_USER_CANCELED "Canceled") hr
          refine ⟨.head (.completeAgain _ hr) (hagain hr hflag) (.single (.clear ?_) trivial),
            fun w => (hs w).congr hqueues hphase⟩
          exact (hphase r).trans hr
        · cases ht.symm.trans hrun

/-! ### The other events -/

/-- Registered requests complete one after the other. -/
inductive CompletesAll (env : ProxyId → Environment) :
    List RequestId → Service → Service → Prop where
  | nil (s : Service) : CompletesAll env [] s s
  | cons {r : RequestId} {rs : List RequestId} {reply : Reply} {s t u : Service}
      (h : Completes env r reply s t) (rest : CompletesAll env rs t u) :
      CompletesAll env (r :: rs) s u

theorem CompletesAll.path {rs : List RequestId} {s s' : Service} (h : CompletesAll env rs s s') :
    Path (Act env) Completing s s' := by
  induction h with
  | nil => exact .refl _
  | cons h _ ih => exact h.path.trans ih

theorem CompletesAll.settled {rs : List RequestId} {s s' : Service}
    (h : CompletesAll env rs s s') (hs : ∀ w, s.Settled w) : ∀ w, s'.Settled w := by
  induction h with
  | nil => exact hs
  | cons h _ ih => exact ih (h.settled hs)

theorem CompletesAll.heldBy {rs : List RequestId} {s s' : Service} (h : CompletesAll env rs s s')
    {q : RequestId} {p : ProxyId} (hp : p < s.nextProxy) (hq : (s'.phase q).HeldBy p) :
    (s.phase q).HeldBy p ∧ q ∉ rs := by
  induction h with
  | nil => exact ⟨hq, List.not_mem_nil⟩
  | cons h _ ih =>
      obtain ⟨hheld, hnot⟩ := ih (hp.trans_le h.nextProxy_le) hq
      obtain ⟨hne, hold⟩ := h.heldBy q p hp hheld
      exact ⟨hold, by simp [Ne.symm hne, hnot]⟩

/-- The loop of `~UiProxyPrivate()` over the requests that are still registered: each of them is
held until its round completes it. -/
theorem cancelAll_induction (env : ProxyId → Environment) {p : ProxyId}
    {R : List RequestId → Service → Service → Prop} (nil : ∀ s, R [] s s)
    (cons : ∀ {s t u : Service} {r : RequestId} {rs : List RequestId}, s.Inv → r ∉ rs →
      (∀ q ∈ r :: rs, (s.phase q).HeldBy p) → s.setCanceled (run env) r = .ok t →
        R rs t u → R (r :: rs) s u) :
    ∀ (rs : List RequestId) {s : Service}, rs.Nodup → s.Inv → (∀ r ∈ rs, (s.phase r).HeldBy p) →
      ∃ s', rs.foldlM (fun s r => setCanceled (run env) r s) s = .ok s' ∧ R rs s s'
  | [], s, _, _, _ => ⟨s, rfl, nil s⟩
  | r :: rs, s, hnd, h, hheld => by
      obtain ⟨hr, hnd⟩ := List.nodup_cons.mp hnd
      obtain ⟨t, ht, hc⟩ := h.setCanceled env (hheld r List.mem_cons_self)
      have hinv : t.Inv := h.path hc.path
      have hrest : ∀ q ∈ rs, (t.phase q).HeldBy p := by
        intro q hq
        have hold := hheld q (List.mem_cons_of_mem r hq)
        rw [hc.phase q (fun he => hr (he ▸ hq))]
        · exact hold
        · rintro hw
          simp [hw, Phase.HeldBy] at hold
      obtain ⟨s', hs', hall⟩ := cancelAll_induction env nil cons rs hnd hinv hrest
      refine ⟨s', ?_, cons h hr hheld ht hall⟩
      rw [List.foldlM_cons, ht]
      exact hs'

theorem cancelAll (env : ProxyId → Environment) {p : ProxyId} (rs : List RequestId) {s : Service}
    (hnd : rs.Nodup) (h : s.Inv) (hheld : ∀ r ∈ rs, (s.phase r).HeldBy p) :
    ∃ s', rs.foldlM (fun s r => setCanceled (run env) r s) s = .ok s' ∧
      CompletesAll env rs s s' := by
  refine cancelAll_induction env CompletesAll.nil ?_ rs hnd h hheld
  intro s t u r rs hinv _ hheld ht hrest
  obtain ⟨t', ht', hc⟩ := hinv.setCanceled env (hheld r List.mem_cons_self)
  obtain rfl := Except.ok.inj (ht.symm.trans ht')
  exact .cons hc hrest

theorem Inv.registered {s : Service} (h : s.Inv) {p : ProxyId} {proxy : UiProxy}
    (hp : s.proxies p = some proxy) : (proxy.requests.toList.map Prod.snd).Nodup ∧
      ∀ r, r ∈ proxy.requests.toList.map Prod.snd ↔ (s.phase r).HeldBy p := by
  refine ⟨?_, fun r => ?_⟩
  · refine List.Nodup.map_on ?_ ?_
    · intro e he e' he' hsnd
      rw [Std.TreeMap.mem_toList_iff_getElem?_eq_some] at he he'
      exact Prod.ext ((h.valid p proxy hp).injective _ _ _ he (hsnd ▸ he')) hsnd
    · exact (proxy.requests.distinct_keys_toList).imp fun hne he => hne (by rw [he]; simp)
  · rw [← UiProxy.holds_iff_mem_toList, ← h.holds]
    constructor
    · exact fun hr => ⟨proxy, hp, hr⟩
    · rintro ⟨proxy', hp', hr⟩
      rwa [Option.some.inj (hp.symm.trans hp')]

variable (env) in
theorem deleteProxy_spec {s : Service} (h : s.Inv) {p : ProxyId} {proxy : UiProxy}
    (hp : s.proxies p = some proxy) :
    ∃ t, CompletesAll env (proxy.requests.toList.map Prod.snd) s t ∧ (∀ r, ¬ t.Holds p r) ∧
      s.deleteProxy env p proxy = .ok { t with
        proxies := Function.update t.proxies p none
        doomed := t.doomed.erase p } := by
  obtain ⟨hnd, hmem⟩ := h.registered hp
  have hlt := h.proxy_lt hp
  obtain ⟨t, ht, hall⟩ := cancelAll env _ hnd h fun r hr => (hmem r).mp hr
  have hinv : t.Inv := h.path hall.path
  refine ⟨t, hall, fun r hr => ?_, by unfold Service.deleteProxy; rw [ht]; rfl⟩
  obtain ⟨hold, hnot⟩ := hall.heldBy hlt ((hinv.holds p r).mp hr)
  exact hnot ((hmem r).mpr hold)

variable (env) in
/-- An answer of the UI process completes the request that it is about, after setting its
delay. -/
theorem onDataReady_spec {s : Service} (h : s.Inv) {p : ProxyId} {proxy : UiProxy}
    (hp : s.proxies p = some proxy) {operation : Operation} {id : ℤ} {r : RequestId}
    (hid : operation.answers = some id) (hr : proxy.requests[id]? = some r) :
    ∃ reply delay s', operation.reply = some reply ∧
      s.onDataReady env p proxy operation = .ok s' ∧
      Completes env r reply (s.setRequest r ({ · with delay := delay })) s' := by
  have hheld : (s.phase r).HeldBy p := (h.holds p r).mp ⟨proxy, hp, id, hr⟩
  unfold onDataReady
  cases operation with
  | process | other | newHandler => cases hid
  | failed id interface errorName errorMessage =>
      obtain rfl := Option.some.inj hid
      simp only [hr]
      obtain ⟨t, ht, hc⟩ := h.completed env hheld (.error errorName errorMessage)
      refine ⟨_, (s.requests r).delay, t, rfl, ht, ?_⟩
      have hsame : s.setRequest r ({ · with delay := (s.requests r).delay }) = s := by
        simp [setRequest]
      rwa [hsame]
  | finished id data delay interface =>
      obtain rfl := Option.some.inj hid
      simp only [hr]
      obtain ⟨t, ht, hc⟩ := (h.delay r delay).setResult env hheld data
      exact ⟨_, delay, t, rfl, ht, hc⟩

/-- An answer to no registered request is a fault. -/
theorem onDataReady_null {s : Service} {p : ProxyId} {proxy : UiProxy} {operation : Operation}
    {id : ℤ} (hid : operation.answers = some id) (hr : proxy.requests[id]? = none) :
    s.onDataReady env p proxy operation = .error .nullRequest := by
  unfold onDataReady
  cases operation with
  | process | other | newHandler => cases hid
  | failed | finished =>
      obtain rfl := Option.some.inj hid
      simp only [hr]

theorem onDataReady_answers {s s' : Service} (h : s.Inv) {p : ProxyId} {proxy : UiProxy}
    (hp : s.proxies p = some proxy) {operation : Operation} {id : ℤ}
    (hid : operation.answers = some id) (hrun : s.onDataReady env p proxy operation = .ok s') :
    ∃ r reply delay, proxy.requests[id]? = some r ∧
      Completes env r reply (s.setRequest r ({ · with delay := delay })) s' := by
  cases hr : proxy.requests[id]? with
  | none => cases (onDataReady_null hid hr).symm.trans hrun
  | some r =>
      obtain ⟨reply, delay, t, -, ht, hc⟩ := onDataReady_spec env h hp hid hr
      obtain rfl := Except.ok.inj (ht.symm.trans hrun)
      exact ⟨r, reply, delay, rfl, hc⟩

/-- An event of a proxy does nothing, or what it does under its condition. -/
theorem withProxy_ok {s s' : Service} {p : ProxyId} {c : UiProxy → Prop} [DecidablePred c]
    {f : UiProxy → Except Fault Service}
    (hrun : s.withProxy p (fun proxy => if c proxy then f proxy else .ok s) = .ok s') :
    (s' = s ∧ ∀ proxy, s.proxies p = some proxy → ¬ c proxy) ∨
      ∃ proxy, s.proxies p = some proxy ∧ c proxy ∧ f proxy = .ok s' := by
  unfold withProxy at hrun
  cases hp : s.proxies p with
  | none =>
      rw [hp] at hrun
      exact .inl ⟨(Except.ok.inj hrun).symm, by simp⟩
  | some proxy =>
      simp only [hp] at hrun
      split_ifs at hrun with hc
      · exact .inr ⟨proxy, rfl, hc, hrun⟩
      · exact .inl ⟨(Except.ok.inj hrun).symm, by simpa using hc⟩

/-! ### Events that are neither calls nor answers -/

/-- What happens in an event that is neither a call nor an answer. -/
inductive LocalStep (s : Service) : Event → Service → Prop where
  | nothing (e : Event) : LocalStep s e s
  | newConnection {p : ProxyId} {proxy : UiProxy} (hp : s.proxies p = some proxy)
      (h : proxy.listening = true) :
      LocalStep s (.newConnection p) (s.setProxy p (·.onNewConnection s.requests))
  | disconnected {p : ProxyId} {proxy : UiProxy} (hp : s.proxies p = some proxy)
      (h : proxy.socket = .connected) :
      LocalStep s (.disconnected p) (s.mayFinish p UiProxy.onDisconnected proxy)
  | newHandler {p : ProxyId} {proxy : UiProxy} (hp : s.proxies p = some proxy)
      (h : proxy.socket = .connected) (handlerId : String) :
      LocalStep s (.dataReady p (.newHandler handlerId))
        (s.setProxy p (·.registerHandler handlerId))
  | finishedTimer {p : ProxyId} {proxy : UiProxy} (hp : s.proxies p = some proxy)
      (h : proxy.finishedTimer.isSome = true) :
      LocalStep s (.finishedTimer p) (s.mayFinish p UiProxy.onFinishedTimer proxy)
  | promptSessionFinished {p : ProxyId} {proxy : UiProxy} (hp : s.proxies p = some proxy)
      (h : proxy.promptSession = true) :
      LocalStep s (.promptSessionFinished p) (s.onProxyFinished p)
  | processExited {p : ProxyId} {proxy : UiProxy} (hp : s.proxies p = some proxy)
      (h : proxy.process = .running) :
      LocalStep s (.processExited p) (s.setProxy p ({ · with process := .exited }))
  | deleteRequest {r : RequestId} (h : r ∈ s.deletions) :
      LocalStep s (.deleteRequest r) { s with
        deletions := s.deletions.filter (· ≠ r)
        allRequests := s.allRequests.erase r
        slots := Function.update s.slots r [] }

theorem local_cases {s s' : Service} {e : Event} (he : ¬ e.IsCall ∧ ¬ e.MayAnswer)
    (hrun : s.step env e = .ok s') : LocalStep s e s' := by
  cases e with
  | call => exact absurd trivial he.1
  | cancelUiRequest | deleteProxy => exact absurd trivial he.2
  | newConnection p =>
      rcases withProxy_ok hrun with ⟨rfl, -⟩ | ⟨proxy, hp, h, hrun⟩
      · exact .nothing _
      · obtain rfl := Except.ok.inj hrun
        exact .newConnection hp h
  | disconnected p =>
      rcases withProxy_ok hrun with ⟨rfl, -⟩ | ⟨proxy, hp, h, hrun⟩
      · exact .nothing _
      · obtain rfl := Except.ok.inj hrun
        exact .disconnected hp h
  | dataReady p operation =>
      rcases withProxy_ok hrun with ⟨rfl, -⟩ | ⟨proxy, hp, h, hrun⟩
      · exact .nothing _
      · cases operation with
        | finished | failed => exact absurd rfl he.2
        | process | other =>
            obtain rfl := Except.ok.inj hrun
            exact .nothing _
        | newHandler handlerId =>
            obtain rfl := Except.ok.inj hrun
            exact .newHandler hp h handlerId
  | finishedTimer p =>
      rcases withProxy_ok hrun with ⟨rfl, -⟩ | ⟨proxy, hp, h, hrun⟩
      · exact .nothing _
      · obtain rfl := Except.ok.inj hrun
        exact .finishedTimer hp h
  | promptSessionFinished p =>
      rcases withProxy_ok hrun with ⟨rfl, -⟩ | ⟨proxy, hp, h, hrun⟩
      · exact .nothing _
      · obtain rfl := Except.ok.inj hrun
        exact .promptSessionFinished hp h
  | processExited p =>
      rcases withProxy_ok hrun with ⟨rfl, -⟩ | ⟨proxy, hp, h, hrun⟩
      · exact .nothing _
      · obtain rfl := Except.ok.inj hrun
        exact .processExited hp h
  | deleteRequest r =>
      simp only [step] at hrun
      split_ifs at hrun with h
      · obtain rfl := Except.ok.inj hrun
        exact .deleteRequest h
      · obtain rfl := Except.ok.inj hrun
        exact .nothing _

theorem mayFinish_handled {s : Service} (hs : ∀ w, s.Settled w) {p : ProxyId} {e : Event}
    {method : UiProxy → UiProxy × Bool} (hm : Local fun proxy => (method proxy).1)
    (proxy : UiProxy) (ht : s.Allowed e .touch) (he : s.Allowed e (.finish p)) :
    Handled env e s (s.mayFinish p method proxy) := by
  unfold mayFinish
  simp only
  split_ifs
  · exact ⟨.head (.touch hm) ht (.single .finish he), fun w => (hs w).congr rfl fun _ => rfl⟩
  · exact .single (.touch hm) ht hs rfl fun _ => rfl

theorem LocalStep.handled {s s' : Service} {e : Event} (h : LocalStep s e s')
    (hs : ∀ w, s.Settled w) (he : ¬ e.IsCall ∧ ¬ e.MayAnswer) : Handled env e s s' := by
  cases h with
  | nothing => exact .refl hs
  | newConnection _ _ =>
      refine .single (.touch fun proxy => ?_) he hs rfl fun _ => rfl
      unfold UiProxy.onNewConnection
      rw [UiProxy.sendAll_eq]
      split_ifs <;> exact ⟨rfl, rfl⟩
  | disconnected _ _ => exact mayFinish_handled hs (fun _ => ⟨rfl, rfl⟩) _ he (.inl rfl)
  | newHandler _ _ _ => exact .single (.touch fun _ => ⟨rfl, rfl⟩) he hs rfl fun _ => rfl
  | finishedTimer _ _ => exact mayFinish_handled hs (fun _ => ⟨rfl, rfl⟩) _ he (.inr (.inl rfl))
  | promptSessionFinished _ _ => exact .single .finish (.inr (.inr rfl)) hs rfl fun _ => rfl
  | processExited _ _ => exact .single (.touch fun _ => ⟨rfl, rfl⟩) he hs rfl fun _ => rfl
  | deleteRequest hr => exact .single (.deleteRequest hr) trivial hs rfl fun _ => rfl

theorem step_routed {s s' : Service} {e : Event} (he : s.Routes e) (hrun : s.step env e = .ok s') :
    ∃ p request, s' = s.route env p request := by
  cases e with
  | call interface parameters profile =>
      obtain ⟨p, hp⟩ := Option.isSome_iff_exists.mp he
      let request : Request :=
        { interface := interface, parameters := parameters, clientApparmorProfile := profile }
      have hroute : s.call env request = .ok (s.route env p request) := call_routed hp
      exact ⟨p, request, Except.ok.inj (hrun.symm.trans hroute)⟩
  | _ => exact he.elim

/-- **What an event can do**: without a fault, it leads by allowed actions to a state in which
every queue is being served. -/
theorem handles {s s' : Service} {e : Event} (h : s.Inv) (hs : ∀ w, s.Settled w)
    (hrun : s.step env e = .ok s') : Handled env e s s' := by
  by_cases he : ¬ e.IsCall ∧ ¬ e.MayAnswer
  · exact (local_cases he hrun).handled hs he
  · cases e with
    | call interface parameters profile =>
        obtain ⟨t, ht, hhandled⟩ : ∃ t, s.step env (.call interface parameters profile) = .ok t ∧
            Handled env (.call interface parameters profile) s t :=
          call_spec env h hs rfl trivial id
        obtain rfl := Except.ok.inj (ht.symm.trans hrun)
        exact hhandled
    | cancelUiRequest requestId =>
        change s.cancelUiRequest env requestId = .ok s' at hrun
        unfold cancelUiRequest at hrun
        cases hr : s.findUiRequest requestId with
        | none =>
            rw [hr] at hrun
            obtain rfl := Except.ok.inj hrun
            exact .refl hs
        | some r =>
            rw [hr] at hrun
            exact setCanceled_handled h hs trivial hrun fun hdone hflag => ⟨r, hr, hdone, hflag⟩
    | dataReady p operation =>
        have hanswer : (Event.dataReady p operation).MayAnswer :=
          by_contra fun hnot => he ⟨id, hnot⟩
        obtain ⟨answered, hid⟩ := Option.isSome_iff_exists.mp hanswer
        rcases withProxy_ok hrun with ⟨rfl, -⟩ | ⟨proxy, hp, -, hrun⟩
        · exact .refl hs
        · obtain ⟨r, reply, delay, -, hc⟩ := onDataReady_answers h hp hid hrun
          exact ⟨.head (.delay delay) trivial (hc.path.mono fun _ ha => ha.allowed hanswer),
            hc.settled fun w => (hs w).congr rfl fun _ => rfl⟩
    | deleteProxy p =>
        rcases withProxy_ok hrun with ⟨rfl, -⟩ | ⟨proxy, hp, -, hrun⟩
        · exact .refl hs
        · obtain ⟨t, hall, hnone, ht⟩ := deleteProxy_spec env h hp
          obtain rfl := Except.ok.inj (ht.symm.trans hrun)
          exact ⟨(hall.path.mono fun _ ha => ha.allowed trivial).trans
            (.single (.deleteProxy hnone) rfl), fun w => (hall.settled hs w).congr rfl fun _ => rfl⟩
    | _ => exact absurd ⟨id, id⟩ he

/-! ### Reachable states -/

theorem reachable_inv {guard : Service → Event → Prop} {s : Service}
    (h : Reachable (machine env) guard s) : s.Inv ∧ ∀ w, s.Settled w := by
  refine h.invariant (I := fun s => s.Inv ∧ ∀ w, s.Settled w)
    ⟨start_inv, fun w r rest hr => ?_⟩ fun s e s' hs _ hrun => ?_
  · simp [queue, machine] at hr
  · obtain ⟨hi, hs⟩ := hs
    obtain ⟨hpath, hsettled⟩ := handles hi hs hrun
    exact ⟨hi.path hpath, hsettled⟩

/-- What the start satisfies and every action that a guarded event may consist of keeps holds
in every reachable state. -/
theorem reachable_acts {guard : Service → Event → Prop} {I : Service → Prop} {s : Service}
    (h : Reachable (machine env) guard s) (start : I {})
    (act : ∀ s e a t t', guard s e → s.Allowed e a → t.Inv → I t → Act env a t t' → I t') :
    I s := by
  have hboth : s.Inv ∧ (∀ w, s.Settled w) ∧ I s := by
    refine h.invariant (I := fun s => s.Inv ∧ (∀ w, s.Settled w) ∧ I s)
      ⟨start_inv, fun w r rest hr => ?_, start⟩ fun s e s' hs hg hrun => ?_
    · simp [queue, machine] at hr
    · obtain ⟨hi, hs, hI⟩ := hs
      obtain ⟨hpath, hsettled⟩ := handles hi hs hrun
      have hkept : s'.Inv ∧ I s' := by
        refine hpath.invariant (I := fun t => t.Inv ∧ I t) ⟨hi, hI⟩ fun a t t' ht ha hact => ?_
        exact ⟨hact.inv ht.1, act s e a t t' hg ha ht.1 ht.2 hact⟩
      exact ⟨hkept.1, hsettled, hkept.2⟩
  exact hboth.2.2

end Service

end OnlineAccounts
