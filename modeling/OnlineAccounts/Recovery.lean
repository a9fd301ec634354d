import OnlineAccounts.Cancellation

/-! # Crash recovery

When a UI process is gone, its proxy is destroyed, and the destructor cancels every request that
is still registered.  Each cancellation takes its request out of the map and out of its queue, and
the manager starts what comes next before the loop goes on.

`Fate` says what can happen to the other requests meanwhile: one that waits behind a cancelled head
may be handed to a new proxy, or be refused.  `crash_recovery` puts the loop together. -/

namespace OnlineAccounts.Service

open Transition

variable {env : ProxyId → Environment}

/-- The reply to a request for which no proxy can be initialised. -/
abbrev refused : Reply := .error OAU_ERROR_PROMPT_SESSION "Could not create a prompt session"

/-- What happens to a request while others are cancelled. -/
inductive Fate (s t : Service) (q : RequestId) : Prop where
  | same (phase : t.phase q = s.phase q) (replies : t.replies q = s.replies q)
      (queue : ∀ w, q ∈ s.queue w → q ∈ t.queue w)
  | handed (waiting : s.phase q = .waiting) {p : ProxyId} (new : s.nextProxy ≤ p)
      (served : t.phase q = .served p) (replies : t.replies q = s.replies q)
      (queue : ∀ w, q ∈ s.queue w → q ∈ t.queue w)
  | refused (waiting : s.phase q = .waiting) (done : t.phase q = .done)
      (replies : t.replies q = refused :: s.replies q)

theorem Fate.of_ne_waiting {s t : Service} {q : RequestId} (h : Fate s t q)
    (hq : s.phase q ≠ .waiting) : t.phase q = s.phase q ∧ t.replies q = s.replies q := by
  cases h with
  | same hphase hreplies _ => exact ⟨hphase, hreplies⟩
  | handed hwaiting _ _ _ _ => exact absurd hwaiting hq
  | refused hwaiting _ _ => exact absurd hwaiting hq

theorem Fate.trans {s t u : Service} {q : RequestId} (h : Fate s t q) (h' : Fate t u q)
    (hle : s.nextProxy ≤ t.nextProxy) : Fate s u q := by
  cases h with
  | same hphase hreplies hqueue =>
      cases h' with
      | same hphase' hreplies' hqueue' =>
          exact .same (hphase'.trans hphase) (hreplies'.trans hreplies)
            fun w hw => hqueue' w (hqueue w hw)
      | handed hwaiting hnew hserved hreplies' hqueue' =>
          exact .handed (hphase.symm.trans hwaiting) (hle.trans hnew) hserved
            (hreplies'.trans hreplies) fun w hw => hqueue' w (hqueue w hw)
      | refused hwaiting hdone hreplies' =>
          exact .refused (hphase.symm.trans hwaiting) hdone (by rw [hreplies', hreplies])
  | handed hwaiting hnew hserved hreplies hqueue =>
      cases h' with
      | same hphase' hreplies' hqueue' =>
          exact .handed hwaiting hnew (hphase'.trans hserved) (hreplies'.trans hreplies)
            fun w hw => hqueue' w (hqueue w hw)
      | handed hwaiting' _ _ _ _ => cases hserved.symm.trans hwaiting'
      | refused hwaiting' _ _ => cases hserved.symm.trans hwaiting'
  | refused hwaiting hdone hreplies =>
      obtain ⟨hphase', hreplies'⟩ := h'.of_ne_waiting (by simp [hdone])
      exact .refused hwaiting (hphase'.trans hdone) (hreplies'.trans hreplies)

/-! ### The launch of a queue -/

theorem replies_of_log {s t : Service} (es : List Emission) (h : t.log = es ++ s.log)
    (q : RequestId) : t.replies q = es.filterMap (Emission.replyTo q) ++ s.replies q := by
  unfold replies
  rw [h, List.filterMap_append]

theorem Act.fate {w : ℕ} {a : Label} {s t : Service} (h : Act env a s t) (ha : Launching w a)
    (q : RequestId) : Fate s t q := by
  cases h with
  | idle => exact .same rfl (replies_of_log [.isIdleChanged s.isIdle] rfl q) fun _ => id
  | @hand _ w' r rest hq hr hinit =>
      have hreplies := replies_of_log (s := s) (t := s.hand env w' r)
        [.handed r w' s.nextProxy] rfl q
      have hphase : (s.hand env w' r).phase q = _ := phase_hand s w' r q
      by_cases hrq : r = q
      · subst hrq
        rw [if_pos rfl] at hphase
        exact .handed hr le_rfl hphase hreplies fun _ => id
      · rw [if_neg hrq] at hphase
        exact .same hphase hreplies fun _ => id
  | @refuse _ w' r rest hq hr hinit =>
      have hreplies := replies_of_log (s := s) (t := s.refuse w' rest r)
        [.completed r, .replied r Service.refused] rfl q
      have hphase := phase_refuse s w' rest r q
      by_cases hrq : r = q
      · subst hrq
        rw [if_pos rfl] at hphase
        refine .refused hr hphase (hreplies.trans ?_)
        simp [List.filterMap_cons, Emission.replyTo]
      · rw [if_neg hrq] at hphase
        refine .same hphase (hreplies.trans ?_) ?_
        · simp [List.filterMap_cons, Emission.replyTo, hrq]
        · intro v hv
          rw [queue_refuse]
          split_ifs with hwv
          · subst hwv
            rw [hq] at hv
            exact List.mem_of_ne_of_mem (Ne.symm hrq) hv
          · exact hv
  | _ => exact ha.elim

theorem Path.fate {w : ℕ} {s t : Service} (h : Path (Act env) (Launching w) s t) (q : RequestId) :
    Fate s t q := by
  induction h with
  | refl s => exact .same rfl rfl fun _ => id
  | head hact ha _ ih => exact (hact.fate ha q).trans ih (hact.launched ha).nextProxy_le

/-! ### One completion -/

/-- The request that completes has its reply; the others have their fate. -/
theorem Completion.fate {s t : Service} {r : RequestId} {reply : Reply}
    (h : Completion env r reply s t) :
    t.replies r = reply :: s.replies r ∧ ∀ q, r ≠ q → Fate s t q := by
  have hanswer (q : RequestId) : (s.answer r reply).replies q =
      if r = q then reply :: s.replies q else s.replies q := by
    have hlog := replies_of_log (s := s) (t := s.answer r reply)
      [.completed r, .replied r reply] rfl q
    rw [hlog]
    by_cases hrq : r = q
    · simp [List.filterMap_cons, Emission.replyTo, hrq]
    · simp [List.filterMap_cons, Emission.replyTo, hrq]
  cases h with
  | @served w rest p _ hq hr hpath =>
      have hphase (q : RequestId) : (s.complete w rest r p reply).phase q =
          if r = q then .done else s.phase q := phase_answer r reply s q
      have hreplies (q : RequestId) : (s.complete w rest r p reply).replies q =
          if r = q then reply :: s.replies q else s.replies q := hanswer q
      refine ⟨?_, ?_⟩
      · have hdone := hphase r
        rw [if_pos rfl] at hdone
        rw [((Path.fate hpath r).of_ne_waiting (by simp [hdone])).2, hreplies, if_pos rfl]
      · intro q hrq
        have hsame : Fate s (s.complete w rest r p reply) q := by
          refine .same ?_ ?_ ?_
          · rw [hphase, if_neg hrq]
          · rw [hreplies, if_neg hrq]
          · intro v hv
            refine (queue_dequeue _ w v rest) ▸ ?_
            split_ifs with hwv
            · subst hwv
              rw [hq] at hv
              exact List.mem_of_ne_of_mem (Ne.symm hrq) hv
            · exact hv
        exact hsame.trans (Path.fate hpath q) le_rfl
  | @routed p hr =>
      refine ⟨(hanswer r).trans (if_pos rfl), ?_⟩
      intro q hrq
      exact .same ((phase_answer r reply s q).trans (if_neg hrq)) ((hanswer q).trans (if_neg hrq))
        fun _ => id

/-! ### The loop of the destructor -/

theorem mem_of_mem_survivors {requests : RequestId → Request} {q : RequestId} :
    ∀ {p : ProxyId} {rs : List RequestId}, q ∈ survivors env requests p rs → q ∈ rs
  | _, [], h => h
  | p, r :: rs, h => by
      unfold survivors at h
      split_ifs at h
      · exact h
      · exact List.mem_cons_of_mem r (mem_of_mem_survivors h)

/-- Registered requests have been cancelled, and their queues were launched. -/
structure CanceledAll (env : ProxyId → Environment) (rs : List RequestId) (s t : Service) :
    Prop where
  completes : CompletesAll env rs s t
  nextProxy_le : s.nextProxy ≤ t.nextProxy
  clientPid : ∀ q, (t.requests q).clientPid = (s.requests q).clientPid
  canceled : ∀ r ∈ rs, t.replies r = canceled :: s.replies r
  fate : ∀ q, q ∉ rs → Fate s t q
  kept : ∀ w, (∀ r ∈ rs, r ∉ s.queue w) → t.queue w = s.queue w
  launched : ∀ w r rest, s.queue w = r :: rest → r ∈ rs →
    ∃ first, s.nextProxy ≤ first ∧ t.queue w = survivors env s.requests first rest

theorem CanceledAll.nil (s : Service) : CanceledAll env [] s s where
  completes := .nil s
  nextProxy_le := le_rfl
  clientPid _ := rfl
  canceled _ hr := absurd hr List.not_mem_nil
  fate _ _ := .same rfl rfl fun _ => id
  kept _ _ := rfl
  launched _ _ _ _ hr := absurd hr List.not_mem_nil

variable (env) in
theorem Inv.cancel {s : Service} (h : s.Inv) {r : RequestId} {p : ProxyId}
    (hr : (s.phase r).HeldBy p) :
    ∃ t, s.setCanceled (run env) r = .ok t ∧ CanceledAll env [r] s t := by
  obtain ⟨t, ht, hcompletion, hc⟩ := h.cancellation env hr
  obtain ⟨hreplies, hfate⟩ := hcompletion.fate
  refine ⟨_, ht, .cons hc.clear (.nil _), hc.nextProxy_le, hc.clear.clientPid, ?_, ?_, ?_, ?_⟩
  · intro q hq
    rw [List.mem_singleton.mp hq]
    exact hreplies
  · intro q hq
    have hne : r ≠ q := fun he => hq (by simp [he])
    cases hfate q hne with
    | same hphase hreplies hqueue => exact .same hphase hreplies hqueue
    | handed hwaiting hnew hserved hreplies hqueue =>
        exact .handed hwaiting hnew hserved hreplies hqueue
    | refused hwaiting hdone hreplies => exact .refused hwaiting hdone hreplies
  · intro w hw
    exact hc.queue w (hw r List.mem_cons_self)
  · intro w a rest hq ha
    rw [List.mem_singleton.mp ha] at hq
    exact ⟨s.nextProxy, le_rfl, hc.launch w rest hq⟩

/-- The requests that are still registered keep out of the queue that was launched. -/
theorem Inv.not_mem_of_heldBy {s : Service} (h : s.Inv) {w : ℕ} {r q : RequestId}
    {rest : List RequestId} {p : ProxyId} (hw : s.queue w = r :: rest) (hq : (s.phase q).HeldBy p) :
    q ∉ rest :=
  fun hmem => hq.ne_waiting (h.tail w r rest hw q hmem)

theorem CanceledAll.cons {s t u : Service} {r : RequestId} {rs : List RequestId} {p : ProxyId}
    (h : s.Inv) (hr : r ∉ rs) (hheld : ∀ q ∈ r :: rs, (s.phase q).HeldBy p)
    (hhead : CanceledAll env [r] s t) (hrest : CanceledAll env rs t u) :
    CanceledAll env (r :: rs) s u := by
  have hsame (q : RequestId) (hq : q ∈ rs) :
      t.phase q = s.phase q ∧ t.replies q = s.replies q := by
    have hne : q ∉ [r] := fun hmem => hr (List.mem_singleton.mp hmem ▸ hq)
    exact (hhead.fate q hne).of_ne_waiting (hheld q (List.mem_cons_of_mem r hq)).ne_waiting
  have hheadr := hheld r List.mem_cons_self
  refine ⟨?_, hhead.nextProxy_le.trans hrest.nextProxy_le,
    fun q => (hrest.clientPid q).trans (hhead.clientPid q), ?_, ?_, ?_, ?_⟩
  · cases hhead.completes with
    | cons hc hnil =>
        cases hnil
        exact .cons hc hrest.completes
  · intro q hq
    obtain rfl | hq := List.mem_cons.mp hq
    · -- its reply was sent before, and a request that is done gets no other
      have hdone : t.phase q ≠ .waiting := by
        cases hhead.completes with
        | cons hc hnil =>
            cases hnil
            simp [hc.done]
      rw [((hrest.fate q hr).of_ne_waiting hdone).2]
      exact hhead.canceled q List.mem_cons_self
    · rw [hrest.canceled q hq, (hsame q hq).2]
  · intro q hq
    rw [List.mem_cons, not_or] at hq
    exact (hhead.fate q (by simpa using hq.1)).trans (hrest.fate q hq.2) hhead.nextProxy_le
  · intro w hw
    have hqueue := hhead.kept w fun q hq =>
      hw q (List.mem_cons.mpr (.inl (List.mem_singleton.mp hq)))
    rw [hrest.kept w, hqueue]
    intro q hq
    rw [hqueue]
    exact hw q (List.mem_cons_of_mem r hq)
  · intro w a rest hw ha
    obtain rfl | ha := List.mem_cons.mp ha
    · -- the rest of the loop leaves the launched queue alone
      obtain ⟨first, hfirst, hqueue⟩ := hhead.launched w a rest hw List.mem_cons_self
      refine ⟨first, hfirst, ?_⟩
      rw [hrest.kept w, hqueue]
      intro q hq hmem
      rw [hqueue] at hmem
      exact h.not_mem_of_heldBy hw (hheld q (List.mem_cons_of_mem _ hq)) (mem_of_mem_survivors hmem)
    · have hqueue : t.queue w = a :: rest := by
        rw [hhead.kept w, hw]
        intro q hq
        rw [List.mem_singleton.mp hq, hw, List.mem_cons, not_or]
        exact ⟨fun he => hr (he ▸ ha), h.not_mem_of_heldBy hw hheadr⟩
      obtain ⟨first, hfirst, hlaunched⟩ := hrest.launched w a rest hqueue ha
      refine ⟨first, hhead.nextProxy_le.trans hfirst, ?_⟩
      rw [hlaunched]
      exact survivors_congr hhead.clientPid first rest

theorem cancelAll_spec (env : ProxyId → Environment) {p : ProxyId} (rs : List RequestId)
    {s : Service} (hnd : rs.Nodup) (h : s.Inv) (hheld : ∀ r ∈ rs, (s.phase r).HeldBy p) :
    ∃ t, rs.foldlM (fun s r => setCanceled (run env) r s) s = .ok t ∧ CanceledAll env rs s t := by
  refine cancelAll_induction env CanceledAll.nil ?_ rs hnd h hheld
  intro s t u r rs hinv hr hheld ht hrest
  obtain ⟨t', ht', hhead⟩ := hinv.cancel env (hheld r List.mem_cons_self)
  obtain rfl := Except.ok.inj (ht.symm.trans ht')
  exact .cons hinv hr hheld hhead hrest

/-! ### Every reachable state -/

/-- What the end of proxy `p` does to the requests, from state `s` to state `t`. -/
structure Recovers (env : ProxyId → Environment) (p : ProxyId) (s t : Service) : Prop where
  /-- A registered request is told once that it was canceled. -/
  canceled : ∀ r, s.Holds p r → t.replies r = [canceled]
  /-- No other request is; some that wait behind a cancelled head may be refused. -/
  others : ∀ q, ¬ s.Holds p q → t.replies q = s.replies q ∨
    t.replies q = [refused] ∧ ∃ w r rest, s.queue w = r :: rest ∧ s.Holds p r ∧ q ∈ rest
  /-- A cancelled head leaves its queue, with those behind it whose proxy cannot be initialised. -/
  dequeued : ∀ w r rest, s.queue w = r :: rest → s.Holds p r →
    ∃ first, s.nextProxy ≤ first ∧ t.queue w = survivors env s.requests first rest
  /-- These are answered with an error. -/
  refused : ∀ w r rest, s.queue w = r :: rest → s.Holds p r → ∀ q ∈ rest, q ∉ t.queue w →
    t.replies q = [refused]
  /-- The next one is handed to a new proxy. -/
  handed : ∀ w r rest q rest', s.queue w = r :: rest → s.Holds p r → t.queue w = q :: rest' →
    ∃ p', s.nextProxy ≤ p' ∧ t.phase q = .served p' ∧ t.Holds p' q
  /-- The other queues are as before. -/
  kept : ∀ w, (∀ r ∈ s.queue w, ¬ s.Holds p r) → t.queue w = s.queue w

theorem History.replies_eq_nil {s : Service} (h : s.History) {r : RequestId}
    (hr : s.phase r ≠ .done) : s.replies r = [] := by
  unfold replies
  rw [List.filterMap_eq_nil_iff]
  intro e he
  by_contra hsome
  have hagrees := h e he
  cases e with
  | replied q reply =>
      have hq : q = r := by
        by_contra hne
        exact hsome (if_neg hne)
      exact hr (hq ▸ hagrees)
  | _ => exact hsome rfl

/-- A registered request that is in a queue is its head. -/
theorem Inv.head_of_heldBy {s : Service} (h : s.Inv) {r : RequestId} {p : ProxyId}
    (hr : (s.phase r).HeldBy p) {w : ℕ} (hmem : r ∈ s.queue w) : ∃ rest, s.queue w = r :: rest := by
  cases hw : s.queue w with
  | nil => simp [hw] at hmem
  | cons a rest =>
      rw [hw] at hmem
      obtain rfl | hmem := List.mem_cons.mp hmem
      · exact ⟨rest, rfl⟩
      · exact absurd hmem (h.not_mem_of_heldBy hw hr)

/-- A request that left its queue without having been registered waited behind one that was. -/
theorem CanceledAll.behind {s t : Service} {p : ProxyId} {rs : List RequestId} (h : s.Inv)
    (hrs : ∀ r, r ∈ rs ↔ s.Holds p r) (hall : CanceledAll env rs s t) {q : RequestId}
    (hq : ¬ s.Holds p q) (hwaiting : s.phase q = .waiting) (hdone : t.phase q = .done) :
    ∃ w r rest, s.queue w = r :: rest ∧ s.Holds p r ∧ q ∈ rest := by
  have ht : t.Inv := h.path hall.completes.path
  have hmem : q ∈ s.queue (s.windowId q) := (h.mem_queue _ q).mpr ⟨rfl, .inl hwaiting⟩
  by_cases hfree : ∀ r ∈ s.queue (s.windowId q), ¬ s.Holds p r
  · -- then the queue has not changed
    rw [← hall.kept _ fun r hr hmem => hfree r hmem ((hrs r).mp hr)] at hmem
    have hqueued := ((ht.mem_queue _ q).mp hmem).2
    simp [hdone, Phase.Queued] at hqueued
  · push Not at hfree
    obtain ⟨r, hr, hholds⟩ := hfree
    obtain ⟨rest, hw⟩ := h.head_of_heldBy ((h.holds p r).mp hholds) hr
    refine ⟨_, r, rest, hw, hholds, ?_⟩
    rw [hw] at hmem
    obtain rfl | hmem := List.mem_cons.mp hmem
    · exact absurd hholds hq
    · exact hmem

theorem CanceledAll.recovers {s t : Service} {p : ProxyId} {rs : List RequestId} (h : s.Inv)
    (hs : ∀ w, s.Settled w) (hh : s.History) (hrs : ∀ r, r ∈ rs ↔ s.Holds p r)
    (hall : CanceledAll env rs s t) : Recovers env p s t := by
  have ht : t.Inv := h.path hall.completes.path
  have hheld (r : RequestId) : s.Holds p r ↔ (s.phase r).HeldBy p := h.holds p r
  have hrest {w : ℕ} {r : RequestId} {rest : List RequestId} (hw : s.queue w = r :: rest)
      {q : RequestId} (hq : q ∈ rest) : s.phase q = .waiting ∧ Fate s t q := by
    have hwaiting := h.tail w r rest hw q hq
    refine ⟨hwaiting, hall.fate q fun hmem => ?_⟩
    rw [hrs, hheld] at hmem
    exact hmem.ne_waiting hwaiting
  refine ⟨?_, ?_, ?_, ?_, ?_, ?_⟩
  · intro r hr
    have hnotdone : s.phase r ≠ .done := by
      rw [hheld] at hr
      rintro hdone
      simp [hdone, Phase.HeldBy] at hr
    rw [hall.canceled r ((hrs r).mpr hr), hh.replies_eq_nil hnotdone]
  · intro q hq
    cases hall.fate q (mt (hrs q).mp hq) with
    | same _ hreplies _ => exact .inl hreplies
    | handed _ _ _ hreplies _ => exact .inl hreplies
    | refused hwaiting hdone hreplies =>
        rw [hh.replies_eq_nil (by simp [hwaiting])] at hreplies
        exact .inr ⟨hreplies, hall.behind h hrs hq hwaiting hdone⟩
  · exact fun w r rest hw hr => hall.launched w r rest hw ((hrs r).mpr hr)
  · intro w r rest hw _ q hq hgone
    obtain ⟨hwaiting, hfate⟩ := hrest hw hq
    have hmem : q ∈ s.queue w := by simp [hw, hq]
    cases hfate with
    | same _ _ hqueue => exact absurd (hqueue w hmem) hgone
    | handed _ _ _ _ hqueue => exact absurd (hqueue w hmem) hgone
    | refused _ _ hreplies => rw [hreplies, hh.replies_eq_nil (by simp [hwaiting])]
  · intro w r rest q rest' hw hr hq
    obtain ⟨first, -, hqueue⟩ := hall.launched w r rest hw ((hrs r).mpr hr)
    have hmem : q ∈ rest := by
      have hsurvives : q ∈ t.queue w := by simp [hq]
      rw [hqueue] at hsurvives
      exact mem_of_mem_survivors hsurvives
    obtain ⟨hwaiting, hfate⟩ := hrest hw hmem
    obtain ⟨p', hserved⟩ := hall.completes.settled hs w q rest' hq
    cases hfate with
    | same hphase _ _ => cases hserved.symm.trans (hphase.trans hwaiting)
    | @handed _ p'' hnew hserved' _ _ =>
        exact ⟨p'', hnew, hserved', (ht.holds p'' q).mpr (.inl hserved')⟩
    | refused _ hdone _ => cases hserved.symm.trans hdone
  · exact fun w hw => hall.kept w fun r hr hmem => hw r hmem ((hrs r).mp hr)

theorem Act.proxy_isSome {a : Label} {s t : Service} (h : Act env a s t) (ha : Completing a)
    {p : ProxyId} (hp : (s.proxies p).isSome) : (t.proxies p).isSome := by
  cases h with
  | @hand _ w r rest hq hr hinit =>
      by_cases hnew : p = s.nextProxy
      · subst hnew
        simp [Service.hand, Service.handleRequest]
      · simpa [Service.hand, Service.handleRequest, hnew] using hp
  | @complete _ w r rest q reply hq hr =>
      by_cases hq : p = q
      · subst hq
        simpa [Service.complete, Service.unregister, Service.answer] using hp
      · simpa [Service.complete, Service.unregister, Service.answer, hq] using hp
  | @completeRouted _ r q reply hr =>
      by_cases hq : p = q
      · subst hq
        simpa [Service.completeRouted, Service.unregister, Service.answer] using hp
      · simpa [Service.completeRouted, Service.unregister, Service.answer, hq] using hp
  | refuse _ _ _ | idle | clear _ | delay _ => exact hp
  | _ => exact ha.elim

/-- **Crash recovery**: in every reachable state, the destructor of a proxy cancels all of its
requests, each once, and no other; its map is empty when the loop ends, and the queues whose head
was among them go on. -/
theorem crash_recovery (env : ProxyId → Environment) {s : Service}
    (h : Reachable (machine env) (fun _ _ => True) s) {p : ProxyId} {proxy : UiProxy}
    (hp : s.proxies p = some proxy) :
    ∃ t, (proxy.requests.toList.map Prod.snd).foldlM (fun s r => setCanceled (run env) r s) s =
        .ok t ∧
      (∃ proxy', t.proxies p = some proxy' ∧ proxy'.requests.isEmpty = true) ∧
      s.deleteProxy env p proxy = .ok { t with
        proxies := Function.update t.proxies p none
        doomed := t.doomed.erase p } ∧
      Recovers env p s t := by
  obtain ⟨hi, hs⟩ := reachable_inv h
  obtain ⟨hnd, hmem⟩ := hi.registered hp
  obtain ⟨t, ht, hall⟩ := cancelAll_spec env _ hnd hi fun r hr => (hmem r).mp hr
  have hrecovers := hall.recovers hi hs (reachable_history h)
    fun r => (hmem r).trans (hi.holds p r).symm
  have hsome : (t.proxies p).isSome :=
    hall.completes.path.invariant (I := fun u => (u.proxies p).isSome) (by simp [hp])
      fun _ _ _ hu ha hact => hact.proxy_isSome ha hu
  obtain ⟨proxy', hp'⟩ := Option.isSome_iff_exists.mp hsome
  refine ⟨t, ht, ⟨proxy', hp', ?_⟩, ?_, hrecovers⟩
  · have hti : t.Inv := hi.path hall.completes.path
    have hnil : proxy'.requests.toList.map Prod.snd = [] := by
      rw [List.eq_nil_iff_forall_not_mem]
      intro r hr
      obtain ⟨hold, hnot⟩ :=
        hall.completes.heldBy (hi.proxy_lt hp) (((hti.registered hp').2 r).mp hr)
      exact hnot ((hmem r).mpr hold)
    rw [← Std.TreeMap.isEmpty_toList, List.map_eq_nil_iff.mp hnil]
    rfl
  · unfold Service.deleteProxy
    rw [ht]
    rfl

/-- Two requests of one window; the UI process that serves the first one is gone. -/
theorem crash_recovery_two_requests :
    ∃ s proxy, (machine fun _ => {}).run {} [.queryDialog 1 "a", .queryDialog 1 "b"] = .ok s ∧
      s.proxies 0 = some proxy ∧
      ∃ t, (proxy.requests.toList.map Prod.snd).foldlM
          (fun s r => setCanceled (run fun _ => {}) r s) s = .ok t ∧
        (∃ proxy', t.proxies 0 = some proxy' ∧ proxy'.requests.isEmpty = true) ∧
        s.deleteProxy (fun _ => {}) 0 proxy = .ok { t with
          proxies := Function.update t.proxies 0 none
          doomed := t.doomed.erase 0 } ∧
        Recovers (fun _ => {}) 0 s t := by
  have hproxy : ((machine fun _ => {}).run {} [.queryDialog 1 "a", .queryDialog 1 "b"]).map
      (fun s => (s.proxies 0).isSome) = .ok true := by decide
  obtain ⟨s, hs, hsome⟩ := exists_of_map_ok hproxy
  obtain ⟨proxy, hp⟩ := Option.isSome_iff_exists.mp hsome
  have hallows : (machine fun _ => {}).Allows (fun _ _ => True) {}
      [.queryDialog 1 "a", .queryDialog 1 "b"] := by decide
  have hreachable : Reachable (machine fun _ => {}) (fun _ _ => True) s :=
    reachable_of_run_from .start hallows hs
  exact ⟨s, proxy, hs, hp, crash_recovery (fun _ => {}) hreachable hp⟩

end OnlineAccounts.Service
