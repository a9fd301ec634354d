import OnlineAccounts.Actions

/-! # The code runs actions

Every event that the service handles without a fault is a path of actions (`handles`).  The
signal `completed()` calls the slot of the manager before the slot of the proxy, and the manager
starts other requests in between; since these go to new proxies, the order does not matter, and
the slots can be taken together as one action that is followed by the others
(`Act.setProxy_comm`).

Between two events no queue has a waiting head (`Settled`): whoever dequeues a request starts
the next one. -/

namespace OnlineAccounts.Service

open Transition

variable {env : ProxyId → Environment}

/-- The actions of `runQueue` for the queue of window `w`. -/
def Launching (w : ℕ) : Label → Prop
  | .hand w' => w' = w
  | .refuse w' => w' = w
  | .idle => True
  | _ => False

/-- The actions of a completion. -/
def Completing : Label → Prop
  | .hand _ | .refuse _ | .idle | .complete | .clear | .delay => True
  | _ => False

theorem Launching.completing {w : ℕ} {a : Label} (h : Launching w a) : Completing a := by
  cases a <;> trivial

/-- The head of the queue of window `w` is being served. -/
def Settled (s : Service) (w : ℕ) : Prop :=
  ∀ r rest, s.queue w = r :: rest → ∃ p, s.phase r = .served p

/-- The queue of window `w` waits to be run. -/
structure Ready (w : ℕ) (s : Service) : Prop where
  nodup : (s.queue w).Nodup
  waiting : ∀ r ∈ s.queue w, s.windowId r = w ∧ s.phase r = .waiting ∧
    (s.requests r).inProgress = false ∧ s.slots r = []

theorem phase_refuse (s : Service) (w : ℕ) (rest : List RequestId) (r q : RequestId) :
    (s.refuse w rest r).phase q = if r = q then .done else s.phase q :=
  phase_answer r _ _ q

theorem queue_refuse (s : Service) (w w' : ℕ) (rest : List RequestId) (r : RequestId) :
    (s.refuse w rest r).queue w' = if w = w' then rest else s.queue w' :=
  queue_dequeue _ w w' rest

/-! ### Running a queue -/

section

variable {run : ℕ → Service → Except Fault Service}

theorem completed_manager {s : Service} {r : RequestId} (hslots : s.slots r = [.manager]) :
    s.completed run r = (s.emit (.completed r)).onRequestCompleted run r := by
  simp [completed, hslots, callSlot]

/-- What the slot of the manager does for the head of a queue. -/
theorem onRequestCompleted_head {s : Service} {w : ℕ} {r : RequestId} {rest : List RequestId}
    (hw : s.windowId r = w) (hq : s.queue w = r :: rest) :
    s.onRequestCompleted run r =
      (if rest = [] then .ok ((s.deleteLater r).dequeue w rest)
        else run w ((s.deleteLater r).dequeue w rest)).map
          fun s => if s.isIdle then s.isIdleChanged else s := by
  unfold onRequestCompleted
  simp only [hw, hq, ne_eq, not_true_eq_false, if_false]
  by_cases hrest : rest = []
  · simp [hrest, dequeue]
  · simp [hrest, dequeue, setQueue]

end

theorem runQueue_hand {fuel w : ℕ} {s : Service} {r : RequestId} {rest : List RequestId}
    (hq : s.queue w = r :: rest) (hr : (s.requests r).inProgress = false)
    (hinit : (s.newProxy env r).2 = true) :
    s.runQueue env (fuel + 1) w = .ok (s.hand env w r) := by
  have hconnect : (s.connect r .manager).newProxy env r = s.newProxy env r := rfl
  unfold runQueue
  simp only [hq, hr, Bool.false_eq_true, if_false, hconnect, hinit, if_true]
  rfl

theorem runQueue_refuse {fuel w : ℕ} {s : Service} {r : RequestId} {rest : List RequestId}
    (hq : s.queue w = r :: rest) (hw : s.windowId r = w) (hr : (s.requests r).inProgress = false)
    (hslots : s.slots r = []) (hinit : (s.newProxy env r).2 = false) :
    s.runQueue env (fuel + 1) w =
      (if rest = [] then .ok (s.refuse w rest r) else (s.refuse w rest r).runQueue env fuel w).map
        fun s => if s.isIdle then s.isIdleChanged else s := by
  have hconnect : (s.connect r .manager).newProxy env r = s.newProxy env r := rfl
  let t : Service := { s.connect r .manager with nextProxy := s.nextProxy + 1 }
  have hcall : s.runQueue env (fuel + 1) w = t.fail (runQueue env fuel) r
      OAU_ERROR_PROMPT_SESSION "Could not create a prompt session" := by
    rw [runQueue]
    simp only [hq, hr, Bool.false_eq_true, if_false, hconnect, hinit]
    rfl
  rw [hcall, fail, completed_manager (by simp [t, hslots])]
  exact onRequestCompleted_head hw hq

theorem Ready.refuse {w : ℕ} {s : Service} (h : Ready w s) {r : RequestId}
    {rest : List RequestId} (hq : s.queue w = r :: rest) : Ready w (s.refuse w rest r) := by
  have hqueue : (s.refuse w rest r).queue w = rest := by rw [queue_refuse, if_pos rfl]
  have hnd := h.nodup
  rw [hq, List.nodup_cons] at hnd
  refine ⟨by rw [hqueue]; exact hnd.2, fun q hmem => ?_⟩
  rw [hqueue] at hmem
  have hne : r ≠ q := fun he => hnd.1 (he ▸ hmem)
  obtain ⟨hw, hphase, hflag, hslots⟩ := h.waiting q (hq ▸ List.mem_cons_of_mem r hmem)
  refine ⟨hw, ?_, hflag, ?_⟩
  · rw [phase_refuse, if_neg hne, hphase]
  · simpa [Service.refuse, answer, Ne.symm hne] using hslots

theorem path_idle (s : Service) (w : ℕ) :
    Path (Act env) (Launching w) s (if s.isIdle then s.isIdleChanged else s) := by
  split_ifs
  · exact .single .idle trivial
  · exact .refl s

theorem Settled.idle {s : Service} {w : ℕ} (h : s.Settled w) :
    Settled (if s.isIdle then s.isIdleChanged else s) w := by
  split_ifs
  · exact h
  · exact h

/-- What is left of a queue when the requests have been refused for which no proxy could be
initialised; the first of them would go to proxy `p`. -/
def survivors (env : ProxyId → Environment) (requests : RequestId → Request) :
    ProxyId → List RequestId → List RequestId
  | _, [] => []
  | p, r :: rest =>
      if (UiProxy.init (env p) { clientPid := (requests r).clientPid }).2 then r :: rest
      else survivors env requests (p + 1) rest

theorem survivors_congr {requests requests' : RequestId → Request}
    (h : ∀ r, (requests' r).clientPid = (requests r).clientPid) (p : ProxyId) (rs : List RequestId) :
    survivors env requests' p rs = survivors env requests p rs := by
  induction rs generalizing p with
  | nil => rfl
  | cons r rs ih => rw [survivors, survivors, h, ih]

theorem survivors_init {s : Service} {r : RequestId} (h : (s.newProxy env r).2 = true)
    (rest : List RequestId) : survivors env s.requests s.nextProxy (r :: rest) = r :: rest :=
  if_pos h

theorem survivors_refuse {s : Service} {r : RequestId} (h : (s.newProxy env r).2 = false)
    (rest : List RequestId) : survivors env s.requests s.nextProxy (r :: rest) =
      survivors env s.requests (s.nextProxy + 1) rest :=
  if_neg (by
    change ¬ (s.newProxy env r).2 = true
    simp [h])

theorem queue_idle (s : Service) (w : ℕ) :
    (if s.isIdle then s.isIdleChanged else s).queue w = s.queue w := by
  split_ifs <;> rfl

/-- `runQueue` on a queue that is ready returns, and has launched the queue. -/
theorem runQueue_spec (env : ProxyId → Environment) : ∀ (fuel : ℕ) {s : Service} {w : ℕ},
    Ready w s → s.queue w ≠ [] → (s.queue w).length ≤ fuel →
      ∃ s', s.runQueue env fuel w = .ok s' ∧ Path (Act env) (Launching w) s s' ∧ s'.Settled w ∧
        s'.queue w = survivors env s.requests s.nextProxy (s.queue w)
  | 0, s, w, _, hne, hle => absurd (List.length_eq_zero_iff.mp (Nat.le_zero.mp hle)) hne
  | fuel + 1, s, w, h, hne, hle => by
      obtain ⟨r, rest, hq⟩ := List.exists_cons_of_ne_nil hne
      obtain ⟨hw, hphase, hflag, hslots⟩ := h.waiting r (by simp [hq])
      cases hinit : (s.newProxy env r).2 with
      | true =>
          refine ⟨_, runQueue_hand hq hflag hinit, .single (.hand hq hphase hinit) rfl, ?_, ?_⟩
          · intro a rest' ha
            obtain ⟨rfl, -⟩ := List.cons.inj (hq.symm.trans ha)
            exact ⟨s.nextProxy, by rw [phase_hand, if_pos rfl]⟩
          · rw [hq, survivors_init hinit]
            exact hq
      | false =>
          have hact : Act env (.refuse w) s (s.refuse w rest r) := .refuse hq hphase hinit
          have hqueue : (s.refuse w rest r).queue w = rest := by rw [queue_refuse, if_pos rfl]
          rw [runQueue_refuse hq hw hflag hslots hinit]
          by_cases hrest : rest = []
          · rw [if_pos hrest]
            refine ⟨_, rfl, .head hact rfl (path_idle _ w), Settled.idle ?_, ?_⟩
            · intro a rest' ha
              rw [hqueue, hrest] at ha
              cases ha
            · rw [queue_idle, hqueue, hq, survivors_refuse hinit, hrest]
              rfl
          · rw [if_neg hrest]
            obtain ⟨s', hrun, hpath, hsettled, hleft⟩ := runQueue_spec env fuel (h.refuse hq)
              (by rw [hqueue]; exact hrest) (by
                rw [hq, List.length_cons] at hle
                rw [hqueue]
                exact Nat.le_of_succ_le_succ hle)
            rw [hrun]
            refine ⟨_, rfl, .head hact rfl (hpath.trans (path_idle s' w)), hsettled.idle, ?_⟩
            rw [queue_idle, hleft, hqueue, hq, survivors_refuse hinit]
            rfl

/-! ### What the launch of a queue leaves alone -/

theorem hand_setProxy (s : Service) (w : ℕ) (r : RequestId) {p : ProxyId} (hp : p < s.nextProxy)
    (f : UiProxy → UiProxy) : (s.setProxy p f).hand env w r = (s.hand env w r).setProxy p f := by
  have hproxies : ((s.setProxy p f).hand env w r).proxies =
      ((s.hand env w r).setProxy p f).proxies := by
    funext q
    have hne : p ≠ s.nextProxy := Nat.ne_of_lt hp
    by_cases hqn : q = s.nextProxy
    · subst hqn
      simp [Service.hand, handleRequest, newProxy, Ne.symm hne]
    · by_cases hqp : q = p
      · subst hqp
        simp [Service.hand, handleRequest, hne]
      · simp [Service.hand, handleRequest, hqn, hqp]
  calc (s.setProxy p f).hand env w r
      = { s.hand env w r with proxies := ((s.setProxy p f).hand env w r).proxies } := rfl
    _ = (s.hand env w r).setProxy p f := by rw [hproxies]; rfl

/-- The actions of `runQueue` only touch new proxies. -/
theorem Act.setProxy_comm {w : ℕ} {a : Label} {s s' : Service} (h : Act env a s s')
    (ha : Launching w a) {p : ProxyId} (hp : p < s.nextProxy) (f : UiProxy → UiProxy) :
    Act env a (s.setProxy p f) (s'.setProxy p f) ∧ p < s'.nextProxy := by
  cases h with
  | idle => exact ⟨.idle, hp⟩
  | @hand _ w r rest hq hr hinit =>
      refine ⟨?_, Nat.lt_succ_of_lt hp⟩
      rw [← hand_setProxy s w r hp]
      exact .hand hq hr hinit
  | @refuse _ w r rest hq hr hinit =>
      exact ⟨.refuse (s := s.setProxy p f) hq hr hinit, Nat.lt_succ_of_lt hp⟩
  | _ => exact ha.elim

theorem Path.setProxy_comm {w : ℕ} {s s' : Service} (h : Path (Act env) (Launching w) s s')
    {p : ProxyId} (hp : p < s.nextProxy) (f : UiProxy → UiProxy) :
    Path (Act env) (Launching w) (s.setProxy p f) (s'.setProxy p f) := by
  induction h with
  | refl => exact .refl _
  | head hact ha _ ih =>
      obtain ⟨hact', hp'⟩ := hact.setProxy_comm ha hp f
      exact .head hact' ha (ih hp')

/-- What the launch of the queue of window `w` keeps. -/
structure Launched (w : ℕ) (s s' : Service) : Prop where
  nextProxy_le : s.nextProxy ≤ s'.nextProxy
  delay : ∀ q, (s'.requests q).delay = (s.requests q).delay
  clientPid : ∀ q, (s'.requests q).clientPid = (s.requests q).clientPid
  phase : ∀ q, s.phase q ≠ .waiting → s'.phase q = s.phase q
  heldBy : ∀ q p, p < s.nextProxy → (s'.phase q).HeldBy p → (s.phase q).HeldBy p
  queue : ∀ w', w ≠ w' → s'.queue w' = s.queue w'
  log : ∃ es, s'.log = es ++ s.log

theorem Launched.trans {w : ℕ} {s t u : Service} (h : Launched w s t) (h' : Launched w t u) :
    Launched w s u where
  nextProxy_le := h.nextProxy_le.trans h'.nextProxy_le
  delay q := (h'.delay q).trans (h.delay q)
  clientPid q := (h'.clientPid q).trans (h.clientPid q)
  phase q hq := by
    have := h.phase q hq
    rw [h'.phase q (by rwa [this]), this]
  heldBy q p hp hq := h.heldBy q p hp (h'.heldBy q p (hp.trans_le h.nextProxy_le) hq)
  queue w' hw := (h'.queue w' hw).trans (h.queue w' hw)
  log := by
    obtain ⟨es, hes⟩ := h.log
    obtain ⟨es', hes'⟩ := h'.log
    exact ⟨es' ++ es, by rw [hes', hes, List.append_assoc]⟩

theorem Act.launched {w : ℕ} {a : Label} {s s' : Service} (h : Act env a s s')
    (ha : Launching w a) : Launched w s s' := by
  cases h with
  | idle =>
      exact ⟨le_rfl, fun _ => rfl, fun _ => rfl, fun _ _ => rfl, fun _ _ _ => id, fun _ _ => rfl,
        [.isIdleChanged s.isIdle], rfl⟩
  | @hand _ w' r rest hq hr hinit =>
      refine ⟨Nat.le_succ _, fun q => ?_, fun q => ?_, fun q hne => ?_, fun q p hp hheld => ?_,
        fun _ _ => rfl, [.handed r w' s.nextProxy], rfl⟩
      · by_cases he : q = r
        · subst he
          simp [Service.hand, handleRequest]
        · simp [Service.hand, handleRequest, he]
      · by_cases he : q = r
        · subst he
          simp [Service.hand, handleRequest, Request.clientPid]
        · simp [Service.hand, handleRequest, he]
      · rw [phase_hand, if_neg]
        rintro rfl
        exact hne hr
      · rw [phase_hand] at hheld
        split_ifs at hheld
        · have hlt := Nat.ne_of_lt hp
          simp [Phase.HeldBy, Ne.symm hlt] at hheld
        · exact hheld
  | @refuse _ w' r rest hq hr hinit =>
      refine ⟨Nat.le_succ _, fun _ => rfl, fun _ => rfl, fun q hne => ?_, fun q p _ hheld => ?_,
        fun w'' hw => ?_, [.completed r, .replied r _], rfl⟩
      · rw [phase_refuse, if_neg]
        rintro rfl
        exact hne hr
      · rw [phase_refuse] at hheld
        split_ifs at hheld
        · simp [Phase.HeldBy] at hheld
        · exact hheld
      · obtain rfl : w' = w := ha
        rw [queue_refuse, if_neg hw]
  | _ => exact ha.elim

theorem Path.launched {w : ℕ} {s s' : Service} (h : Path (Act env) (Launching w) s s') :
    Launched w s s' := by
  induction h with
  | refl =>
      exact ⟨le_rfl, fun _ => rfl, fun _ => rfl, fun _ _ => rfl, fun _ _ _ => id, fun _ _ => rfl,
        [], rfl⟩
  | head hact ha _ ih => exact (hact.launched ha).trans ih

theorem Launched.settled {w w' : ℕ} {s s' : Service} (h : Launched w s s') (hw : w ≠ w')
    (hs : s.Settled w') : s'.Settled w' := by
  intro r rest hr
  rw [h.queue w' hw] at hr
  obtain ⟨p, hp⟩ := hs r rest hr
  exact ⟨p, by rw [h.phase r (by simp [hp]), hp]⟩

/-! ### Completion -/

/-- What comes of the completion of a registered request with a reply. -/
structure Completes (env : ProxyId → Environment) (r : RequestId) (reply : Reply)
    (s s' : Service) : Prop where
  path : Path (Act env) Completing s s'
  settled : (∀ w, s.Settled w) → ∀ w, s'.Settled w
  done : s'.phase r = .done
  phase : ∀ q, r ≠ q → s.phase q ≠ .waiting → s'.phase q = s.phase q
  heldBy : ∀ q p, p < s.nextProxy → (s'.phase q).HeldBy p → r ≠ q ∧ (s.phase q).HeldBy p
  nextProxy_le : s.nextProxy ≤ s'.nextProxy
  nextProxy : (∀ w, r ∉ s.queue w) → s'.nextProxy = s.nextProxy
  clientPid : ∀ q, (s'.requests q).clientPid = (s.requests q).clientPid
  queue : ∀ w, r ∉ s.queue w → s'.queue w = s.queue w
  launch : ∀ w rest, s.queue w = r :: rest →
    s'.queue w = survivors env s.requests s.nextProxy rest
  log : ∃ es, s'.log = es ++ .completed r :: .replied r reply :: s.log

/-- How a registered request completes: a served one leaves its queue, which is then launched. -/
inductive Completion (env : ProxyId → Environment) (r : RequestId) (reply : Reply) (s : Service) :
    Service → Prop where
  | served {w : ℕ} {rest : List RequestId} {p : ProxyId} {s' : Service}
      (hq : s.queue w = r :: rest) (hr : s.phase r = .served p)
      (hpath : Path (Act env) (Launching w) (s.complete w rest r p reply) s') :
      Completion env r reply s s'
  | routed {p : ProxyId} (hr : s.phase r = .routed p) :
      Completion env r reply s (s.completeRouted r p reply)

theorem Inv.queue_of_served {s : Service} (h : s.Inv) {r : RequestId} {p : ProxyId}
    (hr : s.phase r = .served p) : ∃ rest, s.queue (s.windowId r) = r :: rest := by
  have hmem : r ∈ s.queue (s.windowId r) := (h.mem_queue _ r).mpr ⟨rfl, .inr ⟨p, hr⟩⟩
  cases hq : s.queue (s.windowId r) with
  | nil => simp [hq] at hmem
  | cons a rest =>
      rw [hq, List.mem_cons] at hmem
      rcases hmem with rfl | hmem
      · exact ⟨rest, rfl⟩
      · have := h.tail _ a rest hq r hmem
        simp [hr] at this

theorem Inv.proxy_lt {s : Service} (h : s.Inv) {p : ProxyId} {proxy : UiProxy}
    (hp : s.proxies p = some proxy) : p < s.nextProxy := by
  by_contra hle
  rw [h.fresh p (Nat.le_of_not_lt hle)] at hp
  cases hp

theorem Inv.lt_nextProxy {s : Service} (h : s.Inv) {r : RequestId} {p : ProxyId}
    (hr : (s.phase r).HeldBy p) : p < s.nextProxy := by
  obtain ⟨proxy, hp, -⟩ := (h.holds p r).mpr hr
  exact h.proxy_lt hp

/-- The queue behind a served head is ready when the head has left. -/
theorem Inv.ready {s : Service} (h : s.Inv) {w : ℕ} {r : RequestId} {rest : List RequestId}
    (hq : s.queue w = r :: rest) (reply : Reply) :
    Ready w (((s.answer r reply).deleteLater r).dequeue w rest) := by
  have hqueue : (((s.answer r reply).deleteLater r).dequeue w rest).queue w = rest := by
    rw [queue_dequeue, if_pos rfl]
  have hnd := h.nodup w
  rw [hq, List.nodup_cons] at hnd
  refine ⟨by rw [hqueue]; exact hnd.2, fun q hmem => ?_⟩
  rw [hqueue] at hmem
  have hwaiting := h.tail w r rest hq q hmem
  have hfits := h.fits q
  rw [hwaiting] at hfits
  refine ⟨((h.mem_queue w q).mp (hq ▸ List.mem_cons_of_mem r hmem)).1, ?_, hfits.1, hfits.2⟩
  refine (phase_answer r reply s q).trans ?_
  rw [if_neg, hwaiting]
  rintro rfl
  exact hnd.1 hmem

variable (env) in
/-- When the head of a queue has left, the slot of the manager launches what is behind it. -/
theorem Inv.launchRest {s : Service} (h : s.Inv) {w : ℕ} {r : RequestId} {rest : List RequestId}
    (hq : s.queue w = r :: rest) (reply : Reply) :
    let t := ((s.answer r reply).deleteLater r).dequeue w rest
    ∃ t', (if rest = [] then .ok t else run env w t) = .ok t' ∧
      Path (Act env) (Launching w) t t' ∧ t'.Settled w ∧
        t'.queue w = survivors env s.requests s.nextProxy rest := by
  intro t
  have htq : t.queue w = rest := (queue_dequeue _ w w rest).trans (if_pos rfl)
  by_cases hrest : rest = []
  · refine ⟨t, if_pos hrest, .refl t, fun a rest' ha => ?_, ?_⟩
    · rw [htq, hrest] at ha
      cases ha
    · rw [htq, hrest]
      rfl
  · rw [if_neg hrest]
    obtain ⟨t', hrun, hpath, hsettled, hleft⟩ :=
      runQueue_spec env _ (h.ready hq reply) (by rw [htq]; exact hrest) le_rfl
    rw [htq] at hleft
    exact ⟨t', hrun, hpath, hsettled, hleft⟩

theorem Completes.of_launch {s u : Service} (h : s.Inv) {w : ℕ} {r : RequestId}
    {rest : List RequestId} {p : ProxyId} (hq : s.queue w = r :: rest) (hr : s.phase r = .served p)
    {reply : Reply} (hpath : Path (Act env) (Launching w) (s.complete w rest r p reply) u)
    (hsettled : u.Settled w) (hleft : u.queue w = survivors env s.requests s.nextProxy rest) :
    Completes env r reply s u := by
  have hw {w' : ℕ} (hmem : r ∈ s.queue w') : w = w' :=
    ((h.mem_queue w r).mp (by simp [hq])).1.symm.trans ((h.mem_queue w' r).mp hmem).1
  have hphase (q : RequestId) : (s.complete w rest r p reply).phase q =
      if r = q then .done else s.phase q := phase_answer r reply s q
  have hqueue (w' : ℕ) (hw : w ≠ w') :
      (s.complete w rest r p reply).queue w' = s.queue w' := by
    refine (queue_dequeue _ w w' rest).trans ?_
    rw [if_neg hw]
    rfl
  have hlaunched := Path.launched hpath
  refine ⟨.head (.complete reply hq hr) trivial (hpath.mono fun _ => Launching.completing), ?_, ?_,
    ?_, ?_, hlaunched.nextProxy_le, fun hnot => ?_, hlaunched.clientPid, ?_, ?_, hlaunched.log⟩
  · intro hall w'
    by_cases hww : w = w'
    · exact hww ▸ hsettled
    · refine hlaunched.settled hww fun a rest' ha => ?_
      rw [hqueue w' hww] at ha
      obtain ⟨p', hp'⟩ := hall w' a rest' ha
      refine ⟨p', ?_⟩
      rw [hphase, if_neg, hp']
      rintro rfl
      exact hww (hw (by simp [ha]))
  · have hdone := hphase r
    rw [if_pos rfl] at hdone
    rw [hlaunched.phase r (by simp [hdone]), hdone]
  · intro q hq' hne
    have hsame := hphase q
    rw [if_neg hq'] at hsame
    rw [hlaunched.phase q (by rwa [hsame]), hsame]
  · intro q p' hp' hheld
    have hheld' := hlaunched.heldBy q p' hp' hheld
    rw [hphase] at hheld'
    split_ifs at hheld' with he
    · simp [Phase.HeldBy] at hheld'
    · exact ⟨he, hheld'⟩
  · exact absurd (by simp [hq]) (hnot w)
  · intro w' hnot
    have hww : w ≠ w' := by
      rintro rfl
      simp [hq] at hnot
    rw [hlaunched.queue w' hww, hqueue w' hww]
  · intro w' rest' hq'
    obtain rfl : w = w' := hw (by simp [hq'])
    obtain ⟨-, rfl⟩ := List.cons.inj (hq.symm.trans hq')
    exact hleft

variable (env) in
/-- A served request completes: it leaves its queue, which is launched, and its proxy. -/
theorem Inv.completion_served {s : Service} (h : s.Inv) {r : RequestId} {p : ProxyId}
    (hr : s.phase r = .served p) (reply : Reply) :
    ∃ s', (s.emit (.replied r reply)).completed (run env) r = .ok s' ∧
      Completion env r reply s s' ∧ Completes env r reply s s' := by
  obtain ⟨rest, hq⟩ := h.queue_of_served hr
  generalize hw : s.windowId r = w at hq
  have hfits := h.fits r
  rw [hr] at hfits
  obtain ⟨t', hrun, hpath, hsettled, hleft⟩ := h.launchRest env hq reply
  have hpath' := hpath.trans (path_idle t' w)
  have hdelay := (Path.launched hpath').delay r
  let f : UiProxy → UiProxy := (·.onRequestCompleted r (s.requests r).delay)
  have hcompleted : (s.emit (.replied r reply)).completed (run env) r =
      .ok ((if t'.isIdle then t'.isIdleChanged else t').setProxy p f) := by
    have hmanager : (s.answer r reply).onRequestCompleted (run env) r =
        .ok (if t'.isIdle then t'.isIdleChanged else t') := by
      rw [onRequestCompleted_head (s := s.answer r reply) hw hq, hrun]
      rfl
    have hslots : (s.emit (.replied r reply)).slots r = [.manager, .proxy p] := hfits.2
    unfold completed
    rw [hslots]
    change List.foldlM (callSlot (run env) r) (s.answer r reply) [.manager, .proxy p] = _
    simp only [List.foldlM_cons, List.foldlM_nil, callSlot, hmanager]
    simp only [Bind.bind, Except.bind, pure, Except.pure]
    rw [hdelay]
    rfl
  -- the slot of the proxy is called last, but could be called first
  have hpath'' := Path.setProxy_comm hpath' (h.lt_nextProxy (.inl hr)) f
  exact ⟨_, hcompleted, .served hq hr hpath'', .of_launch h hq hr hpath'' hsettled.idle
    ((queue_idle t' w).trans hleft)⟩

variable (env) in
theorem Inv.completion_routed {s : Service} (h : s.Inv) {r : RequestId} {p : ProxyId}
    (hr : s.phase r = .routed p) (reply : Reply) :
    ∃ s', (s.emit (.replied r reply)).completed (run env) r = .ok s' ∧
      Completion env r reply s s' ∧ Completes env r reply s s' := by
  have hfits := h.fits r
  rw [hr] at hfits
  have hact : Act env .complete s (s.completeRouted r p reply) := .completeRouted reply hr
  have hphase (q : RequestId) : (s.completeRouted r p reply).phase q =
      if r = q then .done else s.phase q := phase_answer r reply s q
  have hcompleted : (s.emit (.replied r reply)).completed (run env) r =
      .ok (s.completeRouted r p reply) := by
    have hslots : (s.emit (.replied r reply)).slots r = [.deleteLater, .proxy p] := hfits.2
    unfold completed
    rw [hslots]
    rfl
  refine ⟨_, hcompleted, .routed hr, .single hact trivial, ?_, ?_, ?_, ?_, le_rfl, fun _ => rfl,
    fun _ => rfl, fun _ _ => rfl, ?_, [], rfl⟩
  · intro hall w a rest ha
    obtain ⟨p', hp'⟩ := hall w a rest ha
    refine ⟨p', ?_⟩
    rw [hphase, if_neg, hp']
    rintro rfl
    simp [hr] at hp'
  · rw [hphase, if_pos rfl]
  · intro q hq _
    rw [hphase, if_neg hq]
  · intro q p' _ hheld
    rw [hphase] at hheld
    split_ifs at hheld with he
    · simp [Phase.HeldBy] at hheld
    · exact ⟨he, hheld⟩
  · intro w rest hq
    have hmem : r ∈ s.queue w := by simp [hq]
    simp [h.mem_queue, hr, Phase.Queued] at hmem

variable (env) in
theorem Inv.completion {s : Service} (h : s.Inv) {r : RequestId} {p : ProxyId}
    (hr : (s.phase r).HeldBy p) (reply : Reply) :
    ∃ s', (s.emit (.replied r reply)).completed (run env) r = .ok s' ∧
      Completion env r reply s s' ∧ Completes env r reply s s' := by
  rcases hr with hr | hr
  · exact h.completion_served env hr reply
  · exact h.completion_routed env hr reply

variable (env) in
theorem Inv.completed {s : Service} (h : s.Inv) {r : RequestId} {p : ProxyId}
    (hr : (s.phase r).HeldBy p) (reply : Reply) :
    ∃ s', (s.emit (.replied r reply)).completed (run env) r = .ok s' ∧
      Completes env r reply s s' := by
  obtain ⟨s', hs', -, hc⟩ := h.completion env hr reply
  exact ⟨s', hs', hc⟩

theorem Inv.inProgress {s : Service} (h : s.Inv) {r : RequestId} {p : ProxyId}
    (hr : (s.phase r).HeldBy p) : (s.requests r).inProgress = true := by
  have hfits := h.fits r
  rcases hr with hr | hr
  · rw [hr] at hfits
    exact hfits.1
  · rw [hr] at hfits
    exact hfits.1

theorem Inv.held_or_done {s : Service} (h : s.Inv) {r : RequestId}
    (hr : (s.requests r).inProgress = true) :
    (∃ p, (s.phase r).HeldBy p) ∨ s.phase r = .done := by
  have hfits := h.fits r
  cases hphase : s.phase r with
  | unborn => simp [hphase, Phase.Fits, hr] at hfits
  | waiting => simp [hphase, Phase.Fits, hr] at hfits
  | served p => exact .inl ⟨p, .inl rfl⟩
  | routed p => exact .inl ⟨p, .inr rfl⟩
  | done => exact .inr rfl

theorem Completes.clear {r : RequestId} {reply : Reply} {s s' : Service}
    (h : Completes env r reply s s') :
    Completes env r reply s (s'.setRequest r ({ · with inProgress := false })) where
  path := h.path.trans (.single (.clear h.done) trivial)
  settled := h.settled
  done := h.done
  phase := h.phase
  heldBy := h.heldBy
  nextProxy_le := h.nextProxy_le
  nextProxy := h.nextProxy
  clientPid q := by
    rw [← h.clientPid q]
    by_cases hq : q = r
    · subst hq
      simp [Request.clientPid]
    · simp [hq]
  queue := h.queue
  launch := h.launch
  log := h.log

variable (env) in
/-- A registered request that is cancelled completes, and its flag is cleared. -/
theorem Inv.cancellation {s : Service} (h : s.Inv) {r : RequestId} {p : ProxyId}
    (hr : (s.phase r).HeldBy p) :
    ∃ s', s.setCanceled (run env) r = .ok (s'.setRequest r ({ · with inProgress := false })) ∧
      Completion env r (.error OAU_ERROR_USER_CANCELED "Canceled") s s' ∧
      Completes env r (.error OAU_ERROR_USER_CANCELED "Canceled") s s' := by
  obtain ⟨s', hs', hc⟩ := h.completion env hr (.error OAU_ERROR_USER_CANCELED "Canceled")
  refine ⟨s', ?_, hc⟩
  unfold Service.setCanceled fail
  rw [if_pos (h.inProgress hr), hs']
  rfl

variable (env) in
theorem Inv.setCanceled {s : Service} (h : s.Inv) {r : RequestId} {p : ProxyId}
    (hr : (s.phase r).HeldBy p) :
    ∃ s', s.setCanceled (run env) r = .ok s' ∧
      Completes env r (.error OAU_ERROR_USER_CANCELED "Canceled") s s' := by
  obtain ⟨s', hs', -, hc⟩ := h.cancellation env hr
  exact ⟨_, hs', hc.clear⟩

variable (env) in
theorem Inv.setResult {s : Service} (h : s.Inv) {r : RequestId} {p : ProxyId}
    (hr : (s.phase r).HeldBy p) (result : QVariantMap) :
    ∃ s', s.setResult (run env) r result = .ok s' ∧ Completes env r (.result result) s s' := by
  obtain ⟨s', hs', hc⟩ := h.completed env hr (.result result)
  refine ⟨_, ?_, hc.clear⟩
  unfold Service.setResult
  rw [if_pos (h.inProgress hr), hs']
  rfl

end OnlineAccounts.Service
