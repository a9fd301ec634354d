import OnlineAccounts.RequestManager

/-! # What the service does, one action at a time

The log tells the phase of each request (`Service.phase`): it is not there yet, waits in its
queue, is served by a proxy as the head of its queue, was routed to a proxy past the queues, or
is done.  `Act` has the actions that change the service, each as one change of the state that
leaves no half-completed request behind; the slots of a completed request and the requests that
are started by them are separate actions.  `Refinement.lean` shows that the code handles every
event by such actions.

`Inv` says that the queues, the maps of the proxies, the slots and the flags agree with the
phases.  Every action keeps it (`Act.inv`). -/

namespace OnlineAccounts

/-- How far a request has got. -/
inductive Phase where
  | unborn
  | waiting
  | served (p : ProxyId)
  | routed (p : ProxyId)
  | done
deriving DecidableEq

namespace Phase

/-- The request is registered with proxy `p`. -/
def HeldBy (phase : Phase) (p : ProxyId) : Prop := phase = .served p ∨ phase = .routed p

theorem HeldBy.ne_waiting {phase : Phase} {p : ProxyId} (h : phase.HeldBy p) :
    phase ≠ .waiting := by
  rintro rfl
  simp [HeldBy] at h

theorem HeldBy.unique {phase : Phase} {p q : ProxyId} (h : phase.HeldBy p) (h' : phase.HeldBy q) :
    p = q := by
  rcases h with rfl | rfl <;> simpa [HeldBy] using h'

/-- The request is in the queue of its window. -/
def Queued (phase : Phase) : Prop := phase = .waiting ∨ ∃ p, phase = .served p

/-- The flag and the slots that a request has in a phase. -/
def Fits : Phase → Request → List Slot → Prop
  | .unborn, request, _ => request.inProgress = false
  | .waiting, request, slots => request.inProgress = false ∧ slots = []
  | .served p, request, slots => request.inProgress = true ∧ slots = [.manager, .proxy p]
  | .routed p, request, slots => request.inProgress = true ∧ slots = [.deleteLater, .proxy p]
  | .done, _, _ => True

end Phase

/-- The phase that an emission puts a request into. -/
def Emission.phaseOf (r : RequestId) : Emission → Option Phase
  | .queued q _ => if q = r then some .waiting else none
  | .routed q p => if q = r then some (.routed p) else none
  | .handed q _ p => if q = r then some (.served p) else none
  | .completed q => if q = r then some .done else none
  | _ => none

/-- The phase of a request, by its last emission. -/
def phaseIn : List Emission → RequestId → Phase
  | [], _ => .unborn
  | e :: log, r => (e.phaseOf r).getD (phaseIn log r)

namespace Service

def phase (s : Service) (r : RequestId) : Phase := phaseIn s.log r

/-- Request `r` is registered with proxy `p`. -/
def Holds (s : Service) (p : ProxyId) (r : RequestId) : Prop :=
  ∃ proxy, s.proxies p = some proxy ∧ proxy.Holds r

@[simp] theorem phase_emit (e : Emission) (s : Service) (r : RequestId) :
    (s.emit e).phase r = (e.phaseOf r).getD (s.phase r) := rfl

theorem phase_cons {s : Service} {e : Emission} {log : List Emission} (h : s.log = e :: log)
    (r : RequestId) : s.phase r = (e.phaseOf r).getD (phaseIn log r) := by
  unfold phase
  rw [h]
  rfl

theorem queue_congr {s s' : Service} (h : s'.queues = s.queues) (w : ℕ) :
    s'.queue w = s.queue w := by
  unfold queue
  rw [h]

theorem queue_setQueue (s : Service) (w w' : ℕ) (rs : List RequestId) :
    (s.setQueue w rs).queue w' = if w = w' then rs else s.queue w' := by
  unfold queue
  rw [setQueue_queues, Std.TreeMap.getElem?_insert]
  simp only [compare_eq_iff_eq]
  split_ifs <;> rfl

/-! ### The proxies -/

/-- A change of a proxy that is not about its requests. -/
def Local (f : UiProxy → UiProxy) : Prop :=
  ∀ proxy, (f proxy).requests = proxy.requests ∧ (f proxy).nextRequestId = proxy.nextRequestId

theorem Local.holds {f : UiProxy → UiProxy} (hf : Local f) (proxy : UiProxy) (r : RequestId) :
    (f proxy).Holds r ↔ proxy.Holds r := by
  unfold UiProxy.Holds
  rw [(hf proxy).1]

theorem Local.valid {f : UiProxy → UiProxy} (hf : Local f) {proxy : UiProxy} (h : proxy.Valid) :
    (f proxy).Valid := by
  obtain ⟨hr, hn⟩ := hf proxy
  exact ⟨by rw [hr, hn]; exact h.fresh, by rw [hr]; exact h.injective⟩

theorem setProxy_some {s : Service} {p q : ProxyId} {f : UiProxy → UiProxy} {proxy : UiProxy} :
    (s.setProxy p f).proxies q = some proxy ↔
      ∃ proxy', s.proxies q = some proxy' ∧ (if q = p then f proxy' else proxy') = proxy := by
  rw [setProxy_proxies]
  by_cases hq : q = p
  · subst hq
    simp
  · simp [hq]

theorem holds_setProxy {s : Service} {p : ProxyId} {f : UiProxy → UiProxy} (q : ProxyId)
    (r : RequestId) : (s.setProxy p f).Holds q r ↔
      ∃ proxy, s.proxies q = some proxy ∧ (if q = p then f proxy else proxy).Holds r := by
  unfold Holds
  simp only [setProxy_some]
  constructor
  · rintro ⟨_, ⟨proxy, hp, rfl⟩, hr⟩
    exact ⟨proxy, hp, hr⟩
  · rintro ⟨proxy, hp, hr⟩
    exact ⟨_, ⟨proxy, hp, rfl⟩, hr⟩

theorem holds_setProxy_local {s : Service} {p : ProxyId} {f : UiProxy → UiProxy} (hf : Local f)
    (q : ProxyId) (r : RequestId) : (s.setProxy p f).Holds q r ↔ s.Holds q r := by
  rw [holds_setProxy]
  refine exists_congr fun proxy => and_congr_right fun _ => ?_
  split_ifs
  · exact hf.holds proxy r
  · rfl

/-! ### The actions -/

/-- Take the first request out of the queue of window `w`; an empty queue is removed. -/
@[simps] def dequeue (w : ℕ) (rest : List RequestId) (s : Service) : Service :=
  { s with queues := if rest = [] then s.queues.erase w else s.queues.insert w rest }

/-- The answer to a request, and the signal `completed()`. -/
def answer (r : RequestId) (reply : Reply) (s : Service) : Service :=
  (s.emit (.replied r reply)).emit (.completed r)

/-- What the slot of a proxy does. -/
def unregister (p : ProxyId) (r : RequestId) (s : Service) : Service :=
  s.setProxy p (·.onRequestCompleted r (s.requests r).delay)

variable (env : ProxyId → Environment)

/-- A new request enters the queue of its window. -/
def accept (request : Request) (s : Service) : Service :=
  ((s.newRequest request).setQueue request.windowId
    (s.queue request.windowId ++ [s.nextRequest])).emit (.queued s.nextRequest request.windowId)

/-- A new request goes to a proxy that has a handler for it. -/
def route (p : ProxyId) (request : Request) (s : Service) : Service :=
  let r := s.nextRequest
  (((s.newRequest request).emit (.routed r p)).connect r .deleteLater).handleRequest env p r

/-- The waiting head of the queue of window `w` goes to a new proxy. -/
def hand (w : ℕ) (r : RequestId) (s : Service) : Service :=
  let p := s.nextProxy
  let started := { s.connect r .manager with
    nextProxy := p + 1
    proxies := Function.update s.proxies p (some (s.newProxy env r).1)
    managed := s.managed ++ [p] }
  (started.emit (.handed r w p)).handleRequest env p r

/-- A waiting request is refused, because its proxy could not be initialised. -/
def refuse (w : ℕ) (rest : List RequestId) (r : RequestId) (s : Service) : Service :=
  ((({ s.connect r .manager with nextProxy := s.nextProxy + 1 } : Service).answer r
    (.error OAU_ERROR_PROMPT_SESSION "Could not create a prompt session")).deleteLater r).dequeue
      w rest

/-- The served head of a queue completes. -/
def complete (w : ℕ) (rest : List RequestId) (r : RequestId) (p : ProxyId) (reply : Reply)
    (s : Service) : Service :=
  (((s.answer r reply).deleteLater r).dequeue w rest).unregister p r

/-- A routed request completes. -/
def completeRouted (r : RequestId) (p : ProxyId) (reply : Reply) (s : Service) : Service :=
  ((s.answer r reply).deleteLater r).unregister p r

/-- What a slot does for a request that has been completed before. -/
def callSlotAgain (r : RequestId) (s : Service) : Slot → Service
  | .manager => s.emit (.notFirst r)
  | .deleteLater => s.deleteLater r
  | .proxy p => s.unregister p r

/-- A request completes that has been completed before. -/
def completeAgain (r : RequestId) (reply : Reply) (s : Service) : Service :=
  (s.slots r).foldl (callSlotAgain r) (s.answer r reply)

/-- What holds when a request is answered once more and is kept by every slot. -/
theorem completeAgain_induction {I : Service → Prop} {r : RequestId} {reply : Reply} {s : Service}
    (start : I (s.answer r reply)) (slot : ∀ t slot, I t → I (t.callSlotAgain r slot)) :
    I (s.completeAgain r reply) :=
  List.foldlRecOn (s.slots r) (callSlotAgain r) start fun t ht a _ => slot t a ht

/-- The kinds of action. -/
inductive Label where
  | accept
  | route
  | hand (w : ℕ)
  | refuse (w : ℕ)
  | idle
  | complete
  | completeAgain
  | clear
  | delay
  | touch
  | finish (p : ProxyId)
  | deleteProxy (p : ProxyId)
  | deleteRequest
deriving DecidableEq

/-- The actions: what must hold before, and the state after. -/
inductive Act : Label → Service → Service → Prop where
  | accept {s : Service} (request : Request) (h : request.inProgress = false) :
      Act .accept s (s.accept request)
  | route {s : Service} {p : ProxyId} {proxy : UiProxy} (request : Request)
      (hp : s.proxies p = some proxy) : Act .route s (s.route env p request)
  | hand {s : Service} {w : ℕ} {r : RequestId} {rest : List RequestId}
      (hq : s.queue w = r :: rest) (hr : s.phase r = .waiting)
      (hinit : (s.newProxy env r).2 = true) :
      Act (.hand w) s (s.hand env w r)
  | refuse {s : Service} {w : ℕ} {r : RequestId} {rest : List RequestId}
      (hq : s.queue w = r :: rest) (hr : s.phase r = .waiting)
      (hinit : (s.newProxy env r).2 = false) : Act (.refuse w) s (s.refuse w rest r)
  | idle {s : Service} : Act .idle s s.isIdleChanged
  | complete {s : Service} {w : ℕ} {r : RequestId} {rest : List RequestId} {p : ProxyId}
      (reply : Reply) (hq : s.queue w = r :: rest) (hr : s.phase r = .served p) :
      Act .complete s (s.complete w rest r p reply)
  | completeRouted {s : Service} {r : RequestId} {p : ProxyId} (reply : Reply)
      (hr : s.phase r = .routed p) : Act .complete s (s.completeRouted r p reply)
  | completeAgain {s : Service} {r : RequestId} (reply : Reply) (hr : s.phase r = .done) :
      Act .completeAgain s (s.completeAgain r reply)
  | clear {s : Service} {r : RequestId} (hr : s.phase r = .done) :
      Act .clear s (s.setRequest r ({ · with inProgress := false }))
  | delay {s : Service} {r : RequestId} (delay : ℤ) :
      Act .delay s (s.setRequest r ({ · with delay := delay }))
  | touch {s : Service} {p : ProxyId} {f : UiProxy → UiProxy} (hf : Local f) :
      Act .touch s (s.setProxy p f)
  | finish {s : Service} {p : ProxyId} : Act (.finish p) s (s.onProxyFinished p)
  | deleteProxy {s : Service} {p : ProxyId} (hp : ∀ r, ¬ s.Holds p r) :
      Act (.deleteProxy p) s
        { s with
          proxies := Function.update s.proxies p none
          doomed := s.doomed.erase p }
  | deleteRequest {s : Service} {r : RequestId} (hr : r ∈ s.deletions) :
      Act .deleteRequest s
        { s with
          deletions := s.deletions.filter (· ≠ r)
          allRequests := s.allRequests.erase r
          slots := Function.update s.slots r [] }

/-! ### The invariant -/

/-- The state agrees with the phases of the requests. -/
structure Inv (s : Service) : Prop where
  unborn : ∀ r, s.phase r = .unborn ↔ s.nextRequest ≤ r
  fits : ∀ r, (s.phase r).Fits (s.requests r) (s.slots r)
  deletions : ∀ r ∈ s.deletions, s.phase r = .done
  holds : ∀ p r, s.Holds p r ↔ (s.phase r).HeldBy p
  mem_queue : ∀ w r, r ∈ s.queue w ↔ s.windowId r = w ∧ (s.phase r).Queued
  nodup : ∀ w, (s.queue w).Nodup
  nonempty : ∀ w : ℕ, s.queues[w]? ≠ some []
  tail : ∀ w r rest, s.queue w = r :: rest → ∀ q ∈ rest, s.phase q = .waiting
  valid : ∀ p proxy, s.proxies p = some proxy → proxy.Valid
  fresh : ∀ p, s.nextProxy ≤ p → s.proxies p = none

theorem start_inv : Inv {} := by
  have hq (w : ℕ) : queue {} w = [] := by simp [queue]
  have hphase (r : RequestId) : phase {} r = .unborn := rfl
  constructor <;> simp [hq, hphase, Holds, Phase.Fits, Phase.HeldBy, Phase.Queued]

/-- Nothing that the invariant is about changes, except that done requests may lose their flag
and their slots. -/
theorem Inv.quiet {s s' : Service} (h : s.Inv) (hphase : ∀ r, s'.phase r = s.phase r)
    (hwindow : ∀ r, s'.windowId r = s.windowId r)
    (hfits : ∀ r, (s.phase r).Fits (s'.requests r) (s'.slots r))
    (hdel : ∀ r ∈ s'.deletions, s.phase r = .done) (hnext : s'.nextRequest = s.nextRequest)
    (hqueues : s'.queues = s.queues) (hholds : ∀ p r, s'.Holds p r ↔ s.Holds p r)
    (hvalid : ∀ p proxy, s'.proxies p = some proxy → proxy.Valid)
    (hfresh : ∀ p, s'.nextProxy ≤ p → s'.proxies p = none) : s'.Inv where
  unborn r := by rw [hphase, hnext]; exact h.unborn r
  fits r := by rw [hphase]; exact hfits r
  deletions r hr := by rw [hphase]; exact hdel r hr
  holds p r := by rw [hholds, hphase]; exact h.holds p r
  mem_queue w r := by rw [queue_congr hqueues, hwindow, hphase]; exact h.mem_queue w r
  nodup w := by rw [queue_congr hqueues]; exact h.nodup w
  nonempty w := by rw [hqueues]; exact h.nonempty w
  tail w r rest hw q hq := by
    rw [queue_congr hqueues] at hw
    rw [hphase]
    exact h.tail w r rest hw q hq
  valid := hvalid
  fresh := hfresh

theorem Inv.move {s s' : Service} (h : s.Inv) {r : RequestId} {next : Phase}
    (hr : s.phase r ≠ .done) (hphase : ∀ q, s'.phase q = if r = q then next else s.phase q)
    (hborn : next ≠ .unborn) (hnext : ∀ q, s'.nextRequest ≤ q ↔ r ≠ q ∧ s.nextRequest ≤ q)
    (hrequests : ∀ q, r ≠ q → s'.requests q = s.requests q)
    (hslots : ∀ q, r ≠ q → s'.slots q = s.slots q) (hfits : next.Fits (s'.requests r) (s'.slots r))
    (hdel : ∀ q ∈ s'.deletions, q ∈ s.deletions ∨ r = q ∧ next = .done)
    (hholds : ∀ p q, s'.Holds p q ↔ (r ≠ q ∧ s.Holds p q) ∨ r = q ∧ next.HeldBy p)
    (hmem : ∀ w q, q ∈ s'.queue w ↔
      (r ≠ q ∧ q ∈ s.queue w) ∨ r = q ∧ s'.windowId r = w ∧ next.Queued)
    (hnodup : ∀ w, (s'.queue w).Nodup) (hnonempty : ∀ w : ℕ, s'.queues[w]? ≠ some [])
    (htail : ∀ w a rest, s'.queue w = a :: rest → ∀ q ∈ rest, s'.phase q = .waiting)
    (hvalid : ∀ p proxy, s'.proxies p = some proxy → proxy.Valid)
    (hfresh : ∀ p, s'.nextProxy ≤ p → s'.proxies p = none) : s'.Inv where
  unborn q := by
    rw [hphase, hnext, ← h.unborn]
    split_ifs with he
    · simp [he, hborn]
    · simp [he]
  fits q := by
    rw [hphase]
    split_ifs with he
    · exact he ▸ hfits
    · rw [hrequests q he, hslots q he]
      exact h.fits q
  deletions q hq := by
    rw [hphase]
    rcases hdel q hq with hold | ⟨rfl, hdone⟩
    · have hdone := h.deletions q hold
      rw [if_neg, hdone]
      rintro rfl
      exact hr hdone
    · rw [if_pos rfl, hdone]
  holds p q := by
    rw [hholds, hphase, h.holds]
    by_cases he : r = q <;> simp [he]
  mem_queue w q := by
    rw [hmem, hphase, h.mem_queue]
    by_cases he : r = q
    · subst he
      simp
    · unfold windowId
      simp [he, hrequests q he]
  nodup := hnodup
  nonempty := hnonempty
  tail := htail
  valid := hvalid
  fresh := hfresh

/-! ### Queues -/

theorem queue_dequeue (s : Service) (w w' : ℕ) (rest : List RequestId) :
    (s.dequeue w rest).queue w' = if w = w' then rest else s.queue w' := by
  unfold queue
  rw [dequeue_queues]
  by_cases hr : rest = []
  · rw [if_pos hr, Std.TreeMap.getElem?_erase]
    simp only [compare_eq_iff_eq]
    split_ifs <;> simp [hr]
  · rw [if_neg hr, Std.TreeMap.getElem?_insert]
    simp only [compare_eq_iff_eq]
    split_ifs <;> rfl

theorem dequeue_nonempty {s : Service} (h : ∀ w : ℕ, s.queues[w]? ≠ some []) (w w' : ℕ)
    (rest : List RequestId) : (s.dequeue w rest).queues[w']? ≠ some [] := by
  rw [dequeue_queues]
  by_cases hr : rest = []
  · rw [if_pos hr, Std.TreeMap.getElem?_erase]
    split_ifs
    · simp
    · exact h w'
  · rw [if_neg hr, Std.TreeMap.getElem?_insert]
    split_ifs
    · simpa using hr
    · exact h w'

theorem Inv.dequeue_erase {s : Service} (h : s.Inv) {w : ℕ} {r : RequestId} {rest : List RequestId}
    (hq : s.queue w = r :: rest) (w' : ℕ) :
    (s.dequeue w rest).queue w' = (s.queue w').erase r := by
  rw [queue_dequeue]
  split_ifs with hw
  · rw [← hw, hq, List.erase_cons_head]
  · refine (List.erase_of_not_mem fun hr => hw ?_).symm
    have hmem : r ∈ s.queue w := by simp [hq]
    rw [← ((h.mem_queue w r).mp hmem).1, ← ((h.mem_queue w' r).mp hr).1]

theorem Inv.tail_erase {s : Service} (h : s.Inv) (r : RequestId) {w : ℕ} {a : RequestId}
    {rest : List RequestId} (hw : (s.queue w).erase r = a :: rest) :
    ∀ q ∈ rest, r ≠ q ∧ s.phase q = .waiting := by
  intro q hq
  have hmem : q ∈ (s.queue w).erase r := hw ▸ List.mem_cons_of_mem a hq
  refine ⟨Ne.symm ((h.nodup w).mem_erase_iff.mp hmem).1, ?_⟩
  cases hold : s.queue w with
  | nil => simp [hold] at hmem
  | cons b rest₀ =>
      rw [hold] at hw hmem
      refine h.tail w b rest₀ hold q ?_
      -- either the head has left, or it is the head still
      by_cases hb : b = r
      · subst hb
        rwa [List.erase_cons_head] at hmem
      · rw [List.erase_cons_tail (by simpa using hb)] at hw
        obtain ⟨rfl, rfl⟩ := List.cons.inj hw
        exact List.mem_of_mem_erase hq

/-! ### Proxies -/

theorem setProxy_valid {s : Service} {p : ProxyId} {f : UiProxy → UiProxy}
    (h : ∀ p proxy, s.proxies p = some proxy → proxy.Valid)
    (hf : ∀ proxy, s.proxies p = some proxy → (f proxy).Valid) (q : ProxyId) (proxy : UiProxy)
    (hq : (s.setProxy p f).proxies q = some proxy) : proxy.Valid := by
  obtain ⟨proxy', hp, rfl⟩ := setProxy_some.mp hq
  split_ifs with he
  · exact hf proxy' (he ▸ hp)
  · exact h q proxy' hp

theorem setProxy_fresh {s : Service} {p : ProxyId} {f : UiProxy → UiProxy}
    (h : ∀ p, s.nextProxy ≤ p → s.proxies p = none) (q : ProxyId) (hq : s.nextProxy ≤ q) :
    (s.setProxy p f).proxies q = none := by
  rw [setProxy_proxies]
  by_cases he : q = p
  · subst he
    simp [h q hq]
  · simp [he, h q hq]

theorem unregister_valid {s : Service} (h : ∀ p proxy, s.proxies p = some proxy → proxy.Valid)
    (p : ProxyId) (r : RequestId) :
    ∀ q proxy, (s.unregister p r).proxies q = some proxy → proxy.Valid :=
  setProxy_valid h fun proxy hp => (h p proxy hp).onRequestCompleted r _

/-- The slot of a proxy removes the request from the map of the proxy, and from no other. -/
theorem holds_unregister {s : Service} (h : ∀ p proxy, s.proxies p = some proxy → proxy.Valid)
    (p q : ProxyId) (r a : RequestId) :
    (s.unregister p r).Holds q a ↔ ¬ (q = p ∧ a = r) ∧ s.Holds q a := by
  unfold unregister
  rw [holds_setProxy]
  constructor
  · rintro ⟨proxy, hp, ha⟩
    split_ifs at ha with hq
    · rw [UiProxy.holds_onRequestCompleted (h q proxy hp)] at ha
      exact ⟨fun he => ha.1 he.2, proxy, hp, ha.2⟩
    · exact ⟨fun he => hq he.1, proxy, hp, ha⟩
  · rintro ⟨hne, proxy, hp, ha⟩
    refine ⟨proxy, hp, ?_⟩
    split_ifs with hq
    · rw [UiProxy.holds_onRequestCompleted (h q proxy hp)]
      exact ⟨fun he => hne ⟨hq, he⟩, ha⟩
    · exact ha

theorem holds_handleRequest {env : ProxyId → Environment} {s : Service} {p : ProxyId}
    {proxy : UiProxy} (hp : s.proxies p = some proxy) (hvalid : proxy.Valid) (r : RequestId)
    (q : ProxyId) (a : RequestId) :
    (s.handleRequest env p r).Holds q a ↔ (a = r ∧ q = p) ∨ s.Holds q a := by
  refine (holds_setProxy (s := s) q a).trans ?_
  constructor
  · rintro ⟨proxy', hq, ha⟩
    split_ifs at ha with he
    · subst he
      obtain rfl := Option.some.inj (hp.symm.trans hq)
      rcases (UiProxy.holds_handleRequest _ hvalid r a _).mp ha with rfl | ha
      · exact .inl ⟨rfl, rfl⟩
      · exact .inr ⟨proxy, hp, ha⟩
    · exact .inr ⟨proxy', hq, ha⟩
  · rintro (⟨rfl, rfl⟩ | ⟨proxy', hq, ha⟩)
    · refine ⟨proxy, hp, ?_⟩
      rw [if_pos rfl]
      exact (UiProxy.holds_handleRequest _ hvalid a a _).mpr (.inl rfl)
    · refine ⟨proxy', hq, ?_⟩
      split_ifs with he
      · subst he
        obtain rfl := Option.some.inj (hp.symm.trans hq)
        exact (UiProxy.holds_handleRequest _ hvalid r a _).mpr (.inr ha)
      · exact ha

theorem handleRequest_valid {env : ProxyId → Environment} {s : Service} {p : ProxyId}
    {r : RequestId} (h : ∀ p proxy, s.proxies p = some proxy → proxy.Valid) (hr : ¬ s.Holds p r) :
    ∀ q proxy, (s.handleRequest env p r).proxies q = some proxy → proxy.Valid :=
  setProxy_valid h fun proxy hp =>
    (h p proxy hp).handleRequest _ (fun hold => hr ⟨proxy, hp, hold⟩) _

theorem init_requests (env : Environment) (proxy : UiProxy) :
    (UiProxy.init env proxy).1.requests = proxy.requests := by
  obtain ⟨promptSession, environment, h⟩ := UiProxy.init_eq env proxy
  rw [h]

theorem newProxy_empty (env : ProxyId → Environment) (s : Service) (r q : RequestId) :
    ¬ (s.newProxy env r).1.Holds q := by
  unfold UiProxy.Holds newProxy
  rw [init_requests]
  simp

theorem newProxy_valid (env : ProxyId → Environment) (s : Service) (r : RequestId) :
    (s.newProxy env r).1.Valid := by
  constructor <;> unfold newProxy <;> rw [init_requests] <;> simp

/-! ### Each action keeps the invariant -/

@[simp] theorem phase_answer (r : RequestId) (reply : Reply) (s : Service) (q : RequestId) :
    (s.answer r reply).phase q = if r = q then .done else s.phase q := by
  unfold answer
  simp only [phase_emit, Emission.phaseOf]
  split_ifs <;> rfl

/-- Only requests that have arrived have left the phase `unborn`. -/
theorem Inv.lt_nextRequest {s : Service} (h : s.Inv) {r : RequestId} (hr : s.phase r ≠ .unborn) :
    r < s.nextRequest := by
  by_contra hle
  exact hr ((h.unborn r).mpr (Nat.le_of_not_lt hle))

theorem Inv.phase_next {s : Service} (h : s.Inv) : s.phase s.nextRequest = .unborn :=
  (h.unborn _).mpr le_rfl

theorem Inv.retire {s s' : Service} (h : s.Inv) {r : RequestId} (hr : s.phase r ≠ .done)
    (hborn : s.phase r ≠ .unborn) (hphase : ∀ q, s'.phase q = if r = q then .done else s.phase q)
    (hnext : s'.nextRequest = s.nextRequest) (hrequests : s'.requests = s.requests)
    (hslots : ∀ q, r ≠ q → s'.slots q = s.slots q) (hdel : s'.deletions = s.deletions ++ [r])
    (hqueue : ∀ w, s'.queue w = (s.queue w).erase r)
    (hnonempty : ∀ w : ℕ, s'.queues[w]? ≠ some [])
    (hholds : ∀ p q, s'.Holds p q ↔ r ≠ q ∧ s.Holds p q)
    (hvalid : ∀ p proxy, s'.proxies p = some proxy → proxy.Valid)
    (hfresh : ∀ p, s'.nextProxy ≤ p → s'.proxies p = none) : s'.Inv := by
  refine h.move hr hphase (by simp) (fun q => ?_) (fun q _ => by rw [hrequests]) hslots trivial
    (fun q hq => ?_) (fun p q => ?_) (fun w q => ?_) (fun w => ?_) hnonempty
    (fun w a rest hw q hq => ?_) hvalid hfresh
  · rw [hnext]
    refine ⟨fun hle => ⟨?_, hle⟩, And.right⟩
    rintro rfl
    exact hborn ((h.unborn r).mpr hle)
  · simpa [hdel, eq_comm] using hq
  · simpa [Phase.HeldBy] using hholds p q
  · rw [hqueue, (h.nodup w).mem_erase_iff]
    simp [Phase.Queued, eq_comm]
  · rw [hqueue]
    exact (h.nodup w).erase r
  · rw [hqueue] at hw
    obtain ⟨hne, hq⟩ := h.tail_erase r hw q hq
    rw [hphase, if_neg hne, hq]

theorem phase_accept (s : Service) (request : Request) (q : RequestId) :
    (s.accept request).phase q = if s.nextRequest = q then .waiting else s.phase q := by
  simp only [Service.accept, phase_emit, Emission.phaseOf]
  split_ifs <;> rfl

theorem queue_accept (s : Service) (request : Request) (w : ℕ) : (s.accept request).queue w =
    if request.windowId = w then s.queue request.windowId ++ [s.nextRequest] else s.queue w :=
  queue_setQueue _ _ _ _

theorem phase_route {env : ProxyId → Environment} (s : Service) (p : ProxyId) (request : Request)
    (q : RequestId) : (s.route env p request).phase q =
      if s.nextRequest = q then .routed p else s.phase q := by
  refine (phase_emit (.routed s.nextRequest p) (s.newRequest request) q).trans ?_
  simp only [Emission.phaseOf]
  split_ifs <;> rfl

theorem phase_hand {env : ProxyId → Environment} (s : Service) (w : ℕ) (r q : RequestId) :
    (s.hand env w r).phase q = if r = q then .served s.nextProxy else s.phase q := by
  refine (phase_emit (.handed r w s.nextProxy) s q).trans ?_
  simp only [Emission.phaseOf]
  split_ifs <;> rfl

theorem Inv.accept {s : Service} (h : s.Inv) (request : Request) (hf : request.inProgress = false) :
    (s.accept request).Inv := by
  have hnew := h.phase_next
  have hnotin (w : ℕ) : s.nextRequest ∉ s.queue w := by
    simp [h.mem_queue, hnew, Phase.Queued]
  refine h.move (by simp [hnew]) (phase_accept s request) (by simp) (fun q => ?_) (fun q hq => ?_)
    (fun q hq => ?_) ?_ (fun q hq => .inl hq) (fun p q => ?_) (fun w q => ?_) (fun w => ?_) (fun w => ?_)
    (fun w a rest hw q hq => ?_) h.valid h.fresh
  · exact ⟨fun hle => ⟨Nat.ne_of_lt hle, Nat.le_of_succ_le hle⟩,
      fun hle => Nat.lt_of_le_of_ne hle.2 hle.1⟩
  · simp [Service.accept, Ne.symm hq]
  · simp [Service.accept, Ne.symm hq]
  · simp [Service.accept, Phase.Fits, hf]
  · refine Iff.trans (b := s.Holds p q) Iff.rfl ?_
    simp only [Phase.HeldBy, reduceCtorEq, or_self, and_false, or_false]
    refine ⟨fun hold => ⟨?_, hold⟩, And.right⟩
    rintro rfl
    simp [h.holds, hnew, Phase.HeldBy] at hold
  · have hwindow : (s.accept request).windowId s.nextRequest = request.windowId := by
      simp [Service.accept, windowId]
    rw [queue_accept, hwindow]
    by_cases hw : request.windowId = w
    · subst hw
      by_cases he : s.nextRequest = q
      · simp [he, Phase.Queued]
      · simp [he, Ne.symm he]
    · by_cases he : s.nextRequest = q
      · simp [hw, ← he, hnotin]
      · simp [hw, he]
  · rw [queue_accept]
    split_ifs
    · rw [List.nodup_append]
      refine ⟨h.nodup _, List.nodup_singleton _, ?_⟩
      rintro a ha b hb rfl
      rw [List.mem_singleton] at hb
      exact hnotin _ (hb ▸ ha)
    · exact h.nodup w
  · have : (s.accept request).queues =
        s.queues.insert request.windowId (s.queue request.windowId ++ [s.nextRequest]) := rfl
    rw [this, Std.TreeMap.getElem?_insert]
    split_ifs
    · simp
    · exact h.nonempty w
  · rw [phase_accept]
    rw [queue_accept] at hw
    split_ifs with he
    · rfl
    · split_ifs at hw
      · -- the new request stands behind the others
        cases hold : s.queue request.windowId with
        | nil =>
            rw [hold] at hw
            obtain ⟨-, rfl⟩ := List.cons.inj hw
            simp at hq
        | cons b rest₀ =>
            rw [hold, List.cons_append] at hw
            obtain ⟨rfl, rfl⟩ := List.cons.inj hw
            exact h.tail _ _ _ hold q (by simpa [Ne.symm he] using hq)
      · exact h.tail w a rest hw q hq

theorem Inv.route {env : ProxyId → Environment} {s : Service} (h : s.Inv) {p : ProxyId}
    {proxy : UiProxy} (hp : s.proxies p = some proxy) (request : Request) :
    (s.route env p request).Inv := by
  have hnew := h.phase_next
  have hnone (q : ProxyId) : ¬ s.Holds q s.nextRequest := by
    simp [h.holds, hnew, Phase.HeldBy]
  have hholds (q : ProxyId) (a : RequestId) : (s.route env p request).Holds q a ↔
      (a = s.nextRequest ∧ q = p) ∨ s.Holds q a :=
    holds_handleRequest (s := (((s.newRequest request).emit (.routed s.nextRequest p)).connect
      s.nextRequest .deleteLater)) hp (h.valid p proxy hp) s.nextRequest q a
  refine h.move (by simp [hnew]) (phase_route s p request) (by simp) (fun q => ?_)
    (fun q hq => ?_) (fun q hq => ?_) ?_ (fun q hq => .inl hq) (fun q a => ?_) (fun w q => ?_)
    h.nodup h.nonempty
    (fun w a rest hw q hq => ?_) ?_ ?_
  · exact ⟨fun hle => ⟨Nat.ne_of_lt hle, Nat.le_of_succ_le hle⟩,
      fun hle => Nat.lt_of_le_of_ne hle.2 hle.1⟩
  · simp [Service.route, Service.handleRequest, Ne.symm hq]
  · simp [Service.route, Service.handleRequest, Ne.symm hq]
  · simp [Service.route, Service.handleRequest, Phase.Fits]
  · rw [hholds]
    by_cases he : s.nextRequest = a
    · subst he
      simp [hnone, Phase.HeldBy, eq_comm]
    · simp [he, Ne.symm he]
  · refine Iff.trans (b := q ∈ s.queue w) Iff.rfl ?_
    simp only [Phase.Queued, reduceCtorEq, exists_const, or_self, and_false, or_false]
    refine ⟨fun hq => ⟨?_, hq⟩, And.right⟩
    rintro rfl
    simp [h.mem_queue, hnew, Phase.Queued] at hq
  · have hold : s.phase q = .waiting := h.tail w a rest hw q hq
    rw [phase_route, if_neg, hold]
    rintro rfl
    simp [hnew] at hold
  · exact handleRequest_valid (s := (((s.newRequest request).emit (.routed s.nextRequest p)).connect
      s.nextRequest .deleteLater)) h.valid (hnone p)
  · exact setProxy_fresh h.fresh

theorem Inv.hand {env : ProxyId → Environment} {s : Service} (h : s.Inv) {w : ℕ} {r : RequestId}
    {rest : List RequestId} (hq : s.queue w = r :: rest) (hr : s.phase r = .waiting) :
    (s.hand env w r).Inv := by
  let started : Service := { s.connect r .manager with
    nextProxy := s.nextProxy + 1
    proxies := Function.update s.proxies s.nextProxy (some (s.newProxy env r).1)
    managed := s.managed ++ [s.nextProxy] }
  have hnone (q : ProxyId) : ¬ s.Holds q r := by
    simp [h.holds, hr, Phase.HeldBy]
  have hstarted (q : ProxyId) (a : RequestId) : started.Holds q a ↔ s.Holds q a := by
    unfold Holds
    by_cases he : q = s.nextProxy
    · subst he
      simp [started, newProxy_empty, h.fresh]
    · simp [started, he]
  have hvalid (q : ProxyId) (proxy : UiProxy) (hp : started.proxies q = some proxy) :
      proxy.Valid := by
    by_cases he : q = s.nextProxy
    · subst he
      obtain rfl : (s.newProxy env r).1 = proxy := by simpa [started] using hp
      exact newProxy_valid env s r
    · exact h.valid q proxy (by simpa [started, he] using hp)
  obtain ⟨-, hslots⟩ : (s.requests r).inProgress = false ∧ s.slots r = [] := by
    have := h.fits r
    rwa [hr] at this
  have hmem : r ∈ s.queue w := by simp [hq]
  refine h.move (by simp [hr]) (phase_hand s w r) (by simp) (fun q => ?_) (fun q hq => ?_)
    (fun q hq => ?_) ?_ (fun q hq => .inl hq) (fun q a => ?_) (fun w' q => ?_) h.nodup h.nonempty
    (fun w' a rest' hw q hq' => ?_) ?_ ?_
  · refine ⟨fun hle => ⟨?_, hle⟩, And.right⟩
    rintro rfl
    simp [(h.unborn r).mpr hle] at hr
  · simp [Service.hand, Service.handleRequest, Ne.symm hq]
  · simp [Service.hand, Service.handleRequest, Ne.symm hq]
  · simp [Service.hand, Service.handleRequest, Phase.Fits, hslots]
  · refine (holds_handleRequest (s := started.emit (.handed r w s.nextProxy)) (by simp [started])
      (newProxy_valid env s r) r q a).trans ?_
    refine (or_congr_right (hstarted q a)).trans ?_
    by_cases he : r = a
    · subst he
      simp [hnone, Phase.HeldBy, eq_comm]
    · simp [he, Ne.symm he]
  · refine Iff.trans (b := q ∈ s.queue w') Iff.rfl ?_
    have hwindow : (s.hand env w r).windowId r = s.windowId r := by
      simp [Service.hand, Service.handleRequest, windowId, Request.windowId]
    rw [hwindow]
    by_cases he : r = q
    · subst he
      simp [h.mem_queue, hr, Phase.Queued]
    · simp [he]
  · have hold : s.phase q = .waiting := h.tail w' a rest' hw q hq'
    rw [phase_hand, if_neg, hold]
    rintro rfl
    -- the head of a queue is not in its tail, nor in another queue
    have hnd := h.nodup w'
    have hmem' : r ∈ s.queue w' := by
      rw [show s.queue w' = a :: rest' from hw]
      exact List.mem_cons_of_mem a hq'
    obtain rfl : w = w' :=
      ((h.mem_queue w r).mp hmem).1.symm.trans ((h.mem_queue w' r).mp hmem').1
    obtain ⟨rfl, rfl⟩ := List.cons.inj (hq.symm.trans hw)
    rw [hq] at hnd
    exact (List.nodup_cons.mp hnd).1 hq'
  · exact handleRequest_valid (s := started.emit (.handed r w s.nextProxy)) hvalid
      fun hold => hnone _ ((hstarted _ _).mp hold)
  · refine setProxy_fresh (s := started.emit (.handed r w s.nextProxy)) fun q hle => ?_
    have hne : q ≠ s.nextProxy := Nat.ne_of_gt hle
    simpa [started, hne] using h.fresh q (Nat.le_of_succ_le hle)

theorem Inv.refuse {s : Service} (h : s.Inv) {w : ℕ} {r : RequestId}
    {rest : List RequestId} (hq : s.queue w = r :: rest) (hr : s.phase r = .waiting) :
    (s.refuse w rest r).Inv := by
  have hnone (q : ProxyId) : ¬ s.Holds q r := by
    simp [h.holds, hr, Phase.HeldBy]
  refine h.retire (by simp [hr]) (by simp [hr]) (fun q => ?_) rfl rfl (fun q hq => ?_) rfl
    (fun w' => h.dequeue_erase hq w') (fun w' => dequeue_nonempty h.nonempty w w' rest)
    (fun p q => ?_) h.valid fun p hle => h.fresh p (Nat.le_of_succ_le hle)
  · exact phase_answer r _ _ q
  · simp [Service.refuse, answer, Ne.symm hq]
  · refine Iff.trans (b := s.Holds p q) Iff.rfl ⟨fun hold => ⟨?_, hold⟩, And.right⟩
    rintro rfl
    exact hnone p hold

theorem Inv.holds_unregister {s : Service} (h : s.Inv) {p : ProxyId} {r : RequestId}
    (hr : (s.phase r).HeldBy p) {t : Service} (ht : t.proxies = s.proxies) (q : ProxyId)
    (a : RequestId) : (t.unregister p r).Holds q a ↔ r ≠ a ∧ s.Holds q a := by
  have hholds (q : ProxyId) (a : RequestId) : t.Holds q a ↔ s.Holds q a := by
    unfold Holds
    rw [ht]
  rw [Service.holds_unregister (by rw [ht]; exact h.valid), hholds]
  constructor
  · rintro ⟨hne, ha⟩
    refine ⟨?_, ha⟩
    rintro rfl
    refine hne ⟨?_, rfl⟩
    have := (h.holds q r).mp ha
    rcases hr with hr | hr <;> simpa [hr, Phase.HeldBy, eq_comm] using this
  · rintro ⟨hne, ha⟩
    exact ⟨fun he => hne he.2.symm, ha⟩

theorem Inv.complete {s : Service} (h : s.Inv) {w : ℕ} {r : RequestId} {rest : List RequestId}
    {p : ProxyId} (hq : s.queue w = r :: rest) (hr : s.phase r = .served p) (reply : Reply) :
    (s.complete w rest r p reply).Inv :=
  h.retire (by simp [hr]) (by simp [hr]) (fun q => phase_answer r reply s q) rfl rfl
    (fun _ _ => rfl) rfl (fun w' => h.dequeue_erase hq w')
    (fun w' => dequeue_nonempty h.nonempty w w' rest)
    (h.holds_unregister (.inl hr) rfl)
    (unregister_valid (s := ((s.answer r reply).deleteLater r).dequeue w rest) h.valid p r)
    (setProxy_fresh h.fresh)

theorem Inv.completeRouted {s : Service} (h : s.Inv) {r : RequestId} {p : ProxyId}
    (hr : s.phase r = .routed p) (reply : Reply) : (s.completeRouted r p reply).Inv := by
  have hnotin (w : ℕ) : r ∉ s.queue w := by
    simp [h.mem_queue, hr, Phase.Queued]
  exact h.retire (by simp [hr]) (by simp [hr]) (fun q => phase_answer r reply s q) rfl rfl
    (fun _ _ => rfl) rfl (fun w => (List.erase_of_not_mem (hnotin w)).symm) h.nonempty
    (h.holds_unregister (.inr hr) rfl)
    (unregister_valid (s := (s.answer r reply).deleteLater r) h.valid p r)
    (setProxy_fresh h.fresh)

theorem Inv.emit {s : Service} (h : s.Inv) {e : Emission} (he : ∀ r, e.phaseOf r = none) :
    (s.emit e).Inv :=
  h.quiet (fun r => by rw [phase_emit, he]; rfl) (fun _ => rfl) h.fits h.deletions rfl rfl
    (fun _ _ => Iff.rfl) h.valid h.fresh

theorem Inv.touch {s : Service} (h : s.Inv) (p : ProxyId) {f : UiProxy → UiProxy} (hf : Local f) :
    (s.setProxy p f).Inv :=
  h.quiet (fun _ => rfl) (fun _ => rfl) h.fits h.deletions rfl rfl (holds_setProxy_local hf)
    (setProxy_valid h.valid fun proxy hp => hf.valid (h.valid p proxy hp)) (setProxy_fresh h.fresh)

theorem Inv.answer {s : Service} (h : s.Inv) {r : RequestId} (hr : s.phase r = .done)
    (reply : Reply) : (s.answer r reply).Inv := by
  refine h.quiet (fun q => ?_) (fun _ => rfl) h.fits h.deletions rfl rfl
    (fun _ _ => Iff.rfl) h.valid h.fresh
  rw [phase_answer]
  split_ifs with he
  · rw [← he, hr]
  · rfl

/-- The slots of a done request find nothing to do. -/
theorem Inv.callSlotAgain {s : Service} (h : s.Inv) {r : RequestId} (hr : s.phase r = .done)
    (slot : Slot) : (s.callSlotAgain r slot).Inv ∧ (s.callSlotAgain r slot).phase r = .done := by
  cases slot with
  | manager => exact ⟨h.emit fun _ => rfl, hr⟩
  | deleteLater =>
      refine ⟨h.quiet (fun _ => rfl) (fun _ => rfl) h.fits (fun q hq => ?_) rfl rfl
        (fun _ _ => Iff.rfl) h.valid h.fresh, hr⟩
      rcases List.mem_append.mp hq with hq | hq
      · exact h.deletions q hq
      · rw [List.mem_singleton.mp hq, hr]
  | proxy p =>
      refine ⟨h.quiet (fun _ => rfl) (fun _ => rfl) h.fits h.deletions rfl rfl (fun q a => ?_)
        (unregister_valid h.valid p r) (setProxy_fresh h.fresh), hr⟩
      refine (Service.holds_unregister h.valid p q r a).trans ⟨And.right, fun hold => ⟨?_, hold⟩⟩
      rintro ⟨rfl, rfl⟩
      simp [h.holds, hr, Phase.HeldBy] at hold

theorem Inv.setRequest {s : Service} (h : s.Inv) (r : RequestId) {f : Request → Request}
    (hwindow : (f (s.requests r)).windowId = (s.requests r).windowId)
    (hfits : (s.phase r).Fits (f (s.requests r)) (s.slots r)) : (s.setRequest r f).Inv := by
  refine h.quiet (fun _ => rfl) (fun q => ?_) (fun q => ?_) h.deletions rfl rfl
    (fun _ _ => Iff.rfl) h.valid h.fresh
  · unfold windowId
    rw [setRequest_requests]
    by_cases he : q = r
    · subst he
      simpa using hwindow
    · simp [he]
  · rw [setRequest_requests]
    by_cases he : q = r
    · subst he
      simpa using hfits
    · simpa [he] using h.fits q

theorem Inv.clear {s : Service} (h : s.Inv) {r : RequestId} (hr : s.phase r = .done) :
    (s.setRequest r ({ · with inProgress := false })).Inv :=
  h.setRequest r rfl (by rw [hr]; trivial)

theorem Inv.delay {s : Service} (h : s.Inv) (r : RequestId) (delay : ℤ) :
    (s.setRequest r ({ · with delay := delay })).Inv := by
  refine h.setRequest r rfl ?_
  have := h.fits r
  cases hr : s.phase r <;> rw [hr] at this <;> exact this

theorem Inv.onProxyFinished {s : Service} (h : s.Inv) (p : ProxyId) : (s.onProxyFinished p).Inv :=
  h.quiet (fun _ => rfl) (fun _ => rfl) h.fits h.deletions rfl rfl (fun _ _ => Iff.rfl) h.valid
    h.fresh

theorem Inv.deleteProxy {s : Service} (h : s.Inv) {p : ProxyId} (hp : ∀ r, ¬ s.Holds p r) :
    Inv { s with
      proxies := Function.update s.proxies p none
      doomed := s.doomed.erase p } := by
  refine h.quiet (fun _ => rfl) (fun _ => rfl) h.fits h.deletions rfl rfl (fun q r => ?_)
    (fun q proxy hq => ?_) (fun q hle => ?_)
  · by_cases he : q = p
    · subst he
      simp only [hp, iff_false]
      simp [Holds]
    · simp [Holds, he]
  · by_cases he : q = p
    · subst he
      simp at hq
    · exact h.valid q proxy (by simpa [he] using hq)
  · by_cases he : q = p
    · simp [he]
    · simpa [he] using h.fresh q hle

theorem Inv.deleteRequest {s : Service} (h : s.Inv) {r : RequestId} (hr : r ∈ s.deletions) :
    Inv { s with
      deletions := s.deletions.filter (· ≠ r)
      allRequests := s.allRequests.erase r
      slots := Function.update s.slots r [] } := by
  refine h.quiet (fun _ => rfl) (fun _ => rfl) (fun q => ?_)
    (fun q hq => h.deletions q (List.mem_of_mem_filter hq)) rfl rfl (fun _ _ => Iff.rfl) h.valid
    h.fresh
  by_cases he : q = r
  · subst he
    rw [h.deletions q hr]
    trivial
  · simpa [he] using h.fits q

/-- **The invariant**: every action keeps it. -/
theorem Act.inv {env : ProxyId → Environment} {a : Label} {s s' : Service} (h : Act env a s s')
    (hs : s.Inv) : s'.Inv := by
  cases h with
  | accept request hf => exact hs.accept request hf
  | route request hp => exact hs.route hp request
  | hand hq hr _ => exact hs.hand hq hr
  | refuse hq hr _ => exact hs.refuse hq hr
  | idle => exact hs.emit fun _ => rfl
  | complete reply hq hr => exact hs.complete hq hr reply
  | completeRouted reply hr => exact hs.completeRouted hr reply
  | completeAgain reply hr =>
      refine (completeAgain_induction (I := fun t => t.Inv ∧ t.phase _ = .done)
        ⟨hs.answer hr reply, ?_⟩ fun t slot ht => ht.1.callSlotAgain ht.2 slot).1
      rw [phase_answer, if_pos rfl]
  | clear hr => exact hs.clear hr
  | delay delay => exact hs.delay _ delay
  | touch hf => exact hs.touch _ hf
  | finish => exact hs.onProxyFinished _
  | deleteProxy hp => exact hs.deleteProxy hp
  | deleteRequest hr => exact hs.deleteRequest hr

theorem Inv.path {env : ProxyId → Environment} {allowed : Label → Prop} {s s' : Service}
    (hs : s.Inv) (h : Transition.Path (Act env) allowed s s') : s'.Inv :=
  h.invariant hs fun _ _ _ hi _ hact => hact.inv hi

end Service

end OnlineAccounts
