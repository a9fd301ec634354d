import OnlineAccounts.Effects

/-! # Queue discipline

The requests of a window are served one after the other, in the order of the calls, and none of
them is lost: `queue_discipline` says so of every reachable state.

The order is read off the log (`inOrder`, oldest first).  What was queued for a window is what is
done, followed by what is in the queue (`Order.queued`); only the head of a queue is handed to
a proxy, so all that was queued before it has been completed (`Order.handed_after`). -/

namespace OnlineAccounts

/-- What `f` picks out of a log, oldest first. -/
def inOrder {α : Type*} (f : Emission → Option α) : List Emission → List α
  | [] => []
  | e :: log => inOrder f log ++ (f e).toList

namespace Emission

/-- The request that is put into the queue of window `w`. -/
def queuedIn (w : ℕ) : Emission → Option RequestId
  | .queued r w' => if w' = w then some r else none
  | _ => none

/-- The request of the queue of window `w` that is handed to a proxy. -/
def handedIn (w : ℕ) : Emission → Option RequestId
  | .handed r w' _ => if w' = w then some r else none
  | _ => none

/-- Neither queued nor handed. -/
def Neutral (e : Emission) : Prop := ∀ w, e.queuedIn w = none ∧ e.handedIn w = none

end Emission

theorem inOrder_append_neutral {α : Type*} {f : Emission → Option α} {es : List Emission}
    (h : ∀ e ∈ es, f e = none) (log : List Emission) : inOrder f (es ++ log) = inOrder f log := by
  induction es with
  | nil => rfl
  | cons e es ih =>
      rw [List.cons_append, inOrder, ih fun e he => h e (List.mem_cons_of_mem _ he),
        h e List.mem_cons_self]
      simp

theorem mem_inOrder {α : Type*} {f : Emission → Option α} {a : α} {log : List Emission} :
    a ∈ inOrder f log ↔ ∃ e ∈ log, f e = some a := by
  induction log with
  | nil => simp [inOrder]
  | cons e log ih => simp [inOrder, ih, or_comm, eq_comm]

/-- What stands before an element of a list without repetitions. -/
theorem mem_of_pair_sublist {α : Type*} {a b : α} {l l' : List α}
    (h : [a, b].Sublist (l ++ b :: l')) (hnd : (l ++ b :: l').Nodup) : a ∈ l := by
  obtain ⟨x, y, hxy, hx, hy⟩ := List.sublist_append_iff.mp h
  cases x with
  | nil =>
      obtain rfl : [a, b] = y := hxy
      have hb : b ∈ l' := by simpa using hy.tail
      exact absurd hb (List.nodup_cons.mp (List.nodup_append.mp hnd).2.1).1
  | cons c x =>
      obtain ⟨rfl, -⟩ := List.cons.inj hxy
      exact hx.subset List.mem_cons_self

/-- Every request that is handed was preceded in its window by completed requests only. -/
def HandedAfter : List Emission → Prop
  | [] => True
  | e :: log => HandedAfter log ∧
      ∀ w r, e.handedIn w = some r → ∀ q, [q, r].Sublist (inOrder (Emission.queuedIn w) log) →
        .completed q ∈ log

theorem HandedAfter.append {es log : List Emission} (hes : ∀ e ∈ es, e.Neutral)
    (h : HandedAfter log) : HandedAfter (es ++ log) := by
  induction es with
  | nil => exact h
  | cons e es ih =>
      refine ⟨ih fun e he => hes e (List.mem_cons_of_mem _ he), fun w r hr => ?_⟩
      rw [(hes e List.mem_cons_self w).2] at hr
      cases hr

theorem HandedAfter.split {log : List Emission} (h : HandedAfter log) {later earlier : List Emission}
    {r q : RequestId} {w : ℕ} {p : ProxyId} (hlog : log = later ++ .handed r w p :: earlier)
    (hq : [q, r].Sublist (inOrder (Emission.queuedIn w) earlier)) : .completed q ∈ earlier := by
  subst hlog
  induction later with
  | nil => exact h.2 w r (if_pos rfl) q hq
  | cons e later ih => exact ih h.1

namespace Service

open Transition

variable {env : ProxyId → Environment}

/-! ### The order of the requests of a window -/

/-- The log and the queues tell the same story. -/
structure Order (s : Service) : Prop where
  queued : ∀ w, ∃ done, inOrder (Emission.queuedIn w) s.log = done ++ s.queue w ∧
    ∀ r ∈ done, s.phase r = .done
  nodup : ∀ w, (inOrder (Emission.queuedIn w) s.log).Nodup
  handed : ∀ w, (inOrder (Emission.handedIn w) s.log).Sublist
    ((inOrder (Emission.queuedIn w) s.log).filter (s.phase · ≠ .waiting))
  handed_after : HandedAfter s.log

theorem start_order : Order {} where
  queued w := ⟨[], by simp [inOrder, queue], by simp⟩
  nodup w := List.nodup_nil
  handed w := List.nil_sublist _
  handed_after := trivial

/-- Actions that neither queue nor hand a request, and let no request wait again. -/
theorem Order.neutral {s s' : Service} (h : s.Order) (es : List Emission)
    (hlog : s'.log = es ++ s.log) (hes : ∀ e ∈ es, e.Neutral)
    (hphase : ∀ r, s'.phase r = .waiting → s.phase r = .waiting)
    (hqueued : ∀ w done, (∀ r ∈ done, s.phase r = .done) →
      ∃ done', done ++ s.queue w = done' ++ s'.queue w ∧ ∀ r ∈ done', s'.phase r = .done) :
    s'.Order := by
  have hq (w : ℕ) : inOrder (Emission.queuedIn w) s'.log = inOrder (Emission.queuedIn w) s.log := by
    rw [hlog]
    exact inOrder_append_neutral (fun e he => (hes e he w).1) _
  have hh (w : ℕ) : inOrder (Emission.handedIn w) s'.log = inOrder (Emission.handedIn w) s.log := by
    rw [hlog]
    exact inOrder_append_neutral (fun e he => (hes e he w).2) _
  refine ⟨fun w => ?_, fun w => ?_, fun w => ?_, ?_⟩
  · obtain ⟨done, hd, hdone⟩ := h.queued w
    obtain ⟨done', hd', hdone'⟩ := hqueued w done hdone
    exact ⟨done', by rw [hq, hd, hd'], hdone'⟩
  · rw [hq]
    exact h.nodup w
  · rw [hh, hq]
    refine (h.handed w).trans (List.monotone_filter_right _ fun r hr => ?_)
    simp only [ne_eq, decide_not, Bool.not_eq_true', decide_eq_false_iff_not] at hr ⊢
    exact fun hw => hr (hphase r hw)
  · rw [hlog]
    exact h.handed_after.append hes

theorem Order.born {s : Service} (h : s.Order) (hs : s.Inv) {w : ℕ} {r : RequestId}
    (hr : r ∈ inOrder (Emission.queuedIn w) s.log) : s.phase r ≠ .unborn := by
  obtain ⟨done, hd, hdone⟩ := h.queued w
  rw [hd, List.mem_append] at hr
  rcases hr with hr | hr
  · simp [hdone r hr]
  · rcases ((hs.mem_queue w r).mp hr).2 with hw | ⟨p, hp⟩
    · simp [hw]
    · simp [hp]

theorem Order.accept {s : Service} (h : s.Order) (hs : s.Inv) (request : Request) :
    (s.accept request).Order := by
  have hnext := hs.phase_next
  have hq (w : ℕ) : inOrder (Emission.queuedIn w) (s.accept request).log =
      inOrder (Emission.queuedIn w) s.log ++
        if request.windowId = w then [s.nextRequest] else [] := by
    refine congrArg (inOrder (Emission.queuedIn w) s.log ++ ·) ?_
    simp only [Emission.queuedIn]
    split_ifs <;> rfl
  have hh (w : ℕ) : inOrder (Emission.handedIn w) (s.accept request).log =
      inOrder (Emission.handedIn w) s.log := List.append_nil _
  have hold {w : ℕ} {r : RequestId} (hr : r ∈ inOrder (Emission.queuedIn w) s.log) :
      (s.accept request).phase r = s.phase r := by
    rw [phase_accept, if_neg]
    rintro rfl
    exact h.born hs hr hnext
  refine ⟨fun w => ?_, fun w => ?_, fun w => ?_, h.handed_after, ?_⟩
  · obtain ⟨done, hd, hdone⟩ := h.queued w
    refine ⟨done, ?_, fun r hr => ?_⟩
    · rw [hq, hd, queue_accept]
      split_ifs with hw
      · rw [hw, List.append_assoc]
      · rw [List.append_nil]
    · rw [hold (w := w) (by rw [hd]; exact List.mem_append_left _ hr), hdone r hr]
  · rw [hq]
    split_ifs
    · refine List.nodup_append.mpr ⟨h.nodup w, List.nodup_singleton _, ?_⟩
      rintro a ha b hb rfl
      rw [List.mem_singleton] at hb
      exact h.born hs ha (hb ▸ hnext)
    · rw [List.append_nil]
      exact h.nodup w
  · have hsame : (inOrder (Emission.queuedIn w) s.log).filter
        ((s.accept request).phase · ≠ .waiting) =
          (inOrder (Emission.queuedIn w) s.log).filter (s.phase · ≠ .waiting) :=
      List.filter_congr fun r hr => by rw [hold hr]
    rw [hh, hq, List.filter_append, hsame]
    exact (h.handed w).trans (List.sublist_append_left _ _)
  · intro w r hr
    cases hr

/-- Before the waiting head of a queue is handed, all that was handed in its window is done. -/
theorem Order.handed_done {s : Service} (h : s.Order) (hs : s.Inv) {w : ℕ} {r : RequestId}
    {rest : List RequestId} (hq : s.queue w = r :: rest) (hr : s.phase r = .waiting) :
    ∃ done, inOrder (Emission.queuedIn w) s.log = done ++ r :: rest ∧
      (∀ q ∈ done, s.phase q = .done) ∧ (inOrder (Emission.handedIn w) s.log).Sublist done := by
  obtain ⟨done, hd, hdone⟩ := h.queued w
  rw [hq] at hd
  have hwait : ∀ q ∈ r :: rest, s.phase q = .waiting := by
    intro q hmem
    rcases List.mem_cons.mp hmem with rfl | hmem
    · exact hr
    · exact hs.tail w r rest hq q hmem
  have hnone : (r :: rest).filter (s.phase · ≠ .waiting) = [] :=
    List.filter_eq_nil_iff.mpr (by simpa using hwait)
  have hold := h.handed w
  rw [hd, List.filter_append, hnone, List.append_nil] at hold
  exact ⟨done, hd, hdone, hold.trans List.filter_sublist⟩

theorem Order.hand {s s' : Service} (h : s.Order) (hs : s.Inv) {w : ℕ} {r : RequestId}
    {rest : List RequestId} {p : ProxyId} (hq : s.queue w = r :: rest) (hr : s.phase r = .waiting)
    (hlog : s'.log = .handed r w p :: s.log) (hqueue : ∀ w, s'.queue w = s.queue w) : s'.Order := by
  have hphase (q : RequestId) : s'.phase q = if r = q then .served p else s.phase q := by
    rw [phase_cons hlog, Emission.phaseOf]
    split_ifs <;> rfl
  have hqueued (w' : ℕ) : inOrder (Emission.queuedIn w') s'.log =
      inOrder (Emission.queuedIn w') s.log := by
    rw [hlog]
    exact List.append_nil _
  have hhanded (w' : ℕ) : inOrder (Emission.handedIn w') s'.log =
      inOrder (Emission.handedIn w') s.log ++ if w = w' then [r] else [] := by
    rw [hlog]
    refine congrArg (inOrder (Emission.handedIn w') s.log ++ ·) ?_
    simp only [Emission.handedIn]
    split_ifs <;> rfl
  have hgrow (w' : ℕ) : ((inOrder (Emission.queuedIn w') s.log).filter
      (s.phase · ≠ .waiting)).Sublist
        ((inOrder (Emission.queuedIn w') s.log).filter (s'.phase · ≠ .waiting)) := by
    refine List.monotone_filter_right _ fun q hw => ?_
    simp only [ne_eq, decide_not, Bool.not_eq_true', decide_eq_false_iff_not] at hw ⊢
    rw [hphase]
    split_ifs
    · simp
    · exact hw
  refine ⟨fun w' => ?_, fun w' => by rw [hqueued]; exact h.nodup w', fun w' => ?_, ?_⟩
  · obtain ⟨done, hd, hdone⟩ := h.queued w'
    refine ⟨done, by rw [hqueued, hd, hqueue], fun q hmem => ?_⟩
    have := hdone q hmem
    rw [hphase, if_neg, this]
    rintro rfl
    simp [hr] at this
  · rw [hhanded, hqueued]
    split_ifs with hw
    · subst hw
      -- what was queued is done, the request, and requests that wait
      obtain ⟨done, hd, hdone, hsub⟩ := h.handed_done hs hq hr
      have hdone' : ∀ q ∈ done, (decide (s'.phase q ≠ .waiting)) = true := by
        intro q hmem
        rw [hphase, if_neg]
        · simp [hdone q hmem]
        · intro he
          have hq := hdone q hmem
          rw [← he, hr] at hq
          cases hq
      rw [hd, List.filter_append, List.filter_eq_self.mpr hdone',
        List.filter_cons_of_pos (by simp [hphase])]
      exact hsub.append (List.nil_sublist _ |>.cons_cons r)
    · rw [List.append_nil]
      exact (h.handed w').trans (hgrow w')
  · rw [hlog]
    refine ⟨h.handed_after, fun w' q hq' a ha => ?_⟩
    obtain ⟨rfl, rfl⟩ : w = w' ∧ r = q := by
      simp only [Emission.handedIn] at hq'
      split_ifs at hq' with hw
      exact ⟨hw, Option.some.inj hq'⟩
    obtain ⟨done, hd, hdone⟩ := h.queued w
    have hnd := h.nodup w
    rw [hd, hq] at ha hnd
    -- in front of the head of the queue there are only requests that are done
    exact completed_of_done (hdone a (mem_of_pair_sublist ha hnd))

theorem Quiet.neutral {e : Emission} (h : Quiet e) : e.Neutral := by
  intro w
  cases e <;> first | exact ⟨rfl, rfl⟩ | exact h.elim

theorem Answers.neutral {r : RequestId} {e : Emission} (h : Answers r e) : e.Neutral := by
  intro w
  cases e <;> first | exact ⟨rfl, rfl⟩ | exact h.elim

theorem Order.answer {s s' : Service} (h : s.Order) {r : RequestId} {reply : Reply}
    (hlog : s'.log = .completed r :: .replied r reply :: s.log)
    (hhead : ∀ w, r ∈ s.queue w → ∃ rest, s.queue w = r :: rest)
    (hqueue : ∀ w, s'.queue w = (s.queue w).erase r) : s'.Order := by
  have hphase (q : RequestId) : s'.phase q = if r = q then .done else s.phase q := by
    rw [phase_cons hlog, Emission.phaseOf]
    split_ifs <;> rfl
  refine h.neutral [.completed r, .replied r reply] hlog ?_ (fun q hq => ?_)
    fun w done hdone => ?_
  · intro e he
    simp only [List.mem_cons, List.not_mem_nil, or_false] at he
    rcases he with rfl | rfl <;> exact fun w => ⟨rfl, rfl⟩
  · rw [hphase] at hq
    split_ifs at hq
    exact hq
  · have hdone' : ∀ q ∈ done, s'.phase q = .done := by
      intro q hq
      rw [hphase, hdone q hq, ite_self]
    by_cases hmem : r ∈ s.queue w
    · obtain ⟨rest, hq⟩ := hhead w hmem
      refine ⟨done ++ [r], by rw [hqueue, hq, List.erase_cons_head]; simp, fun q hq' => ?_⟩
      rcases List.mem_append.mp hq' with hq' | hq'
      · exact hdone' q hq'
      · rw [hphase, if_pos (List.mem_singleton.mp hq').symm]
    · exact ⟨done, by rw [hqueue, List.erase_of_not_mem hmem], hdone'⟩

theorem Effect.order {a : Label} {s s' : Service} (h : Effect s s' a) (hs : s.Inv)
    (ho : s.Order) : s'.Order := by
  cases h with
  | accept request h => exact h ▸ ho.accept hs request
  | hand hq hr hlog hqueue => exact ho.hand hs hq hr hlog hqueue
  | answer reply _ _ hlog hhead hqueue => exact ho.answer hlog hhead hqueue
  | again _ _ hlog hes hphase hqueue =>
      refine ho.neutral _ hlog (fun e he => (hes e he).neutral) (fun r hr => by rwa [← hphase r])
        fun w done hdone => ⟨done, by rw [hqueue], fun r hr => ?_⟩
      rw [hphase, hdone r hr]
  | silent es hlog hes hqueue =>
      have hphase := phase_quiet hlog hes
      refine ho.neutral _ hlog (fun e he => (hes e he).neutral) (fun r hr => by rwa [← hphase r])
        fun w done hdone => ⟨done, by rw [hqueue], fun r hr => ?_⟩
      rw [hphase, hdone r hr]
  | @route p hlog hqueue =>
      have hphase (q : RequestId) : s'.phase q =
          if s.nextRequest = q then .routed p else s.phase q := by
        rw [phase_cons hlog, Emission.phaseOf]
        split_ifs <;> rfl
      refine ho.neutral [.routed s.nextRequest p] hlog (fun e he => ?_) (fun r hr => ?_)
        fun w done hdone => ⟨done, by rw [hqueue], fun r hr => ?_⟩
      · rw [List.mem_singleton.mp he]
        exact fun w => ⟨rfl, rfl⟩
      · rw [hphase] at hr
        split_ifs at hr
        exact hr
      · have := hdone r hr
        rw [hphase, if_neg, this]
        rintro rfl
        simp [hs.phase_next] at this

theorem reachable_order {guard : Service → Event → Prop} {s : Service}
    (h : Reachable (machine env) guard s) : s.Order :=
  reachable_acts h start_order fun _ _ _ _ _ _ _ hi ho hact => (hact.effect hi).order hi ho

/-! ### The discipline -/

/-- `enqueue` has accepted the request. -/
def Accepted (s : Service) (r : RequestId) : Prop :=
  (∃ w, .queued r w ∈ s.log) ∨ ∃ p, .routed r p ∈ s.log

/-- `enqueue` has given the request to a proxy past the queues. -/
def Routed (s : Service) (r : RequestId) : Prop := ∃ p, .routed r p ∈ s.log

def Completed (s : Service) (r : RequestId) : Prop := .completed r ∈ s.log

/-- Request `r` is registered with proxy `p` under `id`. -/
def RegisteredAt (s : Service) (p : ProxyId) (id : ℤ) (r : RequestId) : Prop :=
  ∃ proxy, s.proxies p = some proxy ∧ proxy.requests[id]? = some r

/-- The request is in the queue of its window, once, and in no other queue. -/
def InQueueOnce (s : Service) (r : RequestId) : Prop :=
  (s.queue (s.windowId r)).count r = 1 ∧ ∀ w, w ≠ s.windowId r → r ∉ s.queue w

/-- The request is in the map of one proxy, once, and in no other map. -/
def InMapOnce (s : Service) (r : RequestId) : Prop :=
  ∃ p id, s.RegisteredAt p id r ∧ ∀ p' id', s.RegisteredAt p' id' r → p' = p ∧ id' = id

/-- A request that is accepted and has not completed is in one place. -/
theorem Inv.place {s : Service} (h : s.Inv) (hh : s.History) {r : RequestId} (ha : s.Accepted r)
    (hc : ¬ s.Completed r) : (¬ s.Routed r ∧ s.InQueueOnce r) ∨
      (s.Routed r ∧ s.InMapOnce r ∧ ∀ w, r ∉ s.queue w) := by
  have hdone : s.phase r ≠ .done := fun hd => hc (completed_of_done hd)
  by_cases hrouted : s.Routed r
  · obtain ⟨p, hp⟩ := hrouted
    have hr : s.phase r = .routed p := (hh _ hp).resolve_right hdone
    obtain ⟨proxy, hproxy, id, hid⟩ := (h.holds p r).mpr (.inr hr)
    refine .inr ⟨⟨p, hp⟩, ⟨p, id, ⟨proxy, hproxy, hid⟩, ?_⟩, fun w => ?_⟩
    · rintro p' id' ⟨proxy', hproxy', hid'⟩
      obtain rfl : p' = p := by
        have := (h.holds p' r).mp ⟨proxy', hproxy', id', hid'⟩
        simpa [hr, Phase.HeldBy, eq_comm] using this
      obtain rfl := Option.some.inj (hproxy.symm.trans hproxy')
      exact ⟨rfl, (h.valid p' proxy hproxy).injective _ _ _ hid' hid⟩
    · simp [h.mem_queue, hr, Phase.Queued]
  · obtain ⟨w, hw⟩ := ha.resolve_right hrouted
    have hqueued : (s.phase r).Queued := (hh _ hw).resolve_right hdone
    refine .inl ⟨hrouted, ?_, fun w' hne hmem => hne ((h.mem_queue w' r).mp hmem).1.symm⟩
    exact List.count_eq_one_of_mem (h.nodup _) ((h.mem_queue _ r).mpr ⟨rfl, hqueued⟩)

theorem Inv.head_of_inProgress {s : Service} (h : s.Inv) {w : ℕ} {r : RequestId}
    (hr : r ∈ s.queue w) (hflag : (s.requests r).inProgress = true) :
    (s.queue w).head? = some r := by
  cases hq : s.queue w with
  | nil => simp [hq] at hr
  | cons a rest =>
      rw [hq, List.mem_cons] at hr
      rcases hr with rfl | hr
      · rfl
      · have hfits := h.fits r
        rw [h.tail w a rest hq r hr] at hfits
        exact absurd hflag (by simp [hfits.1])

/-- The discipline of the queues in a state, and in the run up to it. -/
structure Disciplined (s : Service) : Prop where
  /-- A request that is accepted and has not completed is in one place, once. -/
  place : ∀ r, s.Accepted r → ¬ s.Completed r → (¬ s.Routed r ∧ s.InQueueOnce r) ∨
    (s.Routed r ∧ s.InMapOnce r ∧ ∀ w, r ∉ s.queue w)
  /-- At most one request of a queue is in progress, and it is the head. -/
  head : ∀ w r, r ∈ s.queue w → (s.requests r).inProgress = true → (s.queue w).head? = some r
  /-- The requests of a window are handed in the order in which they were queued. -/
  in_order : ∀ w, (inOrder (Emission.handedIn w) s.log).Sublist
    (inOrder (Emission.queuedIn w) s.log)
  /-- No request is handed twice. -/
  once : ∀ w, (inOrder (Emission.handedIn w) s.log).Nodup
  /-- A request is handed only after those that were queued before it have completed. -/
  handed_after : ∀ later earlier r w p, s.log = later ++ .handed r w p :: earlier →
    ∀ q, [q, r].Sublist (inOrder (Emission.queuedIn w) earlier) → .completed q ∈ earlier

/-- **Queue discipline**: every reachable state is disciplined, whatever the calls, the answers
of the UI processes, the failures, the cancellations and the order of all of these. -/
theorem queue_discipline (env : ProxyId → Environment) {s : Service}
    (h : Reachable (machine env) (fun _ _ => True) s) : s.Disciplined := by
  obtain ⟨hi, -⟩ := reachable_inv h
  have ho := reachable_order h
  have hsub (w : ℕ) : (inOrder (Emission.handedIn w) s.log).Sublist
      (inOrder (Emission.queuedIn w) s.log) := (ho.handed w).trans List.filter_sublist
  exact {
    place := fun r ha hc => hi.place (reachable_history h) ha hc
    head := fun w r hr hflag => hi.head_of_inProgress hr hflag
    in_order := hsub
    once := fun w => (ho.nodup w).sublist (hsub w)
    handed_after := fun later earlier r w p hlog q hq => ho.handed_after.split hlog hq }

/-- Two requests of one window and one of another, of which the first has failed. -/
theorem queue_discipline_two_windows :
    ∃ s, (machine fun _ => {}).run {}
        [.queryDialog 1 "a", .queryDialog 1 "b", .queryDialog 2 "c", .newConnection 0,
          .dataReady 0 (.failed 0 "" "" "")] = .ok s ∧ s.Disciplined := by
  refine (exists_reachable (machine fun _ => {}) (fun _ _ => True) _ ?_ ?_).imp
    fun s h => ⟨h.1, queue_discipline _ h.2⟩
  · decide
  · decide

end Service

end OnlineAccounts
