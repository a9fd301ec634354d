import OnlineAccounts.Answers
import OnlineAccounts.QueueDiscipline

/-! # Idle means answered

The inactivity timer (`inactivity-timer.cpp`) quits the daemon when all the objects that it
watches are idle.  The manager is idle when it has no queues, but a request that was routed to a
proxy is in no queue: when it is still waiting while the queues run empty, the daemon may quit in
the middle of serving it.

`idle_answered` says that this is the only way: as long as every event that leaves a routed
request waiting also leaves a request in a queue (`Covers`), an idle manager has answered every
request that it has accepted. -/

namespace OnlineAccounts

namespace InactivityTimer

/-- `allObjectsAreIdle()`, by the property `isIdle` of the objects that are watched. -/
def allObjectsAreIdle : List Bool → Bool
  | [] => true
  | isIdle :: objects => if !isIdle then false else allObjectsAreIdle objects

/-- `onTimeout()`: whether `timeout()` is emitted, which quits the daemon. -/
def onTimeout (watchedObjects : List Bool) : Bool := allObjectsAreIdle watchedObjects

theorem of_onTimeout {watchedObjects : List Bool} (h : onTimeout watchedObjects = true) :
    ∀ isIdle ∈ watchedObjects, isIdle = true := by
  unfold onTimeout at h
  induction watchedObjects with
  | nil => exact fun _ h => absurd h List.not_mem_nil
  | cons isIdle objects ih =>
      cases isIdle with
      | false => cases h
      | true => exact List.forall_mem_cons.mpr ⟨rfl, ih h⟩

end InactivityTimer

/-- The request was routed to a proxy and waits for its answer. -/
def Phase.IsRouted : Phase → Prop
  | .routed _ => True
  | _ => False

instance : ∀ φ : Phase, Decidable φ.IsRouted
  | .routed _ => .isTrue trivial
  | .unborn | .waiting | .served _ | .done => .isFalse id

namespace Service

open Transition

variable {env : ProxyId → Environment}

/-! ### Requests that wait for their reply -/

def AwaitsReply (s : Service) (r : RequestId) : Prop :=
  s.Accepted r ∧ ∀ reply, .replied r reply ∉ s.log

/-- No accepted request waits for its reply while the manager is idle, or when the inactivity
timer quits the daemon; besides the manager it watches the service and the indicator service. -/
structure IdleAnswered (s : Service) : Prop where
  idle : s.isIdle = true → ∀ r, ¬ s.AwaitsReply r
  quit : ∀ service indicatorService : Bool,
    InactivityTimer.onTimeout [service, s.isIdle, indicatorService] = true →
      ∀ r, ¬ s.AwaitsReply r

/-- What has completed has been replied to. -/
def Replied (s : Service) : Prop :=
  ∀ r, .completed r ∈ s.log → ∃ reply, .replied r reply ∈ s.log

theorem Replied.append {s s' : Service} (h : s.Replied) (es : List Emission)
    (hlog : s'.log = es ++ s.log) (hes : ∀ r, .completed r ∉ es) : s'.Replied := by
  intro r hr
  rw [hlog, List.mem_append] at hr
  obtain ⟨reply, hreply⟩ := h r (hr.resolve_left (hes r))
  exact ⟨reply, by rw [hlog]; exact List.mem_append_right _ hreply⟩

theorem Effect.replied {a : Label} {s s' : Service} (h : Effect s s' a) (hr : s.Replied) :
    s'.Replied := by
  cases h with
  | accept request h =>
      exact hr.append [.queued s.nextRequest request.windowId] (by rw [h]; rfl) (by simp)
  | @route p hlog _ => exact hr.append [.routed s.nextRequest p] hlog (by simp)
  | @hand w r rest _ _ hlog _ => exact hr.append [.handed r w s.nextProxy] hlog (by simp)
  | silent es hlog hes _ => exact hr.append es hlog fun r he => hes _ he
  | @answer _ r reply _ _ hlog _ _ =>
      intro q hq
      simp only [hlog, List.mem_cons, Emission.completed.injEq, reduceCtorEq, false_or] at hq ⊢
      rcases hq with rfl | hq
      · exact ⟨reply, .inl rfl⟩
      · obtain ⟨reply', h'⟩ := hr q hq
        exact ⟨reply', .inr h'⟩
  | @again r es hdone hlog hes _ _ =>
      intro q hq
      obtain ⟨reply, hreply⟩ : ∃ reply, .replied q reply ∈ s.log := by
        rw [hlog, List.mem_append] at hq
        rcases hq with hq | hq
        · obtain rfl : q = r := hes _ hq
          exact hr q (completed_of_done hdone)
        · exact hr q hq
      exact ⟨reply, by rw [hlog]; exact List.mem_append_right _ hreply⟩

theorem reachable_replied {guard : Service → Event → Prop} {s : Service}
    (h : Reachable (machine env) guard s) : s.Replied :=
  reachable_acts h (fun _ hr => absurd hr List.not_mem_nil) fun _ _ _ _ _ _ _ hi hr hact =>
    (hact.effect hi).replied hr

theorem AwaitsReply.phase {s : Service} (hh : s.History) (hr : s.Replied) {r : RequestId}
    (h : s.AwaitsReply r) : (s.phase r).Queued ∨ (s.phase r).IsRouted := by
  obtain ⟨haccepted, hnone⟩ := h
  have hdone : s.phase r ≠ .done := by
    intro hdone
    obtain ⟨reply, hreply⟩ := hr r (completed_of_done hdone)
    exact hnone reply hreply
  rcases haccepted with ⟨w, hw⟩ | ⟨p, hp⟩
  · exact .inl ((hh _ hw).resolve_right hdone)
  · refine .inr ?_
    rw [(hh _ hp).resolve_right hdone]
    trivial

theorem History.awaitsReply {s : Service} (hh : s.History) {r : RequestId}
    (hr : (s.phase r).IsRouted) : s.AwaitsReply r := by
  cases hphase : s.phase r with
  | routed p =>
      refine ⟨.inr ⟨p, ?_⟩, fun reply hreply => ?_⟩
      · obtain ⟨e, he, hphaseOf⟩ : ∃ e ∈ s.log, e.phaseOf r = some (s.phase r) :=
          exists_of_phaseIn (by
            change s.phase r ≠ .unborn
            simp [hphase])
        rw [hphase] at hphaseOf
        cases e with
        | routed q p' =>
            simp only [Emission.phaseOf] at hphaseOf
            split_ifs at hphaseOf with hq
            cases hphaseOf
            exact hq ▸ he
        | queued q _ | handed q _ _ | completed q =>
            simp only [Emission.phaseOf] at hphaseOf
            split_ifs at hphaseOf
            cases hphaseOf
        | _ => cases hphaseOf
      · have hdone : s.phase r = .done := hh _ hreply
        rw [hphase] at hdone
        cases hdone
  | _ => simp [hphase, Phase.IsRouted] at hr

/-! ### Queues and idleness -/

theorem not_isIdle {s : Service} {w : ℕ} (h : s.queue w ≠ []) : s.isIdle = false := by
  by_contra hidle
  rw [Bool.not_eq_false, isIdle, Std.TreeMap.isEmpty_iff_forall_not_mem] at hidle
  refine h ?_
  unfold queue
  rw [Std.TreeMap.getElem?_eq_none (hidle w)]
  rfl

theorem Inv.isIdle {s : Service} (h : s.Inv) (hq : ∀ w, s.queue w = []) : s.isIdle = true := by
  rw [Service.isIdle, Std.TreeMap.isEmpty_iff_forall_not_mem]
  intro w hw
  have hqueue := hq w
  unfold queue at hqueue
  rw [Std.TreeMap.getElem?_eq_some_getElem hw] at hqueue
  exact h.nonempty w (by rw [Std.TreeMap.getElem?_eq_some_getElem hw, ← hqueue]; rfl)

/-! ### Routed requests and the queues -/

/-- The event routes a request, or leaves a routed request waiting. -/
def LeavesRouted (s : Service) (e : Event) : Prop :=
  s.Routes e ∨ ∃ r ∈ List.range s.nextRequest, (s.phase r).IsRouted ∧ ¬ s.Ends r e

/-- A queue outlives the event: its head is not answered, or a request behind it gets a proxy. -/
def Outlives (env : ProxyId → Environment) (s : Service) (e : Event) : Prop :=
  ∃ w ∈ s.queues.keys, ∃ r ∈ (s.queue w).head?,
    s.Ends r e → survivors env s.requests s.nextProxy (s.queue w).tail ≠ []

/-- If the event leaves a routed request waiting, then it leaves a queue. -/
def Covers (env : ProxyId → Environment) (s : Service) (e : Event) : Prop :=
  s.LeavesRouted e → s.Outlives env e

instance (s : Service) (e : Event) : Decidable (s.LeavesRouted e) :=
  inferInstanceAs (Decidable (_ ∨ _))

instance (env : ProxyId → Environment) (s : Service) (e : Event) : Decidable (s.Outlives env e) :=
  inferInstanceAs (Decidable (∃ w ∈ s.queues.keys, ∃ r ∈ (s.queue w).head?,
    s.Ends r e → survivors env s.requests s.nextProxy (s.queue w).tail ≠ []))

instance (env : ProxyId → Environment) (s : Service) (e : Event) : Decidable (s.Covers env e) :=
  inferInstanceAs (Decidable (_ → _))

theorem outlives_of_queue {s : Service} {e : Event} {w : ℕ} {r : RequestId}
    {rest : List RequestId} (hq : s.queue w = r :: rest)
    (h : s.Ends r e → survivors env s.requests s.nextProxy rest ≠ []) : s.Outlives env e := by
  have hw : w ∈ s.queues := by
    by_contra hw
    simp [queue, Std.TreeMap.getElem?_eq_none hw] at hq
  refine ⟨w, Std.TreeMap.mem_keys.mpr hw, r, by simp [hq], ?_⟩
  rw [hq]
  exact h

theorem Outlives.queue {s s' : Service} {e : Event} (h : s.Outlives env e) (hs : ∀ w, s.Settled w)
    (hs' : s'.Inv) (ha : Answered env (s.Ends · e) s s') : ∃ w, s'.queue w ≠ [] := by
  obtain ⟨w, -, r, hr, hends⟩ := h
  obtain ⟨rest, hq⟩ : ∃ rest, s.queue w = r :: rest := List.head?_eq_some_iff.mp hr
  rw [hq, List.tail_cons] at hends
  obtain ⟨p, hp⟩ := hs w r rest hq
  by_cases he : s.Ends r e
  · exact ⟨w, by rw [ha.launch w r rest hq he]; exact hends he⟩
  · obtain ⟨rest', hq'⟩ := hs'.queue_of_served ((ha.phase r p (.inl hp) he).trans hp)
    exact ⟨_, by rw [hq']; exact List.cons_ne_nil r rest'⟩

theorem Act.phase_routed {a : Label} {s s' : Service} (h : Act env a s s') (ha : a ≠ .route)
    {r : RequestId} {p : ProxyId} (hr : s'.phase r = .routed p) : s.phase r = .routed p := by
  have hold {φ : Phase} {c : Prop} [Decidable c] (hφ : φ ≠ .routed p)
      (hr : (if c then φ else s.phase r) = .routed p) : s.phase r = .routed p := by
    split_ifs at hr
    · exact absurd hr hφ
    · exact hr
  cases h with
  | accept request _ => exact hold (by simp) (phase_accept s request r ▸ hr)
  | route => exact absurd rfl ha
  | hand _ _ _ => exact hold (by simp) (phase_hand s _ _ r ▸ hr)
  | refuse _ _ _ => exact hold (by simp) (phase_refuse s _ _ _ r ▸ hr)
  | complete reply _ _ => exact hold (by simp) (phase_answer _ reply s r ▸ hr)
  | completeRouted reply _ => exact hold (by simp) (phase_answer _ reply s r ▸ hr)
  | completeAgain reply hq => exact ((completeAgain_same _ s reply hq).2 r).symm.trans hr
  | _ => exact hr

theorem Handled.phase_routed {s s' : Service} {e : Event} (h : Handled env e s s')
    (he : ¬ s.Routes e) {r : RequestId} {p : ProxyId} (hr : s'.phase r = .routed p) :
    s.phase r = .routed p := by
  refine h.1.invariant (I := fun t => t.phase r = .routed p → s.phase r = .routed p) id
    (fun a t t' ih ha hact hr => ih (hact.phase_routed ?_ hr)) hr
  rintro rfl
  exact he ha

/-- An event after which a routed request waits leaves one waiting. -/
theorem leavesRouted_of_phase {s s' : Service} {e : Event} (hs : s.Inv) (h : Handled env e s s')
    (ha : Answered env (s.Ends · e) s s') {r : RequestId} (hr : (s'.phase r).IsRouted) :
    s.LeavesRouted e := by
  by_cases he : s.Routes e
  · exact .inl he
  · cases hphase : s'.phase r with
    | routed p =>
        have hold := h.phase_routed he hphase
        have hlt : r < s.nextRequest := hs.lt_nextRequest (by simp [hold])
        refine .inr ⟨r, List.mem_range.mpr hlt, by rw [hold]; trivial, fun hends => ?_⟩
        have := ha.done r p (.inr hold) hends
        simp [hphase] at this
    | _ => simp [hphase, Phase.IsRouted] at hr

/-- While a routed request waits, the manager is not idle. -/
theorem Covers.not_isIdle {s s' : Service} {e : Event} (h : s.Covers env e) (hi : s.Inv)
    (hs : ∀ w, s.Settled w) (ho : s.ServedOnce) (hrun : s.step env e = .ok s') {r : RequestId}
    (hr : (s'.phase r).IsRouted) : s'.isIdle = false := by
  have hhandled := handles hi hs hrun
  have ha := step_answered hi hs ho hrun
  have hs' : s'.Inv := hi.path hhandled.1
  obtain ⟨w, hw⟩ := (h (leavesRouted_of_phase hi hhandled ha hr)).queue hs hs' ha
  exact Service.not_isIdle hw

theorem IdleAnswered.of_routed {s : Service} (hi : s.Inv) (hh : s.History) (hr : s.Replied)
    (h : ∀ r, (s.phase r).IsRouted → s.isIdle = false) : s.IdleAnswered := by
  have hidle : s.isIdle = true → ∀ r, ¬ s.AwaitsReply r := by
    intro hidle r hawaits
    rcases hawaits.phase hh hr with hqueued | hrouted
    · have hmem := (hi.mem_queue _ r).mpr ⟨rfl, hqueued⟩
      have hbusy := not_isIdle (List.ne_nil_of_mem hmem)
      simp [hidle] at hbusy
    · simp [h r hrouted] at hidle
  exact ⟨hidle, fun _ _ hquit => hidle (InactivityTimer.of_onTimeout hquit _ (by simp))⟩

/-! ### Without a queue left -/

theorem Effect.queue_nil {a : Label} {s s' : Service} (h : Effect s s' a) (ha : a ≠ .accept) {w : ℕ}
    (hw : s.queue w = []) : s'.queue w = [] := by
  cases h with
  | accept => exact absurd rfl ha
  | answer _ _ _ _ _ hqueue =>
      rw [hqueue, hw]
      rfl
  | route _ hqueue | hand _ _ _ hqueue | again _ _ _ _ _ hqueue | silent _ _ _ hqueue =>
      rw [hqueue, hw]

theorem Handled.queue_nil {s s' : Service} {e : Event} (h : Handled env e s s') (hs : s.Inv)
    (he : e.MayAnswer) {w : ℕ} (hw : s.queue w = []) : s'.queue w = [] := by
  have hboth : s'.Inv ∧ s'.queue w = [] := by
    refine h.1.invariant (I := fun t => t.Inv ∧ t.queue w = []) ⟨hs, hw⟩ ?_
    rintro a t t' ⟨hi, hnil⟩ ha hact
    refine ⟨hact.inv hi, (hact.effect hi).queue_nil ?_ hnil⟩
    rintro rfl
    cases e <;> first | exact he | exact ha
  exact hboth.2

/-- A request is routed while there are no queues. -/
theorem routes_idle {s s' : Service} {e : Event} (he : s.Routes e)
    (hnot : ¬ s.Outlives env e) (hrun : s.step env e = .ok s') :
    (s'.phase s.nextRequest).IsRouted ∧ ∀ w, s'.queue w = [] := by
  obtain ⟨p, request, rfl⟩ := step_routed he hrun
  refine ⟨by rw [phase_route, if_pos rfl]; trivial, fun w => ?_⟩
  cases hq : s.queue w with
  | nil => exact hq
  | cons r rest =>
      have hends : ¬ s.Ends r e := by
        cases e with
        | call => exact id
        | _ => exact he.elim
      exact absurd (outlives_of_queue hq fun h => absurd h hends) hnot

/-- If no queue outlives an event that leaves a routed request waiting, then the manager is idle
too early. -/
theorem not_idleAnswered {s s' : Service} {e : Event} (hi : s.Inv) (hs : ∀ w, s.Settled w)
    (ho : s.ServedOnce) (hbusy : ∀ r, (s.phase r).IsRouted → s.isIdle = false)
    (hh : s'.History) (hc : ¬ s.Covers env e) (hrun : s.step env e = .ok s') :
    ¬ s'.IdleAnswered := by
  obtain ⟨hleaves, hnot⟩ := Classical.not_imp.mp hc
  have hhandled := handles hi hs hrun
  have hs' : s'.Inv := hi.path hhandled.1
  obtain ⟨r, hr, hnil⟩ : ∃ r, (s'.phase r).IsRouted ∧ ∀ w, s'.queue w = [] := by
    rcases hleaves with he | ⟨r, -, hr, hends⟩
    · exact ⟨_, routes_idle he hnot hrun⟩
    · have ha := step_answered hi hs ho hrun
      obtain ⟨p, hp⟩ : ∃ p, s.phase r = .routed p := by
        cases hphase : s.phase r with
        | routed p => exact ⟨p, rfl⟩
        | _ => simp [hphase, Phase.IsRouted] at hr
      refine ⟨r, by rwa [ha.phase r p (.inr hp) hends], fun w => ?_⟩
      have hall {w : ℕ} {q : RequestId} {rest : List RequestId} (hq : s.queue w = q :: rest) :
          s.Ends q e ∧ survivors env s.requests s.nextProxy rest = [] := by
        obtain ⟨hq, hsurvivors⟩ := Classical.not_imp.mp (mt (outlives_of_queue hq) hnot)
        exact ⟨hq, not_not.mp hsurvivors⟩
      have he : e.MayAnswer := by
        by_contra he
        have hidle : s.isIdle = true := hi.isIdle fun w => by
          cases hq : s.queue w with
          | nil => rfl
          | cons q rest => exact absurd (hall hq).1.mayAnswer he
        simp [hbusy r hr] at hidle
      cases hq : s.queue w with
      | nil => exact hhandled.queue_nil hi he hq
      | cons q rest =>
          obtain ⟨hends, hsurvivors⟩ := hall hq
          rw [ha.launch w q rest hq hends, hsurvivors]
  intro hanswered
  exact hanswered.idle (hs'.isIdle hnil) r (hh.awaitsReply hr)

theorem reachable_busy {s : Service}
    (h : Reachable (machine env) (fun s e => s.Covers env e) s) {r : RequestId}
    (hr : (s.phase r).IsRouted) : s.isIdle = false := by
  cases h with
  | start => exact hr.elim
  | step h hc hrun =>
      obtain ⟨hi, hs⟩ := reachable_inv h
      exact hc.not_isIdle hi hs (reachable_servedOnce h) hrun hr

theorem reachable_idleAnswered {s : Service}
    (h : Reachable (machine env) (fun s e => s.Covers env e) s) : s.IdleAnswered :=
  .of_routed (reachable_inv h).1 (reachable_history h) (reachable_replied h)
    fun _ => reachable_busy h

/-- **Idle means answered**: as long as every event that leaves a routed request waiting leaves
a queue, an idle manager has answered all that it has accepted; and this stays so after the next
event if and only if that event does the same. -/
theorem idle_answered_iff (env : ProxyId → Environment) {s : Service}
    (h : Reachable (machine env) (fun s e => s.Covers env e) s) : s.IdleAnswered ∧
      ∀ e s', s.step env e = .ok s' → (s'.IdleAnswered ↔ s.Covers env e) := by
  refine ⟨reachable_idleAnswered h, fun e s' hrun => ⟨fun hanswered => ?_, fun hc => ?_⟩⟩
  · by_contra hc
    obtain ⟨hi, hs⟩ := reachable_inv h
    have h' : Reachable (machine env) (fun _ _ => True) s' :=
      .step (h.mono fun _ _ _ => trivial) trivial hrun
    exact not_idleAnswered hi hs (reachable_servedOnce h) (fun _ => reachable_busy h)
      (reachable_history h') hc hrun hanswered
  · exact reachable_idleAnswered (.step h hc hrun)

/-- A request is routed while another one is in its queue, and answered before that. -/
theorem idle_answered_iff_nested :
    ∃ s, (machine fun _ => {}).run {}
        [.queryDialog 1 "a", .newConnection 0, .dataReady 0 (.newHandler "h"),
          .queryDialogFor "h", .dataReady 0 (.finished 1 .nil 0 ""),
          .dataReady 0 (.finished 0 .nil 0 "")] = .ok s ∧
      s.IdleAnswered ∧ ∀ e s', s.step (fun _ => {}) e = .ok s' →
        (s'.IdleAnswered ↔ s.Covers (fun _ => {}) e) := by
  refine (exists_reachable (machine fun _ => {}) (fun s e => s.Covers (fun _ => {}) e) _ ?_ ?_).imp
    fun s h => ⟨h.1, idle_answered_iff _ h.2⟩
  · decide
  · decide

/-- A request completes with a delay, and another one is routed to its proxy meanwhile. -/
theorem idle_while_serving :
    ∃ s, (machine fun _ => {}).run {}
        [.queryDialog 1 "a", .newConnection 0, .dataReady 0 (.newHandler "h"),
          .dataReady 0 (.finished 0 .nil 1000 ""), .queryDialogFor "h"] = .ok s ∧
      ¬ s.IdleAnswered := by
  obtain ⟨s, hs, hr⟩ := exists_reachable (machine fun _ => {}) (fun _ _ => True)
    [.queryDialog 1 "a", .newConnection 0, .dataReady 0 (.newHandler "h"),
      .dataReady 0 (.finished 0 .nil 1000 ""), .queryDialogFor "h"] (by decide) (by decide)
  have hend : ((machine fun _ => {}).run {}
      [.queryDialog 1 "a", .newConnection 0, .dataReady 0 (.newHandler "h"),
        .dataReady 0 (.finished 0 .nil 1000 ""), .queryDialogFor "h"]).map
      (fun s => (s.isIdle, s.phase 1)) = .ok (true, .routed 0) := by decide
  obtain ⟨hidle, hphase⟩ : s.isIdle = true ∧ s.phase 1 = .routed 0 :=
    Prod.mk.inj (Except.ok.inj (hs ▸ hend))
  refine ⟨s, hs, fun hanswered => ?_⟩
  exact hanswered.idle hidle 1 ((reachable_history hr).awaitsReply (by rw [hphase]; trivial))

end Service

end OnlineAccounts
