import OnlineAccounts.Idle

/-! # The signals of the manager

The manager signals `isIdleChanged()` when it puts a request into its first queue and when it has
removed its last queue.  `told` is what the last signal said; between two events it is right
(`reachable_told`), and no change of `isIdle()` is followed by another one before it has been
signalled (`reachable_prompt`), also when a queue fills and empties within one call.

The changes are read off the log: the manager is busy while a request that was queued has not
completed (`idleIn`). -/

namespace OnlineAccounts

/-- The value of `isIdle()` at the last signal; the manager starts idle. -/
def told : List Emission → Bool
  | [] => true
  | .isIdleChanged idle :: _ => idle
  | _ :: log => told log

/-- Every request that was queued has completed. -/
def idleIn (log : List Emission) : Bool :=
  log.all fun
    | .queued r _ => decide (.completed r ∈ log)
    | _ => true

/-- When the manager changes between idle and busy, the change before has been signalled. -/
def Prompt : List Emission → Prop
  | [] => True
  | e :: log => (idleIn (e :: log) ≠ idleIn log → told log = idleIn log) ∧ Prompt log

/-- Neither a request that is queued nor a signal. -/
def Emission.Plain : Emission → Prop
  | .queued _ _ | .isIdleChanged _ => False
  | _ => True

theorem idleIn_iff {log : List Emission} :
    idleIn log = true ↔ ∀ r w, .queued r w ∈ log → .completed r ∈ log := by
  unfold idleIn
  rw [List.all_eq_true]
  constructor
  · intro h r w hr
    simpa using h _ hr
  · intro h e he
    cases e with
    | queued r w => simpa using h r w he
    | _ => rfl

/-- Only a request that is queued ends the idleness. -/
theorem idleIn_cons {e : Emission} {log : List Emission} (he : ∀ r w, e ≠ .queued r w)
    (h : idleIn log = true) : idleIn (e :: log) = true := by
  rw [idleIn_iff] at h ⊢
  intro r w hr
  exact List.mem_cons_of_mem e (h r w ((List.mem_cons.mp hr).resolve_left (he r w).symm))

theorem idleIn_isIdleChanged (idle : Bool) (log : List Emission) :
    idleIn (.isIdleChanged idle :: log) = idleIn log := by
  rw [Bool.eq_iff_iff, idleIn_iff, idleIn_iff]
  simp

/-- What completes after the last signal leaves the log prompt if the signal said busy whenever
the manager was busy. -/
theorem Prompt.append {log : List Emission} (h : Prompt log)
    (hbusy : told log = true → idleIn log = true) {es : List Emission} (hes : ∀ e ∈ es, e.Plain) :
    Prompt (es ++ log) ∧ told (es ++ log) = told log ∧
      (idleIn log = true → idleIn (es ++ log) = true) := by
  induction es with
  | nil => exact ⟨h, rfl, id⟩
  | cons e es ih =>
      obtain ⟨hplain, hes⟩ := List.forall_mem_cons.mp hes
      obtain ⟨hprompt, htold, hidle⟩ := ih hes
      have hcons : idleIn (es ++ log) = true → idleIn (e :: (es ++ log)) = true := by
        apply idleIn_cons
        rintro r w rfl
        exact hplain
      refine ⟨⟨?_, hprompt⟩, ?_, fun hlog => hcons (hidle hlog)⟩
      · change idleIn (e :: (es ++ log)) ≠ idleIn (es ++ log) → told (es ++ log) = idleIn (es ++ log)
        intro hchange
        have hfalse : idleIn (es ++ log) = false := by
          cases hvalue : idleIn (es ++ log) with
          | false => rfl
          | true =>
              rw [hcons hvalue, hvalue] at hchange
              exact absurd rfl hchange
        rw [htold, hfalse, Bool.eq_false_iff]
        intro htrue
        rw [hidle (hbusy htrue)] at hfalse
        cases hfalse
      · rw [List.cons_append, ← htold]
        cases e with
        | isIdleChanged => exact hplain.elim
        | _ => rfl

namespace Service

open Transition

variable {env : ProxyId → Environment}

/-- The last signal is right. -/
def Told (s : Service) : Prop := told s.log = s.isIdle

theorem told_isIdleChanged (s : Service) : s.isIdleChanged.Told := rfl

theorem Told.of_eq {s s' : Service} (h : s.Told) (hlog : told s'.log = told s.log)
    (hqueues : s'.queues = s.queues) : s'.Told := by
  unfold Told isIdle at h ⊢
  rw [hlog, hqueues, h]

theorem told_if_idle {s : Service} (h : s.isIdle = false → told s.log = false) :
    (if s.isIdle then s.isIdleChanged else s).Told := by
  split_ifs with hidle
  · exact told_isIdleChanged s
  · rw [Bool.not_eq_true] at hidle
    exact (h hidle).trans hidle.symm

theorem isIdle_setQueue (w : ℕ) (rs : List RequestId) (s : Service) :
    (s.setQueue w rs).isIdle = false := by
  unfold isIdle
  rw [setQueue_queues, Std.TreeMap.isEmpty_insert]

/-! ### What the code does with the signal -/

section

variable {run : ℕ → Service → Except Fault Service}

theorem Told.onRequestCompleted {s s' : Service} (h : s.Told)
    (hrun : ∀ w t t', t.Told → run w t = .ok t' → t'.Told) {r : RequestId}
    (hstep : s.onRequestCompleted run r = .ok s') : s'.Told := by
  unfold Service.onRequestCompleted at hstep
  cases hq : s.queue (s.windowId r) with
  | nil =>
      simp only [hq] at hstep
      cases hstep
  | cons head rest =>
      simp only [hq] at hstep
      have hbusy : s.isIdle = false := not_isIdle (by rw [hq]; exact List.cons_ne_nil head rest)
      have htold : told s.log = false := h.trans hbusy
      split_ifs at hstep with hhead hrest
      · obtain rfl := Except.ok.inj hstep
        exact h.of_eq rfl rfl
      · obtain ⟨t, ht, rfl⟩ := exists_of_map_ok hstep
        obtain rfl := Except.ok.inj ht
        exact told_if_idle fun _ => htold
      · obtain ⟨t, ht, rfl⟩ := exists_of_map_ok hstep
        have hset : ((s.deleteLater r).setQueue (s.windowId r) rest).Told :=
          htold.trans (isIdle_setQueue _ _ _).symm
        have hnext := hrun _ _ _ hset ht
        exact told_if_idle fun hidle => hnext.trans hidle

theorem Told.completed {s s' : Service} (h : s.Told)
    (hrun : ∀ w t t', t.Told → run w t = .ok t' → t'.Told) {r : RequestId}
    (hstep : s.completed run r = .ok s') : s'.Told := by
  have hslot (slot : Slot) (t t' : Service) (ht : t.Told)
      (hcall : callSlot run r t slot = .ok t') : t'.Told := by
    cases slot with
    | manager => exact ht.onRequestCompleted hrun hcall
    | deleteLater | proxy =>
        obtain rfl := Except.ok.inj hcall
        exact ht.of_eq rfl rfl
  have hcompleted : (s.emit (.completed r)).Told := h.of_eq rfl rfl
  exact foldlM_invariant (fun t slot t' ht hcall => hslot slot t t' ht hcall) _ hcompleted hstep

theorem Told.fail {s s' : Service} (h : s.Told)
    (hrun : ∀ w t t', t.Told → run w t = .ok t' → t'.Told) {r : RequestId} {name message : String}
    (hstep : s.fail run r name message = .ok s') : s'.Told :=
  Told.completed (s := s.emit (.replied r (.error name message))) (h.of_eq rfl rfl) hrun hstep

theorem Told.setCanceled {s s' : Service} (h : s.Told)
    (hrun : ∀ w t t', t.Told → run w t = .ok t' → t'.Told) {r : RequestId}
    (hstep : s.setCanceled run r = .ok s') : s'.Told := by
  unfold Service.setCanceled at hstep
  split_ifs at hstep
  · obtain ⟨t, ht, rfl⟩ := exists_of_map_ok hstep
    exact (h.fail hrun ht).of_eq rfl rfl
  · obtain rfl := Except.ok.inj hstep
    exact h

theorem Told.setResult {s s' : Service} (h : s.Told)
    (hrun : ∀ w t t', t.Told → run w t = .ok t' → t'.Told) {r : RequestId} {result : QVariantMap}
    (hstep : s.setResult run r result = .ok s') : s'.Told := by
  unfold Service.setResult at hstep
  split_ifs at hstep
  · obtain ⟨t, ht, rfl⟩ := exists_of_map_ok hstep
    have hreplied : (s.emit (.replied r (.result result))).Told := h.of_eq rfl rfl
    exact (hreplied.completed hrun ht).of_eq rfl rfl
  · obtain rfl := Except.ok.inj hstep
    exact h

end

theorem Told.runQueue (fuel : ℕ) : ∀ {w : ℕ} {s s' : Service}, s.Told →
    s.runQueue env fuel w = .ok s' → s'.Told := by
  induction fuel with
  | zero =>
      intro w s s' _ hrun
      cases hrun
  | succ fuel ih =>
      intro w s s' h hrun
      unfold Service.runQueue at hrun
      cases hq : s.queue w with
      | nil =>
          simp only [hq] at hrun
          cases hrun
      | cons r rest =>
          simp only [hq] at hrun
          split_ifs at hrun
          · obtain rfl := Except.ok.inj hrun
            exact h
          · obtain rfl := Except.ok.inj hrun
            exact h.of_eq rfl rfl
          · refine Told.fail ?_ (fun w t t' ht hnext => ih ht hnext) hrun
            exact h.of_eq rfl rfl

theorem Told.run {w : ℕ} {s s' : Service} (h : s.Told) (hrun : run env w s = .ok s') : s'.Told :=
  h.runQueue _ hrun

theorem Told.call {s s' : Service} (h : s.Told) {request : Request}
    (hrun : s.call env request = .ok s') : s'.Told := by
  cases hp : s.handlerFor request.parameters with
  | some p =>
      rw [call_routed hp] at hrun
      obtain rfl := Except.ok.inj hrun
      exact h.of_eq rfl rfl
  | none =>
      rw [call_queued hp] at hrun
      refine Told.run ?_ hrun
      split_ifs with hidle
      · exact told_isIdleChanged _
      · rw [Bool.not_eq_true] at hidle
        exact (h.trans hidle).trans (isIdle_setQueue _ _ _).symm

theorem Told.mayFinish {s : Service} (h : s.Told) (p : ProxyId)
    (method : UiProxy → UiProxy × Bool) (proxy : UiProxy) : (s.mayFinish p method proxy).Told := by
  unfold Service.mayFinish
  dsimp only
  split_ifs <;> exact h.of_eq rfl rfl

theorem Told.localStep {s s' : Service} {e : Event} (h : s.Told) (hstep : LocalStep s e s') :
    s'.Told := by
  cases hstep with
  | nothing => exact h
  | disconnected | finishedTimer => exact h.mayFinish _ _ _
  | newConnection | newHandler | promptSessionFinished | processExited | deleteRequest =>
      exact h.of_eq rfl rfl

theorem Told.onDataReady {s s' : Service} (h : s.Told) {p : ProxyId} {proxy : UiProxy}
    {operation : Operation} (hrun : s.onDataReady env p proxy operation = .ok s') : s'.Told := by
  have hnext (w : ℕ) (t t' : Service) (ht : t.Told) (hr : Service.run env w t = .ok t') :
      t'.Told := ht.run hr
  unfold Service.onDataReady at hrun
  cases operation with
  | finished id data delay _ =>
      cases hid : proxy.requests[id]? with
      | none =>
          simp only [hid] at hrun
          cases hrun
      | some r =>
          simp only [hid] at hrun
          refine Told.setResult ?_ hnext hrun
          exact h.of_eq rfl rfl
  | failed id _ errorName errorMessage =>
      cases hid : proxy.requests[id]? with
      | none =>
          simp only [hid] at hrun
          cases hrun
      | some r =>
          simp only [hid] at hrun
          exact h.fail hnext hrun
  | newHandler handlerId =>
      obtain rfl := Except.ok.inj hrun
      exact h.of_eq rfl rfl
  | process | other =>
      obtain rfl := Except.ok.inj hrun
      exact h

theorem Told.step {s s' : Service} {e : Event} (h : s.Told) (hrun : s.step env e = .ok s') :
    s'.Told := by
  by_cases he : ¬ e.IsCall ∧ ¬ e.MayAnswer
  · exact h.localStep (local_cases he hrun)
  · cases e with
    | call interface parameters profile => exact h.call hrun
    | cancelUiRequest requestId =>
        change s.cancelUiRequest env requestId = .ok s' at hrun
        unfold cancelUiRequest at hrun
        cases hr : s.findUiRequest requestId with
        | none =>
            rw [hr] at hrun
            obtain rfl := Except.ok.inj hrun
            exact h
        | some r =>
            rw [hr] at hrun
            exact h.setCanceled (fun w t t' ht hnext => ht.run hnext) hrun
    | dataReady p operation =>
        rcases withProxy_ok hrun with ⟨rfl, -⟩ | ⟨proxy, -, -, hrun⟩
        · exact h
        · exact h.onDataReady hrun
    | deleteProxy p =>
        rcases withProxy_ok hrun with ⟨rfl, -⟩ | ⟨proxy, -, -, hrun⟩
        · exact h
        · obtain ⟨t, ht, rfl⟩ := exists_of_map_ok hrun
          have hall : t.Told := foldlM_invariant (fun t r t' ht hcanceled =>
            ht.setCanceled (fun w t t' ht hnext => ht.run hnext) hcanceled) _ h ht
          exact hall.of_eq rfl rfl
    | _ => exact absurd ⟨id, id⟩ he

theorem reachable_told {guard : Service → Event → Prop} {s : Service}
    (h : Reachable (machine env) guard s) : s.Told :=
  h.invariant rfl fun _ _ _ ht _ hrun => ht.step hrun

/-! ### Changes and signals -/

theorem Inv.isIdle_iff {s : Service} (h : s.Inv) : s.isIdle = true ↔ ∀ w, s.queue w = [] := by
  constructor
  · intro hidle w
    by_contra hne
    rw [not_isIdle hne] at hidle
    cases hidle
  · exact h.isIdle

theorem Inv.idleIn {s : Service} (h : s.Inv) (hh : s.History) (ho : s.Order) :
    OnlineAccounts.idleIn s.log = s.isIdle := by
  rw [Bool.eq_iff_iff, idleIn_iff, h.isIdle_iff]
  constructor
  · intro hidle w
    rw [List.eq_nil_iff_forall_not_mem]
    intro r hr
    have hqueued : .queued r w ∈ s.log := by
      obtain ⟨done, hdone, -⟩ := ho.queued w
      have hmem : r ∈ inOrder (Emission.queuedIn w) s.log := by
        rw [hdone]
        exact List.mem_append_right done hr
      obtain ⟨e, he, hin⟩ := mem_inOrder.mp hmem
      cases e with
      | queued q w' =>
          simp only [Emission.queuedIn] at hin
          split_ifs at hin with hw
          cases hin
          exact hw ▸ he
      | _ => cases hin
    have hdone : s.phase r = .done := hh _ (hidle r w hqueued)
    have hphase := ((h.mem_queue w r).mp hr).2
    simp [hdone, Phase.Queued] at hphase
  · intro hall r w hqueued
    rcases hh _ hqueued with hphase | hdone
    · have hmem := (h.mem_queue _ r).mpr ⟨rfl, hphase⟩
      rw [hall] at hmem
      cases hmem
    · exact completed_of_done hdone

/-- What is true while an event is handled, once its request has been announced: the log is
prompt, and the last signal does not say idle while the manager is busy. -/
structure Signals (s : Service) : Prop where
  inv : s.Inv
  history : s.History
  order : s.Order
  prompt : Prompt s.log
  told : told s.log = true → s.isIdle = true

theorem Signals.idleIn {s : Service} (h : s.Signals) :
    OnlineAccounts.idleIn s.log = s.isIdle := h.inv.idleIn h.history h.order

/-- The emissions of an action that neither accepts a request nor signals. -/
theorem Act.plain {a : Label} {s s' : Service} (h : Act env a s s')
    (ha : a ≠ .accept) (hidle : a ≠ .idle) :
    ∃ es, s'.log = es ++ s.log ∧ ∀ e ∈ es, e.Plain := by
  cases h with
  | accept => exact absurd rfl ha
  | idle => exact absurd rfl hidle
  | @route _ p _ request _ => exact ⟨[.routed s.nextRequest p], rfl, by simp [Emission.Plain]⟩
  | @hand _ w r _ _ _ _ => exact ⟨[.handed r w s.nextProxy], rfl, by simp [Emission.Plain]⟩
  | @refuse _ w r _ _ _ _ =>
      exact ⟨[.completed r, .replied r _], rfl, by simp [Emission.Plain]⟩
  | @complete _ w r _ p reply _ _ =>
      exact ⟨[.completed r, .replied r reply], rfl, by simp [Emission.Plain]⟩
  | @completeRouted _ r p reply _ =>
      exact ⟨[.completed r, .replied r reply], rfl, by simp [Emission.Plain]⟩
  | @completeAgain _ r reply _ =>
      obtain ⟨es, hlog, hes⟩ := completeAgain_log r s reply
      refine ⟨es ++ [.completed r, .replied r reply], ?_, ?_⟩
      · rw [hlog, List.append_assoc]
        rfl
      · intro e he
        rcases List.mem_append.mp he with he | he
        · have hanswers := hes e he
          cases e <;> trivial
        · simp only [List.mem_cons, List.not_mem_nil, or_false] at he
          rcases he with rfl | rfl <;> trivial
  | @finish _ p => exact ⟨[.finished p], rfl, by simp [Emission.Plain]⟩
  | clear | delay | touch | deleteProxy | deleteRequest => exact ⟨[], rfl, by simp⟩

theorem Signals.act {a : Label} {s s' : Service} (h : s.Signals) (hact : Act env a s s')
    (ha : a ≠ .accept) : s'.Signals := by
  have hinv := hact.inv h.inv
  have heffect := hact.effect h.inv
  have hhistory := heffect.history h.inv h.history
  have horder := heffect.order h.inv h.order
  by_cases hidle : a = .idle
  · subst hidle
    cases hact
    refine ⟨hinv, hhistory, horder, ⟨?_, h.prompt⟩, id⟩
    intro hchange
    exact absurd (idleIn_isIdleChanged _ _) hchange
  · obtain ⟨es, hlog, hes⟩ := hact.plain ha hidle
    have hbusy : OnlineAccounts.told s.log = true → OnlineAccounts.idleIn s.log = true := by
      rw [h.idleIn]
      exact h.told
    obtain ⟨hprompt, htold, -⟩ := h.prompt.append hbusy hes
    refine ⟨hinv, hhistory, horder, hlog ▸ hprompt, ?_⟩
    rw [hlog, htold]
    intro htrue
    rw [hinv.isIdle_iff]
    intro w
    exact heffect.queue_nil ha ((h.inv.isIdle_iff.mp (h.told htrue)) w)

theorem Signals.path {allowed : Label → Prop} {s s' : Service} (h : s.Signals)
    (hpath : Path (Act env) allowed s s') (ha : ¬ allowed .accept) : s'.Signals :=
  hpath.invariant h fun _ _ _ ht hallowed hact => ht.act hact (by
    rintro rfl
    exact ha hallowed)

theorem Signals.accept {s t : Service} (h : s.Signals) (hs : s.Told) {request : Request}
    (hf : request.inProgress = false)
    (ht : (if s.isIdle then (s.accept request).isIdleChanged else s.accept request) = t) :
    t.Signals := by
  have heffect : Effect s (s.accept request) .accept := .accept request rfl
  have hinv := h.inv.accept request hf
  have hhistory := heffect.history h.inv h.history
  have horder := heffect.order h.inv h.order
  have hprompt : Prompt (s.accept request).log := by
    refine ⟨fun _ => ?_, h.prompt⟩
    exact hs.trans h.idleIn.symm
  rw [← ht]
  split_ifs with hidle
  · have hsignal : Effect (s.accept request) (s.accept request).isIdleChanged .idle :=
      .silent [.isIdleChanged _] rfl (by simp [Quiet]) fun _ => rfl
    refine ⟨hinv.emit fun _ => rfl, hsignal.history hinv hhistory, hsignal.order hinv horder,
      ⟨?_, hprompt⟩, id⟩
    intro hchange
    exact absurd (idleIn_isIdleChanged _ _) hchange
  · refine ⟨hinv, hhistory, horder, hprompt, ?_⟩
    intro htrue
    have hold : OnlineAccounts.told s.log = true := htrue
    exact absurd (h.told hold) hidle

theorem Signals.step {s s' : Service} {e : Event} (h : s.Signals) (hs : s.Told)
    (hsettled : ∀ w, s.Settled w) (hrun : s.step env e = .ok s') : s'.Signals := by
  by_cases he : e.IsCall
  · cases e with
    | call interface parameters profile =>
        let request : Request :=
          { interface := interface, parameters := parameters, clientApparmorProfile := profile }
        change s.call env request = .ok s' at hrun
        cases hp : s.handlerFor request.parameters with
        | some p =>
            obtain ⟨-, proxy, hproxy, -⟩ := handlerFor_some hp
            rw [call_routed hp] at hrun
            obtain rfl := Except.ok.inj hrun
            exact h.act (Act.route request hproxy : Act env _ _ _) (by simp)
        | none =>
            rw [call_queued hp] at hrun
            obtain ⟨t, ht⟩ : ∃ t, (if s.isIdle then (s.accept request).isIdleChanged
              else s.accept request) = t := ⟨_, rfl⟩
            obtain ⟨u, hu, hlaunch, -⟩ := h.inv.run_accept env hsettled rfl (accepted_cases ht)
            rw [ht] at hrun
            obtain rfl := Except.ok.inj (hu.symm.trans hrun)
            exact (h.accept hs rfl ht).path hlaunch id
    | _ => exact he.elim
  · exact h.path (handles h.inv hsettled hrun).1 he

theorem reachable_signals {guard : Service → Event → Prop} {s : Service}
    (h : Reachable (machine env) guard s) : s.Signals := by
  induction h with
  | start => exact ⟨start_inv, fun _ hmem => absurd hmem List.not_mem_nil, start_order, trivial,
      fun _ => rfl⟩
  | step h _ hrun ih => exact ih.step (reachable_told h) (reachable_inv h).2 hrun

end Service

end OnlineAccounts
