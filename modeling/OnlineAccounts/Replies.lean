import OnlineAccounts.Effects

/-! # One reply for each call

A request sends one reply and completes once, unless it is cancelled after it has been answered
(`answered_once_iff`).  That can happen because `Request::fail` neither asks for nor clears the
flag `m_inProgress`: a request that the UI process has failed stays flagged, and is still found
by `Request::find`, until its deferred deletion.

`step_fault` lists the faults: apart from such a cancellation, the only way to fault is an
answer of a UI process that names no registered request. -/

namespace OnlineAccounts

namespace Emission

def repliesTo (r : RequestId) : Emission → Bool
  | .replied q _ => q = r
  | _ => false

def completes (r : RequestId) : Emission → Bool
  | .completed q => q = r
  | _ => false

end Emission

namespace Service

open Transition

variable {env : ProxyId → Environment}

/-! ### Faults -/

theorem withProxy_fault {s : Service} {p : ProxyId} {f : UiProxy → Except Fault Service}
    {fault : Fault} (h : s.withProxy p f = .error fault) :
    ∃ proxy, s.proxies p = some proxy ∧ f proxy = .error fault := by
  unfold withProxy at h
  cases hp : s.proxies p with
  | none => simp [hp] at h
  | some proxy => exact ⟨proxy, rfl, by simpa [hp] using h⟩

theorem setCanceled_fault {s : Service} (h : s.Inv) {r : RequestId} {fault : Fault}
    (hrun : s.setCanceled (run env) r = .error fault) :
    s.phase r = .done ∧ (s.requests r).inProgress = true := by
  have hflag : (s.requests r).inProgress = true := by
    by_contra hflag
    simp [Service.setCanceled, hflag] at hrun
  rcases h.held_or_done hflag with ⟨p, hheld⟩ | hdone
  · obtain ⟨t, ht, -⟩ := h.setCanceled env hheld
    cases ht.symm.trans hrun
  · exact ⟨hdone, hflag⟩

theorem onDataReady_fault {s : Service} (h : s.Inv) {p : ProxyId} {proxy : UiProxy}
    (hp : s.proxies p = some proxy) {operation : Operation} {fault : Fault}
    (hrun : s.onDataReady env p proxy operation = .error fault) : fault = .nullRequest := by
  cases hid : operation.answers with
  | none =>
      cases operation with
      | finished | failed => cases hid
      | process | newHandler | other => cases hrun
  | some id =>
      cases hr : proxy.requests[id]? with
      | none => exact Except.error.inj (hrun.symm.trans (onDataReady_null hid hr))
      | some r =>
          obtain ⟨-, -, t, -, ht, -⟩ := onDataReady_spec env h hp hid hr
          cases ht.symm.trans hrun

/-- **The faults**: an answer to no registered request, or the cancellation of a request that is
done. -/
theorem step_fault {s : Service} {e : Event} {fault : Fault} (h : s.Inv) (hs : ∀ w, s.Settled w)
    (hrun : s.step env e = .error fault) : fault = .nullRequest ∨ s.Repeats e := by
  cases e with
  | call interface parameters profile =>
      obtain ⟨t, ht, -⟩ : ∃ t, s.step env (.call interface parameters profile) = .ok t ∧
          Handled env (.call interface parameters profile) s t := call_spec env h hs rfl trivial id
      cases ht.symm.trans hrun
  | cancelUiRequest requestId =>
      change s.cancelUiRequest env requestId = .error fault at hrun
      unfold cancelUiRequest at hrun
      cases hr : s.findUiRequest requestId with
      | none => simp [hr] at hrun
      | some r =>
          rw [hr] at hrun
          exact .inr ⟨r, hr, setCanceled_fault h hrun⟩
  | dataReady p operation =>
      obtain ⟨proxy, hp, hrun⟩ := withProxy_fault hrun
      split_ifs at hrun
      exact .inl (onDataReady_fault h hp hrun)
  | deleteProxy p =>
      obtain ⟨proxy, hp, hrun⟩ := withProxy_fault hrun
      split_ifs at hrun
      obtain ⟨t, -, -, ht⟩ := deleteProxy_spec env h hp
      cases ht.symm.trans hrun
  | newConnection p | disconnected p | finishedTimer p | promptSessionFinished p
  | processExited p =>
      obtain ⟨proxy, hp, hrun⟩ := withProxy_fault hrun
      split_ifs at hrun
  | deleteRequest r =>
      simp only [step] at hrun
      split_ifs at hrun

/-! ### The number of answers -/

/-- Each request has at most one reply and completes at most once, and `onRequestCompleted` was
entered for the first request of a queue only. -/
structure AnsweredOnce (s : Service) : Prop where
  replies : ∀ r, s.log.countP (Emission.repliesTo r) ≤ 1
  completions : ∀ r, s.log.countP (Emission.completes r) ≤ 1
  first : ∀ r, .notFirst r ∉ s.log

theorem answers_of_repliesTo {r : RequestId} {e : Emission} (h : e.repliesTo r = true) :
    Answers r e := by
  cases e <;> simp_all [Emission.repliesTo, Answers]

theorem answers_of_completes {r : RequestId} {e : Emission} (h : e.completes r = true) :
    Answers r e := by
  cases e <;> simp_all [Emission.completes, Answers]

theorem History.countP_eq_zero {s : Service} (h : s.History) {r : RequestId}
    (hr : s.phase r ≠ .done) {f : Emission → Bool} (hf : ∀ e, f e = true → Answers r e) :
    s.log.countP f = 0 := by
  refine List.countP_eq_zero.mpr fun e he hfe => hr ?_
  have hagrees := h e he
  have hanswers := hf e hfe
  cases e with
  | replied q _ | completed q | notFirst q =>
      obtain rfl : q = r := hanswers
      exact hagrees
  | _ => exact hanswers.elim

theorem AnsweredOnce.append {s s' : Service} (h : s.AnsweredOnce) (es : List Emission)
    (hlog : s'.log = es ++ s.log) (hes : ∀ e ∈ es, ∀ r, ¬ Answers r e) : s'.AnsweredOnce := by
  have hcount {r : RequestId} {f : Emission → Bool} (hf : ∀ e, f e = true → Answers r e) :
      s'.log.countP f = s.log.countP f := by
    rw [hlog, List.countP_append, List.countP_eq_zero.mpr, zero_add]
    exact fun e he hfe => hes e he r (hf e hfe)
  refine ⟨fun r => ?_, fun r => ?_, fun r hr => ?_⟩
  · rw [hcount fun _ => answers_of_repliesTo]
    exact h.replies r
  · rw [hcount fun _ => answers_of_completes]
    exact h.completions r
  · rw [hlog, List.mem_append] at hr
    rcases hr with hr | hr
    · exact hes _ hr r rfl
    · exact h.first r hr

/-- Every action but one more completion of a completed request keeps the answers single. -/
theorem Effect.answeredOnce {a : Label} {s s' : Service} (h : Effect s s' a)
    (ha : a ≠ .completeAgain) (hh : s.History) (ho : s.AnsweredOnce) : s'.AnsweredOnce := by
  cases h with
  | accept request h =>
      exact ho.append [.queued s.nextRequest request.windowId] (by rw [h]; rfl)
        (by simp [Answers])
  | @route p hlog _ =>
      exact ho.append [.routed s.nextRequest p] hlog (by simp [Answers])
  | @hand w r rest hq hr hlog _ =>
      exact ho.append [.handed r w s.nextProxy] hlog (by simp [Answers])
  | @answer _ r reply hborn hdone hlog _ _ =>
      have hzero {f : Emission → Bool} (hf : ∀ e, f e = true → Answers r e) :=
        hh.countP_eq_zero hdone hf
      refine ⟨fun q => ?_, fun q => ?_, fun q hq => ?_⟩
      · rw [hlog, List.countP_cons_of_neg (by simp [Emission.repliesTo]), List.countP_cons]
        by_cases hq : r = q
        · subst hq
          rw [hzero fun _ => answers_of_repliesTo]
          split_ifs <;> omega
        · simpa [Emission.repliesTo, hq] using ho.replies q
      · rw [hlog, List.countP_cons, List.countP_cons_of_neg (by simp [Emission.completes])]
        by_cases hq : r = q
        · subst hq
          rw [hzero fun _ => answers_of_completes]
          split_ifs <;> omega
        · simpa [Emission.completes, hq] using ho.completions q
      · simp only [hlog, List.mem_cons, reduceCtorEq, false_or] at hq
        exact ho.first q hq
  | again => exact absurd rfl ha
  | silent es hlog hes _ =>
      refine ho.append es hlog fun e he r hr => ?_
      have hquiet := hes e he
      cases e <;> first | exact hquiet | exact hr

theorem reachable_answeredOnce {s : Service}
    (h : Reachable (machine env) (fun s e => ¬ s.Repeats e) s) : s.AnsweredOnce := by
  have hboth : s.History ∧ s.AnsweredOnce := by
    refine reachable_acts h (I := fun s => s.History ∧ s.AnsweredOnce)
      ⟨fun _ he => absurd he List.not_mem_nil, by constructor <;> simp⟩ ?_
    rintro s e a t t' hg ha hi ⟨hh, ho⟩ hact
    have heffect := hact.effect hi
    refine ⟨heffect.history hi hh, heffect.answeredOnce ?_ hh ho⟩
    rintro rfl
    exact hg ha
  exact hboth.2

/-- The next event answers no request a second time, and takes the head of no empty queue. -/
def StaysAnsweredOnce (env : ProxyId → Environment) (s : Service) (e : Event) : Prop :=
  match s.step env e with
  | .ok s' => s'.AnsweredOnce
  | .error fault => fault ≠ .headOfEmptyQueue

/-- A request that is done and completes once more has completed twice. -/
theorem not_staysAnsweredOnce {s : Service} (h : s.Inv) {e : Event} (he : s.Repeats e) :
    ¬ s.StaysAnsweredOnce env e := by
  cases e with
  | cancelUiRequest requestId =>
      obtain ⟨r, hr, hdone, hflag⟩ := he
      have hstep : s.step env (.cancelUiRequest requestId) = s.setCanceled (run env) r := by
        rw [step, cancelUiRequest, Option.mem_def.mp hr]
      unfold StaysAnsweredOnce
      rw [hstep]
      rcases setCanceled_done (run env) h hdone hflag with ht | ht
      · rw [ht]
        intro ho
        obtain ⟨es, hlog, -⟩ :=
          completeAgain_log r s (.error OAU_ERROR_USER_CANCELED "Canceled")
        have hone := ho.completions r
        rw [setRequest_log, hlog, List.countP_append, List.countP_cons_of_pos
          (by simp [Emission.completes]), List.countP_cons_of_neg (by simp [Emission.completes])]
          at hone
        have hbefore : 0 < s.log.countP (Emission.completes r) :=
          List.countP_pos_iff.mpr ⟨_, completed_of_done hdone, by simp [Emission.completes]⟩
        omega
      · rw [ht]
        exact fun hne => hne rfl
  | _ => exact he.elim

/-- **One reply for each call**: as long as no request is cancelled that is done but still
flagged as in progress, no request is answered twice; and the next event keeps it so if and only
if it is not such a cancellation. -/
theorem answered_once_iff (env : ProxyId → Environment) {s : Service}
    (h : Reachable (machine env) (fun s e => ¬ s.Repeats e) s) :
    s.AnsweredOnce ∧ ∀ e, s.StaysAnsweredOnce env e ↔ ¬ s.Repeats e := by
  refine ⟨reachable_answeredOnce h, fun e => ⟨fun hstays he => ?_, fun he => ?_⟩⟩
  · exact not_staysAnsweredOnce (reachable_inv h).1 he hstays
  · unfold StaysAnsweredOnce
    cases hrun : s.step env e with
    | ok s' => exact reachable_answeredOnce (.step h he hrun)
    | error fault =>
        obtain ⟨hi, hs⟩ := reachable_inv h
        rintro rfl
        rcases step_fault hi hs hrun with hfault | hrepeats
        · cases hfault
        · exact he hrepeats

/-- The UI process fails the request of one window; then that of another window is cancelled. -/
theorem answered_once_iff_two_windows :
    ∃ s, (machine fun _ => {}).run {}
        [.queryDialog 1 "a", .queryDialog 2 "b", .newConnection 0,
          .dataReady 0 (.failed 0 "" "" ""), .cancelUiRequest "b"] = .ok s ∧
      s.AnsweredOnce ∧ ∀ e, s.StaysAnsweredOnce (fun _ => {}) e ↔ ¬ s.Repeats e := by
  refine (exists_reachable (machine fun _ => {}) (fun s e => ¬ s.Repeats e) _ ?_ ?_).imp
    fun s h => ⟨h.1, answered_once_iff _ h.2⟩
  · decide
  · decide

/-- The UI process fails the first of two requests of a window, which is then cancelled before
it is deleted. -/
theorem canceled_after_failure :
    ∃ s, (machine fun _ => {}).run {}
        [.queryDialog 1 "a", .queryDialog 1 "b", .newConnection 0,
          .dataReady 0 (.failed 0 "" "" ""), .cancelUiRequest "a"] = .ok s ∧
      ¬ s.AnsweredOnce := by
  have hcount : ((machine fun _ => {}).run {}
      [.queryDialog 1 "a", .queryDialog 1 "b", .newConnection 0,
        .dataReady 0 (.failed 0 "" "" ""), .cancelUiRequest "a"]).map
      (fun s => s.log.countP (Emission.repliesTo 0)) = .ok 2 := by decide
  obtain ⟨s, hs, htwo⟩ := exists_of_map_ok hcount
  refine ⟨s, hs, fun ho => ?_⟩
  have hone := ho.replies 0
  omega

end Service

end OnlineAccounts
