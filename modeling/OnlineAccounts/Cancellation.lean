import OnlineAccounts.Idle
import OnlineAccounts.Replies

/-! # What becomes of a cancellation

`cancelUiRequest` finds a request and cancels it, and `Request::setCanceled` does nothing unless
the request is in progress.  A request that waits in its queue behind others is not, and nothing
remembers that it was cancelled: when it gets to the head of the queue it is handed to a UI
process as if nothing had happened.

`cancellation_iff` says that this is the only way to lose a cancellation: it takes effect exactly
for the requests that are in progress. -/

namespace OnlineAccounts

/-- The reply that an emission sends to request `r`. -/
def Emission.replyTo (r : RequestId) : Emission → Option Reply
  | .replied q reply => if q = r then some reply else none
  | _ => none

/-- The emission hands request `r` to a proxy. -/
def Emission.hands (r : RequestId) : Emission → Bool
  | .handed q _ _ | .routed q _ => q = r
  | _ => false

/-- The emission replies to request `r` or hands it to a proxy. -/
def Emission.concerns (r : RequestId) (e : Emission) : Bool := (e.replyTo r).isSome || e.hands r

namespace Service

open Transition

variable {env : ProxyId → Environment}

/-- The replies to request `r`, newest first. -/
def replies (r : RequestId) (s : Service) : List Reply := s.log.filterMap (Emission.replyTo r)

/-- The reply to a cancelled request. -/
abbrev canceled : Reply := .error OAU_ERROR_USER_CANCELED "Canceled"

/-- Between `s` and `t`, request `r` got the reply that it was canceled as its only one, and was
not handed to a proxy; no proxy has it, so that no UI process is going to be sent it. -/
structure IsCanceled (r : RequestId) (s t : Service) : Prop where
  replies : t.replies r = [canceled]
  handed : t.log.filter (Emission.hands r) = s.log.filter (Emission.hands r)
  unregistered : ∀ p, ¬ t.Holds p r

/-- The event cancels request `r`, whatever happens afterwards. -/
def Cancels (env : ProxyId → Environment) (s : Service) (e : Event) (r : RequestId) : Prop :=
  ∃ s', s.step env e = .ok s' ∧
    ∀ t, Reachable ((machine env).startingAt s') (fun _ _ => True) t → IsCanceled r s t

/-! ### Closed requests -/

/-- The request is done, and nothing can answer it again. -/
structure Closed (r : RequestId) (s : Service) : Prop where
  done : s.phase r = .done
  flag : (s.requests r).inProgress = false

theorem concerns_of_answers {r q : RequestId} (h : q ≠ r) {e : Emission} (he : Answers q e) :
    e.concerns r = false := by
  cases e with
  | replied a reply =>
      obtain rfl : a = q := he
      simp [Emission.concerns, Emission.replyTo, Emission.hands, h]
  | completed | notFirst => rfl
  | _ => exact he.elim

theorem concerns_of_quiet {r : RequestId} {e : Emission} (he : Quiet e) :
    e.concerns r = false := by
  cases e with
  | isIdleChanged | finished => rfl
  | _ => exact he.elim

theorem filter_concerns {r : RequestId} {s s' : Service} (es : List Emission)
    (hlog : s'.log = es ++ s.log) (hes : ∀ e ∈ es, e.concerns r = false) :
    s'.log.filter (Emission.concerns r) = s.log.filter (Emission.concerns r) := by
  have hnil : es.filter (Emission.concerns r) = [] := by
    rw [List.filter_eq_nil_iff]
    intro e he
    simp [hes e he]
  rw [hlog, List.filter_append, hnil, List.nil_append]

/-- What an action does to a request that has left its queue or is its head: nothing, or it
replies to it once, and the request is done. -/
theorem Effect.concerns {a : Label} {s s' : Service} (h : Effect s s' a) (hs : s.Inv)
    {r : RequestId} (hborn : s.phase r ≠ .unborn) (hr : s.phase r ≠ .waiting)
    (ha : a ≠ .completeAgain) :
    (s'.phase r = s.phase r ∧
      s'.log.filter (Emission.concerns r) = s.log.filter (Emission.concerns r)) ∨
    (s.phase r ≠ .done ∧ s'.phase r = .done ∧ ∃ reply, s'.log.filter (Emission.concerns r) =
      .replied r reply :: s.log.filter (Emission.concerns r)) := by
  have hnext : s.nextRequest ≠ r := by
    rintro rfl
    exact hborn hs.phase_next
  cases h with
  | accept request h =>
      refine .inl ⟨by rw [h, phase_accept, if_neg hnext], ?_⟩
      exact filter_concerns [.queued s.nextRequest request.windowId] (by rw [h]; rfl)
        (by simp [Emission.concerns, Emission.replyTo, Emission.hands])
  | @route p hlog _ =>
      refine .inl ⟨by rw [phase_cons hlog, Emission.phaseOf, if_neg hnext]; rfl, ?_⟩
      exact filter_concerns [.routed s.nextRequest p] hlog
        (by simp [Emission.concerns, Emission.replyTo, Emission.hands, hnext])
  | @hand w q rest _ hq hlog _ =>
      have hqr : q ≠ r := by
        rintro rfl
        exact hr hq
      refine .inl ⟨by rw [phase_cons hlog, Emission.phaseOf, if_neg hqr]; rfl, ?_⟩
      exact filter_concerns [.handed q w s.nextProxy] hlog
        (by simp [Emission.concerns, Emission.replyTo, Emission.hands, hqr])
  | @answer _ q reply _ hdone hlog _ _ =>
      by_cases hqr : q = r
      · subst hqr
        refine .inr ⟨hdone, by rw [phase_cons hlog, Emission.phaseOf, if_pos rfl]; rfl, reply, ?_⟩
        simp [hlog, Emission.concerns, Emission.replyTo, Emission.hands]
      · refine .inl ⟨by rw [phase_cons hlog, Emission.phaseOf, if_neg hqr]; rfl, ?_⟩
        refine filter_concerns [.completed q, .replied q reply] hlog fun e he => ?_
        refine concerns_of_answers hqr ?_
        simp only [List.mem_cons, List.not_mem_nil, or_false] at he
        rcases he with rfl | rfl
        · rfl
        · rfl
  | again => exact absurd rfl ha
  | silent es hlog hes _ =>
      exact .inl ⟨phase_quiet hlog hes r, filter_concerns es hlog fun e he => concerns_of_quiet (hes e he)⟩

theorem Completes.concerns {s s' : Service} {r : RequestId} {reply : Reply}
    (h : Completes env r reply s s') (hi : s.Inv) {p : ProxyId} (hr : (s.phase r).HeldBy p) :
    ∃ reply, s'.log.filter (Emission.concerns r) =
      .replied r reply :: s.log.filter (Emission.concerns r) := by
  have hborn : s.phase r ≠ .unborn := by
    rcases hr with hr | hr <;> simp [hr]
  have hkept : s'.Inv ∧ s'.phase r ≠ .unborn ∧ s'.phase r ≠ .waiting ∧ ((s'.phase r ≠ .done ∧
      s'.log.filter (Emission.concerns r) = s.log.filter (Emission.concerns r)) ∨
      ∃ reply, s'.phase r = .done ∧ s'.log.filter (Emission.concerns r) =
        .replied r reply :: s.log.filter (Emission.concerns r)) := by
    refine h.path.invariant (I := fun t => t.Inv ∧ t.phase r ≠ .unborn ∧ t.phase r ≠ .waiting ∧
      ((t.phase r ≠ .done ∧
        t.log.filter (Emission.concerns r) = s.log.filter (Emission.concerns r)) ∨
      ∃ reply, t.phase r = .done ∧ t.log.filter (Emission.concerns r) =
        .replied r reply :: s.log.filter (Emission.concerns r))) ?_ ?_
    · refine ⟨hi, hborn, hr.ne_waiting, .inl ⟨?_, rfl⟩⟩
      rcases hr with hr | hr <;> simp [hr]
    · rintro a t t' ⟨ht, hborn, hwaiting, hcases⟩ ha hact
      have hlabel : a ≠ .completeAgain := by
        rintro rfl
        exact ha
      refine ⟨hact.inv ht, ?_⟩
      rcases (hact.effect ht).concerns ht hborn hwaiting hlabel with
        ⟨hphase, hfilter⟩ | ⟨hnot, hdone, reply, hfilter⟩
      · rw [hphase, hfilter]
        exact ⟨hborn, hwaiting, hcases⟩
      · rcases hcases with ⟨-, hsame⟩ | ⟨-, hdone', -⟩
        · rw [hdone, hfilter, hsame]
          exact ⟨by simp, by simp, .inr ⟨reply, rfl, rfl⟩⟩
        · exact absurd hdone' hnot
  rcases hkept.2.2.2 with ⟨hnot, -⟩ | ⟨reply, -, hfilter⟩
  · exact absurd h.done hnot
  · exact ⟨reply, hfilter⟩

theorem Act.closed {a : Label} {s s' : Service} (h : Act env a s s') (hs : s.Inv) {r : RequestId}
    (hr : s.Closed r) (ha : a ≠ .completeAgain) : s'.Closed r := by
  have hdone := hr.done
  have hnext : r ≠ s.nextRequest := by
    rintro rfl
    simp [hs.phase_next] at hdone
  have hne {q : RequestId} (hq : s.phase q = .waiting) : r ≠ q := by
    rintro rfl
    simp [hq] at hdone
  have hphase : s'.phase r = .done := by
    rcases (h.effect hs).phase r with hsame | heq | ⟨hwaiting, -⟩ | hdone'
    · exact hsame.trans hdone
    · exact absurd heq hnext
    · simp [hdone] at hwaiting
    · exact hdone'
  refine ⟨hphase, ?_⟩
  have hflag := hr.flag
  cases h with
  | accept request _ => simpa [Service.accept, hnext] using hflag
  | route request _ => simpa [Service.route, handleRequest, hnext] using hflag
  | hand _ hq _ => simpa [Service.hand, handleRequest, hne hq] using hflag
  | completeAgain => exact absurd rfl ha
  | @clear _ q _ =>
      by_cases hq : r = q
      · subst hq
        simp
      · simpa [hq] using hflag
  | @delay _ q delay =>
      by_cases hq : r = q
      · subst hq
        simpa using hflag
      · simpa [hq] using hflag
  | _ => exact hflag

theorem completeAgain_requests (q : RequestId) (s : Service) (reply : Reply) :
    (s.completeAgain q reply).requests = s.requests :=
  completeAgain_induction (I := fun t => t.requests = s.requests) rfl fun t slot ht => by
    cases slot <;> exact ht

/-- A request that is cancelled again is another one than a closed one, since its flag is set. -/
theorem setCanceled_closed {s s' : Service} (hi : s.Inv) {r q : RequestId} (hr : s.Closed r)
    (hdone : s.phase q = .done) (hflag : (s.requests q).inProgress = true)
    (hrun : s.setCanceled (run env) q = .ok s') :
    s'.Closed r ∧ s'.log.filter (Emission.concerns r) = s.log.filter (Emission.concerns r) := by
  have hne : q ≠ r := by
    rintro rfl
    simp [hr.flag] at hflag
  rcases setCanceled_done (run env) hi hdone hflag with ht | ht
  · obtain rfl := Except.ok.inj (ht.symm.trans hrun)
    obtain ⟨es, hlog, hes⟩ := completeAgain_log q s canceled
    refine ⟨⟨((completeAgain_same q s canceled hdone).2 r).trans hr.done, ?_⟩, ?_⟩
    · rw [setRequest_requests, Function.update_of_ne hne.symm, completeAgain_requests]
      exact hr.flag
    · apply filter_concerns (es ++ [.completed q, .replied q canceled])
      · rw [setRequest_log, hlog, List.append_assoc]
        rfl
      · intro e he
        apply concerns_of_answers hne
        simp only [List.mem_append, List.mem_cons, List.not_mem_nil, or_false] at he
        rcases he with he | rfl | rfl
        · exact hes e he
        · rfl
        · rfl
  · cases ht.symm.trans hrun

/-- **A closed request stays closed**, and no event replies to it or hands it to a proxy. -/
theorem step_closed {s s' : Service} {e : Event} (hi : s.Inv) (hs : ∀ w, s.Settled w)
    {r : RequestId} (hr : s.Closed r) (hrun : s.step env e = .ok s') :
    s'.Closed r ∧ s'.log.filter (Emission.concerns r) = s.log.filter (Emission.concerns r) := by
  by_cases he : s.Repeats e
  · cases e with
    | cancelUiRequest requestId =>
        obtain ⟨q, hq, hdone, hflag⟩ := he
        rw [step, cancelUiRequest, Option.mem_def.mp hq] at hrun
        exact setCanceled_closed hi hr hdone hflag hrun
    | _ => exact he.elim
  · have hkept : s'.Inv ∧ s'.Closed r ∧
        s'.log.filter (Emission.concerns r) = s.log.filter (Emission.concerns r) := by
      refine (handles hi hs hrun).1.invariant (I := fun t => t.Inv ∧ t.Closed r ∧
        t.log.filter (Emission.concerns r) = s.log.filter (Emission.concerns r)) ⟨hi, hr, rfl⟩ ?_
      rintro a t t' ⟨ht, hclosed, hfilter⟩ ha hact
      have hlabel : a ≠ .completeAgain := by
        rintro rfl
        exact he ha
      refine ⟨hact.inv ht, hact.closed ht hclosed hlabel, ?_⟩
      rcases (hact.effect ht).concerns ht (r := r) (by simp [hclosed.done]) (by simp [hclosed.done])
        hlabel with ⟨-, hsame⟩ | ⟨hnot, -⟩
      · exact hsame.trans hfilter
      · exact absurd hclosed.done hnot
    exact hkept.2

theorem replies_eq (r : RequestId) (s : Service) :
    s.replies r = (s.log.filter (Emission.concerns r)).filterMap (Emission.replyTo r) := by
  unfold replies
  rw [List.filterMap_filter]
  refine List.filterMap_congr fun e _ => ?_
  cases hreply : e.replyTo r with
  | none => simp
  | some reply => simp [Emission.concerns, hreply]

theorem filter_hands (r : RequestId) (s : Service) :
    s.log.filter (Emission.hands r) =
      (s.log.filter (Emission.concerns r)).filter (Emission.hands r) := by
  rw [List.filter_filter]
  refine List.filter_congr fun e _ => ?_
  simp only [Emission.concerns]
  cases e.hands r <;> simp

theorem Closed.reachable {s t : Service} (hi : s.Inv) (hs : ∀ w, s.Settled w) {r : RequestId}
    (hr : s.Closed r) (h : Reachable ((machine env).startingAt s) (fun _ _ => True) t) :
    t.replies r = s.replies r ∧
      t.log.filter (Emission.hands r) = s.log.filter (Emission.hands r) ∧ ∀ p, ¬ t.Holds p r := by
  have hkept : t.Inv ∧ (∀ w, t.Settled w) ∧ t.Closed r ∧
      t.log.filter (Emission.concerns r) = s.log.filter (Emission.concerns r) := by
    refine h.invariant (I := fun t => t.Inv ∧ (∀ w, t.Settled w) ∧ t.Closed r ∧
      t.log.filter (Emission.concerns r) = s.log.filter (Emission.concerns r))
      ⟨hi, hs, hr, rfl⟩ ?_
    rintro u e u' ⟨hi, hs, hr, hfilter⟩ - hrun
    obtain ⟨hpath, hsettled⟩ := handles hi hs hrun
    obtain ⟨hclosed, hsame⟩ := step_closed hi hs hr hrun
    exact ⟨hi.path hpath, hsettled, hclosed, hsame.trans hfilter⟩
  obtain ⟨hi', -, hclosed, hfilter⟩ := hkept
  refine ⟨by rw [replies_eq, replies_eq, hfilter], by rw [filter_hands, filter_hands, hfilter],
    fun p hp => ?_⟩
  have hheld := (hi'.holds p r).mp hp
  simp [hclosed.done, Phase.HeldBy] at hheld

/-! ### Cancellations -/

theorem AwaitsReply.ne_done {s : Service} (hr : s.Replied) {r : RequestId} (h : s.AwaitsReply r) :
    s.phase r ≠ .done := by
  intro hdone
  obtain ⟨reply, hreply⟩ := hr r (completed_of_done hdone)
  exact h.2 reply hreply

theorem AwaitsReply.replies {s : Service} {r : RequestId} (h : s.AwaitsReply r) :
    s.replies r = [] := by
  unfold Service.replies
  rw [List.filterMap_eq_nil_iff]
  intro e he
  cases e with
  | replied q reply =>
      have hne : q ≠ r := by
        rintro rfl
        exact h.2 reply he
      simp [Emission.replyTo, hne]
  | _ => rfl

theorem awaitsReply_of_queued {s : Service} {r : RequestId} {w : ℕ} (hq : .queued r w ∈ s.log)
    (h : s.replies r = []) : s.AwaitsReply r := by
  refine ⟨.inl ⟨w, hq⟩, fun reply hreply => ?_⟩
  unfold Service.replies at h
  rw [List.filterMap_eq_nil_iff] at h
  have hnone := h _ hreply
  simp [Emission.replyTo] at hnone

/-- The reply of a completion is the only one if the request was waiting for it. -/
theorem Completes.replies {s s' : Service} {r : RequestId} {reply : Reply}
    (h : Completes env r reply s s') (hi : s.Inv) {p : ProxyId} (hr : (s.phase r).HeldBy p)
    (hnone : s.replies r = []) : s'.replies r = [reply] ∧
      s'.log.filter (Emission.hands r) = s.log.filter (Emission.hands r) := by
  obtain ⟨reply', hfilter⟩ := h.concerns hi hr
  have hreplies : s'.replies r = [reply'] := by
    rw [replies_eq, hfilter, List.filterMap_cons_some (b := reply') (by simp [Emission.replyTo]),
      ← replies_eq, hnone]
  obtain ⟨es, hlog⟩ := h.log
  have hmem : reply ∈ s'.replies r := by
    unfold Service.replies
    rw [List.mem_filterMap]
    exact ⟨.replied r reply, by simp [hlog], by simp [Emission.replyTo]⟩
  rw [hreplies, List.mem_singleton] at hmem
  refine ⟨by rw [hreplies, hmem], ?_⟩
  rw [filter_hands, hfilter, List.filter_cons_of_neg (by simp [Emission.hands]), ← filter_hands]

theorem cancels_of_inProgress {s : Service} (hi : s.Inv) (hs : ∀ w, s.Settled w) (hr : s.Replied)
    {requestId : String} {r : RequestId} (hfind : s.findUiRequest requestId = some r)
    (h : s.AwaitsReply r) (hflag : (s.requests r).inProgress = true) :
    s.Cancels env (.cancelUiRequest requestId) r := by
  obtain ⟨p, hp⟩ := (hi.held_or_done hflag).resolve_right (h.ne_done hr)
  obtain ⟨t, ht, hc⟩ := hi.completed env hp canceled
  let u := t.setRequest r ({ · with inProgress := false })
  have hstep : s.step env (.cancelUiRequest requestId) = .ok u := by
    rw [step, cancelUiRequest, hfind]
    simp only [Service.setCanceled, hflag, if_true, fail, ht]
    rfl
  have hclosed : u.Closed r := ⟨hc.done, by simp [u]⟩
  obtain ⟨hreplies, hhands⟩ := hc.replies hi hp h.replies
  refine ⟨u, hstep, fun v hv => ?_⟩
  obtain ⟨hpath, hsettled⟩ := handles hi hs hstep
  obtain ⟨hreplies', hhands', hholds⟩ := hclosed.reachable (hi.path hpath) hsettled hv
  exact ⟨hreplies'.trans hreplies, hhands'.trans hhands, hholds⟩

/-- The cancellation of a request that is not in progress does nothing. -/
theorem not_cancels {s : Service} {requestId : String} {r : RequestId}
    (hfind : s.findUiRequest requestId = some r) (h : s.AwaitsReply r)
    (hflag : (s.requests r).inProgress = false) : ¬ s.Cancels env (.cancelUiRequest requestId) r := by
  rintro ⟨s', hstep, hcanceled⟩
  obtain rfl : s = s' := by
    rw [step, cancelUiRequest, hfind] at hstep
    simpa [Service.setCanceled, hflag] using hstep
  have hreplies := (hcanceled s .start).replies
  simp [h.replies] at hreplies

/-- **Cancellations**: of the requests that wait for their reply and are found by
`cancelUiRequest`, exactly those in progress are cancelled. -/
theorem cancellation_iff (env : ProxyId → Environment) {s : Service}
    (h : Reachable (machine env) (fun _ _ => True) s) {requestId : String} {r : RequestId}
    (hfind : s.findUiRequest requestId = some r) (hr : s.AwaitsReply r) :
    s.Cancels env (.cancelUiRequest requestId) r ↔ (s.requests r).inProgress = true := by
  obtain ⟨hi, hs⟩ := reachable_inv h
  constructor
  · intro hcancels
    by_contra hflag
    exact not_cancels hfind hr (Bool.eq_false_of_not_eq_true hflag) hcancels
  · exact cancels_of_inProgress hi hs (reachable_replied h) hfind hr

/-- The first of two requests of a window is cancelled before its UI process connects. -/
theorem cancellation_iff_head :
    ∃ s, (machine fun _ => {}).run {} [.queryDialog 1 "a", .queryDialog 1 "b"] = .ok s ∧
      (s.Cancels (fun _ => {}) (.cancelUiRequest "a") 0 ↔ (s.requests 0).inProgress = true) := by
  obtain ⟨s, hs, hr⟩ := exists_reachable (machine fun _ => {}) (fun _ _ => True)
    [.queryDialog 1 "a", .queryDialog 1 "b"] (by decide) (by decide)
  have hend : ((machine fun _ => {}).run {} [.queryDialog 1 "a", .queryDialog 1 "b"]).map
      (fun s => (s.findUiRequest "a", decide (.queued 0 1 ∈ s.log), s.replies 0)) =
      .ok (some 0, true, []) := by decide
  obtain ⟨hfind, hpair⟩ := Prod.mk.inj (Except.ok.inj (hs ▸ hend))
  obtain ⟨hqueued, hnone⟩ := Prod.mk.inj hpair
  exact ⟨s, hs,
    cancellation_iff _ hr hfind (awaitsReply_of_queued (of_decide_eq_true hqueued) hnone)⟩

/-- The second of two requests of a window is cancelled, and is handed to a UI process when the
first one is finished. -/
theorem canceled_behind_another :
    ∃ s, (machine fun _ => {}).run {} [.queryDialog 1 "a", .queryDialog 1 "b"] = .ok s ∧
      s.findUiRequest "b" = some 1 ∧ s.AwaitsReply 1 ∧
      ¬ s.Cancels (fun _ => {}) (.cancelUiRequest "b") 1 ∧
      ∃ t, (machine fun _ => {}).run s [.cancelUiRequest "b", .newConnection 0,
          .dataReady 0 (.finished 0 .nil 0 "")] = .ok t ∧
        t.replies 1 = [] ∧ .handed 1 1 1 ∈ t.log := by
  obtain ⟨s, hs, -⟩ := exists_reachable (machine fun _ => {}) (fun _ _ => True)
    [.queryDialog 1 "a", .queryDialog 1 "b"] (by decide) (by decide)
  have hend : ((machine fun _ => {}).run {} [.queryDialog 1 "a", .queryDialog 1 "b"]).map
      (fun s => (s.findUiRequest "b", decide (.queued 1 1 ∈ s.log), s.replies 1,
        (s.requests 1).inProgress)) = .ok (some 1, true, [], false) := by decide
  have hlater : (((machine fun _ => {}).run {} [.queryDialog 1 "a", .queryDialog 1 "b"]).bind
      fun s => ((machine fun _ => {}).run s [.cancelUiRequest "b", .newConnection 0,
        .dataReady 0 (.finished 0 .nil 0 "")])).map
      (fun t => (t.replies 1, decide (.handed 1 1 1 ∈ t.log))) = .ok ([], true) := by decide
  have hs' : (machine fun _ => {}).run {} [.queryDialog 1 "a", .queryDialog 1 "b"] = .ok s := hs
  rw [hs'] at hend hlater
  obtain ⟨hfind, hrest⟩ := Prod.mk.inj (Except.ok.inj hend)
  obtain ⟨hqueued, hrest⟩ := Prod.mk.inj hrest
  obtain ⟨hnone, hflag⟩ := Prod.mk.inj hrest
  have hawaits := awaitsReply_of_queued (of_decide_eq_true hqueued) hnone
  obtain ⟨t, ht, hpair⟩ := exists_of_map_ok hlater
  obtain ⟨hreplies, hhanded⟩ := Prod.mk.inj hpair
  exact ⟨s, hs, hfind, hawaits, not_cancels hfind hawaits hflag, t, ht, hreplies,
    of_decide_eq_true hhanded⟩

end Service

end OnlineAccounts
