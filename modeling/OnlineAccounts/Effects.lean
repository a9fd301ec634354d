import OnlineAccounts.Events

/-! # What the log tells

An action has one of six effects on the log and the queues (`Effect`), which is all that the
order and the number of the answers depend on.  `History` says what the emissions of a log tell
about the phases. -/

namespace OnlineAccounts.Service

open Transition

variable {env : ProxyId → Environment}

/-- Emissions that are not about requests. -/
def Quiet : Emission → Prop
  | .isIdleChanged _ | .finished _ => True
  | _ => False

/-- Emissions of the answer to request `r`. -/
def Answers (r : RequestId) : Emission → Prop
  | .replied q _ | .completed q | .notFirst q => q = r
  | _ => False

/-- The effect of an action on the log and the queues. -/
inductive Effect (s s' : Service) : Label → Prop where
  | accept (request : Request) (h : s' = s.accept request) : Effect s s' .accept
  | route {p : ProxyId} (hlog : s'.log = .routed s.nextRequest p :: s.log)
      (hqueue : ∀ w, s'.queue w = s.queue w) : Effect s s' .route
  | hand {w : ℕ} {r : RequestId} {rest : List RequestId} (hq : s.queue w = r :: rest)
      (hr : s.phase r = .waiting) (hlog : s'.log = .handed r w s.nextProxy :: s.log)
      (hqueue : ∀ w, s'.queue w = s.queue w) : Effect s s' (.hand w)
  | answer {a : Label} {r : RequestId} (reply : Reply) (hborn : s.phase r ≠ .unborn)
      (hdone : s.phase r ≠ .done) (hlog : s'.log = .completed r :: .replied r reply :: s.log)
      (hhead : ∀ w, r ∈ s.queue w → ∃ rest, s.queue w = r :: rest)
      (hqueue : ∀ w, s'.queue w = (s.queue w).erase r) : Effect s s' a
  | again {r : RequestId} (es : List Emission) (hdone : s.phase r = .done)
      (hlog : s'.log = es ++ s.log) (hes : ∀ e ∈ es, Answers r e)
      (hphase : ∀ q, s'.phase q = s.phase q) (hqueue : ∀ w, s'.queue w = s.queue w) :
      Effect s s' .completeAgain
  | silent {a : Label} (es : List Emission) (hlog : s'.log = es ++ s.log) (hes : ∀ e ∈ es, Quiet e)
      (hqueue : ∀ w, s'.queue w = s.queue w) : Effect s s' a

/-- The head of a queue is in no other queue. -/
theorem Inv.head_unique {s : Service} (h : s.Inv) {w w' : ℕ} {r : RequestId}
    {rest : List RequestId} (hq : s.queue w = r :: rest) (hr : r ∈ s.queue w') :
    ∃ rest, s.queue w' = r :: rest := by
  have hmem : r ∈ s.queue w := by simp [hq]
  obtain rfl : w = w' := ((h.mem_queue w r).mp hmem).1.symm.trans ((h.mem_queue w' r).mp hr).1
  exact ⟨rest, hq⟩

/-- The answer comes first; the slots add to it. -/
theorem completeAgain_log (r : RequestId) (s : Service) (reply : Reply) :
    ∃ es, (s.completeAgain r reply).log = es ++ .completed r :: .replied r reply :: s.log ∧
      ∀ e ∈ es, Answers r e := by
  refine completeAgain_induction (I := fun t =>
    ∃ es, t.log = es ++ .completed r :: .replied r reply :: s.log ∧ ∀ e ∈ es, Answers r e)
    ⟨[], rfl, by simp⟩ fun t slot ⟨es, hlog, hes⟩ => ?_
  cases slot with
  | manager => exact ⟨.notFirst r :: es, congrArg _ hlog, List.forall_mem_cons.mpr ⟨rfl, hes⟩⟩
  | deleteLater | proxy => exact ⟨es, hlog, hes⟩

theorem Act.effect {a : Label} {s s' : Service} (h : Act env a s s') (hs : s.Inv) :
    Effect s s' a := by
  cases h with
  | accept request hf => exact .accept request rfl
  | route request hp => exact .route rfl fun _ => rfl
  | hand hq hr _ => exact .hand hq hr rfl fun _ => rfl
  | refuse hq hr _ =>
      exact .answer _ (by simp [hr]) (by simp [hr]) rfl (fun w hw => hs.head_unique hq hw)
        fun w => hs.dequeue_erase hq w
  | complete reply hq hr =>
      exact .answer reply (by simp [hr]) (by simp [hr]) rfl (fun w hw => hs.head_unique hq hw)
        fun w => hs.dequeue_erase hq w
  | @completeRouted _ r p reply hr =>
      have hnotin (w : ℕ) : r ∉ s.queue w := by
        simp [hs.mem_queue, hr, Phase.Queued]
      exact .answer reply (by simp [hr]) (by simp [hr]) rfl (fun w hw => absurd hw (hnotin w))
        fun w => (List.erase_of_not_mem (hnotin w)).symm
  | @completeAgain _ r reply hr =>
      obtain ⟨es, hlog, hes⟩ := completeAgain_log r s reply
      obtain ⟨hqueues, hphase⟩ := completeAgain_same r s reply hr
      refine .again (es ++ [.completed r, .replied r reply]) hr ?_ (fun e he => ?_) hphase
        fun w => queue_congr hqueues w
      · rw [hlog, List.append_assoc]
        rfl
      · simp only [List.mem_append, List.mem_cons, List.not_mem_nil, or_false] at he
        rcases he with he | rfl | rfl
        · exact hes e he
        · rfl
        · rfl
  | idle => exact .silent [.isIdleChanged s.isIdle] rfl (by simp [Quiet]) fun _ => rfl
  | @finish _ p => exact .silent [.finished p] rfl (by simp [Quiet]) fun _ => rfl
  | clear => exact .silent [] rfl (by simp) fun _ => rfl
  | delay => exact .silent [] rfl (by simp) fun _ => rfl
  | touch => exact .silent [] rfl (by simp) fun _ => rfl
  | deleteProxy => exact .silent [] rfl (by simp) fun _ => rfl
  | deleteRequest => exact .silent [] rfl (by simp) fun _ => rfl

theorem phase_quiet {s s' : Service} {es : List Emission} (hlog : s'.log = es ++ s.log)
    (hes : ∀ e ∈ es, Quiet e) (r : RequestId) : s'.phase r = s.phase r := by
  have hfold : ∀ es : List Emission, (∀ e ∈ es, Quiet e) → ∀ log,
      phaseIn (es ++ log) r = phaseIn log r := by
    intro es hes log
    induction es with
    | nil => rfl
    | cons e es ih =>
        have hquiet := hes e List.mem_cons_self
        rw [List.cons_append, phaseIn, ih fun e he => hes e (List.mem_cons_of_mem _ he)]
        cases e <;> first | rfl | exact hquiet.elim
  unfold phase
  rw [hlog]
  exact hfold es hes s.log

theorem Effect.phase {a : Label} {s s' : Service} (h : Effect s s' a) (r : RequestId) :
    s'.phase r = s.phase r ∨ r = s.nextRequest ∨
      (s.phase r = .waiting ∧ s'.phase r = .served s.nextProxy) ∨ s'.phase r = .done := by
  cases h with
  | accept request h =>
      rw [h, phase_accept]
      split_ifs with he
      · exact .inr (.inl he.symm)
      · exact .inl rfl
  | route hlog _ =>
      rw [phase_cons hlog, Emission.phaseOf]
      split_ifs with he
      · exact .inr (.inl he.symm)
      · exact .inl rfl
  | @hand w q rest hq hr hlog _ =>
      rw [phase_cons hlog, Emission.phaseOf]
      split_ifs with he
      · exact .inr (.inr (.inl ⟨he ▸ hr, rfl⟩))
      · exact .inl rfl
  | @answer _ q reply hborn hdone hlog _ _ =>
      rw [phase_cons hlog, Emission.phaseOf]
      split_ifs with he
      · exact .inr (.inr (.inr rfl))
      · exact .inl rfl
  | again _ _ _ _ hphase _ => exact .inl (hphase r)
  | silent es hlog hes _ => exact .inl (phase_quiet hlog hes r)

/-! ### Emissions and phases -/

/-- What an emission tells about the phase of its request from then on. -/
def Agrees (s : Service) : Emission → Prop
  | .queued r _ => (s.phase r).Queued ∨ s.phase r = .done
  | .routed r p => s.phase r = .routed p ∨ s.phase r = .done
  | .handed r _ p => s.phase r = .served p ∨ s.phase r = .done
  | .replied r _ | .completed r | .notFirst r => s.phase r = .done
  | _ => True

/-- The log agrees with the phases. -/
def History (s : Service) : Prop := ∀ e ∈ s.log, s.Agrees e

theorem Effect.agrees {a : Label} {s s' : Service} (h : Effect s s' a) (hs : s.Inv) {e : Emission}
    (he : s.Agrees e) : s'.Agrees e := by
  have hnext := hs.phase_next
  cases e with
  | queued r w =>
      rcases h.phase r with hr | rfl | ⟨-, hr⟩ | hr
      · simp only [Agrees, hr] at he ⊢
        exact he
      · simp [Agrees, hnext, Phase.Queued] at he
      · exact .inl (.inr ⟨_, hr⟩)
      · exact .inr hr
  | routed r p =>
      rcases h.phase r with hr | rfl | ⟨hr, -⟩ | hr
      · simp only [Agrees, hr] at he ⊢
        exact he
      · simp [Agrees, hnext] at he
      · simp [Agrees, hr] at he
      · exact .inr hr
  | handed r w p =>
      rcases h.phase r with hr | rfl | ⟨hr, -⟩ | hr
      · simp only [Agrees, hr] at he ⊢
        exact he
      · simp [Agrees, hnext] at he
      · simp [Agrees, hr] at he
      · exact .inr hr
  | isIdleChanged _ => trivial
  | finished _ => trivial
  | replied r _ | completed r | notFirst r =>
      have hdone : s.phase r = .done := he
      rcases h.phase r with hr | rfl | ⟨hr, -⟩ | hr
      · exact hr.trans hdone
      · simp [hnext] at hdone
      · simp [hdone] at hr
      · exact hr

theorem Effect.emitted {a : Label} {s s' : Service} (h : Effect s s' a) :
    ∃ es, s'.log = es ++ s.log ∧ ∀ e ∈ es, s'.Agrees e := by
  cases h with
  | accept request h =>
      refine ⟨[.queued s.nextRequest request.windowId], by rw [h]; rfl, fun e he => ?_⟩
      rw [List.mem_singleton.mp he]
      exact .inl (.inl (by rw [h, phase_accept, if_pos rfl]))
  | @route p hlog _ =>
      refine ⟨[.routed s.nextRequest p], hlog, fun e he => ?_⟩
      rw [List.mem_singleton.mp he]
      exact .inl (by rw [phase_cons hlog, Emission.phaseOf, if_pos rfl]; rfl)
  | @hand w r rest hq hr hlog _ =>
      refine ⟨[.handed r w s.nextProxy], hlog, fun e he => ?_⟩
      rw [List.mem_singleton.mp he]
      exact .inl (by rw [phase_cons hlog, Emission.phaseOf, if_pos rfl]; rfl)
  | @answer _ r reply hborn hdone hlog _ _ =>
      have hr : s'.phase r = .done := by
        rw [phase_cons hlog, Emission.phaseOf, if_pos rfl]
        rfl
      refine ⟨[.completed r, .replied r reply], hlog, fun e he => ?_⟩
      simp only [List.mem_cons, List.not_mem_nil, or_false] at he
      rcases he with rfl | rfl <;> exact hr
  | @again r es hdone hlog hes hphase _ =>
      refine ⟨es, hlog, fun e he => ?_⟩
      have hr : s'.phase r = .done := (hphase r).trans hdone
      have hanswers := hes e he
      cases e with
      | replied q _ | completed q | notFirst q =>
          obtain rfl : q = r := hanswers
          exact hr
      | _ => exact hanswers.elim
  | silent es hlog hes _ =>
      refine ⟨es, hlog, fun e he => ?_⟩
      have hquiet := hes e he
      cases e with
      | isIdleChanged _ => trivial
      | finished _ => trivial
      | _ => exact hquiet.elim

theorem Effect.history {a : Label} {s s' : Service} (h : Effect s s' a) (hs : s.Inv)
    (hh : s.History) : s'.History := by
  obtain ⟨es, hlog, hes⟩ := h.emitted
  intro e he
  rw [hlog, List.mem_append] at he
  rcases he with he | he
  · exact hes e he
  · exact h.agrees hs (hh e he)

theorem reachable_history {guard : Service → Event → Prop} {s : Service}
    (h : Reachable (machine env) guard s) : s.History :=
  reachable_acts h (fun _ he => absurd he List.not_mem_nil)
    fun _ _ _ _ _ _ _ hi hh hact => (hact.effect hi).history hi hh

theorem exists_of_phaseIn {log : List Emission} {r : RequestId} (h : phaseIn log r ≠ .unborn) :
    ∃ e ∈ log, e.phaseOf r = some (phaseIn log r) := by
  induction log with
  | nil => exact absurd rfl h
  | cons e log ih =>
      unfold phaseIn at h ⊢
      cases he : e.phaseOf r with
      | some φ => exact ⟨e, List.mem_cons_self, by simp [he]⟩
      | none =>
          simp only [he, Option.getD_none] at h ⊢
          obtain ⟨e', he', hphase⟩ := ih h
          exact ⟨e', List.mem_cons_of_mem _ he', hphase⟩

/-- A request that is done has completed. -/
theorem completed_of_done {s : Service} {r : RequestId} (h : s.phase r = .done) :
    .completed r ∈ s.log := by
  obtain ⟨e, he, hphase⟩ : ∃ e ∈ s.log, e.phaseOf r = some (s.phase r) :=
    exists_of_phaseIn (by
      change s.phase r ≠ .unborn
      simp [h])
  rw [h] at hphase
  cases e with
  | completed q =>
      simp only [Emission.phaseOf] at hphase
      split_ifs at hphase with hq
      exact hq ▸ he
  | _ => simp [Emission.phaseOf] at hphase

end OnlineAccounts.Service
