import Mathlib.Tactic

/-! # Machines and their runs

A `Machine` handles one event at a time and may fault; a fault ends the run.  `Reachable` has
the states that a machine gets to when every event satisfies a guard in the state in which it is
handled, and `Reachable.invariant` is the induction over its runs.  `Reachable.simulation` carries
the reachable states of one machine to another one that simulates it.

What a machine does in one event is often a sequence of smaller actions.  `Path` chains
labelled actions whose labels are allowed, and `Path.invariant` is the induction over it. -/

namespace Transition

theorem exists_of_map_ok {φ α β : Type*} {f : α → β} {x : Except φ α} {b : β}
    (h : x.map f = .ok b) : ∃ a, x = .ok a ∧ f a = b := by
  cases x with
  | error fault => cases h
  | ok a => exact ⟨a, rfl, Except.ok.inj h⟩

/-- What every round keeps is kept by a fold that may fault. -/
theorem foldlM_invariant {φ α σ : Type*} {f : σ → α → Except φ σ} {I : σ → Prop}
    (step : ∀ s a s', I s → f s a = .ok s' → I s') (as : List α) :
    ∀ {s t : σ}, I s → as.foldlM f s = .ok t → I t := by
  induction as with
  | nil =>
      intro s t hs h
      cases h
      exact hs
  | cons a as ih =>
      intro s t hs h
      rw [List.foldlM_cons] at h
      cases ha : f s a with
      | error fault =>
          rw [ha] at h
          cases h
      | ok s' =>
          rw [ha] at h
          exact ih (step s a s' hs ha) h

/-- A state machine with events `ε` and faults `φ`. -/
structure Machine (σ ε φ : Type*) where
  start : σ
  step : σ → ε → Except φ σ

section

variable {σ ε φ : Type*} (m : Machine σ ε φ) (guard : σ → ε → Prop)

/-- The states of the runs whose events all satisfy the guard. -/
inductive Reachable : σ → Prop where
  | start : Reachable m.start
  | step {s s' : σ} {e : ε} (hs : Reachable s) (hg : guard s e) (h : m.step s e = .ok s') :
      Reachable s'

variable {m guard}

/-- What holds at the start and is kept by every guarded step holds in every reachable state. -/
theorem Reachable.invariant {I : σ → Prop} {s : σ} (hs : Reachable m guard s) (start : I m.start)
    (step : ∀ s e s', I s → guard s e → m.step s e = .ok s' → I s') : I s := by
  induction hs with
  | start => exact start
  | step _ hg h ih => exact step _ _ _ ih hg h

variable (m) in
/-- The same machine, started in another state. -/
def Machine.startingAt (s : σ) : Machine σ ε φ := { m with start := s }

theorem Reachable.mono {guard' : σ → ε → Prop} (hle : ∀ s e, guard s e → guard' s e) {s : σ}
    (hs : Reachable m guard s) : Reachable m guard' s := by
  induction hs with
  | start => exact .start
  | step _ hg h ih => exact .step ih (hle _ _ hg) h

variable (m) in
/-- Handle a list of events. -/
def Machine.run (s : σ) : List ε → Except φ σ
  | [] => .ok s
  | e :: es => match m.step s e with
    | .ok s' => Machine.run s' es
    | .error fault => .error fault

variable (m guard) in
/-- Every event of a list satisfies the guard in the state in which it is handled. -/
def Machine.Allows (s : σ) : List ε → Prop
  | [] => True
  | e :: es => guard s e ∧ match m.step s e with
    | .ok s' => Machine.Allows s' es
    | .error _ => True

instance Machine.decidableAllows [∀ s e, Decidable (guard s e)] :
    ∀ (es : List ε) (s : σ), Decidable (m.Allows guard s es)
  | [], _ => .isTrue trivial
  | e :: es, s => match h : m.step s e with
    | .ok s' =>
        have := decidableAllows es s'
        decidable_of_iff (guard s e ∧ m.Allows guard s' es) (by simp [Machine.Allows, h])
    | .error _ => decidable_of_iff (guard s e) (by simp [Machine.Allows, h])

theorem reachable_of_run_from {s : σ} (hs : Reachable m guard s) :
    ∀ {es : List ε} {t : σ}, m.Allows guard s es → m.run s es = .ok t → Reachable m guard t
  | [], _, _, h => by
      cases h
      exact hs
  | e :: es, t, ha, h => by
      obtain ⟨hg, ha⟩ := ha
      unfold Machine.run at h
      cases he : m.step s e with
      | error fault => simp [he] at h
      | ok s' =>
          rw [he] at h ha
          exact reachable_of_run_from (.step hs hg he) ha h

variable (m guard) in
theorem exists_reachable (es : List ε) (h : (m.run m.start es).isOk = true)
    (ha : m.Allows guard m.start es) : ∃ t, m.run m.start es = .ok t ∧ Reachable m guard t := by
  cases ht : m.run m.start es with
  | error fault => simp [ht, Except.isOk, Except.toBool] at h
  | ok t => exact ⟨t, rfl, reachable_of_run_from .start ha ht⟩

end

/-! ### Simulation -/

section

variable {σ τ ε ε' φ φ' : Type*} {m : Machine σ ε φ} {guard : σ → ε → Prop}
  {m' : Machine τ ε' φ'} {guard' : τ → ε' → Prop}

/-- One machine simulates another along `abs`: on the states of an invariant, every guarded step is
matched by a run. -/
theorem Reachable.simulation {abs : σ → τ} {I : σ → Prop} {s : σ} (h : Reachable m guard s)
    (start : abs m.start = m'.start) (startI : I m.start)
    (step : ∀ s e s', I s → Reachable m' guard' (abs s) → guard s e → m.step s e = .ok s' →
      I s' ∧ ∃ es, m'.Allows guard' (abs s) es ∧ m'.run (abs s) es = .ok (abs s')) :
    I s ∧ Reachable m' guard' (abs s) := by
  refine h.invariant (I := fun s => I s ∧ Reachable m' guard' (abs s)) ⟨startI, start ▸ .start⟩ ?_
  rintro s e s' ⟨hI, hr⟩ hg hrun
  obtain ⟨hI', es, ha, hes⟩ := step s e s' hI hr hg hrun
  exact ⟨hI', reachable_of_run_from hr ha hes⟩

variable (m') in
theorem Machine.allows_all (hall : ∀ t e, guard' t e) :
    ∀ (es : List ε') (t : τ), m'.Allows guard' t es
  | [], _ => trivial
  | e :: es, t => by
      refine ⟨hall t e, ?_⟩
      cases m'.step t e with
      | ok t' => exact Machine.allows_all hall es t'
      | error => trivial

end

/-! ### Paths of actions -/

section

variable {α σ : Type*} (act : α → σ → σ → Prop) (allowed : α → Prop)

/-- A sequence of actions with allowed labels. -/
inductive Path : σ → σ → Prop where
  | refl (s : σ) : Path s s
  | head {a : α} {s s' t : σ} (h : act a s s') (ha : allowed a) (rest : Path s' t) : Path s t

variable {act allowed}

theorem Path.single {a : α} {s t : σ} (h : act a s t) (ha : allowed a) : Path act allowed s t :=
  .head h ha (.refl t)

theorem Path.trans {s t u : σ} (h : Path act allowed s t) (h' : Path act allowed t u) :
    Path act allowed s u := by
  induction h with
  | refl => exact h'
  | head h ha _ ih => exact .head h ha (ih h')

theorem Path.mono {allowed' : α → Prop} (hle : ∀ a, allowed a → allowed' a) {s t : σ}
    (h : Path act allowed s t) : Path act allowed' s t := by
  induction h with
  | refl => exact .refl _
  | head h ha _ ih => exact .head h (hle _ ha) ih

/-- What every allowed action keeps is kept along a path. -/
theorem Path.invariant {I : σ → Prop} {s t : σ} (h : Path act allowed s t) (hs : I s)
    (step : ∀ a s s', I s → allowed a → act a s s' → I s') : I t := by
  induction h with
  | refl => exact hs
  | head h ha _ ih => exact ih (step _ _ _ hs ha h)

end

end Transition
