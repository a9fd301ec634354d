import Mathlib.Tactic

/-! # Loops

A `while (true)` loop is given by its body: a round either goes on with a new state, or leaves
the loop with one (`Round`).  `Exits body s t` says that the loop, started in `s`, leaves in
`t`.  A loop that never leaves has no such `t`.

`Exits.invariant` is the rule for what holds when the loop leaves, `exits_of_measure` the rule
for leaving at all.  `iterate` runs a loop for a bounded number of rounds, and `run` runs one
whose rounds decrease a measure. -/

namespace Loop

/-- What a round does. -/
inductive Round (σ : Type*) where
  | again (s : σ)
  | stop (s : σ)
deriving DecidableEq

/-- The state after a round. -/
def Round.state {σ : Type*} : Round σ → σ
  | .again s => s
  | .stop s => s

section

variable {σ : Type*} (body : σ → Round σ)

/-- The loop started in `s` leaves in `t`. -/
inductive Exits : σ → σ → Prop where
  | stop {s t : σ} (h : body s = .stop t) : Exits s t
  | again {s s' t : σ} (h : body s = .again s') (ht : Exits s' t) : Exits s t

/-- Run the loop for at most `fuel` rounds. -/
def iterate : ℕ → σ → Option σ
  | 0, _ => none
  | fuel + 1, s => match body s with
    | .stop t => some t
    | .again s' => iterate fuel s'

/-- Run a loop whose rounds decrease `μ`. -/
def run (μ : σ → ℕ) (s : σ) : σ := (iterate body (μ s + 1) s).getD s

variable {body}

theorem Exits.unique {s t u : σ} (ht : Exits body s t) (hu : Exits body s u) : t = u := by
  induction ht with
  | stop h =>
      cases hu with
      | stop h' => exact Round.stop.inj (h.symm.trans h')
      | again h' _ => cases h.symm.trans h'
  | again h _ ih =>
      cases hu with
      | stop h' => cases h.symm.trans h'
      | again h' hu => exact ih (Round.again.inj (h'.symm.trans h) ▸ hu)

theorem Exits.congr {s s' t : σ} (h : body s = body s') (ht : Exits body s t) :
    Exits body s' t := by
  cases ht with
  | stop hs => exact .stop (h.symm.trans hs)
  | again hs ht => exact .again (h.symm.trans hs) ht

theorem Exits.invariant {I : σ → Prop} {s t : σ} (ht : Exits body s t) (hs : I s)
    (again : ∀ s s', I s → body s = .again s' → I s') : ∃ s', I s' ∧ body s' = .stop t := by
  induction ht with
  | stop h => exact ⟨_, hs, h⟩
  | again h _ ih => exact ih (again _ _ hs h)

theorem exits_of_iterate (fuel : ℕ) : ∀ {s t : σ}, iterate body fuel s = some t → Exits body s t := by
  induction fuel with
  | zero => exact fun h => absurd h (by simp [iterate])
  | succ fuel ih =>
      intro s t h
      unfold iterate at h
      cases hb : body s with
      | stop u =>
          rw [hb] at h
          exact .stop (hb.trans (congrArg _ (Option.some.inj h)))
      | again s' =>
          rw [hb] at h
          exact .again hb (ih h)

/-- A loop leaves if its rounds keep an invariant and decrease a measure. -/
theorem iterate_of_measure {I : σ → Prop} {μ : σ → ℕ}
    (again : ∀ s s', I s → body s = .again s' → I s' ∧ μ s' < μ s) :
    ∀ {fuel : ℕ} {s : σ}, I s → μ s < fuel → ∃ t, iterate body fuel s = some t
  | 0, _, _, h => absurd h (Nat.not_lt_zero _)
  | fuel + 1, s, hs, h => by
      unfold iterate
      cases hb : body s with
      | stop t => exact ⟨t, rfl⟩
      | again s' =>
          obtain ⟨hs', hlt⟩ := again s s' hs hb
          exact iterate_of_measure again hs' (by omega)

theorem exits_of_measure {I : σ → Prop} {μ : σ → ℕ} {s : σ} (hs : I s)
    (again : ∀ s s', I s → body s = .again s' → I s' ∧ μ s' < μ s) : ∃ t, Exits body s t := by
  obtain ⟨t, ht⟩ := iterate_of_measure again hs (Nat.lt_succ_self (μ s))
  exact ⟨t, exits_of_iterate _ ht⟩

/-- `run` is what the loop does. -/
theorem exits_run {μ : σ → ℕ} (again : ∀ s s', body s = .again s' → μ s' < μ s) (s : σ) :
    Exits body s (run body μ s) := by
  obtain ⟨t, ht⟩ := iterate_of_measure (I := fun _ => True) (μ := μ)
    (fun s s' _ h => ⟨trivial, again s s' h⟩) trivial (Nat.lt_succ_self (μ s))
  rw [run, ht]
  exact exits_of_iterate _ ht

end

end Loop
