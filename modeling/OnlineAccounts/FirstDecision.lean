import Mathlib.Tactic

/-! # Decided by the first event

A `Contest` goes on until an event decides it.  `outcome` is what the first deciding event
decides; the events after it count for nothing.

`Implements` relates a contest to a program that handles the same events and keeps the results it
has produced: before the decision the program is in the state that `embed` gives for the state of
the contest, and afterwards it produces no result.  It may fail on the deciding events that
`spoils` names.  `Implements.results_iff` is the rule: at every moment of a run the program has
produced the result of the first decision, and no other, if and only if the event that decides is
none of those. -/

namespace FirstDecision

/-- A contest with states `σ`, events `ε` and outcomes `ω`. -/
structure Contest (σ ε ω : Type*) where
  decides : σ → ε → Option ω
  /-- The state after an event that decides nothing. -/
  next : σ → ε → σ

namespace Contest

variable {σ ε ω : Type*} (c : Contest σ ε ω)

/-- What the first deciding event decides. -/
def outcome : σ → List ε → Option ω
  | _, [] => none
  | s, e :: es => (c.decides s e).or (outcome (c.next s e) es)

/-- The first deciding event, with the state in which it happens, satisfies `P`. -/
def DecidedBy (P : σ → ε → Prop) : σ → List ε → Prop
  | _, [] => False
  | s, e :: es => if (c.decides s e).isSome then P s e else DecidedBy P (c.next s e) es

instance decidedByDecidable {P : σ → ε → Prop} [∀ s e, Decidable (P s e)] :
    ∀ (s : σ) (es : List ε), Decidable (c.DecidedBy P s es)
  | _, [] => inferInstanceAs (Decidable False)
  | s, e :: es =>
      have := decidedByDecidable (P := P) (c.next s e) es
      inferInstanceAs (Decidable (if (c.decides s e).isSome then P s e else
        c.DecidedBy P (c.next s e) es))

variable {c} {P : σ → ε → Prop} {s : σ} {e : ε} {es : List ε}

theorem outcome_cons_some {o : ω} (h : c.decides s e = some o) :
    c.outcome s (e :: es) = some o := by
  simp [outcome, h]

theorem outcome_cons_none (h : c.decides s e = none) :
    c.outcome s (e :: es) = c.outcome (c.next s e) es := by
  simp [outcome, h]

theorem decidedBy_cons_some {o : ω} (h : c.decides s e = some o) :
    c.DecidedBy P s (e :: es) ↔ P s e := by
  simp [DecidedBy, h]

theorem decidedBy_cons_none (h : c.decides s e = none) :
    c.DecidedBy P s (e :: es) ↔ c.DecidedBy P (c.next s e) es := by
  simp [DecidedBy, h]

theorem not_decidedBy (hP : ∀ s e, ¬ P s e) : ∀ (es : List ε) {s : σ}, ¬ c.DecidedBy P s es
  | [], _ => id
  | e :: es, s => by
      cases hd : c.decides s e with
      | none =>
          rw [decidedBy_cons_none hd]
          exact not_decidedBy hP es
      | some o =>
          rw [decidedBy_cons_some hd]
          exact hP s e

/-- When the state has no say in what is decided, the first event that decides counts. -/
theorem outcome_eq_findSome? (decision : ε → Option ω) (next : σ → ε → σ) :
    ∀ (s : σ) (es : List ε), outcome ⟨fun _ => decision, next⟩ s es = es.findSome? decision
  | _, [] => rfl
  | s, e :: es => by
      cases hd : decision e with
      | none =>
          rw [outcome_cons_none hd, List.findSome?_cons_of_isNone (by simp [hd])]
          exact outcome_eq_findSome? decision next _ es
      | some o =>
          rw [outcome_cons_some hd, List.findSome?_cons_of_isSome (by simp [hd])]
          exact hd.symm

theorem decidedBy_append (es' : List ε) : ∀ (es : List ε) {s : σ},
    c.DecidedBy P s es → c.DecidedBy P s (es ++ es')
  | [], _, hs => hs.elim
  | e :: es, s, hs => by
      cases hd : c.decides s e with
      | none =>
          rw [decidedBy_cons_none hd] at hs
          exact (decidedBy_cons_none hd).mpr (decidedBy_append es' es hs)
      | some o =>
          rw [decidedBy_cons_some hd] at hs
          exact (decidedBy_cons_some hd).mpr hs

end Contest

section

variable {σ ε ω α ρ : Type*}

/-- The program with steps `step` produces `result o` when the contest is decided with outcome `o`,
except when the event that decides spoils it. -/
structure Implements (c : Contest σ ε ω) (step : α → ε → α) (results : α → List ρ)
    (embed : σ → α) (result : ω → ρ) (spoils : σ → ε → Prop) (closed : α → Prop) : Prop where
  undecided : ∀ s, results (embed s) = []
  next : ∀ s e, c.decides s e = none → step (embed s) e = embed (c.next s e)
  decided : ∀ s e o, c.decides s e = some o → ¬ spoils s e →
    closed (step (embed s) e) ∧ results (step (embed s) e) = [result o]
  spoilt : ∀ s e o, c.decides s e = some o → spoils s e →
    results (step (embed s) e) ≠ [result o]
  closed_step : ∀ a e, closed a → closed (step a e) ∧ results (step a e) = results a

variable {c : Contest σ ε ω} {step : α → ε → α} {results : α → List ρ} {embed : σ → α}
  {result : ω → ρ} {spoils : σ → ε → Prop} {closed : α → Prop}

namespace Implements

variable (h : Implements c step results embed result spoils closed)

include h in
theorem closed_run (es : List ε) : ∀ {a : α}, closed a →
    results (es.foldl step a) = results a := by
  induction es with
  | nil => exact fun _ => rfl
  | cons e es ih =>
      intro a ha
      obtain ⟨hclosed, hresults⟩ := h.closed_step a e ha
      exact (ih hclosed).trans hresults

include h in
/-- As long as the deciding event spoils nothing, the program has the results of the contest. -/
theorem results_of_not_spoilt (es : List ε) : ∀ {s : σ}, ¬ c.DecidedBy spoils s es →
    results (es.foldl step (embed s)) = ((c.outcome s es).map result).toList := by
  induction es with
  | nil => exact fun _ => h.undecided _
  | cons e es ih =>
      intro s hs
      rw [List.foldl_cons]
      cases hd : c.decides s e with
      | none =>
          rw [Contest.decidedBy_cons_none hd] at hs
          rw [h.next s e hd, Contest.outcome_cons_none hd]
          exact ih hs
      | some o =>
          rw [Contest.decidedBy_cons_some hd] at hs
          obtain ⟨hclosed, hresults⟩ := h.decided s e o hd hs
          rw [h.closed_run es hclosed, hresults, Contest.outcome_cons_some hd]
          rfl

include h in
theorem exists_of_decidedBy {P : σ → ε → Prop} (es : List ε) : ∀ {s : σ}, c.DecidedBy P s es →
    ∃ es' s' e o, es' <+: es ∧ c.outcome s es' = some o ∧ c.decides s' e = some o ∧ P s' e ∧
      es'.foldl step (embed s) = step (embed s') e := by
  induction es with
  | nil => exact fun hs => hs.elim
  | cons e es ih =>
      intro s hs
      cases hd : c.decides s e with
      | none =>
          obtain ⟨es', s', e', o, hprefix, ho, hd', hP, hrun⟩ :=
            ih ((Contest.decidedBy_cons_none hd).mp hs)
          refine ⟨e :: es', s', e', o, List.cons_prefix_cons.mpr ⟨rfl, hprefix⟩, ?_, hd', hP, ?_⟩
          · exact (Contest.outcome_cons_none hd).trans ho
          · rw [List.foldl_cons, h.next s e hd]
            exact hrun
      | some o =>
          exact ⟨[e], s, e, o, List.cons_prefix_cons.mpr ⟨rfl, List.nil_prefix⟩,
            Contest.outcome_cons_some hd, hd, (Contest.decidedBy_cons_some hd).mp hs, rfl⟩

include h in
/-- At every moment the program has the results of the contest, if and only if the event that
decides spoils nothing. -/
theorem results_iff (s : σ) (es : List ε) :
    (∀ es', es' <+: es →
      results (es'.foldl step (embed s)) = ((c.outcome s es').map result).toList) ↔
        ¬ c.DecidedBy spoils s es := by
  constructor
  · intro hall hs
    obtain ⟨es', s', e, o, hprefix, ho, hd, hspoils, hrun⟩ := h.exists_of_decidedBy es hs
    have hresults := hall es' hprefix
    rw [hrun, ho] at hresults
    exact h.spoilt s' e o hd hspoils hresults
  · intro hs es' hprefix
    apply h.results_of_not_spoilt
    intro hs'
    obtain ⟨rest, rfl⟩ := hprefix
    exact hs (Contest.decidedBy_append rest es' hs')

end Implements

end

end FirstDecision
