import Mathlib.Tactic

/-! # Sequences of writes

A store is a function from keys to values.  A list of writes is applied from left to right, so
each key ends with the last value written to it (`applyWrites_apply`), and the whole list
changes nothing exactly when the last write of every key repeats the stored value
(`applyWrites_eq_self_iff`).  Steps that write many keys at once are described by the values that
they give to each key (`foldl_apply`).

Where the writes come from a list of writers, each key has a `lastWriter`.  When some of the
writers write again, the store stays as it is exactly if none of them has been overwritten by one
that does not (`rewrite_eq_self_iff`). -/

namespace Writes

variable {κ ν : Type*} [DecidableEq κ]

/-- Apply the writes in order. -/
def applyWrites (f : κ → ν) (ws : List (κ × ν)) : κ → ν :=
  ws.foldl (fun g w => Function.update g w.1 w.2) f

/-- The last value written to a key, if it is written at all. -/
def lastWrite : List (κ × ν) → κ → Option ν
  | [], _ => none
  | w :: ws, k => (lastWrite ws k).or (if w.1 = k then some w.2 else none)

@[simp] theorem applyWrites_nil (f : κ → ν) : applyWrites f [] = f := rfl

@[simp] theorem applyWrites_cons (f : κ → ν) (w : κ × ν) (ws : List (κ × ν)) :
    applyWrites f (w :: ws) = applyWrites (Function.update f w.1 w.2) ws := rfl

theorem applyWrites_apply (f : κ → ν) (ws : List (κ × ν)) (k : κ) :
    applyWrites f ws k = (lastWrite ws k).getD (f k) := by
  induction ws generalizing f with
  | nil => rfl
  | cons w ws ih =>
      rw [applyWrites_cons, ih, lastWrite]
      cases lastWrite ws k with
      | some v => rfl
      | none =>
          by_cases hk : w.1 = k
          · subst hk
            simp
          · simp [hk, Function.update_of_ne (Ne.symm hk)]

theorem applyWrites_eq_self_iff (f : κ → ν) (ws : List (κ × ν)) :
    applyWrites f ws = f ↔ ∀ k v, lastWrite ws k = some v → f k = v := by
  constructor
  · intro h k v hv
    have := congrFun h k
    rw [applyWrites_apply, hv] at this
    exact this.symm
  · intro h
    funext k
    rw [applyWrites_apply]
    cases hk : lastWrite ws k with
    | none => rfl
    | some v => exact (h k v hk).symm

theorem lastWrite_append (ws ws' : List (κ × ν)) (k : κ) :
    lastWrite (ws ++ ws') k = (lastWrite ws' k).or (lastWrite ws k) := by
  induction ws with
  | nil => simp [lastWrite]
  | cons w ws ih => rw [List.cons_append, lastWrite, ih, lastWrite, Option.or_assoc]

theorem mem_of_lastWrite {ws : List (κ × ν)} {k : κ} {v : ν} (h : lastWrite ws k = some v) :
    (k, v) ∈ ws := by
  induction ws with
  | nil => cases h
  | cons w ws ih =>
      rw [lastWrite, Option.or_eq_some_iff] at h
      rcases h with h | ⟨-, h⟩
      · exact List.mem_cons_of_mem w (ih h)
      · split_ifs at h with hk
        obtain rfl := Option.some.inj h
        subst hk
        exact List.mem_cons_self

theorem lastWrite_eq_none_iff {ws : List (κ × ν)} {k : κ} :
    lastWrite ws k = none ↔ ∀ v, (k, v) ∉ ws := by
  constructor
  · intro h v hmem
    obtain ⟨ws₁, ws₂, rfl⟩ := List.append_of_mem hmem
    simp [lastWrite_append, lastWrite] at h
  · intro h
    cases hk : lastWrite ws k with
    | none => rfl
    | some v => exact absurd (mem_of_lastWrite hk) (h v)

omit [DecidableEq κ] in
/-- If every step gives a key some values one after another, the key ends with the last of all. -/
theorem foldl_apply {ε : Type*} {step : (κ → ν) → ε → κ → ν} {given : κ → ε → List ν}
    (hstep : ∀ f e k, step f e k = (given k e).getLast?.getD (f k)) (es : List ε) (f : κ → ν)
    (k : κ) : es.foldl step f k = (es.flatMap (given k)).getLast?.getD (f k) := by
  induction es generalizing f with
  | nil => rfl
  | cons e es ih =>
      rw [List.foldl_cons, ih, hstep, List.flatMap_cons, List.getLast?_append]
      cases (es.flatMap (given k)).getLast? <;> rfl

/-! ### Writers -/

section Writers

variable {α : Type*} (ws : α → List (κ × ν))

/-- The last of the writers that write a key. -/
def lastWriter : List α → κ → Option α
  | [], _ => none
  | a :: as, k => (lastWriter as k).or (if (lastWrite (ws a) k).isSome then some a else none)

variable {ws}

theorem lastWriter_eq_some {as : List α} {k : κ} {a : α} (h : lastWriter ws as k = some a) :
    a ∈ as ∧ (lastWrite (ws a) k).isSome = true := by
  induction as with
  | nil => cases h
  | cons b as ih =>
      rw [lastWriter, Option.or_eq_some_iff] at h
      rcases h with h | ⟨-, h⟩
      · exact ⟨List.mem_cons_of_mem b (ih h).1, (ih h).2⟩
      · split_ifs at h with hwrite
        obtain rfl := Option.some.inj h
        exact ⟨List.mem_cons_self, hwrite⟩

theorem lastWriter_eq_none_iff {as : List α} {k : κ} :
    lastWriter ws as k = none ↔ ∀ a ∈ as, lastWrite (ws a) k = none := by
  induction as with
  | nil => simp [lastWriter]
  | cons a as ih =>
      rw [lastWriter, Option.or_eq_none_iff, ih, List.forall_mem_cons]
      cases lastWrite (ws a) k <;> simp

/-- The value of a key is the last one of its last writer. -/
theorem lastWrite_flatMap (as : List α) (k : κ) :
    lastWrite (as.flatMap ws) k = (lastWriter ws as k).bind fun a => lastWrite (ws a) k := by
  induction as with
  | nil => rfl
  | cons a as ih =>
      rw [List.flatMap_cons, lastWrite_append, ih, lastWriter]
      cases hlast : lastWriter ws as k with
      | none =>
          cases hwrite : lastWrite (ws a) k with
          | none => simp
          | some v => simp [hwrite]
      | some b =>
          obtain ⟨v, hv⟩ := Option.isSome_iff_exists.mp (lastWriter_eq_some hlast).2
          simp [hv]

/-- The last writer of all is the last one of any selection that it belongs to. -/
theorem lastWriter_filter {p : α → Bool} {as : List α} {k : κ} {a : α}
    (h : lastWriter ws as k = some a) (hp : p a = true) :
    lastWriter ws (as.filter p) k = some a := by
  induction as with
  | nil => cases h
  | cons b as ih =>
      rw [lastWriter, Option.or_eq_some_iff] at h
      rcases h with h | ⟨hnone, h⟩
      · have hlast := ih h
        by_cases hb : p b = true
        · rw [List.filter_cons_of_pos hb, lastWriter, hlast, Option.some_or]
        · rw [List.filter_cons_of_neg hb, hlast]
      · split_ifs at h with hwrite
        obtain rfl := Option.some.inj h
        have hrest : lastWriter ws (as.filter p) k = none := by
          rw [lastWriter_eq_none_iff] at hnone ⊢
          intro c hc
          exact hnone c (List.mem_of_mem_filter hc)
        rw [List.filter_cons_of_pos hp, lastWriter, hrest, Option.none_or, if_pos hwrite]

/-- Some of the writers write again.  If no writer repeats what another one writes, the store is
left as it is exactly if those whose writes can be seen write again themselves. -/
theorem rewrite_eq_self_iff (f : κ → ν) (as : List α) (again : α → Bool)
    (hdistinct : ∀ a ∈ as, ∀ b ∈ as, ∀ k v, again a = false → again b = true →
      lastWrite (ws a) k = some v → lastWrite (ws b) k ≠ some v) :
    applyWrites (applyWrites f (as.flatMap ws)) ((as.filter again).flatMap ws) =
        applyWrites f (as.flatMap ws) ↔
      ∀ k a, lastWriter ws as k = some a → again a = false →
        ∀ b ∈ as, again b = true → lastWrite (ws b) k = none := by
  rw [applyWrites_eq_self_iff]
  constructor
  · intro h k a hlast hagain b hb hbagain
    by_contra hwrite
    obtain ⟨v, hv⟩ := Option.isSome_iff_exists.mp (lastWriter_eq_some hlast).2
    cases hselected : lastWriter ws (as.filter again) k with
    | none =>
        rw [lastWriter_eq_none_iff] at hselected
        exact hwrite (hselected b (List.mem_filter.mpr ⟨hb, hbagain⟩))
    | some c =>
        obtain ⟨hc, hcwrite⟩ := lastWriter_eq_some hselected
        obtain ⟨hc, hcagain⟩ := List.mem_filter.mp hc
        obtain ⟨v', hv'⟩ := Option.isSome_iff_exists.mp hcwrite
        have hstored := h k v' (by rw [lastWrite_flatMap, hselected]; exact hv')
        rw [applyWrites_apply, lastWrite_flatMap, hlast, Option.bind_some, hv] at hstored
        obtain rfl : v = v' := hstored
        exact hdistinct a (lastWriter_eq_some hlast).1 c hc k v hagain hcagain hv hv'
  · intro h k v hv
    rw [lastWrite_flatMap, Option.bind_eq_some_iff] at hv
    obtain ⟨c, hselected, hv⟩ := hv
    obtain ⟨hc, hcwrite⟩ := lastWriter_eq_some hselected
    obtain ⟨hc, hcagain⟩ := List.mem_filter.mp hc
    rw [applyWrites_apply, lastWrite_flatMap]
    cases hlast : lastWriter ws as k with
    | none =>
        rw [lastWriter_eq_none_iff] at hlast
        rw [hlast c hc] at hv
        cases hv
    | some a =>
        cases hagain : again a with
        | false =>
            rw [h k a hlast hagain c hc hcagain] at hv
            cases hv
        | true =>
            rw [lastWriter_filter hlast hagain] at hselected
            obtain rfl := Option.some.inj hselected
            rw [Option.bind_some, hv]
            rfl

end Writers

end Writes
