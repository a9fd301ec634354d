import Mathlib.Tactic

/-! # Copies with time stamps

A copy is brought up to date from its originals, one after the other: it is replaced unless it
carries the time stamp of the original.  An original comes with the copy that is made of it, or with
none if copying fails, which loses the old copy.

A second pass over the same originals changes nothing (`updateAll_idem`), and whatever copy there
was before, a pass that does not keep it ends with the same one (`updateAll_start`). -/

namespace Stamps

variable {κ τ : Type*} [DecidableEq τ] (stamp : κ → τ)

/-- An original: its time stamp, and the copy that is made of it. -/
abbrev Original (κ τ : Type*) := τ × Option κ

def update (copy : Option κ) (o : Original κ τ) : Option κ :=
  if copy.map stamp = some o.1 then copy else o.2

def updateAll (copy : Option κ) (os : List (Original κ τ)) : Option κ :=
  os.foldl (update stamp) copy

/-- Copies carry the time stamps of their originals, and they can all be made or none of them. -/
structure Uniform (os : List (Original κ τ)) : Prop where
  stamped : ∀ o ∈ os, ∀ copy ∈ o.2, stamp copy = o.1
  together : (∀ o ∈ os, o.2.isSome) ∨ ∀ o ∈ os, o.2 = none

variable {stamp}

@[simp] theorem updateAll_cons (copy : Option κ) (o : Original κ τ) (os : List (Original κ τ)) :
    updateAll stamp copy (o :: os) = updateAll stamp (update stamp copy o) os := rfl

theorem update_of_eq {copy : Option κ} {o : Original κ τ} (h : copy.map stamp = some o.1) :
    update stamp copy o = copy := if_pos h

theorem update_of_ne {copy : Option κ} {o : Original κ τ} (h : copy.map stamp ≠ some o.1) :
    update stamp copy o = o.2 := if_neg h

variable (stamp) in
theorem updateAll_cases (copy : Option κ) (os : List (Original κ τ)) :
    updateAll stamp copy os = copy ∨ ∃ o ∈ os, updateAll stamp copy os = o.2 := by
  induction os generalizing copy with
  | nil => exact .inl rfl
  | cons o os ih =>
      rw [updateAll_cons]
      rcases ih (update stamp copy o) with hsame | ⟨o', ho', heq⟩
      · rw [hsame]
        by_cases h : copy.map stamp = some o.1
        · exact .inl (update_of_eq h)
        · exact .inr ⟨o, List.mem_cons_self, update_of_ne h⟩
      · exact .inr ⟨o', List.mem_cons_of_mem _ ho', heq⟩

/-- The outcome carries the time stamp of the last original that can be copied. -/
theorem updateAll_concat_stamp {o : Original κ τ} {made : κ} (hmade : o.2 = some made)
    (hstamp : stamp made = o.1) (copy : Option κ) (os : List (Original κ τ)) :
    (updateAll stamp copy (os ++ [o])).map stamp = some o.1 := by
  have hlast : updateAll stamp copy (os ++ [o]) = update stamp (updateAll stamp copy os) o :=
    List.foldl_append
  rw [hlast]
  by_cases h : (updateAll stamp copy os).map stamp = some o.1
  · rw [update_of_eq h, h]
  · rw [update_of_ne h, hmade, Option.map_some, hstamp]

theorem updateAll_same {copy copy' : Option κ} (h : copy.map stamp = copy'.map stamp)
    (os : List (Original κ τ)) :
    updateAll stamp copy os = copy ∧ updateAll stamp copy' os = copy' ∨
      updateAll stamp copy os = updateAll stamp copy' os := by
  induction os with
  | nil => exact .inl ⟨rfl, rfl⟩
  | cons o os ih =>
      rw [updateAll_cons, updateAll_cons]
      by_cases hstamp : copy.map stamp = some o.1
      · rw [update_of_eq hstamp, update_of_eq (h ▸ hstamp)]
        exact ih
      · rw [update_of_ne hstamp, update_of_ne (h ▸ hstamp)]
        exact .inr rfl

theorem updateAll_of_none {os : List (Original κ τ)} (h : ∀ o ∈ os, o.2 = none)
    (copy : Option κ) : updateAll stamp copy os = copy ∨ updateAll stamp copy os = none :=
  (updateAll_cases stamp copy os).imp_right fun ⟨o, ho, heq⟩ => heq.trans (h o ho)

/-- When a copy is up to date and another one is replaced, they have the same time stamp from then
on. -/
theorem updateAll_replaced {copy : Option κ} {o : Original κ τ} {os : List (Original κ τ)}
    (h : Uniform stamp (o :: os)) (hmade : o.2.isSome) (hstamp : copy.map stamp = some o.1) :
    updateAll stamp copy os = copy ∨ updateAll stamp copy os = updateAll stamp o.2 os := by
  obtain ⟨made, hmade⟩ := Option.isSome_iff_exists.mp hmade
  have hsame : copy.map stamp = o.2.map stamp := by
    rw [hstamp, hmade]
    exact congrArg some (h.stamped o List.mem_cons_self made hmade).symm
  exact (updateAll_same hsame os).imp_left And.left

/-- **The old copy does not matter**: of two copies that are not kept, the same becomes. -/
theorem updateAll_start {os : List (Original κ τ)} (h : Uniform stamp os) (copy copy' : Option κ) :
    updateAll stamp copy os = copy ∨ updateAll stamp copy' os = copy' ∨
      updateAll stamp copy os = updateAll stamp copy' os := by
  rcases h.together with hmade | hfails
  · cases os with
    | nil => exact .inl rfl
    | cons o os =>
        have hmade' := hmade o List.mem_cons_self
        rw [updateAll_cons, updateAll_cons]
        by_cases hstamp : copy.map stamp = some o.1
        · by_cases hstamp' : copy'.map stamp = some o.1
          · rw [update_of_eq hstamp, update_of_eq hstamp']
            exact (updateAll_same (hstamp.trans hstamp'.symm) os).imp And.left .inr
          · rw [update_of_eq hstamp, update_of_ne hstamp']
            exact (updateAll_replaced h hmade' hstamp).imp_right .inr
        · by_cases hstamp' : copy'.map stamp = some o.1
          · rw [update_of_ne hstamp, update_of_eq hstamp']
            exact .inr ((updateAll_replaced h hmade' hstamp').imp_right Eq.symm)
          · rw [update_of_ne hstamp, update_of_ne hstamp']
            exact .inr (.inr rfl)
  · rcases updateAll_of_none hfails copy with hkept | hlost
    · exact .inl hkept
    · exact .inr ((updateAll_of_none hfails copy').imp_right fun hlost' => hlost.trans hlost'.symm)

/-- **A second pass changes nothing.** -/
theorem updateAll_idem {os : List (Original κ τ)} (h : Uniform stamp os) (copy : Option κ) :
    updateAll stamp (updateAll stamp copy os) os = updateAll stamp copy os := by
  rcases updateAll_start h copy (updateAll stamp copy os) with hkept | hkept | hsame
  · rw [hkept, hkept]
  · exact hkept
  · exact hsame.symm

/-- A pass that replaces a copy would have made the same one without it. -/
theorem updateAll_lost {os : List (Original κ τ)} (h : Uniform stamp os) (copy : Option κ) :
    updateAll stamp copy os = copy ∨ updateAll stamp copy os = updateAll stamp none os := by
  rcases h.together with hmade | hfails
  · cases os with
    | nil => exact .inl rfl
    | cons o os =>
        have hnone : updateAll stamp none (o :: os) = updateAll stamp o.2 os := rfl
        rw [hnone, updateAll_cons]
        by_cases hstamp : copy.map stamp = some o.1
        · rw [update_of_eq hstamp]
          exact updateAll_replaced h (hmade o List.mem_cons_self) hstamp
        · rw [update_of_ne hstamp]
          exact .inr rfl
  · rcases updateAll_of_none hfails copy with hkept | hlost
    · exact .inl hkept
    · have hnone : updateAll stamp none os = none :=
        or_self_iff.mp (updateAll_of_none hfails none)
      exact .inr (hlost.trans hnone.symm)

end Stamps
