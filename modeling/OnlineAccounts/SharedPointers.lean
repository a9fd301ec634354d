import Mathlib.Tactic

/-! # Reference counted objects

A `Heap` has objects, each with the number of the strong references to it.  A weak reference is an
address: `lock` makes a strong one of it as long as the object is there.  Dropping the last strong
reference destroys the object, and dropping a reference to an object that is gone is a fault.

`Owned h refs` says that the strong references are those in the list `refs`, whoever holds them.
The objects that are there are then those that the list has (`Owned.alive_iff`), and a reference of
the list can be dropped (`Owned.drop_spec`). -/

namespace SharedPointers

structure Cell (α : Type*) where
  value : α
  strong : ℕ

structure Heap (α : Type*) where
  cell : ℕ → Option (Cell α)
  next : ℕ

/-- The dropped reference is to no object. -/
structure Dangling where
  address : ℕ
deriving DecidableEq

namespace Heap

variable {α : Type*}

def empty : Heap α := ⟨fun _ => none, 0⟩

def write (a : ℕ) (c : Option (Cell α)) (h : Heap α) : Heap α :=
  { h with cell := fun b => if b = a then c else h.cell b }

/-- A new object and the first strong reference to it. -/
def make (value : α) (h : Heap α) : ℕ × Heap α :=
  (h.next, { h.write h.next (some ⟨value, 1⟩) with next := h.next + 1 })

/-- A strong reference made of a weak one. -/
def lock (a : ℕ) (h : Heap α) : Option (Heap α) :=
  (h.cell a).map fun c => h.write a (some { c with strong := c.strong + 1 })

def deref (a : ℕ) (h : Heap α) : Option α := (h.cell a).map Cell.value

/-- Drop a strong reference: the object that is destroyed by that, and what is left. -/
def drop (a : ℕ) (h : Heap α) : Except Dangling (Option α × Heap α) :=
  match h.cell a with
  | none => .error ⟨a⟩
  | some c =>
      if c.strong ≤ 1 then .ok (some c.value, h.write a none)
      else .ok (none, h.write a (some { c with strong := c.strong - 1 }))

@[simp] theorem write_cell (a b : ℕ) (c : Option (Cell α)) (h : Heap α) :
    (h.write a c).cell b = if b = a then c else h.cell b := rfl

theorem deref_write_of_ne {a b : ℕ} (hne : b ≠ a) (c : Option (Cell α)) (h : Heap α) :
    (h.write a c).deref b = h.deref b := by simp [deref, hne]

theorem deref_write_self (a : ℕ) (c : Option (Cell α)) (h : Heap α) :
    (h.write a c).deref a = c.map Cell.value := by simp [deref]

theorem deref_lock {a : ℕ} {h h' : Heap α} (hl : h.lock a = some h') (b : ℕ) :
    h'.deref b = h.deref b := by
  obtain ⟨c, hc, rfl⟩ := Option.map_eq_some_iff.mp hl
  by_cases hb : b = a
  · rw [hb, deref_write_self, deref, hc]
    rfl
  · exact deref_write_of_ne hb _ h

theorem lock_isSome (a : ℕ) (h : Heap α) : (h.lock a).isSome = (h.deref a).isSome := by
  simp [lock, deref]

theorem deref_make (value : α) (h : Heap α) (b : ℕ) :
    (h.make value).2.deref b = if b = h.next then some value else h.deref b := by
  unfold make deref
  by_cases hb : b = h.next <;> simp [hb]

end Heap

/-! ### Who holds the references -/

variable {α : Type*} {h : Heap α} {refs : List ℕ}

/-- The strong references are those of the list. -/
structure Owned (h : Heap α) (refs : List ℕ) : Prop where
  fresh : ∀ a, h.next ≤ a → h.cell a = none
  count : ∀ a, ((h.cell a).elim 0 Cell.strong) = refs.count a
  positive : ∀ a c, h.cell a = some c → 0 < c.strong

theorem owned_empty : Owned (Heap.empty : Heap α) [] where
  fresh := fun _ _ => rfl
  count := fun _ => rfl
  positive := fun _ _ hc => nomatch hc

namespace Owned

/-- Nothing depends on the order of the references. -/
theorem perm {refs' : List ℕ} (ho : Owned h refs) (hp : refs.Perm refs') : Owned h refs' :=
  { ho with count := fun a => (ho.count a).trans (hp.count_eq a) }

theorem alive_iff (ho : Owned h refs) (a : ℕ) : (h.deref a).isSome ↔ a ∈ refs := by
  have hcount := ho.count a
  rw [← List.count_pos_iff, ← hcount, Heap.deref, Option.isSome_map]
  cases hc : h.cell a with
  | none => simp
  | some c => simpa using ho.positive a c hc

theorem next_notMem (ho : Owned h refs) : h.next ∉ refs := by
  rw [← ho.alive_iff, Heap.deref, ho.fresh _ le_rfl]
  simp

theorem lt_next {a : ℕ} {c : Cell α} (ho : Owned h refs) (hc : h.cell a = some c) : a < h.next := by
  by_contra hge
  rw [ho.fresh a (Nat.not_lt.mp hge)] at hc
  cases hc

theorem write {a : ℕ} {c : Option (Cell α)} {refs' : List ℕ} (ho : Owned h refs) (ha : a < h.next)
    (hcount : c.elim 0 Cell.strong = refs'.count a) (hpos : ∀ d ∈ c, 0 < d.strong)
    (hothers : ∀ b, b ≠ a → refs'.count b = refs.count b) : Owned (h.write a c) refs' where
  fresh := by
    intro b hb
    have hne : b ≠ a := by
      rintro rfl
      exact absurd ha (Nat.not_lt.mpr hb)
    rw [Heap.write_cell, if_neg hne]
    exact ho.fresh b hb
  count := by
    intro b
    rw [Heap.write_cell]
    by_cases hb : b = a
    · rw [if_pos hb, hb, hcount]
    · rw [if_neg hb, hothers b hb]
      exact ho.count b
  positive := by
    intro b d hd
    rw [Heap.write_cell] at hd
    split_ifs at hd
    · exact hpos d hd
    · exact ho.positive b d hd

theorem make (ho : Owned h refs) (value : α) : Owned (h.make value).2 (h.next :: refs) := by
  have hgrown : Owned { h with next := h.next + 1 } refs :=
    { ho with fresh := fun a ha => ho.fresh a (Nat.le_of_succ_le ha) }
  refine hgrown.write (Nat.lt_succ_self h.next) ?_ ?_ ?_
  · rw [List.count_cons_self, List.count_eq_zero.mpr ho.next_notMem]
    rfl
  · intro d hd
    cases hd
    exact Nat.one_pos
  · intro b hb
    exact List.count_cons_of_ne (Ne.symm hb)

theorem lock {a : ℕ} {h' : Heap α} (ho : Owned h refs) (hl : h.lock a = some h') :
    Owned h' (a :: refs) := by
  obtain ⟨c, hc, rfl⟩ := Option.map_eq_some_iff.mp hl
  have hcount := ho.count a
  rw [hc, Option.elim_some] at hcount
  refine ho.write (ho.lt_next hc) ?_ ?_ ?_
  · rw [List.count_cons_self, Option.elim_some, hcount]
  · intro d hd
    cases hd
    exact Nat.succ_pos _
  · intro b hb
    exact List.count_cons_of_ne (Ne.symm hb)

/-- A reference that is held can be dropped.  The object is destroyed with its last one. -/
theorem drop_spec {a : ℕ} (ho : Owned h refs) (ha : a ∈ refs) :
    ∃ destroyed h', h.drop a = .ok (destroyed, h') ∧ Owned h' (refs.erase a) ∧
      (∀ b, b ≠ a → h'.deref b = h.deref b) ∧
      ((a ∉ refs.erase a ∧ destroyed = h.deref a ∧ h'.deref a = none) ∨
        (a ∈ refs.erase a ∧ destroyed = none ∧ h'.deref a = h.deref a)) := by
  obtain ⟨value, hvalue⟩ := Option.isSome_iff_exists.mp ((ho.alive_iff a).mpr ha)
  obtain ⟨c, hc, rfl⟩ := Option.map_eq_some_iff.mp hvalue
  have hcount := ho.count a
  rw [hc, Option.elim_some] at hcount
  have herase : (refs.erase a).count a = c.strong - 1 := by rw [List.count_erase_self, hcount]
  have hothers : ∀ b, b ≠ a → (refs.erase a).count b = refs.count b :=
    fun b hb => List.count_erase_of_ne hb
  have hderef : ∀ d b, b ≠ a → (h.write a d).deref b = h.deref b :=
    fun d b hb => Heap.deref_write_of_ne hb d h
  unfold Heap.drop
  rw [hc]
  by_cases hlast : c.strong ≤ 1
  · refine ⟨some c.value, h.write a none, if_pos hlast, ?_, hderef none, .inl ⟨?_, ?_, ?_⟩⟩
    · refine ho.write (ho.lt_next hc) ?_ (by simp) hothers
      rw [Option.elim_none]
      omega
    · rw [← List.count_pos_iff]
      omega
    · rw [hvalue]
    · exact Heap.deref_write_self a none h
  · refine ⟨none, h.write a (some ⟨c.value, c.strong - 1⟩), if_neg hlast, ?_, hderef _,
      .inr ⟨?_, rfl, ?_⟩⟩
    · refine ho.write (ho.lt_next hc) herase.symm ?_ hothers
      intro d hd
      cases hd
      show 0 < c.strong - 1
      omega
    · rw [← List.count_pos_iff]
      omega
    · rw [Heap.deref_write_self, hvalue]
      rfl

end Owned

end SharedPointers
