import Mathlib.Data.List.Basic
import Mathlib.Logic.Relation

/-! # Regular expressions and what they remove

Backtracking regular expressions, with the start of the subject as their only anchor (there is no
multi-line mode).  An expression tries its matches in a fixed order, the longest repetition first;
`remove` takes the first match that is not empty out of the text, at each place in turn.

An expression that ends with the anchor has empty matches only, and removes nothing
(`remove_seq_bol`): behind a character, no place is the start of the subject. -/

inductive RegExp where
  | char (c : Char)
  /-- The start of the subject. -/
  | bol
  | seq (r s : RegExp)
  | star (r : RegExp)

namespace RegExp

/-- A place in the subject: whether it is the start, and what follows. -/
structure Place where
  atStart : Bool
  rest : List Char
deriving DecidableEq

/-- Up to `n` rounds of `f`, as many as possible first; each round takes some text. -/
def rounds (f : Place → List Place) : ℕ → Place → List Place
  | 0, p => [p]
  | n + 1, p => ((f p).filter (·.rest.length < p.rest.length)).flatMap (rounds f n) ++ [p]

/-- The places where a match from `p` can end, in the order in which they are tried. -/
def ends : RegExp → Place → List Place
  | char c, p =>
      match p.rest with
      | [] => []
      | c' :: rest => if c' = c then [⟨false, rest⟩] else []
  | bol, p => if p.atStart then [p] else []
  | seq r s, p => (r.ends p).flatMap s.ends
  -- no round is empty, so the length of the text bounds their number
  | star r, p => rounds r.ends p.rest.length p

/-- Where the first match from `p` that is not empty ends. -/
def consumes (r : RegExp) (p : Place) : Option Place :=
  (r.ends p).find? (·.rest.length < p.rest.length)

/-- The text without the matches; the first `skip` characters belong to the last match. -/
def removeFrom (r : RegExp) : (skip : ℕ) → (atStart : Bool) → List Char → List Char
  | _, _, [] => []
  | skip + 1, _, _ :: t => removeFrom r skip false t
  | 0, atStart, c :: t =>
      match r.consumes ⟨atStart, c :: t⟩ with
      | some q => removeFrom r (t.length - q.rest.length) false t
      | none => c :: removeFrom r 0 false t

def remove (r : RegExp) (s : String) : String := String.ofList (r.removeFrom 0 true s.toList)

/-! ### Where matches end -/

/-- What `rounds` reaches is reached by single rounds. -/
theorem reflTransGen_of_mem_rounds {f : Place → List Place} {n : ℕ} {p q : Place}
    (h : q ∈ rounds f n p) : Relation.ReflTransGen (fun p q => q ∈ f p) p q := by
  induction n generalizing p with
  | zero =>
      have hq : q = p := by simpa [rounds] using h
      exact hq ▸ .refl
  | succ n ih =>
      simp only [rounds, List.mem_append, List.mem_flatMap, List.mem_filter,
        List.mem_singleton] at h
      obtain ⟨m, ⟨hm, _⟩, hq⟩ | rfl := h
      · exact .head hm (ih hq)
      · exact .refl

theorem eq_of_mem_ends_atStart (r : RegExp) {p q : Place} (h : q ∈ r.ends p)
    (hq : q.atStart = true) : q = p := by
  induction r generalizing p q with
  | char c =>
      simp only [ends] at h
      split at h
      · simp at h
      · split at h
        · rw [List.mem_singleton] at h
          rw [h] at hq
          exact absurd hq (by simp)
        · simp at h
  | bol =>
      simp only [ends] at h
      split at h
      · exact List.mem_singleton.1 h
      · simp at h
  | seq r s ihr ihs =>
      obtain ⟨m, hm, hqm⟩ := List.mem_flatMap.1 h
      have e : q = m := ihs hqm hq
      exact e.trans (ihr hm (e ▸ hq))
  | star r ih =>
      have hreach := reflTransGen_of_mem_rounds h
      clear h
      induction hreach using Relation.ReflTransGen.head_induction_on with
      | refl => rfl
      | head hm _ ihm => exact ihm.trans (ih hm (ihm ▸ hq))

/-- An expression that ends with the anchor has empty matches only. -/
theorem consumes_seq_bol (r : RegExp) (p : Place) : (seq r bol).consumes p = none := by
  refine List.find?_eq_none.2 fun q hq => ?_
  have hstart : q.atStart = true := by
    obtain ⟨m, _, hm⟩ := List.mem_flatMap.1 hq
    simp only [ends] at hm
    split at hm
    · next hs => exact (List.mem_singleton.1 hm) ▸ hs
    · simp at hm
  rw [eq_of_mem_ends_atStart _ hq hstart]
  simp

/-! ### What is removed -/

theorem removeFrom_of_consumes {r : RegExp} (h : ∀ p, r.consumes p = none) (atStart : Bool)
    (t : List Char) : r.removeFrom 0 atStart t = t := by
  induction t generalizing atStart with
  | nil => rfl
  | cons c t ih => simp only [removeFrom, h, ih]

theorem remove_seq_bol (r : RegExp) (s : String) : (seq r bol).remove s = s := by
  rw [remove, removeFrom_of_consumes (consumes_seq_bol r), String.ofList_toList]

-- without the anchor, all slashes go
example : (star (char '/')).remove "/a//b/" = "ab" := by decide

end RegExp
