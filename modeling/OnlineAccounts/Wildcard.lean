import Mathlib.Tactic

/-! # Wildcard patterns

File names are looked up with patterns in the manner of a shell: `*` stands for any text, `?` for
any character, and `[..]` for a character of a set, in which `a-z` is a range and which `^`
negates.  Everything else stands for itself, in upper or lower case.  A pattern with a set that
is not closed accepts nothing. -/

namespace Wildcard

inductive Token where
  | char (c : Char)
  | any
  | star
  | set (negated : Bool) (members : List Char)

/-- The tokens of a pattern, where `reading` is the set that is being read. -/
def parse (reading : Option (Bool × List Char)) : List Char → Option (List Token)
  | [] => match reading with
    | none => some []
    | some _ => none
  | c :: cs => match reading with
    | none =>
        if c = '*' then (parse none cs).map (.star :: ·)
        else if c = '?' then (parse none cs).map (.any :: ·)
        else if c = '[' then parse (some (false, [])) cs
        else (parse none cs).map (.char c :: ·)
    | some (negated, members) =>
        if c = '^' ∧ negated = false ∧ members = [] then parse (some (true, [])) cs
        else if c = ']' ∧ members ≠ [] then (parse none cs).map (.set negated members :: ·)
        else parse (some (negated, members ++ [c])) cs

/-- A character is in a set with ranges. -/
def isMember (c : Char) : List Char → Bool
  | a :: '-' :: b :: members => (a ≤ c && c ≤ b) || isMember c members
  | a :: members => a == c || isMember c members
  | [] => false

def Token.acceptsChar (c : Char) : Token → Bool
  | .char d => d.toLower = c.toLower
  | .any => true
  | .star => false
  | .set negated members => (isMember c.toLower members || isMember c.toUpper members) != negated

def acceptsTokens : List Token → List Char → Bool
  | [], cs => cs.isEmpty
  | .star :: ts, cs => cs.tails.any (acceptsTokens ts)
  | t :: ts, cs => match cs with
    | [] => false
    | c :: cs => t.acceptsChar c && acceptsTokens ts cs

/-- The pattern accepts the name. -/
def accepts (pattern name : String) : Bool :=
  match parse none pattern.toList with
  | none => false
  | some ts => acceptsTokens ts name.toList

/-! ### Literal text -/

/-- The text has no wildcards. -/
def Literal (cs : List Char) : Prop := ∀ c ∈ cs, c ≠ '*' ∧ c ≠ '?' ∧ c ≠ '['

instance (cs : List Char) : Decidable (Literal cs) :=
  List.decidableBAll (fun c => c ≠ '*' ∧ c ≠ '?' ∧ c ≠ '[') cs

theorem Literal.append {cs ds : List Char} (h : Literal cs) (h' : Literal ds) :
    Literal (cs ++ ds) := by
  intro c hc
  rcases List.mem_append.mp hc with hc | hc
  · exact h c hc
  · exact h' c hc

theorem parse_literal {cs : List Char} (h : Literal cs) (ds : List Char) :
    parse none (cs ++ ds) = (parse none ds).map (cs.map Token.char ++ ·) := by
  induction cs with
  | nil => simp
  | cons c cs ih =>
      obtain ⟨⟨hstar, hany, hset⟩, hcs⟩ := List.forall_mem_cons.mp h
      rw [List.cons_append, parse]
      simp only [hstar, hany, hset, if_false]
      rw [ih hcs]
      cases parse none ds <;> rfl

theorem parse_star (cs : List Char) :
    parse none ('*' :: cs) = (parse none cs).map (.star :: ·) := rfl

theorem parse_of_literal {cs : List Char} (h : Literal cs) :
    parse none cs = some (cs.map Token.char) := by
  have hparse := parse_literal h []
  simpa [parse] using hparse

theorem acceptsTokens_literal (cs : List Char) (ts : List Token) (ds : List Char) :
    acceptsTokens (cs.map Token.char ++ ts) ds = true ↔
      ∃ ds₁ ds₂, ds = ds₁ ++ ds₂ ∧ ds₁.map Char.toLower = cs.map Char.toLower ∧
        acceptsTokens ts ds₂ = true := by
  induction cs generalizing ds with
  | nil =>
      constructor
      · intro h
        exact ⟨[], ds, rfl, rfl, h⟩
      · rintro ⟨ds₁, ds₂, rfl, hlower, h⟩
        obtain rfl := List.map_eq_nil_iff.mp hlower
        exact h
  | cons c cs ih =>
      cases ds with
      | nil =>
          simp only [List.map_cons, List.cons_append, acceptsTokens, Bool.false_eq_true, false_iff]
          rintro ⟨ds₁, ds₂, he, hlower, -⟩
          obtain rfl := (List.append_eq_nil_iff.mp he.symm).1
          cases hlower
      | cons d ds =>
          simp only [List.map_cons, List.cons_append, acceptsTokens, Token.acceptsChar,
            Bool.and_eq_true, decide_eq_true_eq, ih]
          constructor
          · rintro ⟨hd, ds₁, ds₂, rfl, hlower, h⟩
            exact ⟨d :: ds₁, ds₂, rfl, by rw [List.map_cons, hd, hlower], h⟩
          · rintro ⟨ds₁, ds₂, he, hlower, h⟩
            cases ds₁ with
            | nil => cases hlower
            | cons d' ds₁ =>
                obtain ⟨rfl, rfl⟩ := List.cons.inj he
                obtain ⟨hd, hds⟩ := List.cons.inj hlower
                exact ⟨hd.symm, ds₁, ds₂, rfl, hds, h⟩

theorem acceptsTokens_star (ts : List Token) (ds : List Char) :
    acceptsTokens (.star :: ts) ds = true ↔
      ∃ ds₁ ds₂, ds = ds₁ ++ ds₂ ∧ acceptsTokens ts ds₂ = true := by
  simp only [acceptsTokens, List.any_eq_true, List.mem_tails]
  constructor
  · rintro ⟨ds₂, ⟨ds₁, rfl⟩, h⟩
    exact ⟨ds₁, ds₂, rfl, h⟩
  · rintro ⟨ds₁, ds₂, rfl, h⟩
    exact ⟨ds₂, ⟨ds₁, rfl⟩, h⟩

/-- A text followed by `*` accepts the names that start with it. -/
theorem accepts_start_iff {start : String} (h : Literal start.toList) (name : String) :
    accepts (start ++ "*") name = true ↔
      ∃ cs, cs <+: name.toList ∧ cs.map Char.toLower = start.toList.map Char.toLower := by
  have hparse : parse none (start ++ "*").toList =
      some (start.toList.map Token.char ++ [.star]) := by
    rw [String.toList_append, parse_literal h]
    rfl
  unfold accepts
  simp only [hparse]
  rw [acceptsTokens_literal]
  constructor
  · rintro ⟨ds₁, ds₂, he, hlower, -⟩
    exact ⟨ds₁, ⟨ds₂, he.symm⟩, hlower⟩
  · rintro ⟨ds₁, ⟨ds₂, he⟩, hlower⟩
    exact ⟨ds₁, ds₂, he.symm, hlower, (acceptsTokens_star _ _).mpr ⟨ds₂, [], by simp, rfl⟩⟩

/-- A pattern with one `*` accepts the names that fill it in. -/
theorem accepts_fill {start rest : String} (h : Literal start.toList) (h' : Literal rest.toList)
    (text : String) : accepts (start ++ "*" ++ rest) (start ++ text ++ rest) = true := by
  have hparse : parse none (start ++ "*" ++ rest).toList =
      some (start.toList.map Token.char ++ .star :: rest.toList.map Token.char) := by
    rw [String.toList_append, String.toList_append, List.append_assoc, parse_literal h]
    change (parse none ('*' :: rest.toList)).map _ = _
    rw [parse_star, parse_of_literal h']
    rfl
  unfold accepts
  simp only [hparse]
  rw [acceptsTokens_literal]
  refine ⟨start.toList, text.toList ++ rest.toList, by simp, rfl, ?_⟩
  rw [acceptsTokens_star]
  refine ⟨text.toList, rest.toList, rfl, ?_⟩
  have hself := acceptsTokens_literal rest.toList [] rest.toList
  rw [List.append_nil] at hself
  exact hself.mpr ⟨rest.toList, [], by simp, rfl, rfl⟩

end Wildcard
