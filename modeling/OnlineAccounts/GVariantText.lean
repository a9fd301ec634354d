import Mathlib.Data.List.TakeWhile
import Mathlib.Tactic

/-! # Arrays of strings in the text format of GVariant

`parse` reads the literal of an array of strings, as a C string: elements in brackets with commas
between them, each of them a text in single or double quotes, which may have its type in front.  In
the text a backslash starts an escape; white space may stand around the elements.

Each thing that a literal can have beside its elements takes some of the text.  So the text of a
literal is no shorter than its elements with two quotes and a separator each, and if it is not
longer either, the elements stand in it as they are (`elements_takes`).  Hence putting elements in
single quotes makes a literal of them exactly if none of them has a character that is special there
(`parse_quoted_iff`). -/

namespace GVariantText

def isSpace (c : Char) : Bool := c ∈ [' ', '\t', '\n', '\x0c', '\r']

/-- The value of a hexadecimal digit. -/
def hexValue (c : Char) : Option ℕ :=
  if '0' ≤ c ∧ c ≤ '9' then some (c.toNat - '0'.toNat)
  else if 'a' ≤ c ∧ c ≤ 'f' then some (c.toNat - 'a'.toNat + 10)
  else if 'A' ≤ c ∧ c ≤ 'F' then some (c.toNat - 'A'.toNat + 10)
  else none

/-- What an escape with one letter stands for; other characters stand for themselves. -/
def unescape (c : Char) : Char :=
  match c with
  | 'a' => '\x07'
  | 'b' => '\x08'
  | 'f' => '\x0c'
  | 'n' => '\n'
  | 'r' => '\r'
  | 't' => '\t'
  | 'v' => '\x0b'
  | c => c

/-- Where a reader is in a string. -/
inductive Mode where
  | plain
  /-- Behind a backslash. -/
  | escape
  /-- In the digits of a character, with `left` digits after the next one. -/
  | digits (left value : ℕ)
deriving DecidableEq

/-- The rest of a string up to its closing quote, and what follows that. -/
def stringBody (quote : Char) : Mode → List Char → Option (List Char × List Char)
  | _, [] => none
  | .plain, c :: cs =>
      if c = quote then some ([], cs)
      else if c = '\\' then stringBody quote .escape cs
      else (stringBody quote .plain cs).map fun r => (c :: r.1, r.2)
  | .escape, c :: cs =>
      if c = 'u' then stringBody quote (.digits 3 0) cs
      else if c = 'U' then stringBody quote (.digits 7 0) cs
      else if c = '\n' then stringBody quote .plain cs
      else (stringBody quote .plain cs).map fun r => (unescape c :: r.1, r.2)
  | .digits left value, c :: cs =>
      match hexValue c with
      | none => none
      | some digit =>
          let value := 16 * value + digit
          match left with
          | left + 1 => stringBody quote (.digits left value) cs
          | 0 =>
              if value = 0 ∨ ¬ value.isValidChar then none
              else (stringBody quote .plain cs).map fun r => (Char.ofNat value :: r.1, r.2)

/-- The element behind white space and types. -/
def elementStart : List Char → List Char
  | '@' :: 's' :: c :: cs => if isSpace c then elementStart cs else '@' :: 's' :: c :: cs
  | 's' :: 't' :: 'r' :: 'i' :: 'n' :: 'g' :: cs =>
      if cs.head?.any Char.isAlphanum then 's' :: 't' :: 'r' :: 'i' :: 'n' :: 'g' :: cs
      else elementStart cs
  | c :: cs => if isSpace c then elementStart cs else c :: cs
  | [] => []

def element (cs : List Char) : Option (List Char × List Char) :=
  match elementStart cs with
  | [] => none
  | quote :: cs => if quote = '\'' ∨ quote = '"' then stringBody quote .plain cs else none

def skipSpace (cs : List Char) : List Char := cs.dropWhile isSpace

/-- At most `n` elements, and what follows the bracket behind them. -/
def elements : ℕ → List Char → Option (List (List Char) × List Char)
  | 0, _ => none
  | n + 1, cs =>
      match element cs with
      | none => none
      | some (s, cs) =>
          match skipSpace cs with
          | ']' :: cs => some ([s], cs)
          | ',' :: cs => (elements n cs).map fun r => (s :: r.1, r.2)
          | _ => none

def array (cs : List Char) : Option (List (List Char) × List Char) :=
  match skipSpace cs with
  | '[' :: cs =>
      match skipSpace cs with
      | ']' :: cs => some ([], cs)
      -- an element takes some text
      | _ => elements cs.length cs
  | _ => none

/-- The array of a literal, with nothing but white space behind it. -/
def parse (text : String) : Option (List String) :=
  match array (text.toList.takeWhile (· ≠ '\x00')) with
  | some (strings, rest) => if rest.all isSpace then some (strings.map String.ofList) else none
  | none => none

/-! ### What a string takes -/

/-- A string takes at least its own length, and exactly this only without escapes. -/
theorem stringBody_takes {quote : Char} {mode : Mode} {cs out rest : List Char}
    (h : stringBody quote mode cs = some (out, rest)) :
    ∃ taken, cs = taken ++ quote :: rest ∧ out.length ≤ taken.length ∧
      (mode = .plain → taken.length ≤ out.length →
        taken = out ∧ quote ∉ out ∧ '\\' ∉ out) := by
  induction cs generalizing mode out with
  | nil => simp [stringBody] at h
  | cons c cs ih =>
      -- a character is taken in front of what the rest of the string takes
      have hlonger {mode' : Mode} {out' : List Char}
          (h' : stringBody quote mode' cs = some (out', rest))
          (hlen : out.length ≤ out'.length + 1) (hmode : mode ≠ .plain) :
          ∃ taken, c :: cs = taken ++ quote :: rest ∧ out.length ≤ taken.length ∧
            (mode = .plain → taken.length ≤ out.length →
              taken = out ∧ quote ∉ out ∧ '\\' ∉ out) := by
        obtain ⟨taken, rfl, htaken, _⟩ := ih h'
        refine ⟨c :: taken, rfl, ?_, fun hm => absurd hm hmode⟩
        rw [List.length_cons]
        omega
      cases mode with
      | plain =>
          simp only [stringBody] at h
          split_ifs at h with hquote hescape
          · obtain ⟨rfl, rfl⟩ := Prod.mk.inj (Option.some.inj h)
            exact ⟨[], by rw [hquote]; rfl, le_rfl, fun _ _ => ⟨rfl, by simp, by simp⟩⟩
          · obtain ⟨taken, rfl, htaken, _⟩ := ih h
            refine ⟨c :: taken, rfl, by rw [List.length_cons]; omega, fun _ htight => ?_⟩
            rw [List.length_cons] at htight
            omega
          · obtain ⟨⟨out', rest'⟩, h', heq⟩ := Option.map_eq_some_iff.1 h
            obtain ⟨rfl, rfl⟩ := Prod.mk.inj heq
            obtain ⟨taken, rfl, htaken, hplain⟩ := ih h'
            refine ⟨c :: taken, rfl, Nat.succ_le_succ htaken, fun _ htight => ?_⟩
            obtain ⟨rfl, hq, hb⟩ := hplain rfl (Nat.le_of_succ_le_succ htight)
            refine ⟨rfl, ?_, ?_⟩
            · exact fun hmem => (List.mem_cons.1 hmem).elim (fun e => hquote e.symm) hq
            · exact fun hmem => (List.mem_cons.1 hmem).elim (fun e => hescape e.symm) hb
      | escape =>
          simp only [stringBody] at h
          split_ifs at h
          · exact hlonger h (Nat.le_succ _) Mode.noConfusion
          · exact hlonger h (Nat.le_succ _) Mode.noConfusion
          · exact hlonger h (Nat.le_succ _) Mode.noConfusion
          · obtain ⟨⟨out', rest'⟩, h', heq⟩ := Option.map_eq_some_iff.1 h
            obtain ⟨rfl, rfl⟩ := Prod.mk.inj heq
            exact hlonger h' le_rfl Mode.noConfusion
      | digits left value =>
          simp only [stringBody] at h
          split at h
          · simp at h
          · cases left with
            | succ left => exact hlonger h (Nat.le_succ _) Mode.noConfusion
            | zero =>
                dsimp only at h
                split_ifs at h
                obtain ⟨⟨out', rest'⟩, h', heq⟩ := Option.map_eq_some_iff.1 h
                obtain ⟨rfl, rfl⟩ := Prod.mk.inj heq
                exact hlonger h' le_rfl Mode.noConfusion

theorem stringBody_plain {quote : Char} {s : List Char} (hq : quote ∉ s) (hb : '\\' ∉ s)
    (rest : List Char) : stringBody quote .plain (s ++ quote :: rest) = some (s, rest) := by
  induction s with
  | nil => simp [stringBody]
  | cons c s ih =>
      simp only [List.mem_cons, not_or] at hq hb
      rw [List.cons_append, stringBody, if_neg (Ne.symm hq.1), if_neg (Ne.symm hb.1), ih hq.2 hb.2]
      rfl

/-! ### What an element takes -/

theorem elementStart_suffix (cs : List Char) : elementStart cs <:+ cs := by
  fun_induction elementStart cs with
  | case1 c cs hspace ih => exact ih.trans ⟨['@', 's', c], rfl⟩
  | case2 => exact List.suffix_rfl
  | case3 => exact List.suffix_rfl
  | case4 cs hletter ih => exact ih.trans ⟨"string".toList, rfl⟩
  | case5 c cs _ _ hspace ih => exact ih.trans (List.suffix_cons c cs)
  | case6 => exact List.suffix_rfl
  | case7 => exact List.suffix_rfl

def IsQuote (c : Char) : Prop := c = '\'' ∨ c = '"'

instance (c : Char) : Decidable (IsQuote c) := inferInstanceAs (Decidable (_ ∨ _))

theorem elementStart_quote {quote : Char} (h : IsQuote quote) (cs : List Char) :
    elementStart (quote :: cs) = quote :: cs := by
  obtain rfl | rfl := h
  · simp [elementStart, isSpace]
  · simp [elementStart, isSpace]

/-- An element takes its length and two quotes at least, and exactly this only if it stands there
as it is. -/
theorem element_takes {cs s rest : List Char} (h : element cs = some (s, rest)) :
    s.length + 2 + rest.length ≤ cs.length ∧
      (cs.length ≤ s.length + 2 + rest.length →
        ∃ quote, IsQuote quote ∧ quote ∉ s ∧ '\\' ∉ s ∧ cs = quote :: (s ++ quote :: rest)) := by
  unfold element at h
  obtain ⟨front, hfront⟩ := elementStart_suffix cs
  split at h
  · simp at h
  · next quote cs' hstart =>
      split_ifs at h with hquote
      obtain ⟨taken, rfl, htaken, hplain⟩ := stringBody_takes h
      rw [hstart] at hfront
      have hlength := congrArg List.length hfront
      simp only [List.length_append, List.length_cons] at hlength
      refine ⟨by omega, fun htight => ?_⟩
      obtain ⟨rfl, hq, hb⟩ := hplain rfl (by omega)
      have hnil : front = [] := List.eq_nil_of_length_eq_zero (by omega)
      exact ⟨quote, hquote, hq, hb, by rw [← hfront, hnil, List.nil_append]⟩

theorem element_plain {quote : Char} (hquote : IsQuote quote) {s : List Char} (hq : quote ∉ s)
    (hb : '\\' ∉ s) (rest : List Char) :
    element (quote :: (s ++ quote :: rest)) = some (s, rest) := by
  unfold element
  rw [elementStart_quote hquote]
  exact (if_pos hquote).trans (stringBody_plain hq hb rest)

/-! ### What the elements take -/

/-- The elements stand in the text as they are, each in quotes that it does not have itself. -/
inductive Stand (rest : List Char) : List (List Char) → List Char → Prop where
  | last {quote : Char} (hquote : IsQuote quote) {s : List Char} (hq : quote ∉ s) (hb : '\\' ∉ s) :
      Stand rest [s] (quote :: (s ++ quote :: ']' :: rest))
  | cons {quote : Char} (hquote : IsQuote quote) {s : List Char} (hq : quote ∉ s) (hb : '\\' ∉ s)
      {ss : List (List Char)} {cs : List Char} (h : Stand rest ss cs) :
      Stand rest (s :: ss) (quote :: (s ++ quote :: ',' :: cs))

/-- The length of the elements, with two quotes and a separator each. -/
def size (ss : List (List Char)) : ℕ := (ss.map fun s => s.length + 3).sum

theorem skipSpace_length (cs : List Char) : (skipSpace cs).length ≤ cs.length :=
  (List.dropWhile_suffix _).length_le

/-- White space that takes nothing is not there. -/
theorem eq_of_skipSpace {cs cs' : List Char} {c : Char} (h : skipSpace cs = c :: cs')
    (htight : cs.length ≤ cs'.length + 1) : cs = c :: cs' := by
  have hsuffix : skipSpace cs <:+ cs := List.dropWhile_suffix _
  rw [h] at hsuffix
  exact (hsuffix.eq_of_length_le htight).symm

theorem elements_takes {n : ℕ} {cs : List Char} {ss : List (List Char)} {rest : List Char}
    (h : elements n cs = some (ss, rest)) :
    size ss + rest.length ≤ cs.length ∧
      (cs.length ≤ size ss + rest.length → Stand rest ss cs) := by
  induction n generalizing cs ss with
  | zero => simp [elements] at h
  | succ n ih =>
      unfold elements at h
      split at h
      · simp at h
      next s cs₁ helement =>
      obtain ⟨hlength, htight⟩ := element_takes helement
      have hspace := skipSpace_length cs₁
      split at h
      · next cs₂ hskip =>
          obtain ⟨rfl, rfl⟩ := Prod.mk.inj (Option.some.inj h)
          rw [hskip, List.length_cons] at hspace
          simp only [size, List.map_cons, List.map_nil, List.sum_cons, List.sum_nil, add_zero]
          refine ⟨by omega, fun hle => ?_⟩
          obtain ⟨quote, hquote, hq, hb, hcs⟩ := htight (by omega)
          rw [hcs, eq_of_skipSpace hskip (by omega)]
          exact .last hquote hq hb
      · next cs₂ hskip =>
          obtain ⟨⟨ss', rest'⟩, h', heq⟩ := Option.map_eq_some_iff.1 h
          dsimp only at heq
          obtain ⟨rfl, rfl⟩ := Prod.mk.inj heq
          obtain ⟨hsize, hstand⟩ := ih h'
          have hsum : size (s :: ss') = s.length + 3 + size ss' := by simp [size]
          rw [hskip, List.length_cons] at hspace
          refine ⟨by omega, fun hle => ?_⟩
          obtain ⟨quote, hquote, hq, hb, hcs⟩ := htight (by omega)
          rw [hcs, eq_of_skipSpace hskip (by omega)]
          exact .cons hquote hq hb (hstand (by omega))
      · simp at h

theorem Stand.elements {rest : List Char} {ss : List (List Char)} {cs : List Char}
    (h : Stand rest ss cs) {n : ℕ} (hn : ss.length ≤ n) : elements n cs = some (ss, rest) := by
  induction h generalizing n with
  | last hquote hq hb =>
      obtain ⟨n, rfl⟩ := Nat.exists_eq_add_of_le' hn
      simp [GVariantText.elements, element_plain hquote hq hb, skipSpace, isSpace]
  | cons hquote hq hb h ih =>
      rw [List.length_cons] at hn
      obtain ⟨n, rfl⟩ := Nat.exists_eq_succ_of_ne_zero (Nat.ne_of_gt (Nat.lt_of_lt_of_le
        (Nat.succ_pos _) hn))
      simp [GVariantText.elements, element_plain hquote hq hb, skipSpace, isSpace,
        ih (Nat.le_of_succ_le_succ hn)]

/-! ### What an array takes -/

theorem array_takes {cs : List Char} {ss : List (List Char)} {rest : List Char}
    (h : array cs = some (ss, rest)) (hss : ss ≠ []) :
    size ss + 1 + rest.length ≤ cs.length ∧
      (cs.length ≤ size ss + 1 + rest.length → ∃ cs', cs = '[' :: cs' ∧ Stand rest ss cs') := by
  unfold array at h
  split at h
  · next cs₁ hskip =>
      have hspace := skipSpace_length cs
      rw [hskip, List.length_cons] at hspace
      split at h
      · exact absurd (Prod.mk.inj (Option.some.inj h)).1.symm hss
      · obtain ⟨hsize, hstand⟩ := elements_takes h
        refine ⟨by omega, fun hle => ⟨cs₁, eq_of_skipSpace hskip (by omega), hstand (by omega)⟩⟩
  · simp at h

theorem Stand.length_le {rest : List Char} {ss : List (List Char)} {cs : List Char}
    (h : Stand rest ss cs) : ss.length ≤ cs.length := by
  induction h with
  | last => simp
  | cons _ _ _ _ ih =>
      simp only [List.length_cons, List.length_append]
      omega

theorem Stand.array {rest : List Char} {ss : List (List Char)} {cs : List Char}
    (h : Stand rest ss cs) : array ('[' :: cs) = some (ss, rest) := by
  have helements := h.elements h.length_le
  have hquote : ∃ quote cs', IsQuote quote ∧ cs = quote :: cs' := by
    cases h with
    | last hquote => exact ⟨_, _, hquote, rfl⟩
    | cons hquote => exact ⟨_, _, hquote, rfl⟩
  obtain ⟨quote, cs', rfl | rfl, rfl⟩ := hquote
  · simpa [GVariantText.array, skipSpace, isSpace] using helements
  · simpa [GVariantText.array, skipSpace, isSpace] using helements

/-! ### Arrays in single quotes -/

/-- What follows the opening bracket if each element is put in single quotes. -/
def quoted : List (List Char) → List Char
  | [] => [']']
  | [s] => '\'' :: (s ++ ['\'', ']'])
  | s :: ss => '\'' :: (s ++ '\'' :: ',' :: quoted ss)

/-- The texts that may stand in single quotes as they are. -/
def Plain (s : List Char) : Prop := '\'' ∉ s ∧ '\\' ∉ s ∧ '\x00' ∉ s

instance (s : List Char) : Decidable (Plain s) := inferInstanceAs (Decidable (_ ∧ _))

theorem quoted_cons (s : List Char) {ss : List (List Char)} (h : ss ≠ []) :
    quoted (s :: ss) = '\'' :: (s ++ '\'' :: ',' :: quoted ss) := by
  cases ss with
  | nil => exact absurd rfl h
  | cons => rfl

theorem length_quoted {ss : List (List Char)} (h : ss ≠ []) : (quoted ss).length = size ss := by
  induction ss with
  | nil => exact absurd rfl h
  | cons s ss ih =>
      by_cases hss : ss = []
      · subst hss
        simp [quoted, size]
      · have hsize : size (s :: ss) = s.length + 3 + size ss := by simp [size]
        rw [quoted_cons s hss, hsize, ← ih hss]
        simp only [List.length_cons, List.length_append]
        omega

theorem mem_quoted_null {ss : List (List Char)} :
    '\x00' ∈ quoted ss ↔ ∃ s ∈ ss, '\x00' ∈ s := by
  induction ss with
  | nil => simp [quoted]
  | cons s ss ih =>
      by_cases hss : ss = []
      · subst hss
        simp [quoted]
      · rw [quoted_cons s hss]
        simp [ih]

/-- Quoted texts stand as they are if they have no single quotes and no backslashes. -/
theorem stand_quoted_iff {ss : List (List Char)} (h : ss ≠ []) :
    Stand [] ss (quoted ss) ↔ ∀ s ∈ ss, '\'' ∉ s ∧ '\\' ∉ s := by
  induction ss with
  | nil => exact absurd rfl h
  | cons s ss ih =>
      by_cases hss : ss = []
      · subst hss
        constructor
        · intro hstand
          generalize hcs : quoted [s] = cs at hstand
          cases hstand with
          | last hquote hq hb =>
              rw [quoted, List.cons.injEq] at hcs
              simpa using ⟨hcs.1 ▸ hq, hb⟩
          | cons _ _ _ hnil => cases hnil
        · intro hplain
          have hs := hplain s (List.mem_singleton_self s)
          exact .last (.inl rfl) hs.1 hs.2
      · rw [quoted_cons s hss, List.forall_mem_cons, ← ih hss]
        constructor
        · intro hstand
          generalize hcs : '\'' :: (s ++ '\'' :: ',' :: quoted ss) = cs at hstand
          cases hstand with
          | last => exact absurd rfl hss
          | cons hquote hq hb hrest =>
              rw [List.cons.injEq] at hcs
              obtain ⟨rfl, htail⟩ := hcs
              have hquoted := List.append_cancel_left htail
              simp only [List.cons.injEq, true_and] at hquoted
              exact ⟨⟨hq, hb⟩, hquoted ▸ hrest⟩
        · rintro ⟨⟨hq, hb⟩, hrest⟩
          exact .cons (.inl rfl) hq hb hrest

/-- The literal in single quotes is read as its elements exactly if they may stand in it as they
are. -/
theorem parse_quoted_iff {text : String} {ss : List (List Char)}
    (htext : text.toList = '[' :: quoted ss) :
    parse text = some (ss.map String.ofList) ↔ ∀ s ∈ ss, Plain s := by
  by_cases hss : ss = []
  · subst hss
    simp [parse, htext, quoted, array, skipSpace, isSpace]
  have hlength : text.toList.length = size ss + 1 := by
    rw [htext, List.length_cons, length_quoted hss]
  have hnull : (∀ s ∈ ss, Plain s) ↔
      (∀ s ∈ ss, '\'' ∉ s ∧ '\\' ∉ s) ∧ '\x00' ∉ text.toList := by
    rw [htext, List.mem_cons, mem_quoted_null]
    constructor
    · intro h
      refine ⟨fun s hs => ⟨(h s hs).1, (h s hs).2.1⟩, ?_⟩
      rintro (hbracket | ⟨s, hs, hmem⟩)
      · simp at hbracket
      · exact (h s hs).2.2 hmem
    · rintro ⟨h, hmem⟩ s hs
      exact ⟨(h s hs).1, (h s hs).2, fun hs' => hmem (.inr ⟨s, hs, hs'⟩)⟩
  rw [hnull, ← stand_quoted_iff hss]
  have hfront := List.takeWhile_prefix (l := text.toList) (· ≠ '\x00')
  constructor
  · intro h
    unfold parse at h
    split at h
    · next strings rest harray =>
        split_ifs at h with hspace
        have hstrings : strings = ss := by
          have hinj := Option.some.inj h
          exact (List.map_inj_right fun _ _ hs => String.ofList_injective hs).1 hinj
        subst hstrings
        obtain ⟨htakes, hstand⟩ := array_takes harray hss
        have hle := hfront.length_le
        have hall := hfront.eq_of_length (by omega)
        obtain ⟨cs, hcs, hstands⟩ := hstand (by omega)
        have hrest : rest = [] := List.eq_nil_of_length_eq_zero (by omega)
        rw [hall, htext, List.cons.injEq] at hcs
        refine ⟨hrest ▸ hcs.2 ▸ hstands, fun hmem => ?_⟩
        rw [← hall] at hmem
        simpa using List.mem_takeWhile_imp hmem
    · simp at h
  · rintro ⟨hstand, hmem⟩
    have hall : text.toList.takeWhile (· ≠ '\x00') = text.toList := by
      rw [List.takeWhile_eq_self_iff]
      intro c hc
      have hne : c ≠ '\x00' := by
        rintro rfl
        exact hmem hc
      simpa using hne
    rw [parse, hall, htext, hstand.array]
    rfl

end GVariantText
