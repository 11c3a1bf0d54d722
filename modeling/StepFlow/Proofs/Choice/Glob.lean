import Mathlib.Data.List.Forall2
import Mathlib.Data.List.Infix
import StepFlow.Choice

/-!
# Patterns as pieces

A pattern matches a subject that can be cut into consecutive pieces, one for each token of the
pattern: a star takes any piece, every other token the one character that it stands for. The table of
suffixes that `Glob.accepts` fills answers this for every suffix of the subject at once.
-/

namespace StepFlow

/-- The pieces of text that a token takes. -/
inductive GlobToken.Takes : GlobToken → List Char → Prop
  | star (piece : List Char) : Takes .star piece
  | literal (c : Char) : Takes (.literal c) [c]

namespace Glob

/-- The subject consists of one piece after the other, one for each token. -/
def Splits (pattern : Glob) (subject : List Char) : Prop :=
  ∃ pieces, List.Forall₂ GlobToken.Takes pattern pieces ∧ pieces.flatten = subject

/-- Pieces of text, one for each token of a pattern as it is written. -/
inductive Pieces : List Char → List (List Char) → Prop
  | nil : Pieces [] []
  | star (piece : List Char) {rest : List Char} {pieces : List (List Char)} (h : Pieces rest pieces) :
      Pieces ('*' :: rest) (piece :: pieces)
  | escaped (c : Char) {rest : List Char} {pieces : List (List Char)} (h : Pieces rest pieces) :
      Pieces ('\\' :: c :: rest) ([c] :: pieces)
  | lastBackslash : Pieces ['\\'] [['\\']]
  | plain {c : Char} {rest : List Char} {pieces : List (List Char)} (hstar : c ≠ '*')
      (hbackslash : c ≠ '\\') (h : Pieces rest pieces) : Pieces (c :: rest) ([c] :: pieces)

variable {g : Glob} {c : Char} {cs subject : List Char} {pieces : List (List Char)}

/-! ### Tokens -/

theorem ofChars_plain (hstar : c ≠ '*') (hbackslash : c ≠ '\\') (rest : List Char) :
    ofChars (c :: rest) = .literal c :: ofChars rest := by
  cases rest <;> simp [ofChars, hbackslash]

theorem pieces_iff {pattern : List Char} :
    Pieces pattern pieces ↔ List.Forall₂ GlobToken.Takes (ofChars pattern) pieces := by
  constructor
  · intro h
    induction h with
    | nil => exact .nil
    | star piece _ ih => exact .cons (.star piece) ih
    | escaped c _ ih => exact .cons (.literal c) ih
    | lastBackslash => exact .cons (.literal _) .nil
    | plain hstar hbackslash _ ih => rw [ofChars_plain hstar hbackslash]; exact .cons (.literal _) ih
  · intro h
    fun_induction ofChars pattern generalizing pieces with
    | case1 => cases h; exact .nil
    | case2 rest ih =>
      obtain _ | ⟨⟨⟩, htail⟩ := h
      exact .star _ (ih htail)
    | case3 =>
      obtain _ | ⟨⟨⟩, _ | _⟩ := h
      exact .lastBackslash
    | case4 c rest ih =>
      obtain _ | ⟨⟨⟩, htail⟩ := h
      exact .escaped c (ih htail)
    | case5 c rest hstar hlast hbackslash ih =>
      obtain _ | ⟨⟨⟩, htail⟩ := h
      have hplain : c ≠ '\\' := by
        rintro rfl
        cases rest with
        | nil => exact hlast rfl rfl
        | cons d rest => exact hbackslash d rest rfl rfl
      exact .plain hstar hplain (ih htail)

/-! ### One token after the other -/

theorem splits_nil : Splits [] subject ↔ subject = [] := by
  constructor
  · rintro ⟨_, ⟨⟩, rfl⟩
    rfl
  · rintro rfl
    exact ⟨[], .nil, rfl⟩

theorem splits_star : Splits (.star :: g) subject ↔
    ∃ piece rest, subject = piece ++ rest ∧ Splits g rest := by
  constructor
  · rintro ⟨_, hpieces, rfl⟩
    cases hpieces with
    | @cons _ piece _ pieces _ htail => exact ⟨piece, pieces.flatten, rfl, pieces, htail, rfl⟩
  · rintro ⟨piece, _, rfl, pieces, htail, rfl⟩
    exact ⟨piece :: pieces, .cons (.star piece) htail, rfl⟩

theorem splits_literal : Splits (.literal c :: g) subject ↔
    ∃ rest, subject = c :: rest ∧ Splits g rest := by
  constructor
  · rintro ⟨_, _ | ⟨⟨⟩, htail⟩, rfl⟩
    exact ⟨_, rfl, _, htail, rfl⟩
  · rintro ⟨_, rfl, pieces, htail, rfl⟩
    exact ⟨[c] :: pieces, .cons (.literal c) htail, rfl⟩

/-- A star takes nothing, or one character more. -/
theorem splits_star_cons : Splits (.star :: g) (c :: cs) ↔
    Splits g (c :: cs) ∨ Splits (.star :: g) cs := by
  rw [splits_star, splits_star]
  constructor
  · rintro ⟨_ | ⟨d, piece⟩, rest, heq, hrest⟩
    · rw [heq]; exact .inl hrest
    · cases heq
      exact .inr ⟨piece, rest, rfl, hrest⟩
  · rintro (h | ⟨piece, rest, rfl, hrest⟩)
    · exact ⟨[], c :: cs, rfl, h⟩
    · exact ⟨c :: piece, rest, rfl, hrest⟩

theorem splits_star_nil : Splits (.star :: g) [] ↔ Splits g [] := by
  rw [splits_star]
  constructor
  · rintro ⟨piece, rest, heq, hrest⟩
    rw [(List.append_eq_nil_iff.1 heq.symm).2] at hrest
    exact hrest
  · exact fun h => ⟨[], [], rfl, h⟩

theorem not_splits_literal_nil : ¬ Splits (.literal c :: g) [] := by
  rw [splits_literal]
  rintro ⟨_, ⟨⟩, -⟩

theorem splits_literal_cons {d : Char} : Splits (.literal c :: g) (d :: cs) ↔ d = c ∧ Splits g cs := by
  rw [splits_literal]
  constructor
  · rintro ⟨_, ⟨⟩, h⟩
    exact ⟨rfl, h⟩
  · rintro ⟨rfl, h⟩
    exact ⟨cs, rfl, h⟩

/-! ### The table of suffixes -/

/-- The entries answer for the suffixes of a subject, from the whole to the empty one. -/
def Answers (P : List Char → Prop) (subject : List Char) (entries : List Bool) : Prop :=
  List.Forall₂ (fun entry rest => entry = true ↔ P rest) entries subject.tails

variable {P Q : List Char → Prop} {entries : List Bool}

theorem Answers.head (h : Answers P subject entries) :
    entries.head?.getD false = true ↔ P subject := by
  unfold Answers at h
  cases subject <;> (rw [List.tails] at h; cases h with | cons hhead _ => exact hhead)

theorem answers_nil : Answers (Splits []) subject (List.replicate subject.length false ++ [true]) := by
  induction subject with
  | nil => exact .cons (iff_of_true rfl (splits_nil.2 rfl)) .nil
  | cons c cs ih => exact .cons (iff_of_false Bool.false_ne_true fun h => nomatch splits_nil.1 h) ih

theorem Answers.anyFrom (h : Answers (Splits g) subject entries) :
    Answers (Splits (.star :: g)) subject (anyFrom entries) := by
  induction subject generalizing entries with
  | nil =>
    cases h with
    | @cons b _ _ _ hb htail =>
      cases htail
      exact .cons (by simp [Glob.anyFrom, splits_star_nil, hb]) .nil
  | cons c cs ih =>
    cases h with
    | @cons b _ _ _ hb htail =>
      have htail := ih htail
      refine .cons ?_ htail
      rw [Bool.or_eq_true, htail.head, hb, splits_star_cons]

theorem Answers.before (h : Answers (Splits g) subject entries) :
    Answers (Splits (.literal c :: g)) subject (before c subject entries) := by
  induction subject generalizing entries with
  | nil =>
    cases h with
    | cons _ htail =>
      cases htail
      exact .cons (iff_of_false Bool.false_ne_true not_splits_literal_nil) .nil
  | cons d cs ih =>
    cases h with
    | cons _ htail =>
      refine .cons ?_ (ih htail)
      rw [Bool.and_eq_true, beq_iff_eq, Answers.head htail, splits_literal_cons]

theorem answers_accepts (g : Glob) (subject : List Char) :
    Answers (Splits g) subject (accepts subject g) := by
  induction g with
  | nil => exact answers_nil
  | cons token g ih =>
    cases token with
    | star => exact ih.anyFrom
    | literal c => exact ih.before

theorem matchesText_iff {subject : String} : g.matchesText subject = true ↔ Splits g subject.toList :=
  (answers_accepts g subject.toList).head

/-! ### Patterns as they are written -/

/-- The text consists of one piece after the other, one for each token of the pattern as it is written. -/
def Matches (pattern text : String) : Prop :=
  ∃ pieces, Pieces pattern.toList pieces ∧ pieces.flatten = text.toList

theorem splits_iff_matches {pattern text : String} :
    Splits (ofString pattern) text.toList ↔ Matches pattern text :=
  exists_congr fun _ => and_congr_left fun _ => pieces_iff.symm

/-- A backslash before every star and every backslash. -/
def quoteChars : List Char → List Char
  | [] => []
  | c :: rest => if c = '*' ∨ c = '\\' then '\\' :: c :: quoteChars rest else c :: quoteChars rest

/-- The pattern for one text. -/
def quote (text : String) : String := String.ofList (quoteChars text.toList)

theorem ofChars_quoteChars (cs : List Char) : ofChars (quoteChars cs) = cs.map .literal := by
  induction cs with
  | nil => rfl
  | cons c cs ih =>
    rw [quoteChars, List.map_cons, ← ih]
    split <;> rename_i h
    · rfl
    · rw [not_or] at h
      exact ofChars_plain h.1 h.2 _

theorem splits_map_literal {text : List Char} : Splits (text.map .literal) subject ↔ subject = text := by
  induction text generalizing subject with
  | nil => exact splits_nil
  | cons c text ih =>
    rw [List.map_cons, splits_literal]
    constructor
    · rintro ⟨rest, rfl, h⟩
      rw [ih.1 h]
    · rintro rfl
      exact ⟨text, rfl, ih.2 rfl⟩

theorem matches_quote {text subject : String} : Matches (quote text) subject ↔ subject = text := by
  rw [← splits_iff_matches, ofString, quote, String.toList_ofList, ofChars_quoteChars,
    splits_map_literal, String.toList_inj]

end Glob

end StepFlow
