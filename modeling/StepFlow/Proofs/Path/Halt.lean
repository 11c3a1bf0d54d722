import StepFlow.Proofs.Path.Delimited

/-!
# Where a parse halts

The parse of a query ends for good, whatever the alternatives, only behind a number that has an exponent mark and no
digits after it (`Grammar.query_halts`).
-/

namespace StepFlow

/-- Digits, or digits with a point in front of them, between them or after them. -/
def IsMantissa (cs : List Char) : Prop :=
  ∃ whole behind, whole ++ behind ≠ [] ∧ (∀ c ∈ whole ++ behind, c.isDigit) ∧
    (cs = whole ∧ behind = [] ∨ cs = whole ++ '.' :: behind)

/-- Right in front of the rest the text has a number with an exponent mark, and no digit follows. -/
def LacksExponent (cs rest : List Char) : Prop :=
  ∃ before mantissa mark sign, cs = before ++ (mantissa ++ mark :: (sign ++ rest)) ∧ IsMantissa mantissa ∧
    mark ∈ ['e', 'E'] ∧ sign ∈ [[], ['+'], ['-']] ∧ Avoids Char.isDigit rest

theorem LacksExponent.of_suffix {cs mid rest : List Char} (h : LacksExponent mid rest) (hmid : mid <:+ cs) :
    LacksExponent cs rest := by
  obtain ⟨before, mantissa, mark, sign, rfl, hnumber⟩ := h
  obtain ⟨front, rfl⟩ := hmid
  exact ⟨front ++ before, mantissa, mark, sign, (List.append_assoc ..).symm, hnumber⟩

theorem LacksExponent.exists_last {cs rest : List Char} (h : LacksExponent cs rest) :
    ∃ front c, cs = front ++ c :: rest ∧ c ∈ ['e', 'E', '+', '-'] := by
  obtain ⟨before, mantissa, mark, sign, rfl, -, hmark, hsign, -⟩ := h
  simp only [List.mem_cons, List.not_mem_nil, or_false] at hmark hsign
  rcases hsign with rfl | rfl | rfl
  · exact ⟨before ++ mantissa, mark, by simp, by rcases hmark with rfl | rfl <;> decide⟩
  · exact ⟨before ++ mantissa ++ [mark], '+', by simp, by decide⟩
  · exact ⟨before ++ mantissa ++ [mark], '-', by simp, by decide⟩

namespace Parser

variable {α β : Type} {n : Nat} {S F : List Char → List Char → Prop} {p q : Parser α} {f : α → Parser β} {a : α}
  {b : β} {cs rest : List Char} {c : Char}

theorem bind_eq_halt (h : (p >>= f) cs = .halt rest) :
    p cs = .halt rest ∨ ∃ a mid, p cs = .ok a mid ∧ f a mid = .halt rest := by
  change Parser.bind p f cs = _ at h
  rw [Parser.bind] at h
  cases hp : p cs with
  | ok a mid => rw [hp] at h; exact .inr ⟨a, mid, rfl, h⟩
  | miss => rw [hp] at h; cases h
  | halt mid => rw [hp] at h; cases h; exact .inl rfl

theorem optional_eq_halt (h : optional p cs = .halt rest) : p cs = .halt rest := by
  rw [optional] at h
  cases hp : p cs with
  | ok a mid => rw [hp] at h; cases h
  | miss => rw [hp] at h; cases h
  | halt mid => rw [hp] at h; cases h; rfl

theorem orElse_eq_halt (h : orElse p q cs = .halt rest) : p cs = .halt rest ∨ q cs = .halt rest := by
  rw [orElse] at h
  cases hp : p cs with
  | ok a mid => rw [hp] at h; cases h
  | miss => rw [hp] at h; exact .inr h
  | halt mid => rw [hp] at h; cases h; exact .inl rfl

theorem char_ne_halt : char c cs ≠ .halt rest := fun h => by
  cases cs with
  | nil => cases h
  | cons d cs =>
    rw [char] at h
    split at h <;> cases h

theorem span_ne_halt {test : Char → Bool} : span test cs ≠ .halt rest := fun h => by
  rw [span] at h
  split at h <;> cases h

/-- The parser leaves an end of the text unread, and halts only at a number that lacks its exponent. -/
structure HaltsAtNumbers (p : Parser α) : Prop where
  suffix : ∀ {cs a rest}, p cs = .ok a rest → rest <:+ cs
  number : ∀ {cs rest}, p cs = .halt rest → LacksExponent cs rest

theorem Stable.suffix (hp : Stable n S F p q) (h : p cs = .ok a rest) : rest <:+ cs := by
  obtain ⟨w, rfl, -⟩ := hp h
  exact List.suffix_append w rest

namespace HaltsAtNumbers

theorem of_stable (hp : Stable n S F p q) (h : ∀ cs rest, p cs ≠ .halt rest) : HaltsAtNumbers p :=
  ⟨hp.suffix, fun hhalt => absurd hhalt (h _ _)⟩

theorem pure (a : α) : HaltsAtNumbers (Pure.pure a : Parser α) where
  suffix h := by cases h; exact List.suffix_rfl
  number := nofun

theorem fail : HaltsAtNumbers (fail : Parser α) := ⟨nofun, nofun⟩

theorem ite {c : Prop} [Decidable c] (hp : HaltsAtNumbers p) (hq : HaltsAtNumbers q) :
    HaltsAtNumbers (if c then p else q) := by
  split
  · exact hp
  · exact hq

theorem bind (hp : HaltsAtNumbers p) (hf : ∀ a, HaltsAtNumbers (f a)) : HaltsAtNumbers (p >>= f) where
  suffix h := by
    obtain ⟨a, mid, ha, hb⟩ := bind_eq_ok h
    exact ((hf a).suffix hb).trans (hp.suffix ha)
  number h := by
    obtain h | ⟨a, mid, ha, hb⟩ := bind_eq_halt h
    · exact hp.number h
    · exact ((hf a).number hb).of_suffix (hp.suffix ha)

theorem orElse (hp : HaltsAtNumbers p) (hq : HaltsAtNumbers q) : HaltsAtNumbers (orElse p q) where
  suffix h := by
    obtain h | ⟨-, h⟩ := orElse_eq_ok h
    · exact hp.suffix h
    · exact hq.suffix h
  number h := (orElse_eq_halt h).elim hp.number hq.number

theorem optional (hp : HaltsAtNumbers p) : HaltsAtNumbers (optional p) where
  suffix h := by
    obtain ⟨b, -, hb⟩ | ⟨-, rfl, -⟩ := optional_eq_ok h
    · exact hp.suffix hb
    · exact List.suffix_rfl
  number h := hp.number (optional_eq_halt h)

theorem many (hp : HaltsAtNumbers p) : HaltsAtNumbers (many p) where
  suffix {cs as rest} h := by
    induction as generalizing cs with
    | nil => exact many_eq_nil h ▸ List.suffix_rfl
    | cons a as ih =>
      obtain ⟨mid, ha, -, hmore⟩ := many_eq_cons h
      exact (ih hmore).trans (hp.suffix ha)
  number {cs rest} h := by
    fun_induction Parser.many p cs with
    | case3 cs a mid hmid hlt last hmore ih =>
      cases h
      exact (ih hmore).of_suffix (hp.suffix hmid)
    | case6 cs last hlast =>
      cases h
      exact hp.number hlast
    | _ => cases h

theorem char (c : Char) : HaltsAtNumbers (char c) where
  suffix h := char_eq_ok h ▸ List.suffix_cons ..
  number h := absurd h char_ne_halt

theorem text (w : List Char) : HaltsAtNumbers (text w) := by
  induction w with
  | nil => exact .pure ()
  | cons c w ih => exact .bind (.char c) fun _ => ih

theorem span (test : Char → Bool) : HaltsAtNumbers (span test) :=
  of_stable (Stable.span (n := 0) test) fun _ _ => span_ne_halt

theorem blanks : HaltsAtNumbers blanks := of_stable (Stable.blanks (n := 0) []) nofun

theorem spaced (hp : HaltsAtNumbers p) : HaltsAtNumbers (spaced p) :=
  .bind .blanks fun _ => .bind hp fun a => .bind .blanks fun _ => .pure a

end HaltsAtNumbers
end Parser

namespace Grammar

open StepFlow.Parser

variable {cs rest : List Char}

/-! ### Tokens -/

theorem quotedFrom_ne_halt (quote : Char) (cs rest : List Char) : quotedFrom quote cs ≠ .halt rest := by
  fun_induction quotedFrom quote cs with
  | case4 c cs hs ih => exact ih
  | case7 c cs hend hlast hne hs ih => exact ih
  | _ => intro h; cases h

theorem halts_quoted : HaltsAtNumbers quoted := by
  refine .of_stable (stable_quoted (n := 0) (F := Anything)) fun cs rest h => ?_
  cases cs with
  | nil => cases h
  | cons q cs =>
    simp only [quoted] at h
    split at h
    · cases hs : quotedFrom q cs with
      | ok s mid => rw [hs] at h; cases h
      | miss => rw [hs] at h; cases h
      | halt mid => exact quotedFrom_ne_halt q cs mid hs
    · cases h

theorem halts_integer : HaltsAtNumbers integer :=
  .bind (.optional (.char '-')) fun _ => .bind (.span Char.isDigit) fun _ => .ite (.pure _) .fail

theorem halts_slice : HaltsAtNumbers slice := by
  have hbound : HaltsAtNumbers (optional (spaced integer)) := .optional (.spaced halts_integer)
  exact .bind hbound fun _ => .bind (.char ':') fun _ => .bind hbound fun _ =>
    .bind (.optional (.bind (.char ':') fun _ => hbound)) fun _ => .pure _

theorem halts_key : HaltsAtNumbers key :=
  .orElse (.bind halts_quoted fun _ => .pure _) (.bind halts_integer fun _ => .pure _)

theorem halts_keys : HaltsAtNumbers keys := by
  refine .bind halts_key fun first =>
    .bind (.many (.bind (.spaced (.char ',')) fun _ => halts_key)) fun more => ?_
  cases more with
  | nil => exact .pure _
  | cons second more => exact .pure _

theorem halts_wildcard : HaltsAtNumbers wildcard := .bind (.char '*') fun _ => .pure _

theorem halts_name : HaltsAtNumbers name := .bind (.span isNameChar) fun _ => .pure _

theorem halts_compareOp : HaltsAtNumbers compareOp := by
  have hword {w : List Char} {op : CompareOp} : HaltsAtNumbers (do text w; return op : Parser CompareOp) :=
    .bind (.text w) fun _ => .pure op
  exact .orElse hword <| .orElse hword <| .orElse hword <| .orElse hword <| .orElse hword <| .orElse hword .fail

/-! ### Numbers -/

theorem halts_either (a b : Char) : HaltsAtNumbers (either a b) :=
  .orElse (.bind (.char a) fun _ => .pure _) (.bind (.char b) fun _ => .pure _)

theorem halts_sign : HaltsAtNumbers sign := .optional (halts_either '+' '-')

theorem halts_mantissa : HaltsAtNumbers mantissa := by
  have hfraction : HaltsAtNumbers fraction := .optional (.bind (.char '.') fun _ => .optional (.span Char.isDigit))
  exact .orElse (.bind (.span Char.isDigit) fun _ => .bind hfraction fun _ => .pure _)
    (.bind (.char '.') fun _ => .bind (.span Char.isDigit) fun _ => .pure _)

theorem either_eq_ok {a b c : Char} (h : either a b cs = .ok c rest) : c ∈ [a, b] ∧ cs = c :: rest := by
  obtain h | ⟨-, h⟩ := orElse_eq_ok h
  · obtain ⟨⟨⟩, mid, hc, ⟨⟩⟩ := bind_eq_ok h
    exact ⟨by simp, char_eq_ok hc⟩
  · obtain ⟨⟨⟩, mid, hc, ⟨⟩⟩ := bind_eq_ok h
    exact ⟨by simp, char_eq_ok hc⟩

theorem either_ne_halt {a b : Char} : either a b cs ≠ .halt rest := fun h => by
  obtain h | h := orElse_eq_halt h <;> obtain h | ⟨⟨⟩, mid, -, hpure⟩ := bind_eq_halt h
  · exact char_ne_halt h
  · cases hpure
  · exact char_ne_halt h
  · cases hpure

theorem sign_eq_ok {s : Option Char} (h : sign cs = .ok s rest) :
    s.toList ∈ [[], ['+'], ['-']] ∧ cs = s.toList ++ rest := by
  obtain ⟨c, rfl, hc⟩ | ⟨rfl, rfl, -⟩ := optional_eq_ok h
  · obtain ⟨hmem, rfl⟩ := either_eq_ok hc
    exact ⟨by simpa using hmem, rfl⟩
  · exact ⟨by simp, rfl⟩

theorem fraction_eq_ok {digits : Option (Option (List Char))} (h : fraction cs = .ok digits rest) :
    digits = none ∧ cs = rest ∨ ∃ ds, digits = some ds ∧ (∀ c ∈ ds.getD [], c.isDigit) ∧
      cs = '.' :: (ds.getD [] ++ rest) := by
  obtain ⟨ds, rfl, hds⟩ | ⟨rfl, rfl, -⟩ := optional_eq_ok h
  · obtain ⟨⟨⟩, mid, hpoint, hds⟩ := bind_eq_ok hds
    obtain rfl := char_eq_ok hpoint
    refine .inr ⟨ds, rfl, ?_⟩
    obtain ⟨ds, rfl, hspan⟩ | ⟨rfl, rfl, -⟩ := optional_eq_ok hds
    · obtain ⟨-, hdigit, rfl, -⟩ := span_eq_ok hspan
      exact ⟨hdigit, rfl⟩
    · exact ⟨by simp, rfl⟩
  · exact .inl ⟨rfl, rfl⟩

theorem mantissa_eq_ok {m : List Char} (h : mantissa cs = .ok m rest) : IsMantissa m ∧ cs = m ++ rest := by
  obtain h | ⟨-, h⟩ := orElse_eq_ok h
  · obtain ⟨whole, mid, hspan, htail⟩ := bind_eq_ok h
    obtain ⟨hne, hwhole, rfl, -⟩ := span_eq_ok hspan
    obtain ⟨digits, last, hfraction, hpure⟩ := bind_eq_ok htail
    cases hpure
    obtain ⟨rfl, rfl⟩ | ⟨ds, rfl, hds, rfl⟩ := fraction_eq_ok hfraction
    · exact ⟨⟨whole, [], by simpa using hne, by simpa using hwhole, .inl ⟨rfl, rfl⟩⟩, rfl⟩
    · refine ⟨⟨whole, ds.getD [], by simp [hne], ?_, .inr rfl⟩, by simp [joinDigits]⟩
      exact fun c hc => (List.mem_append.1 hc).elim (hwhole c) (hds c)
  · obtain ⟨⟨⟩, mid, hpoint, htail⟩ := bind_eq_ok h
    obtain rfl := char_eq_ok hpoint
    obtain ⟨ds, last, hspan, hpure⟩ := bind_eq_ok htail
    cases hpure
    obtain ⟨hne, hds, rfl, -⟩ := span_eq_ok hspan
    exact ⟨⟨[], ds, hne, hds, .inr rfl⟩, rfl⟩

theorem exponentDigits_eq_halt (h : exponentDigits cs = .halt rest) : rest = cs ∧ Avoids Char.isDigit cs := by
  cases hspan : span Char.isDigit cs with
  | miss =>
    rw [exponentDigits, hspan] at h
    cases h
    refine ⟨rfl, fun c hc => ?_⟩
    obtain ⟨cs, rfl⟩ := List.head?_eq_some_iff.1 hc
    by_contra hdigit
    simp [span, hdigit] at hspan
  | ok ds mid => rw [exponentDigits, hspan] at h; cases h
  | halt mid => exact absurd hspan span_ne_halt

theorem exponent_eq_halt (h : exponent cs = .halt rest) : ∃ mark s, mark ∈ ['e', 'E'] ∧ s ∈ [[], ['+'], ['-']] ∧
    cs = mark :: (s ++ rest) ∧ Avoids Char.isDigit rest := by
  obtain hhalt | ⟨mark, mid, hmark, htail⟩ := bind_eq_halt h
  · exact absurd hhalt either_ne_halt
  obtain ⟨hmem, rfl⟩ := either_eq_ok hmark
  obtain hhalt | ⟨s, last, hsign, hdigits⟩ := bind_eq_halt htail
  · exact absurd (optional_eq_halt hhalt) either_ne_halt
  obtain ⟨hs, rfl⟩ := sign_eq_ok hsign
  obtain hhalt | ⟨ds, mid, -, hpure⟩ := bind_eq_halt hdigits
  · obtain ⟨rfl, hdigit⟩ := exponentDigits_eq_halt hhalt
    exact ⟨mark, s.toList, hmem, hs, rfl, hdigit⟩
  · cases hpure

theorem halts_numberText : HaltsAtNumbers numberText where
  suffix := (stable_numberText (n := 0)).suffix
  number {cs rest} h := by
    rw [numberText_eq] at h
    obtain hhalt | ⟨s, mid, hsign, htail⟩ := bind_eq_halt h
    · exact halts_sign.number hhalt
    have hmid : mid <:+ cs := halts_sign.suffix hsign
    obtain hhalt | ⟨m, last, hm, htail⟩ := bind_eq_halt htail
    · exact (halts_mantissa.number hhalt).of_suffix hmid
    obtain hhalt | ⟨e, behind, -, hpure⟩ := bind_eq_halt htail
    · obtain ⟨hmantissa, rfl⟩ := mantissa_eq_ok hm
      obtain ⟨mark, s, hmark, hs, rfl, hdigit⟩ := exponent_eq_halt (optional_eq_halt hhalt)
      exact .of_suffix ⟨[], m, mark, s, rfl, hmantissa, hmark, hs, hdigit⟩ hmid
    · cases hpure

theorem halts_number : HaltsAtNumbers number := by
  refine .bind halts_numberText fun cs => ?_
  cases Document.parse (String.ofList cs) with
  | ok d => exact .pure d
  | error flaw => exact .fail

theorem halts_literal : HaltsAtNumbers literal := by
  have hword {w : List Char} {d : Document} : HaltsAtNumbers (do text w; return d : Parser Document) :=
    .bind (.text w) fun _ => .pure d
  exact .orElse (.bind halts_quoted fun _ => .pure _) <| .orElse hword <| .orElse hword <| .orElse hword <|
    .orElse halts_number .fail

/-! ### Segments and conditions -/

section

variable {condition : Parser Filter}

theorem halts_filter (h : HaltsAtNumbers condition) : HaltsAtNumbers (filter condition) :=
  .bind (.char '?') fun _ => .bind .blanks fun _ => .bind (.char '(') fun _ => .bind (.spaced h) fun _ =>
    .bind (.char ')') fun _ => .pure _

theorem halts_bracket (h : HaltsAtNumbers condition) : HaltsAtNumbers (bracket condition) := by
  have hselector : HaltsAtNumbers (choice [filter condition, wildcard, slice, keys]) :=
    .orElse (halts_filter h) <| .orElse halts_wildcard <| .orElse halts_slice <| .orElse halts_keys .fail
  exact .bind (.char '[') fun _ => .bind .blanks fun _ => .bind hselector fun s =>
    .bind .blanks fun _ => .bind (.char ']') fun _ => .pure s

theorem halts_segment (h : HaltsAtNumbers condition) : HaltsAtNumbers (segment condition) := by
  have hchild : HaltsAtNumbers (choice [wildcard, name]) := .orElse halts_wildcard <| .orElse halts_name .fail
  have hdescendants : HaltsAtNumbers (choice [wildcard, name, bracket condition]) :=
    .orElse halts_wildcard <| .orElse halts_name <| .orElse (halts_bracket h) .fail
  exact .orElse (.bind (.text _) fun _ => .bind hdescendants fun s => .pure _) <|
    .orElse (.bind (.char '.') fun _ => .bind hchild fun s => .pure _) <|
    .orElse (.bind (halts_bracket h) fun s => .pure _) .fail

theorem halts_segments (h : HaltsAtNumbers condition) : HaltsAtNumbers (segments condition) := .many (halts_segment h)

theorem halts_operand (h : HaltsAtNumbers condition) : HaltsAtNumbers (operand condition) :=
  .orElse (.bind (.char '@') fun _ => .bind (halts_segments h) fun _ => .pure _) <|
    .orElse (.bind (.char '$') fun _ => .bind (halts_segments h) fun _ => .pure _) <|
    .orElse (.bind halts_literal fun _ => .pure _) .fail

theorem halts_comparison (h : HaltsAtNumbers condition) : HaltsAtNumbers (comparison condition) := by
  have hoperand : HaltsAtNumbers (spaced (operand condition)) := .spaced (halts_operand h)
  refine .bind hoperand fun left => .bind (.optional (.bind (.spaced halts_compareOp) fun op =>
    .bind hoperand fun right => .pure (op, right))) fun rest => ?_
  cases rest with
  | none => exact .pure _
  | some rest => exact .pure _

end

theorem halts_connected {unary : Parser Filter} (h : HaltsAtNumbers unary) : HaltsAtNumbers (connected unary) := by
  have hjoined {p : Parser Filter} {w : List Char} {f : Filter → List Filter → Filter} (hp : HaltsAtNumbers p) :
      HaltsAtNumbers (do let first ← p; let more ← many (do spaced (text w); p); return f first more) :=
    .bind hp fun first => .bind (.many (.bind (.spaced (.text w)) fun _ => hp)) fun more => .pure _
  exact hjoined (hjoined h)

theorem halts_unary (budget : Nat) : HaltsAtNumbers (unary budget) := by
  induction budget with
  | zero => exact ⟨nofun, nofun⟩
  | succ budget ih =>
    have hcondition := halts_connected ih
    rw [unary_succ]
    exact .orElse (.bind (.spaced (.char '!')) fun _ => .bind ih fun f => .pure _) <|
      .orElse (.bind (.spaced (.char '(')) fun _ => .bind hcondition fun f =>
        .bind (.spaced (.char ')')) fun _ => .pure f) <|
      .orElse (halts_comparison hcondition) .fail

/-- The parse of a query halts only behind a number with an exponent mark and no digits after it. -/
theorem query_halts (h : query cs = .halt rest) : LacksExponent cs rest :=
  (halts_segments (halts_connected (halts_unary cs.length))).number h

end Grammar

end StepFlow
