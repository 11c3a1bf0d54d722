import StepFlow.Proofs.Path.Grammar
import StepFlow.Proofs.Path.Spelling

/-!
# Reading tokens

Names, numbers, literals, operators, slices and keys are read from their texts, as long as nothing follows that
belongs to them. Of the alternatives in front of the right one each misses by the first character.
-/

namespace StepFlow

open StepFlow.Parser

/-! ### Front characters -/

def digitChars : List Char := ['0', '1', '2', '3', '4', '5', '6', '7', '8', '9']

/-- What follows a query inside a condition. -/
def afterQuery : List Char := [')', '=', '!', '<', '>']

/-- What a literal starts with. -/
def literalFront : List Char := '\'' :: 't' :: 'f' :: 'n' :: '-' :: digitChars

/-- What an operand starts with. -/
def operandFront : List Char := '@' :: '$' :: literalFront

theorem front_toDigits (n : Nat) : Front digitChars (Nat.toDigits 10 n) := by
  obtain ⟨c, cs, hcs⟩ := List.exists_cons_of_ne_nil (@Nat.toDigits_ne_nil n 10)
  exact ⟨c, cs, hcs, mem_digits_of_isDigit (isDigit_of_mem_toDigits (hcs ▸ List.mem_cons_self ..))⟩

theorem front_decimal (i : Int) : Front ('-' :: digitChars) (decimal i) := by
  cases i with
  | ofNat n => exact (front_toDigits n).mono (by decide)
  | negSucc n => exact .cons (List.mem_cons_self ..)

theorem front_key (k : Key) : Front ('\'' :: '-' :: digitChars) k.text := by
  cases k with
  | name s => exact .cons (List.mem_cons_self ..)
  | index i => exact (front_decimal i).mono (by decide)

theorem front_slice (first stop step : Option Int) :
    Front (':' :: '-' :: digitChars) (Selector.slice first stop step).text := by
  cases first with
  | none => cases step <;> exact .cons (List.mem_cons_self ..)
  | some i =>
    have hfirst : Front (':' :: '-' :: digitChars) (decimal i) :=
      (front_decimal i).mono (by decide)
    cases step <;> exact hfirst.append

namespace Grammar

variable {rest : List Char}

/-! ### Tokens -/

theorem quotedFrom_escape (cs : List Char) : quotedFrom '\'' (cs.flatMap escape ++ '\'' :: rest) = .ok cs rest := by
  induction cs with
  | nil => rfl
  | cons c cs ih =>
    rw [List.flatMap_cons, List.append_assoc]
    by_cases hc : c = '\'' ∨ c = '\\'
    · rw [escape, if_pos hc, List.cons_append, List.cons_append, List.nil_append, quotedFrom, ih]
      rcases hc with rfl | rfl <;> rfl
    · obtain ⟨hquote, hslash⟩ := not_or.1 hc
      rw [escape, if_neg hc, List.cons_append, List.nil_append, quotedFrom, if_neg hquote, ih]
      all_goals simp [hslash]

theorem quoted_inQuotes (s : String) : quoted (inQuotes s ++ rest) = .ok s rest := by
  rw [inQuotes, List.cons_append, List.append_assoc, List.singleton_append]
  simp [quoted, quotedFrom_escape]

theorem integer_decimal {i : Int} (hi : IsWord i) (hrest : Avoids Char.isDigit rest) :
    integer (decimal i ++ rest) = .ok i rest := by
  have hdigits : ∀ n, span Char.isDigit (Nat.toDigits 10 n ++ rest) = .ok (Nat.toDigits 10 n) rest := fun n =>
    span_self Nat.toDigits_ne_nil (fun c => isDigit_of_mem_toDigits) hrest
  cases i with
  | ofNat n =>
    have hsign : char '-' (Nat.toDigits 10 n ++ rest) = .miss :=
      char_miss ((front_toDigits n).startsIn.avoids (by decide))
    refine bind_ok (optional_miss hsign) (bind_ok (hdigits n) ?_)
    simp only [digitsValue_toDigits, Option.isSome_none, Bool.false_eq_true, if_false]
    exact congrFun (if_pos hi) rest
  | negSucc n =>
    refine bind_ok (optional_ok char_self) (bind_ok (hdigits (n + 1)) ?_)
    simp only [digitsValue_toDigits, Option.isSome_some, if_true]
    exact congrFun (if_pos hi) rest

/-- Nothing in quotes starts with another character. -/
theorem quoted_miss {cs : List Char} (hsingle : Avoids (· == '\'') cs) (hdouble : Avoids (· == '"') cs) :
    quoted cs = .miss := by
  cases cs with
  | nil => rfl
  | cons c cs =>
    have h : ¬(c = '\'' ∨ c = '"') := by
      simpa using And.intro (hsingle c rfl) (hdouble c rfl)
    simp only [quoted, if_neg h]

theorem quoted_decimal (i : Int) : quoted (decimal i ++ rest) = .miss :=
  quoted_miss ((front_decimal i).startsIn.avoids (by decide)) ((front_decimal i).startsIn.avoids (by decide))

theorem key_text {k : Key} (hk : k.Expressible) (hrest : Avoids Char.isDigit rest) :
    key (k.text ++ rest) = .ok k rest := by
  cases k with
  | name s => exact orElse_ok (bind_ok (quoted_inQuotes s) rfl)
  | index i => exact orElse_skip (bind_miss (quoted_decimal i)) (bind_ok (integer_decimal hk hrest) rfl)

theorem compareOp_text (op : CompareOp) (hrest : Avoids (· == '=') rest) :
    compareOp (op.text ++ rest) = .ok op rest := by
  have hother {c d : Char} {w cs : List Char} (h : d ≠ c) : text (c :: w) (d :: cs) = .miss :=
    text_miss (.cons (by simpa using h))
  have halone {c : Char} : text [c, '='] (c :: rest) = .miss := text_cons.trans (text_miss hrest)
  cases op with
  | eq => exact choice_ok (bind_ok text_self rfl)
  | ne => exact choice_skip (bind_miss (hother (by decide))) <| choice_ok (bind_ok text_self rfl)
  | le =>
    exact choice_skip (bind_miss (hother (by decide))) <| choice_skip (bind_miss (hother (by decide))) <|
      choice_ok (bind_ok text_self rfl)
  | ge =>
    exact choice_skip (bind_miss (hother (by decide))) <| choice_skip (bind_miss (hother (by decide))) <|
      choice_skip (bind_miss (hother (by decide))) <| choice_ok (bind_ok text_self rfl)
  | lt =>
    exact choice_skip (bind_miss (hother (by decide))) <| choice_skip (bind_miss (hother (by decide))) <|
      choice_skip (bind_miss halone) <| choice_skip (bind_miss (hother (by decide))) <|
      choice_ok (bind_ok text_self rfl)
  | gt =>
    exact choice_skip (bind_miss (hother (by decide))) <| choice_skip (bind_miss (hother (by decide))) <|
      choice_skip (bind_miss (hother (by decide))) <| choice_skip (bind_miss halone) <|
      choice_skip (bind_miss (hother (by decide))) <| choice_ok (bind_ok text_self rfl)

/-! ### Literals -/

theorem either_miss {a b : Char} {cs : List Char} (ha : Avoids (· == a) cs) (hb : Avoids (· == b) cs) :
    either a b cs = .miss :=
  orElse_skip (bind_miss (char_miss ha)) (bind_miss (char_miss hb))

theorem numberText_decimal (i : Int) (hrest : StartsIn afterQuery rest) :
    numberText (decimal i ++ rest) = .ok (decimal i) rest := by
  have hdigits (n : Nat) : span Char.isDigit (Nat.toDigits 10 n ++ rest) = .ok (Nat.toDigits 10 n) rest :=
    span_self Nat.toDigits_ne_nil (fun c => isDigit_of_mem_toDigits) (hrest.avoids (by decide))
  have hpoint : char '.' rest = .miss := char_miss (hrest.avoids (by decide))
  have hexponent : either 'e' 'E' rest = .miss :=
    either_miss (hrest.avoids (by decide)) (hrest.avoids (by decide))
  cases i with
  | ofNat n =>
    have hsign : either '+' '-' (Nat.toDigits 10 n ++ rest) = .miss :=
      either_miss ((front_toDigits n).startsIn.avoids (by decide)) ((front_toDigits n).startsIn.avoids (by decide))
    refine bind_ok (optional_miss hsign) <|
      bind_ok (orElse_ok (bind_ok (hdigits n) (bind_ok (optional_miss (bind_miss hpoint)) rfl))) <|
      bind_ok (optional_miss (bind_miss hexponent)) ?_
    exact congrArg (Reply.ok · rest) (List.append_nil _)
  | negSucc n =>
    have hsign : either '+' '-' ('-' :: (Nat.toDigits 10 (n + 1) ++ rest)) =
        .ok '-' (Nat.toDigits 10 (n + 1) ++ rest) :=
      orElse_skip (bind_miss (char_miss (.cons (by decide)))) (bind_ok char_self rfl)
    refine bind_ok (optional_ok hsign) <|
      bind_ok (orElse_ok (bind_ok (hdigits (n + 1)) (bind_ok (optional_miss (bind_miss hpoint)) rfl))) <|
      bind_ok (optional_miss (bind_miss hexponent)) ?_
    exact congrArg (Reply.ok · rest) (List.append_nil _)

theorem number_decimal {i : Int} (hi : Slice.minWord ≤ i ∧ i ≤ Numeral.maxWord) (hrest : StartsIn afterQuery rest) :
    number (decimal i ++ rest) = .ok (.num (.int i)) rest := by
  refine bind_ok (numberText_decimal i hrest) ?_
  rw [Document.parse_decimal hi.1 hi.2]
  rfl

theorem literal_text {d : Document} (hd : d.IsLiteral) (hrest : StartsIn afterQuery rest) :
    literal (d.literalText ++ rest) = .ok d rest := by
  have hquoted {c : Char} {cs : List Char} (h : c ≠ '\'') (h' : c ≠ '"') : quoted (c :: cs) = .miss :=
    quoted_miss (.cons (by simpa using h)) (.cons (by simpa using h'))
  have hword {c d : Char} {w cs : List Char} (h : d ≠ c) : text (c :: w) (d :: cs) = .miss :=
    text_miss (.cons (by simpa using h))
  match d, hd with
  | .str s, _ => exact choice_ok (bind_ok (quoted_inQuotes s) rfl)
  | .bool true, _ =>
    exact choice_skip (bind_miss (hquoted (by decide) (by decide))) <| choice_ok (bind_ok text_self rfl)
  | .bool false, _ =>
    exact choice_skip (bind_miss (hquoted (by decide) (by decide))) <|
      choice_skip (bind_miss (hword (by decide))) <| choice_ok (bind_ok text_self rfl)
  | .null, _ =>
    exact choice_skip (bind_miss (hquoted (by decide) (by decide))) <|
      choice_skip (bind_miss (hword (by decide))) <| choice_skip (bind_miss (hword (by decide))) <|
      choice_ok (bind_ok text_self rfl)
  | .num (.int i), hi =>
    have hdecimal {c : Char} {w : List Char} (h : ('-' :: digitChars).all fun d => !(d == c)) :
        text (c :: w) (decimal i ++ rest) = .miss := text_miss ((front_decimal i).startsIn.avoids h)
    exact choice_skip (bind_miss (quoted_decimal i)) <| choice_skip (bind_miss (hdecimal (by decide))) <|
      choice_skip (bind_miss (hdecimal (by decide))) <| choice_skip (bind_miss (hdecimal (by decide))) <|
      choice_ok (number_decimal hi hrest)

/-! ### Slices and keys -/

theorem integer_miss {cs : List Char} (hsign : Avoids (· == '-') cs) (hdigit : Avoids Char.isDigit cs) :
    integer cs = .miss :=
  bind_ok (optional_miss (char_miss hsign)) (bind_miss (span_miss hdigit))

theorem bound_text {bound : Option Int} (hbound : ∀ i ∈ bound, IsWord i) (hrest : StartsIn [':', ']'] rest) :
    optional (spaced integer) (boundText bound ++ rest) = .ok bound rest := by
  have hblank : Avoids Draft.isBlank rest := hrest.avoids (by decide)
  cases bound with
  | none =>
    have hinteger : integer rest = .miss := integer_miss (hrest.avoids (by decide)) (hrest.avoids (by decide))
    exact optional_miss (spaced_miss hblank hinteger)
  | some i =>
    have hinteger : integer (decimal i ++ rest) = .ok i rest :=
      integer_decimal (hbound i rfl) (hrest.avoids (by decide))
    exact optional_ok (spaced_ok ((front_decimal i).startsIn.avoids (by decide)) hinteger hblank)

theorem slice_text {first stop step : Option Int} (hfirst : ∀ i ∈ first, IsWord i) (hstop : ∀ i ∈ stop, IsWord i)
    (hstep : ∀ i ∈ step, IsWord i) : slice ((Selector.slice first stop step).text ++ ']' :: rest) =
      .ok (.slice first stop step) (']' :: rest) := by
  have hcolon {cs : List Char} : StartsIn [':', ']'] (':' :: cs) := .cons (by decide)
  have hbracket : StartsIn [':', ']'] (']' :: rest) := .cons (by decide)
  cases step with
  | none =>
    rw [Selector.text, List.append_assoc, List.cons_append]
    have hend : char ':' (']' :: rest) = .miss := char_miss (.cons (by decide))
    exact bind_ok (bound_text hfirst hcolon) <| bind_ok char_self <| bind_ok (bound_text hstop hbracket) <|
      bind_ok (optional_miss (bind_miss hend)) rfl
  | some step =>
    rw [Selector.text, List.append_assoc, List.cons_append, List.append_assoc, List.cons_append]
    have hlast : optional (spaced integer) (decimal step ++ ']' :: rest) = .ok (some step) (']' :: rest) :=
      bound_text hstep hbracket
    exact bind_ok (bound_text hfirst hcolon) <| bind_ok char_self <| bind_ok (bound_text hstop hcolon) <|
      bind_ok (optional_ok (bind_ok char_self hlast)) rfl

/-- A key is no slice. -/
theorem slice_key {k : Key} (hk : k.Expressible) (hrest : StartsIn [',', ']'] rest) :
    slice (k.text ++ rest) = .miss := by
  cases k with
  | name s =>
    have hinteger : integer (inQuotes s ++ rest) = .miss := integer_miss (.cons (by decide)) (.cons (by decide))
    exact bind_ok (optional_miss (spaced_miss (.cons (by decide)) hinteger)) <|
      bind_miss (char_miss (.cons (by decide)))
  | index i =>
    have hinteger : integer (decimal i ++ rest) = .ok i rest := integer_decimal hk (hrest.avoids (by decide))
    have hspaced : spaced integer (decimal i ++ rest) = .ok i rest :=
      spaced_ok ((front_decimal i).startsIn.avoids (by decide)) hinteger (hrest.avoids (by decide))
    exact bind_ok (optional_ok hspaced) (bind_miss (char_miss (hrest.avoids (by decide))))

theorem many_moreKeys {more : List Key} (hmore : ∀ k ∈ more, k.Expressible) :
    many (do spaced (char ','); key) (moreKeys more ++ ']' :: rest) = .ok more (']' :: rest) := by
  induction more with
  | nil => exact many_miss (bind_miss (spaced_miss (.cons (by decide)) (char_miss (.cons (by decide)))))
  | cons k more ih =>
    obtain ⟨hk, hmore⟩ := List.forall_mem_cons.1 hmore
    have htext : moreKeys (k :: more) ++ ']' :: rest = ',' :: (k.text ++ (moreKeys more ++ ']' :: rest)) := by
      simp [moreKeys]
    have hnext : Avoids Char.isDigit (moreKeys more ++ ']' :: rest) := by
      cases more <;> exact .cons (by decide)
    rw [htext]
    refine many_cons (bind_ok (spaced_ok (.cons (by decide)) char_self ?_) (key_text hk hnext)) ?_ (ih hmore)
    · exact (front_key k).startsIn.avoids (by decide)
    · simp only [List.length_cons, List.length_append]
      omega

theorem keys_text {k : Key} {more : List Key} (hkeys : ∀ k' ∈ k :: more, k'.Expressible) :
    keys (k.text ++ (moreKeys more ++ ']' :: rest)) =
      .ok (if more.isEmpty then .key k else .union (k :: more)) (']' :: rest) := by
  obtain ⟨hk, hmore⟩ := List.forall_mem_cons.1 hkeys
  have hnext : Avoids Char.isDigit (moreKeys more ++ ']' :: rest) := by
    cases more <;> exact .cons (by decide)
  refine bind_ok (key_text hk hnext) (bind_ok (many_moreKeys hmore) ?_)
  cases more <;> rfl

/-! ### Names -/

theorem name_text {name : String} (hname : IsPlain name) (hrest : Avoids isNameChar rest) :
    Grammar.name (name.toList ++ rest) = .ok (.key (.name name)) rest := by
  refine bind_ok (span_self hname.1 hname.2 hrest) ?_
  rw [String.ofList_toList]
  rfl

theorem avoids_name {name : String} (hname : IsPlain name) {c : Char} (hc : isNameChar c = false) :
    Avoids (· == c) (name.toList ++ rest) := by
  obtain ⟨d, ds, hds⟩ := List.exists_cons_of_ne_nil hname.1
  have hd : isNameChar d := hname.2 d (hds ▸ List.mem_cons_self ..)
  rw [hds]
  refine .cons (beq_eq_false_iff_ne.2 ?_)
  rintro rfl
  simp [hd] at hc

end Grammar

end StepFlow
