import StepFlow.Proofs.Path.Stability

/-!
# What delimits the parts of a query

Every part of a query is stable in front of what the grammar lets follow it. A selector in brackets, a text in quotes
and a condition in parentheses are stable whatever follows; a number needs what is no part of it, an operand what is
no segment, and a name what is no character of a name (`stable_segment`).
-/

namespace StepFlow

open StepFlow.Parser

namespace Grammar

variable {n : Nat} {S F : List Char → List Char → Prop} {cs rest : List Char}

/-! ### What the parts start with -/

/-- What a number starts with. -/
def numberStart : List Char := '+' :: '-' :: '.' :: digitChars

/-- What a literal starts with. -/
def literalStart : List Char := '\'' :: '"' :: 't' :: 'f' :: 'n' :: numberStart

/-- What an operand starts with. -/
def operandStart : List Char := '@' :: '$' :: literalStart

/-- What a condition starts with. -/
def conditionStart : List Char := '!' :: '(' :: operandStart

/-- What may follow a condition that no connective binds. -/
def unaryEnd : List Char := [')', '&', '|']

/-- What may follow an operand. -/
def operandEnd : List Char := '=' :: '!' :: '<' :: '>' :: unaryEnd

/-- What a key starts with. -/
def keyStart : List Char := '\'' :: '"' :: '-' :: digitChars

/-- What a selector starts with. -/
def selectorStart : List Char := '?' :: '*' :: ':' :: keyStart

/-! ### Numbers and texts -/

/-- The second text does not go on with a digit. -/
def NoDigit (_ t' : List Char) : Prop := Avoids Char.isDigit t'

theorem isBlank_of_isDigit (c : Char) (h : c.isDigit) : Draft.isBlank c = false := by
  have hall : digitChars.all fun c => !Draft.isBlank c := by decide
  simpa using List.all_eq_true.1 hall c (mem_digits_of_isDigit h)

theorem stable_digits : Stable n (Opens digitChars) NoDigit (span Char.isDigit) (span Char.isDigit) :=
  (Stable.span Char.isDigit).imp (fun _ _ => Hits.opens (fun _ => mem_digits_of_isDigit) isBlank_of_isDigit)
    fun _ _ hrest _ => hrest

theorem stable_integer : Stable n (Opens ('-' :: digitChars)) NoDigit integer integer := by
  have hsign : Stable n (Opens ('-' :: digitChars)) (Opens digitChars) (optional (char '-')) (optional (char '-')) :=
    .optional (.char rfl) (fun _ _ h => char_miss (h.avoids (by decide))) (by decide) (by decide)
  exact .bind hsign fun sign => .bind stable_digits fun ds => .ite (.pure _) .fail

theorem quotedFrom_close {quote : Char} (hquote : quote ≠ '\\') : quotedFrom quote (quote :: cs) = .ok [] cs := by
  rw [quotedFrom, if_pos rfl]
  all_goals simp [hquote]

theorem quotedFrom_plain {quote c : Char} {s : List Char} (hc : c ≠ '\\') (hquote : c ≠ quote)
    (h : quotedFrom quote cs = .ok s rest) : quotedFrom quote (c :: cs) = .ok (c :: s) rest := by
  rw [quotedFrom, if_neg hquote, h]
  all_goals simp [hc]

theorem quotedFrom_escaped {quote c : Char} {s : List Char} (h : quotedFrom quote cs = .ok s rest) :
    quotedFrom quote ('\\' :: c :: cs) = .ok (unescape c :: s) rest := by
  rw [quotedFrom, h]

theorem exists_quotedFrom {quote : Char} (hquote : quote ≠ '\\') {s : List Char}
    (h : quotedFrom quote cs = .ok s rest) :
    ∃ w, cs = w ++ rest ∧ ∀ rest', quotedFrom quote (w ++ rest') = .ok s rest' := by
  fun_induction quotedFrom quote cs generalizing s with
  | case1 => cases h
  | case2 => cases h
  | case3 c cs s' mid hs ih =>
    cases h
    obtain ⟨w, rfl, hw⟩ := ih hs
    exact ⟨'\\' :: c :: w, rfl, fun rest' => quotedFrom_escaped (hw rest')⟩
  | case4 c cs hs ih => exact absurd h (hs _ _)
  | case5 cs =>
    cases h
    exact ⟨[quote], rfl, fun rest' => quotedFrom_close hquote⟩
  | case6 c cs hend hlast hne s' mid hs ih =>
    have hc : c ≠ '\\' := fun hc => by
      cases cs with
      | nil => exact hend hc rfl
      | cons d cs => exact hlast d cs hc rfl
    cases h
    obtain ⟨w, rfl, hw⟩ := ih hs
    exact ⟨c :: w, rfl, fun rest' => quotedFrom_plain hc hne (hw rest')⟩
  | case7 c cs hend hlast hne hs ih => exact absurd h (hs _ _)

theorem stable_quoted : Stable n (Opens ['\'', '"']) F quoted quoted := by
  intro cs s rest h
  cases cs with
  | nil => cases h
  | cons q cs =>
    by_cases hq : q = '\'' ∨ q = '"'
    · have hslash : q ≠ '\\' := by rcases hq with rfl | rfl <;> decide
      have hblank : Draft.isBlank q = false := by rcases hq with rfl | rfl <;> rfl
      simp only [quoted, if_pos hq] at h
      cases hs : quotedFrom q cs with
      | ok s' mid =>
        rw [hs] at h
        cases h
        obtain ⟨w, rfl, hw⟩ := exists_quotedFrom hslash hs
        refine ⟨q :: w, rfl, fun rest' _ => ⟨.cons (by simpa using hq) hblank, fun _ => ?_⟩⟩
        simp only [List.cons_append, quoted, if_pos hq, hw]
      | miss => rw [hs] at h; cases h
      | halt mid => rw [hs] at h; cases h
    · simp only [quoted, if_neg hq] at h
      cases h

/-! ### Keys and slices -/

/-- A bound in front of what ends it, or none. -/
theorem stable_bound (start ends : List Char) (hends : ends.all [':', ']'].contains)
    (hbound : ('-' :: digitChars).all start.contains) (hnone : ends.all start.contains) :
    Stable n (Opens start) (Opens ends) (optional (spaced integer)) (optional (spaced integer)) := by
  have hinteger : Stable n (Opens ('-' :: digitChars)) (Opens ends) integer integer :=
    stable_integer.imp (fun _ _ => id) fun _ _ h => (h.mono hends).avoids (by decide)
  refine .optional (.spaced hinteger) (fun _ _ h => ?_) hbound hnone
  have hcolon := h.mono hends
  exact spaced_skip (integer_miss (hcolon.avoids_skipBlanks (by decide)) (hcolon.avoids_skipBlanks (by decide)))

theorem stable_slice : Stable n (Opens (':' :: '-' :: digitChars)) (Opens [']']) slice slice := by
  have hstep : Stable n (Opens [':', ']']) (Opens [']'])
      (optional (do char ':'; optional (spaced integer))) (optional (do char ':'; optional (spaced integer))) := by
    refine .optional (.bind (.char rfl) fun _ =>
      stable_bound (']' :: '-' :: digitChars) [']'] (by decide) (by decide) (by decide)) (fun _ _ h => ?_)
      (by decide) (by decide)
    exact bind_miss (char_miss (h.avoids (by decide)))
  exact .bind (stable_bound _ [':'] (by decide) (by decide) (by decide)) fun first => .bind (.char rfl) fun _ =>
    .bind (stable_bound (':' :: ']' :: '-' :: digitChars) [':', ']'] (by decide) (by decide) (by decide)) fun stop =>
    .bind hstep fun step => .pure _

/-- Quotes open no slice. -/
theorem slice_quoted {t t' : List Char} (h : Opens ['\'', '"'] t t') : slice t' = .miss :=
  bind_ok (optional_miss (spaced_skip (integer_miss (h.avoids_skipBlanks (by decide))
    (h.avoids_skipBlanks (by decide))))) (bind_miss (char_miss (h.avoids (by decide))))

/-- A word without a colon after it is no slice. -/
theorem slice_integer {i : Int} (h : integer cs = .ok i rest) (hrest : Avoids (· == ':') (Draft.skipBlanks rest)) :
    slice cs = .miss := by
  have hblank : Avoids Draft.isBlank cs := fun c hc => by
    by_contra hc'
    obtain ⟨ds, rfl⟩ := List.head?_eq_some_iff.1 hc
    have hmem : c ∈ blankChars := mem_blankChars (by simpa using hc')
    have hmiss : integer (c :: ds) = .miss :=
      integer_miss (StartsIn.avoids (.cons hmem) (by decide)) (StartsIn.avoids (.cons hmem) (by decide))
    rw [hmiss] at h
    cases h
  exact bind_ok (optional_ok (bind_ok (blanks_eq hblank) (bind_ok h rfl))) (bind_miss (char_miss hrest))

/-- In front of a comma or a bracket a key is stable, and no slice. -/
theorem stable_key : Stable n (fun t t' => Opens keyStart t t' ∧ slice t' = .miss) (Opens [',', ']']) key key := by
  have hquoted : Stable n (Opens ['\'', '"']) (Opens [',', ']'])
      (do let s ← quoted; return Key.name s) (do let s ← quoted; return Key.name s) :=
    .bind stable_quoted fun s => .pure _
  have hinteger : Stable n (fun t t' => Opens ('-' :: digitChars) t t' ∧ slice t' = .miss) (Opens [',', ']'])
      integer integer := by
    intro cs i rest h
    obtain ⟨w, hcs, hw⟩ := stable_integer (n := cs.length) h
    refine ⟨w, hcs, fun rest' hrest => ?_⟩
    obtain ⟨hS, hok⟩ := hw rest' (hrest.avoids (by decide))
    have hread := hok (by rw [hcs, List.length_append]; omega)
    exact ⟨⟨hS, slice_integer hread (hrest.avoids_skipBlanks (by decide))⟩, fun _ => hread⟩
  refine .orElse (hquoted.imp (fun _ _ h => ⟨h.mono (by decide), slice_quoted h⟩) fun _ _ => id)
    (.bind hinteger fun i => .pure _) (fun _ _ h => ?_) fun _ _ h => ⟨h.1.mono (by decide), h.2⟩
  exact bind_miss (quoted_miss (h.1.avoids (by decide)) (h.1.avoids (by decide)))

theorem stable_keys : Stable n (fun t t' => Opens keyStart t t' ∧ slice t' = .miss) (Opens [']']) keys keys := by
  have hcomma : Stable n (Opens [',']) (Opens keyStart) (spaced (char ',')) (spaced (char ',')) :=
    .spaced (.char rfl)
  have hitem : Stable n (Opens [',']) (Opens [',', ']']) (do spaced (char ','); key) (do spaced (char ','); key) :=
    .bind hcomma fun _ => stable_key.imp (fun _ _ => And.left) fun _ _ => id
  have hmore : Stable n (Opens [',', ']']) (Opens [']'])
      (many (do spaced (char ','); key)) (many (do spaced (char ','); key)) := by
    refine .many hitem (fun _ _ => Opens.mono (by decide)) (fun _ _ => Opens.mono (by decide)) (fun _ _ h => ?_)
      (fun _ _ => Opens.mono (by decide)) fun _ _ => Opens.mono (by decide)
    exact bind_miss (spaced_skip (char_miss (h.avoids_skipBlanks (by decide))))
  refine .bind stable_key fun first => .bind hmore fun more => ?_
  cases more with
  | nil => exact .pure _
  | cons second more => exact .pure _

/-! ### Literals -/

theorem stable_either {a b : Char} (ha : Draft.isBlank a = false) (hb : Draft.isBlank b = false)
    (hab : (blankChars ++ [b]).all fun c => !(c == a)) :
    Stable n (Opens [a, b]) F (either a b) (either a b) := by
  have halone {c : Char} (hc : Draft.isBlank c = false) : Stable n (Opens [c]) F
      (do char c; return c : Parser Char) (do char c; return c) := .bind (.char hc) fun _ => .pure _
  exact .orElse ((halone ha).widen (by simp)) (halone hb)
    (fun _ _ h => bind_miss (char_miss (h.avoids hab))) fun _ _ => Opens.mono (by simp)

theorem either_opens {a b : Char} {set t t' : List Char} (h : Opens set t t')
    (ha : (blankChars ++ set).all fun c => !(c == a)) (hb : (blankChars ++ set).all fun c => !(c == b)) :
    either a b t' = .miss := either_miss (h.avoids ha) (h.avoids hb)

/-- Digits that a number cannot do without are read as other digits are. -/
theorem stable_exponentDigits : Stable n (Opens digitChars) NoDigit exponentDigits exponentDigits := by
  intro cs ds rest h
  have hspan : span Char.isDigit cs = .ok ds rest := by
    rw [exponentDigits] at h
    split at h
    · cases h
    · exact h
  obtain ⟨w, hcs, hw⟩ := stable_digits (n := n) hspan
  refine ⟨w, hcs, fun rest' hrest => ?_⟩
  obtain ⟨hS, hok⟩ := hw rest' hrest
  refine ⟨hS, fun hlen => ?_⟩
  rw [exponentDigits, hok hlen]

/-- A sign of a number, or none. -/
def sign : Parser (Option Char) := optional (either '+' '-')

/-- The digits behind a point, with the point, if there is one. -/
def fraction : Parser (Option (Option (List Char))) := optional (do char '.'; optional (span Char.isDigit))

/-- The digits in front of a point and those behind it. -/
def joinDigits (whole : List Char) : Option (Option (List Char)) → List Char
  | none => whole
  | some ds => whole ++ '.' :: ds.getD []

/-- The digits of a number and its point. -/
def mantissa : Parser (List Char) := orElse
  (do
    let whole ← span Char.isDigit
    let digits ← fraction
    return joinDigits whole digits)
  (do
    char '.'
    let ds ← span Char.isDigit
    return '.' :: ds)

/-- The exponent of a number, with its mark. -/
def exponent : Parser (List Char) := do
  let _ ← either 'e' 'E'
  let s ← sign
  let ds ← exponentDigits
  return 'e' :: s.toList ++ ds

theorem numberText_eq : numberText = (do
    let s ← sign
    let m ← mantissa
    let e ← optional exponent
    return s.toList ++ m ++ e.getD []) := rfl

/-- What may follow the digits in front of an exponent. -/
def mantissaEnd : List Char := 'e' :: 'E' :: operandEnd

theorem stable_sign (all others : List Char) (hothers : others.all ('.' :: digitChars).contains)
    (hsigns : ['+', '-'].all all.contains) (hall : others.all all.contains) :
    Stable n (Opens all) (Opens others) sign sign :=
  .optional (stable_either rfl rfl (by decide))
    (fun _ _ h => either_opens (h.mono hothers) (by decide) (by decide)) hsigns hall

theorem stable_mantissa : Stable n (Opens ('.' :: digitChars)) (Opens mantissaEnd) mantissa mantissa := by
  have hdigits (others : List Char) (hothers : (blankChars ++ others).all fun c => !c.isDigit) :
      Stable n (Opens digitChars) (Opens others) (span Char.isDigit) (span Char.isDigit) :=
    stable_digits.imp (fun _ _ => id) fun _ _ h => h.avoids hothers
  have htail : Stable n (Opens (digitChars ++ mantissaEnd)) (Opens mantissaEnd)
      (optional (span Char.isDigit)) (optional (span Char.isDigit)) :=
    .optional (hdigits mantissaEnd (by decide)) (fun _ _ h => span_miss (h.avoids (by decide))) (by decide)
      (by decide)
  have hfraction : Stable n (Opens ('.' :: mantissaEnd)) (Opens mantissaEnd) fraction fraction :=
    .optional (.bind (.char rfl) fun _ => htail) (fun _ _ h => bind_miss (char_miss (h.avoids (by decide))))
      (by decide) (by decide)
  have hwhole := Stable.bind (hdigits ('.' :: mantissaEnd) (by decide)) fun whole =>
    Stable.bind hfraction fun digits => Stable.pure (joinDigits whole digits)
  have hpoint := Stable.bind (.char (c := '.') rfl) fun _ => Stable.bind (hdigits mantissaEnd (by decide)) fun ds =>
    Stable.pure ('.' :: ds)
  exact .orElse (hwhole.widen (by decide)) hpoint
    (fun _ _ h => bind_miss (span_miss (h.avoids (by decide)))) fun _ _ => Opens.mono (by decide)

theorem stable_exponent : Stable n (Opens ['e', 'E']) (Opens operandEnd) exponent exponent :=
  .bind (stable_either rfl rfl (by decide)) fun _ =>
    .bind (stable_sign numberStart digitChars (by decide) (by decide) (by decide)) fun _ =>
    .bind (stable_exponentDigits.imp (fun _ _ => id) fun _ _ h => h.avoids (by decide)) fun _ => .pure _

theorem stable_numberText : Stable n (Opens numberStart) (Opens operandEnd) numberText numberText := by
  have hexponent : Stable n (Opens mantissaEnd) (Opens operandEnd) (optional exponent) (optional exponent) :=
    .optional stable_exponent (fun _ _ h => bind_miss (either_opens h (by decide) (by decide))) (by decide)
      (by decide)
  rw [numberText_eq]
  exact .bind (stable_sign _ ('.' :: digitChars) (by decide) (by decide) (by decide)) fun s =>
    .bind stable_mantissa fun m => .bind hexponent fun e => .pure _

theorem stable_number : Stable n (Opens numberStart) (Opens operandEnd) number number := by
  refine .bind stable_numberText fun cs => ?_
  cases Document.parse (String.ofList cs) with
  | ok d => exact .pure d
  | error flaw => exact .fail

theorem stable_literal : Stable n (Opens literalStart) (Opens operandEnd) literal literal := by
  have hword {c : Char} {w : List Char} (d : Document) (hc : Draft.isBlank c = false) :
      Stable n (Opens [c]) (Opens operandEnd)
        (do text (c :: w); return d : Parser Document) (do text (c :: w); return d) :=
    .bind (.text hc) fun _ => .pure d
  have hmiss {c : Char} {w : List Char} {d : Document} {set t t' : List Char} (h : Opens set t t')
      (hset : (blankChars ++ set).all fun d => !(d == c)) :
      (do text (c :: w); return d : Parser Document) t' = .miss :=
    bind_miss (text_miss (h.avoids hset))
  have hquoted : Stable n (Opens ['\'', '"']) (Opens operandEnd)
      (do let s ← quoted; return .str s : Parser Document) (do let s ← quoted; return .str s) :=
    .bind stable_quoted fun s => .pure _
  refine .choice_cons ['\'', '"'] ('t' :: 'f' :: 'n' :: numberStart) hquoted ?_ (fun _ _ h => ?_) (by decide)
    (by decide)
  · refine .choice_cons ['t'] ('f' :: 'n' :: numberStart) (hword _ rfl) ?_ (fun _ _ h => hmiss h ?_) (by decide)
      (by decide)
    · refine .choice_cons ['f'] ('n' :: numberStart) (hword _ rfl) ?_ (fun _ _ h => hmiss h ?_) (by decide)
        (by decide)
      · exact .choice_cons ['n'] numberStart (hword _ rfl) (.choice_single stable_number)
          (fun _ _ h => hmiss h (by decide)) (by decide) (by decide)
      · decide
    · decide
  · exact bind_miss (quoted_miss (h.avoids (by decide)) (h.avoids (by decide)))

/-! ### Operators -/

/-- What an operator starts with. -/
def operatorStart : List Char := ['=', '!', '<', '>']

theorem compareOp_eq_ok {op : CompareOp} (h : compareOp cs = .ok op rest) : cs = op.text ++ rest := by
  have hword {w : List Char} {op' : CompareOp} (h : (do text w; return op' : Parser CompareOp) cs = .ok op rest)
      (hop : op'.text = w) : cs = op.text ++ rest := by
    obtain ⟨⟨⟩, mid, hw, hpure⟩ := bind_eq_ok h
    cases hpure
    rw [hop]
    exact text_eq_ok hw
  obtain h | ⟨-, h⟩ := orElse_eq_ok h
  · exact hword h rfl
  obtain h | ⟨-, h⟩ := orElse_eq_ok h
  · exact hword h rfl
  obtain h | ⟨-, h⟩ := orElse_eq_ok h
  · exact hword h rfl
  obtain h | ⟨-, h⟩ := orElse_eq_ok h
  · exact hword h rfl
  obtain h | ⟨-, h⟩ := orElse_eq_ok h
  · exact hword h rfl
  obtain h | ⟨-, h⟩ := orElse_eq_ok h
  · exact hword h rfl
  · cases h

theorem stable_compareOp : Stable n (Opens operatorStart) (Opens operandStart) compareOp compareOp := by
  intro cs op rest h
  refine ⟨op.text, compareOp_eq_ok h, fun rest' hrest => ⟨?_, fun _ => compareOp_text op (hrest.avoids (by decide))⟩⟩
  rw [compareOp_eq_ok h]
  cases op <;> exact .cons (by decide) rfl

theorem compareOp_miss_of {set t' : List Char} (h : Front set t')
    (hset : set.all fun c => !operatorStart.contains c) : compareOp t' = .miss := by
  have hword {c : Char} {w : List Char} {op : CompareOp} (hc : c ∈ operatorStart) :
      (do text (c :: w); return op : Parser CompareOp) t' = .miss := by
    refine bind_miss (text_miss ?_)
    obtain ⟨d, ds, rfl, hd⟩ := h
    refine .cons (beq_eq_false_iff_ne.2 ?_)
    rintro rfl
    have hd' : d ∉ operatorStart := by simpa using List.all_eq_true.1 hset d hd
    exact hd' hc
  exact choice_skip (hword (by decide)) <| choice_skip (hword (by decide)) <| choice_skip (hword (by decide)) <|
    choice_skip (hword (by decide)) <| choice_skip (hword (by decide)) <| choice_skip (hword (by decide)) rfl

/-! ### Selectors and segments -/

section

variable {condition condition' : Parser Filter}

theorem stable_filter (h : Stable n (Opens conditionStart) (Opens [')']) condition condition') :
    Stable n (Opens ['?']) F (filter condition) (filter condition') :=
  .bind (.char rfl) fun _ => .bind (.blanks ['(']) fun _ => .bind (.char rfl) fun _ =>
    .bind (.spaced h) fun _ => .bind (.char rfl) fun _ => .pure _

theorem stable_wildcard : Stable n (Opens ['*']) F wildcard wildcard :=
  .bind (.char rfl) fun _ => .pure _

theorem stable_selector (h : Stable n (Opens conditionStart) (Opens [')']) condition condition') :
    Stable n (Opens selectorStart) (Opens [']'])
      (choice [filter condition, wildcard, slice, keys]) (choice [filter condition', wildcard, slice, keys]) := by
  have hlast : Stable n (Opens (':' :: keyStart)) (Opens [']']) (choice [slice, keys]) (choice [slice, keys]) :=
    .orElse (stable_slice.widen (by decide)) (.choice_single stable_keys)
      (fun _ _ h => h.2) fun _ _ h => h.1.mono (by decide)
  have hwildcard : Stable n (Opens ('*' :: ':' :: keyStart)) (Opens [']'])
      (choice [wildcard, slice, keys]) (choice [wildcard, slice, keys]) :=
    .choice_cons ['*'] (':' :: keyStart) stable_wildcard hlast
      (fun _ _ h => bind_miss (char_miss (h.avoids (by decide)))) (by decide) (by decide)
  exact .choice_cons ['?'] ('*' :: ':' :: keyStart) (stable_filter h) hwildcard
    (fun _ _ h => bind_miss (char_miss (h.avoids (by decide)))) (by decide) (by decide)

/-- A selector in brackets is read alike whatever follows. -/
theorem stable_bracket (h : Stable n (Opens conditionStart) (Opens [')']) condition condition') :
    Stable (n + 1) (Opens ['[']) F (bracket condition) (bracket condition') :=
  (Stable.after '[' (.bind (.blanks selectorStart) fun _ => .bind (stable_selector h) fun s =>
    .bind (.blanks [']']) fun _ => .bind (.char rfl) fun _ => .pure s)).imp
    (fun _ _ => After.opens (List.mem_singleton_self _) rfl) fun _ _ => id

theorem stable_name : Stable n (Hits isNameChar) (KeepsOff isNameChar) name name :=
  .bind (.span isNameChar) fun _ => .pure _

theorem ne_of_isNameChar {c d : Char} (hd : isNameChar d = false) (hc : isNameChar c) : (c == d) = false := by
  refine beq_eq_false_iff_ne.2 ?_
  rintro rfl
  rw [hc] at hd
  cases hd

theorem stable_segment (h : Stable n (Opens conditionStart) (Opens [')']) condition condition') :
    Stable (n + 1) (Opens ['.', '[']) (KeepsOff isNameChar) (segment condition) (segment condition') := by
  have hstar : Stable (n + 1) (Opens ['*']) (KeepsOff isNameChar) wildcard wildcard := stable_wildcard
  have hbracket : Stable (n + 1) (Opens ['[']) (KeepsOff isNameChar) (choice [bracket condition])
      (choice [bracket condition']) := .choice_single (stable_bracket h)
  -- After two points a star, a name or a bracket.
  have hdescendants : Stable (n + 1) Anything (KeepsOff isNameChar)
      (choice [wildcard, name, bracket condition]) (choice [wildcard, name, bracket condition']) := by
    refine .orElse (T := fun _ t' => Avoids (· == '*') t') (hstar.imp (fun _ _ _ => trivial) fun _ _ => id)
      (.orElse (stable_name.imp (fun _ _ h => h.avoids fun _ => ne_of_isNameChar (by decide)) fun _ _ => id) hbracket
        (fun _ _ h => bind_miss (span_miss (h.avoids (by decide)))) fun _ _ h => h.avoids (by decide))
      (fun _ _ h => bind_miss (char_miss h)) fun _ _ _ => trivial
  -- After one point a star or a name, and so no other point.
  have hchild : Stable n (fun _ t' => Avoids (· == '.') t') (KeepsOff isNameChar)
      (choice [wildcard, name]) (choice [wildcard, name]) :=
    .orElse (stable_wildcard.imp (fun _ _ h => h.avoids (by decide)) fun _ _ => id) (.choice_single stable_name)
      (fun _ _ h => bind_miss (char_miss (h.avoids fun _ => ne_of_isNameChar (by decide))))
      fun _ _ h => h.avoids fun _ => ne_of_isNameChar (by decide)
  refine .orElse (T := fun t t' => Opens ['.', '['] t t' ∧ text "..".toList t' = .miss)
    (.bind (.widen (.text rfl) (by decide)) fun _ => .bind hdescendants fun s => .pure _)
    (.orElse (T := Opens ['['])
      (.imp (.after '.' (.bind hchild fun s => .pure _)) (fun _ _ h => ⟨?_, ?_⟩) fun _ _ => id)
      (.choice_single (.bind (stable_bracket h) fun s => .pure _)) (fun _ _ h => ?_) fun _ _ h => ⟨?_, ?_⟩)
    (fun _ _ h => bind_miss h.2) fun _ _ h => h.1
  · exact h.opens (by decide) rfl
  · obtain ⟨r, r', -, rfl, hr⟩ := h
    exact text_cons.trans (text_miss hr)
  · exact bind_miss (char_miss (h.avoids (by decide)))
  · exact h.mono (by decide)
  · exact text_miss (h.avoids (by decide))

theorem segment_miss_of {t t' : List Char} (h : Opens operandEnd t t') : segment condition t' = .miss :=
  choice_skip (bind_miss (text_miss (h.avoids (by decide)))) <|
    choice_skip (bind_miss (char_miss (h.avoids (by decide)))) <|
    choice_skip (bind_miss (bind_miss (char_miss (h.avoids (by decide))))) rfl

theorem stable_segments (h : Stable n (Opens conditionStart) (Opens [')']) condition condition') :
    Stable (n + 1) (Opens ('.' :: '[' :: operandEnd)) (Opens operandEnd) (segments condition) (segments condition') :=
  .many (stable_segment h) (fun _ _ h _ => h.avoids (by decide)) (fun _ _ h _ => h.avoids (by decide))
    (fun _ _ => segment_miss_of) (fun _ _ => Opens.mono (by decide)) fun _ _ => Opens.mono (by decide)

/-! ### Conditions -/

theorem stable_operand (h : Stable n (Opens conditionStart) (Opens [')']) condition condition') :
    Stable (n + 1) (Opens operandStart) (Opens operandEnd) (operand condition) (operand condition') := by
  have hliteral : Stable (n + 1) (Opens literalStart) (Opens operandEnd)
      (choice [do let d ← literal; return Operand.literal d])
      (choice [do let d ← literal; return Operand.literal d]) :=
    .choice_single (.bind stable_literal fun d => .pure _)
  refine .choice_cons ['@'] ('$' :: literalStart)
    (.bind (.char rfl) fun _ => .bind (stable_segments h) fun q => .pure _) ?_
    (fun _ _ h => bind_miss (char_miss (h.avoids (by decide)))) (by decide) (by decide)
  exact .choice_cons ['$'] literalStart
    (.bind (.char rfl) fun _ => .bind (stable_segments h) fun q => .pure _) hliteral
    (fun _ _ h => bind_miss (char_miss (h.avoids (by decide)))) (by decide) (by decide)

theorem stable_comparison (h : Stable n (Opens conditionStart) (Opens [')']) condition condition') :
    Stable (n + 1) (Opens operandStart) (Opens unaryEnd) (comparison condition) (comparison condition') := by
  have hright : Stable (n + 1) (Opens operandStart) (Opens unaryEnd)
      (spaced (operand condition)) (spaced (operand condition')) :=
    (Stable.spaced (stable_operand h)).mono (by decide) (by decide)
  have hrest : Stable (n + 1) (Opens operandEnd) (Opens unaryEnd)
      (optional (do let op ← spaced compareOp; let right ← spaced (operand condition); return (op, right)))
      (optional (do let op ← spaced compareOp; let right ← spaced (operand condition'); return (op, right))) := by
    refine .optional (.bind (.spaced stable_compareOp) fun op => .bind hright fun right => .pure (op, right))
      (fun _ _ h => ?_) (by decide) (by decide)
    exact bind_miss (spaced_skip (compareOp_miss_of h.2 (by decide)))
  refine .bind (.spaced (stable_operand h)) fun left => .bind hrest fun rest => ?_
  cases rest with
  | none => exact .pure _
  | some rest => exact .pure _

end

/-- Further parts, each after a connective, in front of what is none. -/
theorem stable_connective {p p' : Parser Filter} {c : Char} {w : List Char} (more ends : List Char)
    (h : Stable n (Opens conditionStart) (Opens more) p p') (hc : Draft.isBlank c = false)
    (hmore : [c].all more.contains) (hends : ends.all more.contains) (hother : ends.all fun d => !(d == c)) :
    Stable n (Opens more) (Opens ends)
      (many (do spaced (text (c :: w)); p)) (many (do spaced (text (c :: w)); p')) := by
  have hitem : Stable n (Opens [c]) (Opens more) (do spaced (text (c :: w)); p) (do spaced (text (c :: w)); p') :=
    .bind (.spaced (.text hc)) fun _ => h
  exact .many hitem (fun _ _ => Opens.mono hmore) (fun _ _ => Opens.mono hends)
    (fun _ _ h => bind_miss (spaced_skip (text_miss (h.avoids_skipBlanks hother))))
    (fun _ _ => Opens.mono hmore) fun _ _ => Opens.mono hends

theorem stable_connected {unary unary' : Parser Filter}
    (h : Stable n (Opens conditionStart) (Opens unaryEnd) unary unary') :
    Stable n (Opens conditionStart) (Opens [')']) (connected unary) (connected unary') := by
  have hconjunction {f : Filter → List Filter → Filter} : Stable n (Opens conditionStart) (Opens [')', '|'])
      (do let first ← unary; let more ← many (do spaced (text "&&".toList); unary); return f first more)
      (do let first ← unary'; let more ← many (do spaced (text "&&".toList); unary'); return f first more) :=
    .bind h fun first =>
      .bind (stable_connective unaryEnd [')', '|'] h rfl (by decide) (by decide) (by decide)) fun more => .pure _
  exact .bind hconjunction fun first =>
    .bind (stable_connective [')', '|'] [')'] hconjunction rfl (by decide) (by decide) (by decide)) fun more =>
      .pure _

theorem unary_succ (budget : Nat) : unary (budget + 1) = choice [
    do
      spaced (char '!')
      let f ← unary budget
      return .not f,
    do
      spaced (char '(')
      let f ← connected (unary budget)
      spaced (char ')')
      return f,
    comparison (connected (unary budget))] := rfl

/-- One level more takes one character more. -/
theorem stable_unary_succ {budget : Nat}
    (h : Stable n (Opens conditionStart) (Opens unaryEnd) (unary budget) (unary n)) :
    Stable (n + 1) (Opens conditionStart) (Opens unaryEnd) (unary (budget + 1)) (unary (n + 1)) := by
  have hcondition := stable_connected h
  have hchar {m : Nat} {c : Char} {ends : List Char} (hc : Draft.isBlank c = false) :
      Stable m (Opens [c]) (Opens ends) (spaced (char c)) (spaced (char c)) := .spaced (.char hc)
  rw [unary_succ, unary_succ]
  refine .choice_cons ['!'] ('(' :: operandStart)
    (.bind_longer (hchar rfl) (spaced_longer char_longer) fun _ => .bind h fun f => .pure _) ?_
    (fun _ _ h => bind_miss (spaced_skip (char_miss (h.avoids_skipBlanks (by decide))))) (by decide) (by decide)
  have hparentheses : Stable (n + 1) (Opens ['(']) (Opens unaryEnd)
      (do spaced (char '('); let f ← connected (unary budget); spaced (char ')'); return f)
      (do spaced (char '('); let f ← connected (unary n); spaced (char ')'); return f) :=
    .bind_longer (hchar rfl) (spaced_longer char_longer) fun _ => .bind hcondition fun f =>
      .bind (hchar rfl) fun _ => .pure f
  exact .choice_cons ['('] operandStart hparentheses (.choice_single (stable_comparison hcondition))
    (fun _ _ h => bind_miss (spaced_skip (char_miss (h.avoids_skipBlanks (by decide))))) (by decide) (by decide)

/-- A condition that no connective binds is read with every budget of at least its length. -/
theorem stable_unary (budget n : Nat) :
    Stable n (Opens conditionStart) (Opens unaryEnd) (unary budget) (unary n) := by
  induction budget generalizing n with
  | zero => exact nofun
  | succ budget ih =>
    cases n with
    | succ n => exact stable_unary_succ (ih n)
    | zero =>
      intro cs f rest h
      obtain ⟨w, hcs, hw⟩ := stable_unary_succ (ih 0) h
      refine ⟨w, hcs, fun rest' hrest => ⟨(hw rest' hrest).1, fun hlen => ?_⟩⟩
      -- No condition is read from the empty text.
      obtain rfl := List.length_eq_zero_iff.1 (Nat.le_zero.1 hlen)
      exact ((hw rest' hrest).1.disjoint (by decide) hrest).elim

theorem stable_condition (budget n : Nat) : Stable n (Opens conditionStart) (Opens [')'])
    (connected (unary budget)) (connected (unary n)) := stable_connected (stable_unary budget n)

end Grammar
end StepFlow
