import StepFlow.Proofs.Path.Tokens

/-!
# Reading the texts of queries

Every spelling of a query is read as this query (`Query.Spelled.parseQuery_eq`), by induction on the query. A
selector is read up to its bracket, a condition up to its parenthesis, and a query as long as segments follow. The
budget of nesting is at least the length of the text: every level takes a character of its own.
-/

namespace StepFlow

open StepFlow.Parser

namespace Grammar

variable {rest : List Char}

/-! ### Conditions -/

section

variable {unary : Parser Filter} {a b f : Filter} {cs ds mid : List Char}

/-- A single condition, where no connective follows that binds stronger. -/
theorem conjunction_single (h : unary cs = .ok f mid) (hmid : StartsIn [')', '|'] mid) :
    (do
      let first ← unary
      let more ← many (do spaced (text "&&".toList); unary)
      return more.foldl .and first : Parser Filter) cs = .ok f mid :=
  bind_ok h <| bind_ok (many_miss (bind_miss (spaced_miss (hmid.avoids (by decide))
    (text_miss (hmid.avoids (by decide)))))) rfl

theorem no_disjunction {p : Parser Filter} :
    many (do spaced (text "||".toList); p) (')' :: rest) = .ok [] (')' :: rest) :=
  many_miss (bind_miss (spaced_miss (.cons (by decide)) (text_miss (.cons (by decide)))))

theorem connected_single (h : unary cs = .ok f (')' :: rest)) : connected unary cs = .ok f (')' :: rest) :=
  bind_ok (conjunction_single h (.cons (by decide))) (bind_ok no_disjunction rfl)

theorem connected_or (ha : unary cs = .ok a ('|' :: '|' :: ds)) (hb : unary ds = .ok b (')' :: rest))
    (hds : Avoids Draft.isBlank ds) (hrest : rest.length < ds.length) :
    connected unary cs = .ok (.or a b) (')' :: rest) := by
  have hor : spaced (text "||".toList) ('|' :: '|' :: ds) = .ok () ds :=
    spaced_ok (.cons (by decide)) text_self hds
  refine bind_ok (conjunction_single ha (.cons (by decide))) <|
    bind_ok (many_cons (bind_ok hor (conjunction_single hb (.cons (by decide)))) ?_ no_disjunction) rfl
  simp only [List.length_cons]
  omega

theorem connected_and (ha : unary cs = .ok a ('&' :: '&' :: ds)) (hb : unary ds = .ok b (')' :: rest))
    (hds : Avoids Draft.isBlank ds) (hrest : rest.length < ds.length) :
    connected unary cs = .ok (.and a b) (')' :: rest) := by
  have hand : spaced (text "&&".toList) ('&' :: '&' :: ds) = .ok () ds :=
    spaced_ok (.cons (by decide)) text_self hds
  have hend : many (do spaced (text "&&".toList); unary) (')' :: rest) = .ok [] (')' :: rest) :=
    many_miss (bind_miss (spaced_miss (.cons (by decide)) (text_miss (.cons (by decide)))))
  refine bind_ok (bind_ok ha (bind_ok (many_cons (bind_ok hand hb) ?_ hend) rfl)) (bind_ok no_disjunction rfl)
  simp only [List.length_cons]
  omega

end

section

variable {budget : Nat} {f : Filter} {cs : List Char}

theorem unary_parenthesized (h : connected (unary budget) (cs ++ ')' :: rest) = .ok f (')' :: rest))
    (hcs : Avoids Draft.isBlank (cs ++ ')' :: rest)) (hrest : Avoids Draft.isBlank rest) :
    unary (budget + 1) (parenthesized cs ++ rest) = .ok f rest := by
  rw [parenthesized, List.cons_append, List.append_assoc, List.singleton_append]
  have hnot : spaced (char '!') ('(' :: (cs ++ ')' :: rest)) = .miss :=
    spaced_miss (.cons (by decide)) (char_miss (.cons (by decide)))
  exact choice_skip (bind_miss hnot) <| choice_ok <| bind_ok (spaced_ok (.cons (by decide)) char_self hcs) <|
    bind_ok h <| bind_ok (spaced_ok (.cons (by decide)) char_self hrest) rfl

theorem unary_not (h : unary budget cs = .ok f rest) (hcs : Avoids Draft.isBlank cs) :
    unary (budget + 1) ('!' :: cs) = .ok (.not f) rest :=
  choice_ok (bind_ok (spaced_ok (.cons (by decide)) char_self hcs) (bind_ok h rfl))

theorem unary_comparison (hcs : StartsIn operandFront cs)
    (h : comparison (connected (unary budget)) cs = .ok f rest) : unary (budget + 1) cs = .ok f rest :=
  choice_skip (bind_miss (spaced_miss (hcs.avoids (by decide)) (char_miss (hcs.avoids (by decide))))) <|
    choice_skip (bind_miss (spaced_miss (hcs.avoids (by decide)) (char_miss (hcs.avoids (by decide))))) <|
    choice_ok h

end

section

variable {condition : Parser Filter} {left right : Operand} {cs ds : List Char}

theorem compareOp_miss : compareOp (')' :: rest) = .miss := by
  have hword {c : Char} {w : List Char} (h : ')' ≠ c) : text (c :: w) (')' :: rest) = .miss :=
    text_miss (.cons (by simpa using h))
  exact choice_skip (bind_miss (hword (by decide))) <| choice_skip (bind_miss (hword (by decide))) <|
    choice_skip (bind_miss (hword (by decide))) <| choice_skip (bind_miss (hword (by decide))) <|
    choice_skip (bind_miss (hword (by decide))) <| choice_skip (bind_miss (hword (by decide))) rfl

theorem comparison_holds (hcs : StartsIn operandFront cs)
    (h : operand condition cs = .ok left (')' :: rest)) :
    comparison condition cs = .ok (.holds left) (')' :: rest) :=
  bind_ok (spaced_ok (hcs.avoids (by decide)) h (.cons (by decide))) <|
    bind_ok (optional_miss (bind_miss (spaced_miss (.cons (by decide)) compareOp_miss))) rfl

theorem comparison_compare (op : CompareOp) (hcs : StartsIn operandFront cs)
    (hleft : operand condition cs = .ok left (op.text ++ ds)) (hds : StartsIn operandFront ds)
    (hright : operand condition ds = .ok right (')' :: rest)) :
    comparison condition cs = .ok (.compare left op right) (')' :: rest) := by
  have hblank : Avoids Draft.isBlank (op.text ++ ds) := by
    cases op <;> exact .cons (by decide)
  have hop : spaced compareOp (op.text ++ ds) = .ok op ds :=
    spaced_ok hblank (compareOp_text op (hds.avoids (by decide))) (hds.avoids (by decide))
  have hoperand : spaced (operand condition) ds = .ok right (')' :: rest) :=
    spaced_ok (hds.avoids (by decide)) hright (.cons (by decide))
  exact bind_ok (spaced_ok (hcs.avoids (by decide)) hleft hblank) <|
    bind_ok (optional_ok (bind_ok hop (bind_ok hoperand rfl))) rfl

/-! ### Segments -/

theorem bracket_text {s : Selector} (hcs : Avoids Draft.isBlank (cs ++ ']' :: rest))
    (h : choice [filter condition, wildcard, slice, keys] (cs ++ ']' :: rest) = .ok s (']' :: rest)) :
    bracket condition (bracketed cs ++ rest) = .ok s rest := by
  rw [bracketed, List.cons_append, List.append_assoc, List.singleton_append]
  exact bind_ok char_self <| bind_ok (blanks_eq hcs) <| bind_ok h <|
    bind_ok (blanks_eq (.cons (by decide))) <| bind_ok char_self rfl

theorem segment_miss (hrest : StartsIn afterQuery rest) : segment condition rest = .miss :=
  choice_skip (bind_miss (text_miss (hrest.avoids (by decide)))) <|
    choice_skip (bind_miss (char_miss (hrest.avoids (by decide)))) <|
    choice_skip (bind_miss (bind_miss (char_miss (hrest.avoids (by decide))))) rfl

theorem segment_child {s : Selector} (h : bracket condition (bracketed cs ++ rest) = .ok s rest) :
    segment condition (bracketed cs ++ rest) = .ok (.child s) rest :=
  choice_skip (bind_miss (text_miss (.cons (by decide)))) <|
    choice_skip (bind_miss (char_miss (.cons (by decide)))) <| choice_ok (bind_ok h rfl)

theorem segment_descendants {s : Selector} (h : bracket condition (bracketed cs ++ rest) = .ok s rest) :
    segment condition ('.' :: '.' :: bracketed cs ++ rest) = .ok (.descendants s) rest := by
  have hselector : choice [wildcard, name, bracket condition] (bracketed cs ++ rest) = .ok s rest :=
    choice_skip (bind_miss (char_miss (.cons (by decide)))) <|
      choice_skip (bind_miss (span_miss (.cons (by decide)))) (choice_ok h)
  exact choice_ok (bind_ok text_self (bind_ok hselector rfl))

theorem segment_member {n : String} (hn : IsPlain n) (hrest : Avoids isNameChar rest) :
    segment condition ('.' :: n.toList ++ rest) = .ok (.child (.key (.name n))) rest := by
  have hdots : text "..".toList ('.' :: n.toList ++ rest) = .miss :=
    text_cons.trans (text_miss (avoids_name hn (by decide)))
  have hselector : choice [wildcard, name] (n.toList ++ rest) = .ok (.key (.name n)) rest :=
    choice_skip (bind_miss (char_miss (avoids_name hn (by decide)))) (choice_ok (name_text hn hrest))
  exact choice_skip (bind_miss hdots) (choice_ok (bind_ok char_self (bind_ok hselector rfl)))

theorem segment_members {n : String} (hn : IsPlain n) (hrest : Avoids isNameChar rest) :
    segment condition ('.' :: '.' :: n.toList ++ rest) = .ok (.descendants (.key (.name n))) rest := by
  have hselector : choice [wildcard, name, bracket condition] (n.toList ++ rest) = .ok (.key (.name n)) rest :=
    choice_skip (bind_miss (char_miss (avoids_name hn (by decide)))) (choice_ok (name_text hn hrest))
  exact choice_ok (bind_ok text_self (bind_ok hselector rfl))

end

end Grammar

/-! ### Spellings -/

section

variable {cs : List Char}

theorem Document.IsLiteral.front {d : Document} (h : d.IsLiteral) : Front literalFront d.literalText := by
  match d, h with
  | .str _, _ | .bool true, _ | .bool false, _ | .null, _ => exact .cons (by decide)
  | .num (.int i), _ => exact (front_decimal i).mono (by decide)

theorem Operand.Spelled.front {o : Operand} (h : o.Spelled cs) : Front operandFront cs := by
  cases h with
  | current _ => exact .cons (by decide)
  | root _ => exact .cons (by decide)
  | literal h => exact h.front.mono (by decide)

theorem Filter.Spelled.front {f : Filter} (h : f.Spelled cs) : Front ('(' :: '!' :: operandFront) cs := by
  cases h with
  | or _ _ => exact .cons (by decide)
  | and _ _ => exact .cons (by decide)
  | not _ => exact .cons (by decide)
  | holds h => exact h.front.mono (by decide)
  | compare op h _ => exact (h.front.mono (by decide)).append

theorem Filter.Spelled.unary_parenthesized {f : Filter} {rest : List Char} {budget : Nat} (h : f.Spelled cs)
    (hread : Grammar.connected (Grammar.unary budget) (cs ++ ')' :: rest) = .ok f (')' :: rest))
    (hrest : Avoids Draft.isBlank rest) : Grammar.unary (budget + 1) (parenthesized cs ++ rest) = .ok f rest :=
  Grammar.unary_parenthesized hread (h.front.startsIn.avoids (by decide)) hrest

theorem Selector.Spelled.front {s : Selector} (h : s.Spelled cs) :
    Front ('*' :: ':' :: '?' :: '\'' :: '-' :: digitChars) cs := by
  cases h with
  | key _ => exact (front_key _).mono (by decide)
  | wildcard => exact .cons (by decide)
  | union _ => exact ((front_key _).mono (by decide)).append
  | slice _ _ _ => exact (front_slice _ _ _).mono (by decide)
  | filter _ => exact .cons (by decide)

theorem Segment.Spelled.front {s : Segment} (h : s.Spelled cs) : Front ['.', '['] cs := by
  cases h <;> exact .cons (by decide)

theorem Query.Spelled.startsIn {q : List Segment} {rest : List Char} (h : Query.Spelled q cs)
    (hrest : StartsIn afterQuery rest) : StartsIn ('.' :: '[' :: afterQuery) (cs ++ rest) := by
  cases h with
  | nil => exact hrest.mono (by decide)
  | cons h _ =>
    rw [List.append_assoc]
    exact h.front.startsIn.mono (by decide)

end

open Grammar

mutual

theorem Segment.Spelled.read {s : Segment} {cs rest : List Char} {budget : Nat} (h : s.Spelled cs)
    (hbudget : cs.length ≤ budget) (hrest : Avoids isNameChar rest) :
    segment (connected (unary budget)) (cs ++ rest) = .ok s rest := by
  cases h with
  | @child s cs h =>
    refine segment_child (bracket_text (h.front.startsIn.avoids (by decide)) (h.read ?_))
    simp only [bracketed, List.length_cons, List.length_append] at hbudget
    omega
  | @descendants s cs h =>
    refine segment_descendants (bracket_text (h.front.startsIn.avoids (by decide)) (h.read ?_))
    simp only [bracketed, List.length_cons, List.length_append] at hbudget
    omega
  | member hname => exact segment_member hname hrest
  | members hname => exact segment_members hname hrest

theorem Selector.Spelled.read {s : Selector} {cs rest : List Char} {budget : Nat} (h : s.Spelled cs)
    (hbudget : cs.length ≤ budget) :
    choice [filter (connected (unary budget)), wildcard, slice, keys] (cs ++ ']' :: rest) = .ok s (']' :: rest) := by
  cases h with
  | @key k hk =>
    have hfront : StartsIn ('\'' :: '-' :: digitChars) (k.text ++ ']' :: rest) := (front_key k).startsIn
    exact choice_skip (bind_miss (char_miss (hfront.avoids (by decide)))) <|
      choice_skip (bind_miss (char_miss (hfront.avoids (by decide)))) <|
      choice_skip (slice_key hk (.cons (by decide))) <|
      choice_ok (keys_text (List.forall_mem_singleton.2 hk))
  | wildcard => exact choice_skip (bind_miss (char_miss (.cons (by decide)))) <| choice_ok (bind_ok char_self rfl)
  | @union first second more hkeys =>
    rw [List.append_assoc]
    have hfront : StartsIn ('\'' :: '-' :: digitChars) (first.text ++ (moreKeys (second :: more) ++ ']' :: rest)) :=
      (front_key first).startsIn
    exact choice_skip (bind_miss (char_miss (hfront.avoids (by decide)))) <|
      choice_skip (bind_miss (char_miss (hfront.avoids (by decide)))) <|
      choice_skip (slice_key (hkeys first (List.mem_cons_self ..)) (.cons (by decide))) <|
      choice_ok (keys_text hkeys)
  | @slice first stop step hfirst hstop hstep =>
    have hfront : StartsIn (':' :: '-' :: digitChars) ((Selector.slice first stop step).text ++ ']' :: rest) :=
      (front_slice first stop step).startsIn
    exact choice_skip (bind_miss (char_miss (hfront.avoids (by decide)))) <|
      choice_skip (bind_miss (char_miss (hfront.avoids (by decide)))) <|
      choice_ok (slice_text hfirst hstop hstep)
  | @filter f cs h =>
    simp only [parenthesized, List.length_cons, List.length_append] at hbudget
    rw [parenthesized, List.cons_append, List.cons_append, List.append_assoc, List.singleton_append]
    have hcondition : spaced (connected (unary budget)) (cs ++ ')' :: ']' :: rest) = .ok f (')' :: ']' :: rest) :=
      spaced_ok (h.front.startsIn.avoids (by decide)) (h.read (by omega)) (.cons (by decide))
    exact choice_ok <| bind_ok char_self <| bind_ok (blanks_eq (.cons (by decide))) <| bind_ok char_self <|
      bind_ok hcondition <| bind_ok char_self rfl

theorem Filter.Spelled.read {f : Filter} {cs rest : List Char} {budget : Nat} (h : f.Spelled cs)
    (hbudget : cs.length ≤ budget) : connected (unary budget) (cs ++ ')' :: rest) = .ok f (')' :: rest) := by
  -- Every alternative takes one level of the budget and at least one character.
  obtain ⟨budget, rfl⟩ : ∃ b, budget = b + 1 := ⟨budget - 1, by have := h.front.length_pos; omega⟩
  cases h with
  | @or a b cs ds ha hb =>
    simp only [parenthesized, List.length_cons, List.length_append] at hbudget
    rw [List.append_assoc, List.cons_append, List.cons_append]
    refine connected_or (ha.unary_parenthesized (ha.read (by omega)) (.cons (by decide)))
      (hb.unary_parenthesized (hb.read (by omega)) (.cons (by decide))) (.cons (by decide)) ?_
    simp only [List.length_append, List.length_cons]
    omega
  | @and a b cs ds ha hb =>
    simp only [parenthesized, List.length_cons, List.length_append] at hbudget
    rw [List.append_assoc, List.cons_append, List.cons_append]
    refine connected_and (ha.unary_parenthesized (ha.read (by omega)) (.cons (by decide)))
      (hb.unary_parenthesized (hb.read (by omega)) (.cons (by decide))) (.cons (by decide)) ?_
    simp only [List.length_append, List.length_cons]
    omega
  | @not a cs ha =>
    simp only [parenthesized, List.length_cons, List.length_append] at hbudget
    obtain ⟨budget, rfl⟩ : ∃ b, budget = b + 1 := ⟨budget - 1, by omega⟩
    have hinner : unary (budget + 1) (parenthesized cs ++ ')' :: rest) = .ok a (')' :: rest) :=
      ha.unary_parenthesized (ha.read (by omega)) (.cons (by decide))
    exact connected_single (unary_not hinner (.cons (by decide)))
  | @holds o cs ho =>
    refine connected_single (unary_comparison ho.front.startsIn (comparison_holds ho.front.startsIn ?_))
    exact ho.read hbudget (.cons (by decide))
  | @compare left right cs ds op hleft hright =>
    simp only [List.length_append] at hbudget
    have hop : StartsIn afterQuery (op.text ++ (ds ++ ')' :: rest)) := by
      cases op <;> exact .cons (by decide)
    rw [List.append_assoc, List.append_assoc]
    refine connected_single (unary_comparison hleft.front.startsIn ?_)
    exact comparison_compare op hleft.front.startsIn (hleft.read (by omega) hop) hright.front.startsIn
      (hright.read (by omega) (.cons (by decide)))

theorem Operand.Spelled.read {o : Operand} {cs rest : List Char} {budget : Nat} (h : o.Spelled cs)
    (hbudget : cs.length ≤ budget + 1) (hrest : StartsIn afterQuery rest) :
    operand (connected (unary budget)) (cs ++ rest) = .ok o rest := by
  cases h with
  | current h =>
    exact choice_ok (bind_ok char_self (bind_ok (h.read (Nat.le_of_succ_le_succ hbudget) hrest) rfl))
  | root h =>
    exact choice_skip (bind_miss (char_miss (.cons (by decide)))) <|
      choice_ok (bind_ok char_self (bind_ok (h.read (Nat.le_of_succ_le_succ hbudget) hrest) rfl))
  | @literal d h =>
    have hfront : StartsIn literalFront (d.literalText ++ rest) := h.front.startsIn
    exact choice_skip (bind_miss (char_miss (hfront.avoids (by decide)))) <|
      choice_skip (bind_miss (char_miss (hfront.avoids (by decide)))) <|
      choice_ok (bind_ok (literal_text h hrest) rfl)

theorem Query.Spelled.read {q : List Segment} {cs rest : List Char} {budget : Nat} (h : Query.Spelled q cs)
    (hbudget : cs.length ≤ budget) (hrest : StartsIn afterQuery rest) :
    segments (connected (unary budget)) (cs ++ rest) = .ok q rest := by
  cases h with
  | nil => exact many_miss (segment_miss hrest)
  | @cons s q cs ds hs hq =>
    rw [List.length_append] at hbudget
    have hpos := hs.front.length_pos
    have hsegment : segment (connected (unary budget)) (cs ++ (ds ++ rest)) = .ok s (ds ++ rest) :=
      hs.read (by omega) ((hq.startsIn hrest).avoids (by decide))
    rw [List.append_assoc]
    refine many_cons hsegment ?_ (hq.read (by omega) hrest)
    simp only [List.length_append]
    omega

end

namespace Query

variable {q : Query} {cs : List Char}

/-- A spelling of a query is read as the query. -/
theorem Spelled.parseQuery_eq (h : Spelled q cs) : parseQuery cs = .ok q := by
  have hread : segments (connected (unary cs.length)) (cs ++ []) = .ok q [] := h.read (Nat.le_refl _) nofun
  rw [List.append_nil] at hread
  have hquery : query cs = .ok q [] := hread
  simp only [parseQuery, hquery]

theorem Spelled.parse_input (h : Spelled q cs) :
    Path.parse (String.ofList ('$' :: cs)) = .ok ⟨String.ofList ('$' :: cs), false, q⟩ := by
  have hfront : Avoids (· == '$') cs := by
    cases h with
    | nil => nofun
    | cons h _ => exact h.front.startsIn.avoids (by decide)
  rw [Path.parse_input String.toList_ofList fun c hc => by simpa using hfront c hc, h.parseQuery_eq]
  rfl

theorem Spelled.parse_context (h : Spelled q cs) :
    Path.parse (String.ofList ('$' :: '$' :: cs)) = .ok ⟨String.ofList ('$' :: '$' :: cs), true, q⟩ := by
  rw [Path.parse_context String.toList_ofList, h.parseQuery_eq]
  rfl

/-- Every expressible query is read from its canonical text, and from every other spelling, with `$` or `$$` in front;
no other query has that text. -/
theorem parseQuery_text (q : Query) (hq : Expressible q) :
    parseQuery (text q) = .ok q ∧
    (∀ cs, Spelled q cs → parseQuery cs = .ok q ∧
      Path.parse (String.ofList ('$' :: cs)) = .ok ⟨String.ofList ('$' :: cs), false, q⟩ ∧
      Path.parse (String.ofList ('$' :: '$' :: cs)) = .ok ⟨String.ofList ('$' :: '$' :: cs), true, q⟩) ∧
    ∀ q', Expressible q' → text q' = text q → q' = q := by
  refine ⟨hq.spelled.parseQuery_eq, fun cs h => ⟨h.parseQuery_eq, h.parse_input, h.parse_context⟩,
    fun q' hq' heq => ?_⟩
  have h : parseQuery (text q) = .ok q' := heq ▸ hq'.spelled.parseQuery_eq
  exact Except.ok.inj (h.symm.trans hq.spelled.parseQuery_eq)

theorem parseQuery_text_negated :
    let condition : Filter :=
      .not (.compare (.current [.child (.key (.name "it's"))]) .le (.literal (.num (.int (-1)))))
    let q : Query := [.descendants (.key (.name "é")), .child (.filter condition)]
    Expressible q ∧
      parseQuery "..['é'][?(!(@['it\\'s']<=-1))]".toList = .ok q ∧
      parseQuery "..é[?(!(@['it\\'s']<=-1))]".toList = .ok q := by
  intro condition q
  have hone : (Document.num (.int (-1))).IsLiteral := ⟨by decide, by decide⟩
  have hexpressible : Expressible q := ⟨trivial, ⟨⟨trivial, trivial⟩, hone⟩, trivial⟩
  have htext : text q = "..['é'][?(!(@['it\\'s']<=-1))]".toList := by decide +kernel
  have hplain : IsPlain "é" := ⟨by decide, List.all_eq_true.1 (by decide)⟩
  have hspelled : ∃ cs, Spelled q cs ∧ cs = "..é[?(!(@['it\\'s']<=-1))]".toList := by
    refine ⟨_, .cons (.members hplain) (.cons (.child (.filter (.not (.compare _
      (.current (.cons (.child (.key trivial)) .nil)) (.literal hone))))) .nil), ?_⟩
    decide +kernel
  obtain ⟨cs, hcs, hdotted⟩ := hspelled
  refine ⟨hexpressible, ?_, ?_⟩
  · exact htext ▸ (parseQuery_text q hexpressible).1
  · exact hdotted ▸ ((parseQuery_text q hexpressible).2.1 cs hcs).1

end Query

end StepFlow
