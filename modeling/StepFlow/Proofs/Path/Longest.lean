import StepFlow.Proofs.Path.Halt

/-!
# The first step that is wrong

An expression that is rejected for unexpected input is a path and that input, and the path is the longest one that
the expression starts with (`Path.unexpectedInput_splits`). Segments are stable, so the path is read alike with any
part of the input behind it (`Grammar.query_append_iff`). No part of the input starts with a segment: one that did
would still start with one in front of the rest of the input (`Parser.Persists`), where the parse has found none.

Only a parse that halts is rejected for input elsewhere: what it points at stands behind a number whose exponent is
missing.
-/

namespace StepFlow

namespace Parser

variable {α β : Type} {n : Nat} {S F : List Char → List Char → Prop} {p p' q q' : Parser α} {f g : α → Parser β}
  {a : α} {as : List α} {cs rest : List Char}

theorem Stable.longer {set : List Char} (hp : Stable n (Opens set) F p q) (hF : ∀ t, F t []) (h : p cs = .ok a rest) :
    rest.length < cs.length := by
  obtain ⟨w, rfl, hw⟩ := hp h
  obtain ⟨-, c, ds, hopens, -⟩ := (hw [] (hF rest)).1
  cases w with
  | nil => cases hopens
  | cons c w =>
    simp only [List.length_append, List.length_cons]
    omega

theorem many_ne_miss : many p cs ≠ .miss := by
  fun_induction many p cs with
  | case2 cs a mid hmid hlt hmore ih => exact fun _ => ih hmore
  | _ => intro h; cases h

/-- Behind the items there is no other one. -/
theorem many_stops (hlonger : ∀ cs a mid, p cs = .ok a mid → mid.length < cs.length) (h : many p cs = .ok as rest) :
    p rest = .miss := by
  induction as generalizing cs with
  | cons a as ih =>
    obtain ⟨mid, -, -, hmore⟩ := many_eq_cons h
    exact ih hmore
  | nil =>
    obtain rfl := many_eq_nil h
    cases hp : p rest with
    | miss => rfl
    | halt mid => rw [many, hp] at h; cases h
    | ok a mid =>
      obtain ⟨more, hnil, -⟩ := (many_cons_iff hp (hlonger _ _ _ hp)).1 h
      cases hnil

/-- A text of at most `n` characters that `p` reads is not missed by `q` with more behind it. -/
def Persists (n : Nat) (p q : Parser α) : Prop :=
  ∀ ⦃cs a rest⦄, p cs = .ok a rest → cs.length ≤ n → ∀ more, q (cs ++ more) ≠ .miss

namespace Persists

theorem of_stable (hp : Stable n S Anything p q) : Persists n p q := by
  intro cs a rest h hlen more
  obtain ⟨w, rfl, hw⟩ := hp h
  rw [List.length_append] at hlen
  rw [List.append_assoc, (hw (rest ++ more) trivial).2 (by omega)]
  exact nofun

theorem span (test : Char → Bool) : Persists n (span test) (span test) := by
  intro cs w rest h hlen more hmiss
  obtain ⟨hw, htest, rfl, -⟩ := span_eq_ok h
  cases w with
  | nil => exact hw rfl
  | cons c w => simp [Parser.span, htest c (List.mem_cons_self ..)] at hmiss

theorem fail : Persists n (fail : Parser α) q := nofun

theorem orElse (hp : Persists n p p') (hq : Persists n q q') : Persists n (orElse p q) (orElse p' q') := by
  intro cs a rest h hlen more hmiss
  rw [Parser.orElse] at hmiss
  cases hp' : p' (cs ++ more) with
  | ok b last => rw [hp'] at hmiss; cases hmiss
  | halt last => rw [hp'] at hmiss; cases hmiss
  | miss =>
    rw [hp'] at hmiss
    obtain h | ⟨-, h⟩ := orElse_eq_ok h
    · exact hp h hlen more hp'
    · exact hq h hlen more hmiss

/-- What comes first is read alike, and so the second parser sees the same text with more behind it. -/
theorem bind_stable (hp : Stable n S Anything p q) (hf : ∀ a, Persists n (f a) (g a)) :
    Persists n (p >>= f) (q >>= g) := by
  intro cs b rest h hlen more hmiss
  obtain ⟨a, mid, ha, hb⟩ := bind_eq_ok h
  obtain ⟨w, rfl, hw⟩ := hp ha
  rw [List.length_append] at hlen
  rw [List.append_assoc, bind_ok ((hw (mid ++ more) trivial).2 (by omega)) rfl] at hmiss
  exact hf a hb (by omega) more hmiss

theorem bind_pure {f g : α → β} (hp : Persists n p q) : Persists n (do return f (← p)) (do return g (← q)) := by
  intro cs b rest h hlen more hmiss
  obtain ⟨a, mid, ha, -⟩ := bind_eq_ok h
  change Parser.bind q _ (cs ++ more) = _ at hmiss
  rw [Parser.bind] at hmiss
  cases hq : q (cs ++ more) with
  | ok a' last => rw [hq] at hmiss; cases hmiss
  | halt last => rw [hq] at hmiss; cases hmiss
  | miss => exact hp ha hlen more hq

end Persists
end Parser

namespace Grammar

open StepFlow.Parser

variable {n : Nat} {cs rest : List Char} {q : Query}

section

variable {condition condition' : Parser Filter}

theorem persists_segment (h : Stable n (Opens conditionStart) (Opens [')']) condition condition') :
    Persists (n + 1) (segment condition) (segment condition') := by
  have hbracket : Persists (n + 1) (bracket condition) (bracket condition') := .of_stable (stable_bracket h)
  have hwildcard : Persists (n + 1) wildcard wildcard := .of_stable stable_wildcard
  have hname : Persists (n + 1) name name := .bind_pure (.span isNameChar)
  have hchild : Persists (n + 1) (choice [wildcard, name]) (choice [wildcard, name]) :=
    .orElse hwildcard (.orElse hname .fail)
  have hdescendants : Persists (n + 1) (choice [wildcard, name, bracket condition])
      (choice [wildcard, name, bracket condition']) := .orElse hwildcard (.orElse hname (.orElse hbracket .fail))
  exact .orElse (.bind_stable (.text rfl) fun _ => .bind_pure hdescendants) <|
    .orElse (.bind_stable (.char rfl) fun _ => .bind_pure hchild) <| .orElse (.bind_pure hbracket) .fail

end

theorem segment_longer (budget : Nat) (cs : List Char) (s : Segment) (rest : List Char)
    (h : segment (connected (unary budget)) cs = .ok s rest) : rest.length < cs.length :=
  (stable_segment (stable_condition budget 0)).longer (fun _ _ => nofun) h

/-- In front of a rest that goes on with no character of a name, where the old one does not, the segments are read
as they are in front of the old one, and behind them those of the rest. -/
theorem query_append_iff (h : query cs = .ok q rest) : ∃ w, cs = w ++ rest ∧ ∀ rest', KeepsOff isNameChar rest rest' →
    ∀ all last, query (w ++ rest') = .ok all last ↔
      ∃ more, all = q ++ more ∧ segments (connected (unary (w ++ rest').length)) rest' = .ok more last := by
  have hread (n : Nat) := Stable.many_append (F := KeepsOff isNameChar)
    (stable_segment (stable_condition cs.length n)) (fun _ _ h _ => h.avoids (by decide)) (fun _ _ => id) h
  obtain ⟨w, rfl, -⟩ := hread 0
  refine ⟨w, rfl, fun rest' hrest all last => ?_⟩
  obtain ⟨w', hw', hmany⟩ := hread (w ++ rest').length
  obtain rfl := List.append_cancel_right hw'
  exact (hmany rest' hrest).2 (by rw [List.length_append]; omega) all last

/-- What is read in front of a rest is read whole by itself, and not together with any part of the rest. -/
theorem query_longest (h : query cs = .ok q rest) : ∃ w, cs = w ++ rest ∧ query w = .ok q [] ∧
    ∀ more last, rest = more ++ last → more ≠ [] → ∀ all, query (w ++ more) ≠ .ok all [] := by
  obtain ⟨w, rfl, hw⟩ := query_append_iff h
  refine ⟨w, rfl, ?_, ?_⟩
  · have hnone := (hw [] (fun _ => nofun) q []).2 ⟨[], (List.append_nil q).symm, many_miss rfl⟩
    rwa [List.append_nil] at hnone
  · rintro more last rfl hmore all hall
    obtain ⟨c, ds, rfl⟩ := List.exists_cons_of_ne_nil hmore
    obtain ⟨segments, -, hsegments⟩ := (hw (c :: ds) (fun hrest => hrest) all []).1 hall
    cases segments with
    | nil => cases many_eq_nil hsegments
    | cons s segments =>
      -- The part starts with a segment, where the parse has found none.
      obtain ⟨mid, hs, -, -⟩ := many_eq_cons hsegments
      have hcondition := stable_condition (w ++ c :: ds).length (w ++ (c :: ds ++ last)).length
      have hlen : (c :: ds).length ≤ (w ++ (c :: ds ++ last)).length + 1 := by
        simp only [List.length_append]
        omega
      exact persists_segment hcondition hs hlen last (many_stops (segment_longer _) h)

theorem parseQuery_eq_ok_iff : parseQuery cs = .ok q ↔ query cs = .ok q [] := by
  rw [parseQuery]
  cases hquery : query cs with
  | miss => simp
  | halt rest => simp
  | ok q' rest => cases rest <;> simp

theorem parseQuery_eq_unexpectedInput {r : String} (h : parseQuery cs = .error (.unexpectedInput r)) :
    r ≠ "" ∧ (query cs = .halt r.toList ∨ ∃ q, query cs = .ok q r.toList) := by
  have hflaw {rest : List Char} (h : (if rest.isEmpty then Flaw.unexpectedEnd
      else .unexpectedInput (String.ofList rest)) = .unexpectedInput r) : r ≠ "" ∧ r.toList = rest := by
    cases rest with
    | nil => cases h
    | cons c rest =>
      cases h
      exact ⟨by simp, String.toList_ofList⟩
  rw [parseQuery] at h
  cases hquery : query cs with
  | miss => exact absurd hquery many_ne_miss
  | halt rest =>
    rw [hquery] at h
    obtain ⟨hr, rfl⟩ := hflaw (Except.error.inj h)
    exact ⟨hr, .inl rfl⟩
  | ok q' rest =>
    rw [hquery] at h
    cases rest with
    | nil => cases h
    | cons c rest =>
      obtain ⟨hr, hrest⟩ := hflaw (Except.error.inj h)
      exact ⟨hr, .inr ⟨q', by rw [hrest]⟩⟩

end Grammar

namespace Path

variable {expression accepted longer rest : String} {root text : List Char}

/-- What an expression starts with in front of the text of its query: `$`, or `$$` for the context. -/
def IsRoot (root text : List Char) : Prop := root = ['$', '$'] ∨ root = ['$'] ∧ Avoids (· == '$') text

/-- The expression is a path. -/
def Accepts (expression : String) : Prop := ∃ p, ofString expression = .ok p

/-- The parse of the expression ends for good in front of the rest. -/
def HaltsAt (expression rest : String) : Prop :=
  ∃ root text, expression.toList = root ++ text ∧ IsRoot root text ∧ Grammar.query text = .halt rest.toList

/-- The expression is a path and a rest that is not empty, and it starts with no longer path. -/
def SplitsAtLongest (expression rest : String) : Prop :=
  rest ≠ "" ∧ ∃ accepted, expression = accepted ++ rest ∧ Accepts accepted ∧
    ∀ longer more, expression = longer ++ more → accepted.length < longer.length → ¬ Accepts longer

theorem IsRoot.of_append {more : List Char} (h : IsRoot root (text ++ more)) : IsRoot root text := by
  obtain rfl | ⟨rfl, htext⟩ := h
  · exact .inl rfl
  · refine .inr ⟨rfl, fun c hc => htext c ?_⟩
    obtain ⟨text, rfl⟩ := List.head?_eq_some_iff.1 hc
    rfl

theorem exists_root (h : expression.toList.head? = some '$') :
    ∃ root text, expression.toList = root ++ text ∧ IsRoot root text := by
  obtain ⟨text, htext⟩ := List.head?_eq_some_iff.1 h
  by_cases hcontext : text.head? = some '$'
  · obtain ⟨text, rfl⟩ := List.head?_eq_some_iff.1 hcontext
    exact ⟨['$', '$'], text, htext, .inl rfl⟩
  · refine ⟨['$'], text, htext, .inr ⟨rfl, fun c hc => ?_⟩⟩
    rw [beq_eq_false_iff_ne]
    rintro rfl
    exact hcontext hc

theorem exists_parse_eq (hroot : IsRoot root text) (h : expression.toList = root ++ text) : ∃ ofContext,
    parse expression = ((Grammar.parseQuery text).mapError flawOf).map (.mk expression ofContext) := by
  obtain rfl | ⟨rfl, htext⟩ := hroot
  · exact ⟨true, parse_context h⟩
  · exact ⟨false, parse_input h fun c hc => by simpa using htext c hc⟩

theorem accepts_iff (hroot : IsRoot root text) (h : expression.toList = root ++ text) :
    Accepts expression ↔ ∃ query, Grammar.query text = .ok query [] := by
  obtain ⟨ofContext, hparse⟩ := exists_parse_eq hroot h
  simp only [Accepts, ofString, hparse, ← Grammar.parseQuery_eq_ok_iff]
  cases Grammar.parseQuery text <;> simp [Except.map]

theorem parseQuery_of_unexpectedInput
    (h : ofString expression = .error (.invalidPath expression (.unexpectedInput rest))) :
    ∃ root text, expression.toList = root ++ text ∧ IsRoot root text ∧
      Grammar.parseQuery text = .error (.unexpectedInput rest) := by
  rw [ofString] at h
  by_cases hsign : expression.toList.head? = some '$'
  · obtain ⟨root, text, htext, hroot⟩ := exists_root hsign
    obtain ⟨ofContext, hparse⟩ := exists_parse_eq hroot htext
    refine ⟨root, text, htext, hroot, ?_⟩
    rw [hparse] at h
    cases hquery : Grammar.parseQuery text with
    | ok query => rw [hquery] at h; cases h
    | error flaw =>
      rw [hquery] at h
      cases flaw with
      | unexpectedEnd => cases h
      | unexpectedInput r => cases h; rfl
  · rw [parse_noRoot fun c hc hroot => hsign (hroot ▸ hc)] at h
    cases h

theorem splitsAtLongest_of_query {query : Query} (hroot : IsRoot root text) (htext : expression.toList = root ++ text)
    (hrest : rest ≠ "") (h : Grammar.query text = .ok query rest.toList) : SplitsAtLongest expression rest := by
  obtain ⟨w, rfl, hw, hlongest⟩ := Grammar.query_longest h
  refine ⟨hrest, String.ofList (root ++ w), ?_, ?_, fun longer more hexpression hlen => ?_⟩
  · rw [← String.toList_inj, htext, String.toList_append, String.toList_ofList, List.append_assoc]
  · exact (accepts_iff hroot.of_append String.toList_ofList).2 ⟨query, hw⟩
  · rw [hexpression, String.toList_append, ← List.append_assoc] at htext
    rw [String.length_ofList, ← String.length_toList] at hlen
    obtain ⟨behind, hshorter, -⟩ | ⟨behind, hlonger, hbehind⟩ := List.append_eq_append_iff.1 htext
    · rw [hshorter, List.length_append] at hlen
      omega
    · have hne : behind ≠ [] := by
        rintro rfl
        rw [hlonger, List.append_nil] at hlen
        exact absurd hlen (lt_irrefl _)
      rw [hbehind, ← List.append_assoc] at hroot
      rw [accepts_iff hroot.of_append (by rw [hlonger, List.append_assoc])]
      rintro ⟨all, hall⟩
      exact hlongest behind more.toList hbehind hne all hall

/-- An expression that is rejected for unexpected input is the longest path that it starts with, and that input,
unless its parse has halted behind a number that has an exponent mark and no digits after it. -/
theorem unexpectedInput_splits
    (h : ofString expression = .error (.invalidPath expression (.unexpectedInput rest))) :
    SplitsAtLongest expression rest ∨
      HaltsAt expression rest ∧ LacksExponent expression.toList rest.toList := by
  obtain ⟨root, text, htext, hroot, hparse⟩ := parseQuery_of_unexpectedInput h
  obtain ⟨hrest, hhalt | ⟨query, hquery⟩⟩ := Grammar.parseQuery_eq_unexpectedInput hparse
  · refine .inr ⟨⟨root, text, htext, hroot, hhalt⟩, ?_⟩
    rw [htext]
    exact (Grammar.query_halts hhalt).of_suffix (List.suffix_append ..)
  · exact .inl (splitsAtLongest_of_query hroot htext hrest hquery)

/-- `unexpectedInput_splits` at an open bracket, behind a key, a condition and a name. -/
theorem unexpectedInput_splits_bracket :
    ofString "$['a'][?(@.b == ']' && !$.c)]..d[1:" =
      .error (.invalidPath "$['a'][?(@.b == ']' && !$.c)]..d[1:" (.unexpectedInput "[1:")) ∧
    SplitsAtLongest "$['a'][?(@.b == ']' && !$.c)]..d[1:" "[1:" := by
  have h : ofString "$['a'][?(@.b == ']' && !$.c)]..d[1:" =
      .error (.invalidPath "$['a'][?(@.b == ']' && !$.c)]..d[1:" (.unexpectedInput "[1:")) :=
    verdict_eq_error.1 (by decide +kernel)
  refine ⟨h, (unexpectedInput_splits h).resolve_right ?_⟩
  rintro ⟨-, hnumber⟩
  -- Nothing of a number stands in front of the bracket.
  obtain ⟨front, c, hc, hmem⟩ := hnumber.exists_last
  have hfront : "$['a'][?(@.b == ']' && !$.c)]..d[1:".toList =
      "$['a'][?(@.b == ']' && !$.c)]..".toList ++ 'd' :: "[1:".toList := by decide +kernel
  rw [hfront] at hc
  obtain ⟨-, hc⟩ := List.append_inj' hc rfl
  obtain ⟨rfl, -⟩ := List.cons.inj hc
  exact absurd hmem (by decide)

/-- A parse that halts points behind a number, and what stands in front of that point is no path. -/
example : verdict (ofString "$[?(@ == 1e)]") = .error (.invalidPath "$[?(@ == 1e)]" (.unexpectedInput ")]")) ∧
    verdict (ofString "$[?(@ == 1e") = .error (.invalidPath "$[?(@ == 1e" .unexpectedEnd) := by
  decide +kernel

end Path
end StepFlow
