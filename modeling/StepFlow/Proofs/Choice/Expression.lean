import StepFlow.Proofs.Choice.Glob

/-!
# Patterns as regular expressions

A pattern can be written as a regular expression, anchored at both ends and with a dot that stands
for every character: a star is `.*`, and any other token the character that it stands for, behind a
backslash if regular expressions give it a meaning of its own. Whatever engine keeps to the common
meaning of the few constructs that are needed finds that expression in a subject exactly if the
pattern matches the subject.
-/

namespace StepFlow

namespace Regex

/-- What stands at one place of an expression. -/
inductive Atom where
  /-- The beginning of the text. -/
  | start
  /-- The end of the text. -/
  | stop
  /-- One character, a line feed only if those count. -/
  | any (lineFeeds : Bool)
  | char (c : Char)
  deriving DecidableEq, Repr, Inhabited

/-- One place of an expression, once or any number of times. -/
structure Part where
  atom : Atom
  repeated : Bool
  deriving DecidableEq, Repr, Inhabited

/-- The characters that have a meaning of their own. -/
def isMeta (c : Char) : Bool := c ∈ "\\.+*?()|[]\x7b\x7d^$#&-~".toList

/-- The atom that a character stands for. -/
def atom? (lineFeeds : Bool) (c : Char) : Option Atom :=
  match c with
  | '^' => some .start
  | '$' => some .stop
  | '.' => some (.any lineFeeds)
  | c => if isMeta c then none else some (.char c)

/-- Reads an expression made of characters, dots, anchors and stars, with the flag that makes a dot stand for a
line feed too; every other construct is left to the engines. -/
def parse (lineFeeds : Bool) : List Char → Option (List Part)
  | [] => some []
  | '(' :: '?' :: 's' :: ')' :: rest => parse true rest
  | '\\' :: c :: '*' :: rest =>
    if isMeta c then (parse lineFeeds rest).map (⟨.char c, true⟩ :: ·) else none
  | '\\' :: c :: rest => if isMeta c then (parse lineFeeds rest).map (⟨.char c, false⟩ :: ·) else none
  | c :: '*' :: rest => (atom? lineFeeds c).bind fun a => (parse lineFeeds rest).map (⟨a, true⟩ :: ·)
  | c :: rest => (atom? lineFeeds c).bind fun a => (parse lineFeeds rest).map (⟨a, false⟩ :: ·)

/-- The atom matches the piece between two texts. -/
inductive Atom.Matches : Atom → List Char → List Char → List Char → Prop
  | start (after : List Char) : Matches .start [] [] after
  | stop (before : List Char) : Matches .stop before [] []
  | any {lineFeeds : Bool} {c : Char} (before after : List Char) (h : lineFeeds ∨ c ≠ '\n') :
      Matches (.any lineFeeds) before [c] after
  | char (c : Char) (before after : List Char) : Matches (.char c) before [c] after

/-- The parts match the piece between two texts, one part after the other. -/
inductive Matches : List Part → List Char → List Char → List Char → Prop
  | nil (before after : List Char) : Matches [] before [] after
  | once {a : Atom} {parts : List Part} {before piece rest after : List Char}
      (h : a.Matches before piece (rest ++ after)) (hrest : Matches parts (before ++ piece) rest after) :
      Matches (⟨a, false⟩ :: parts) before (piece ++ rest) after
  | skip {a : Atom} {parts : List Part} {before piece after : List Char}
      (h : Matches parts before piece after) : Matches (⟨a, true⟩ :: parts) before piece after
  | again {a : Atom} {parts : List Part} {before piece rest after : List Char}
      (h : a.Matches before piece (rest ++ after))
      (hrest : Matches (⟨a, true⟩ :: parts) (before ++ piece) rest after) :
      Matches (⟨a, true⟩ :: parts) before (piece ++ rest) after

/-- Somewhere in the text the expression matches. -/
def Found (parts : List Part) (text : List Char) : Prop :=
  ∃ before piece after, text = before ++ piece ++ after ∧ Matches parts before piece after

/-- What makes a search out of the text of an expression, unless it refuses the text. -/
abbrev Engine := String → Option (String → Bool)

/-- An expression made of characters, dots, anchors and stars is searched for in the common way. -/
def Engine.Conforms (engine : Engine) : Prop :=
  ∀ text parts search, parse false text.toList = some parts → engine text = some search →
    ∀ subject : String, search subject = true ↔ Found parts subject.toList

section

variable {parts : List Part} {before piece after : List Char} {c : Char}

theorem matches_nil : Matches [] before piece after ↔ piece = [] := by
  constructor
  · rintro ⟨⟩
    rfl
  · rintro rfl
    exact .nil before after

theorem matches_start : Matches (⟨.start, false⟩ :: parts) before piece after ↔
    before = [] ∧ Matches parts [] piece after := by
  constructor
  · rintro (_ | ⟨⟨⟩, hrest⟩)
    exact ⟨rfl, hrest⟩
  · rintro ⟨rfl, h⟩
    exact .once (.start _) h

theorem matches_stop : Matches [⟨.stop, false⟩] before piece after ↔ piece = [] ∧ after = [] := by
  constructor
  · intro h
    cases h with
    | @once _ _ _ front rest _ h hrest =>
      obtain rfl := matches_nil.1 hrest
      cases h
      exact ⟨rfl, rfl⟩
  · rintro ⟨rfl, rfl⟩
    exact .once (.stop before) (.nil _ _)

theorem matches_char : Matches (⟨.char c, false⟩ :: parts) before piece after ↔
    ∃ rest, piece = c :: rest ∧ Matches parts (before ++ [c]) rest after := by
  constructor
  · rintro (_ | ⟨⟨⟩, hrest⟩)
    exact ⟨_, rfl, hrest⟩
  · rintro ⟨rest, rfl, h⟩
    exact .once (.char c before (rest ++ after)) h

/-- A dot for every character, any number of times, matches any run. -/
theorem matches_run : Matches (⟨.any true, true⟩ :: parts) before piece after ↔
    ∃ run rest, piece = run ++ rest ∧ Matches parts (before ++ run) rest after := by
  constructor
  · intro h
    generalize hparts : (⟨.any true, true⟩ : Part) :: parts = all at h
    induction h with
    | nil => cases hparts
    | once => cases hparts
    | skip h =>
      cases hparts
      exact ⟨[], _, rfl, by rwa [List.append_nil]⟩
    | again h _ ih =>
      obtain ⟨run, rest, rfl, hrest⟩ := ih hparts
      cases hparts
      exact ⟨_ ++ run, rest, (List.append_assoc ..).symm, by rwa [← List.append_assoc]⟩
  · rintro ⟨run, rest, rfl, h⟩
    induction run generalizing before with
    | nil => exact .skip (by rwa [List.append_nil] at h)
    | cons c run ih =>
      have hrun : Matches (⟨.any true, true⟩ :: parts) (before ++ [c]) (run ++ rest) after :=
        ih (by rwa [List.append_assoc])
      show Matches _ before ([c] ++ (run ++ rest)) after
      exact .again (.any before _ (.inl rfl)) hrun

end

end Regex

namespace Glob

open Regex

/-- The character in a regular expression. -/
def escape (c : Char) : List Char := if isMeta c then ['\\', c] else [c]

def write : Glob → List Char
  | [] => []
  | .star :: rest => '.' :: '*' :: write rest
  | .literal c :: rest => escape c ++ write rest

/-- The pattern as a regular expression for whole texts. -/
def expression (g : Glob) : String :=
  String.ofList ('(' :: '?' :: 's' :: ')' :: '^' :: (write g ++ ['$']))

/-- The part of the expression that a token becomes. -/
def part : GlobToken → Part
  | .star => ⟨.any true, true⟩
  | .literal c => ⟨.char c, false⟩

variable {g : Glob} {c : Char} {before piece after rest : List Char} {lineFeeds : Bool}

/-! ### The expression is read as the tokens -/

theorem atom?_of_not_meta (h : isMeta c = false) : atom? lineFeeds c = some (.char c) := by
  have hne {d : Char} (hd : isMeta d = true) : c ≠ d := by
    rintro rfl
    rw [h] at hd
    nomatch hd
  have hstart : c ≠ '^' := hne rfl
  have hstop : c ≠ '$' := hne rfl
  have hany : c ≠ '.' := hne rfl
  simp [atom?, h]

/-- Nothing that is written starts with a star. -/
theorem write_ne_star (g : Glob) : write g ++ ['$'] ≠ '*' :: rest := by
  cases g with
  | nil => rintro ⟨⟩
  | cons token g =>
    cases token with
    | star => rintro ⟨⟩
    | literal c =>
      rw [write, escape]
      split <;> rename_i h
      · rintro ⟨⟩
      · rintro ⟨⟩
        exact h rfl

theorem parse_escape (hrest : ∀ r, rest ≠ '*' :: r) :
    parse lineFeeds (escape c ++ rest) = (parse lineFeeds rest).map (⟨.char c, false⟩ :: ·) := by
  rw [escape]
  split <;> rename_i h
  · rw [List.cons_append, List.cons_append, List.nil_append, parse, if_pos h]
    exact fun r hr => hrest r hr
  · have hmeta : isMeta c = false := by simpa using h
    have hopen : c ≠ '(' := by rintro rfl; exact h rfl
    have hbackslash : c ≠ '\\' := by rintro rfl; exact h rfl
    rw [List.cons_append, List.nil_append, parse, atom?_of_not_meta hmeta]
    all_goals grind

theorem parse_write (g : Glob) :
    parse true (write g ++ ['$']) = some (g.map part ++ [⟨.stop, false⟩]) := by
  induction g with
  | nil => rfl
  | cons token g ih =>
    cases token with
    | star => simp [write, parse, atom?, part, ih]
    | literal c =>
      rw [write, List.append_assoc, parse_escape fun _ => write_ne_star g, ih]
      rfl

theorem parse_expression (g : Glob) :
    parse false g.expression.toList = some (⟨.start, false⟩ :: (g.map part ++ [⟨.stop, false⟩])) := by
  have hstart : parse true ('^' :: (write g ++ ['$'])) =
      (parse true (write g ++ ['$'])).map (⟨.start, false⟩ :: ·) := by
    rw [parse]
    · rfl
    all_goals grind [write_ne_star]
  rw [expression, String.toList_ofList, parse, hstart, parse_write]
  rfl

/-! ### The expression is found where the pattern matches -/

theorem matches_part (g : Glob) : Regex.Matches (g.map part ++ [⟨.stop, false⟩]) before piece after ↔
    Splits g piece ∧ after = [] := by
  induction g generalizing before piece with
  | nil => rw [splits_nil]; exact matches_stop
  | cons token g ih =>
    cases token with
    | star =>
      rw [splits_star, List.map_cons, List.cons_append, part, matches_run]
      constructor
      · rintro ⟨run, rest, rfl, h⟩
        obtain ⟨hrest, rfl⟩ := ih.1 h
        exact ⟨⟨run, rest, rfl, hrest⟩, rfl⟩
      · rintro ⟨⟨run, rest, rfl, hrest⟩, rfl⟩
        exact ⟨run, rest, rfl, ih.2 ⟨hrest, rfl⟩⟩
    | literal c =>
      rw [splits_literal, List.map_cons, List.cons_append, part, matches_char]
      constructor
      · rintro ⟨rest, rfl, h⟩
        obtain ⟨hrest, rfl⟩ := ih.1 h
        exact ⟨⟨rest, rfl, hrest⟩, rfl⟩
      · rintro ⟨⟨rest, rfl, hrest⟩, rfl⟩
        exact ⟨rest, rfl, ih.2 ⟨hrest, rfl⟩⟩

theorem found_part (g : Glob) (subject : List Char) :
    Found (⟨.start, false⟩ :: (g.map part ++ [⟨.stop, false⟩])) subject ↔ Splits g subject := by
  constructor
  · rintro ⟨before, piece, after, rfl, h⟩
    obtain ⟨rfl, hparts⟩ := matches_start.1 h
    obtain ⟨hsplits, rfl⟩ := (matches_part g).1 hparts
    rwa [List.nil_append, List.append_nil]
  · intro h
    exact ⟨[], subject, [], (List.append_nil _).symm, matches_start.2 ⟨rfl, (matches_part g).2 ⟨h, rfl⟩⟩⟩

/-- Any engine finds the expression in the subjects that the pattern matches. -/
theorem search_iff {engine : Engine} (hengine : engine.Conforms) {g : Glob} {search : String → Bool}
    (h : engine g.expression = some search) (subject : String) :
    search subject = true ↔ Splits g subject.toList :=
  (hengine _ _ _ (parse_expression g) h subject).trans (found_part g subject.toList)

end Glob

namespace Rule

/-- A pattern matches exactly the texts made of one piece for each of its tokens: the rule that is built
from it never fails on a value that is there, holds of these texts and of nothing else, and with a
backslash before its stars and backslashes any text is the pattern of itself alone. Every engine
of regular expressions that takes the pattern's expression finds it in these texts and no others. -/
theorem stringMatches_pieces (pattern : String) :
    (∃ test, Test.ofOperator "StringMatches" (.str pattern) = .ok test ∧
      ∀ context input (subject : Path) value, subject.value context input = some value →
        ∃ b, (data subject test).holds context input = .ok b ∧
          (b = true ↔ ∃ text, value = .str text ∧ Glob.Matches pattern text)) ∧
    (∀ text, Glob.Matches (Glob.quote pattern) text ↔ text = pattern) ∧
    ∀ (engine : Regex.Engine) search, engine.Conforms →
      engine (Glob.ofString pattern).expression = some search →
        ∀ text, search text = true ↔ Glob.Matches pattern text := by
  refine ⟨⟨.stringMatches (Glob.ofString pattern), rfl, fun context input subject value hvalue => ?_⟩,
    fun text => Glob.matches_quote, fun engine search hengine hsearch text => ?_⟩
  · have hholds : (data subject (.stringMatches (Glob.ofString pattern))).holds context input =
        Test.holdsOf context input value (.stringMatches (Glob.ofString pattern)) := by
      rw [holds, hvalue]
    rw [hholds]
    cases value with
    | str text =>
      refine ⟨(Glob.ofString pattern).matchesText text, rfl, ?_⟩
      rw [Glob.matchesText_iff, Glob.splits_iff_matches]
      constructor
      · exact fun h => ⟨text, rfl, h⟩
      · rintro ⟨_, ⟨⟩, h⟩
        exact h
    | null | bool | num | arr | obj =>
      refine ⟨false, rfl, iff_of_false Bool.false_ne_true ?_⟩
      rintro ⟨_, ⟨⟩, -⟩
  · rw [Glob.search_iff hengine hsearch, Glob.splits_iff_matches]

open scoped Classical in
/-- An engine that takes nothing but characters, dots, anchors and stars. -/
private noncomputable def plainEngine : Regex.Engine := fun text =>
  (Regex.parse false text.toList).map fun parts subject => decide (Regex.Found parts subject.toList)

open scoped Classical in
private theorem conforms_plainEngine : plainEngine.Conforms := by
  intro text parts search hparse hsearch subject
  rw [plainEngine, hparse] at hsearch
  rw [← Option.some.inj hsearch]
  exact decide_eq_true_iff

theorem stringMatches_pieces_starred :
    ∃ test search, Test.ofOperator "StringMatches" (.str "a\\**") = .ok test ∧
      Path.value ⟨"$", false, []⟩ .null (.str "a*\nb") = some (.str "a*\nb") ∧
      (data ⟨"$", false, []⟩ test).holds .null (.str "a*\nb") = .ok true ∧
      Glob.Matches "a\\**" "a*\nb" ∧ plainEngine.Conforms ∧
      plainEngine (Glob.ofString "a\\**").expression = some search ∧ search "a*\nb" = true := by
  obtain ⟨⟨test, htest, hrule⟩, -, hengine⟩ := stringMatches_pieces "a\\**"
  obtain ⟨b, hb, hiff⟩ := hrule .null (.str "a*\nb") ⟨"$", false, []⟩ (.str "a*\nb") rfl
  obtain ⟨search, hsearch⟩ : ∃ search, plainEngine (Glob.ofString "a\\**").expression = some search := by
    rw [plainEngine, Glob.parse_expression]
    exact ⟨_, rfl⟩
  have hbuilt : Test.ofOperator "StringMatches" (.str "a\\**") =
      .ok (.stringMatches (Glob.ofString "a\\**")) := rfl
  obtain rfl := Except.ok.inj (hbuilt.symm.trans htest)
  have hholds : (data ⟨"$", false, []⟩ (.stringMatches (Glob.ofString "a\\**"))).holds .null
      (.str "a*\nb") = .ok true := by rfl
  obtain ⟨_, ⟨⟩, hmatches⟩ := hiff.1 (Except.ok.inj (hb.symm.trans hholds))
  exact ⟨_, search, htest, rfl, hholds, hmatches, conforms_plainEngine, hsearch,
    (hengine plainEngine search conforms_plainEngine hsearch "a*\nb").2 hmatches⟩

end Rule

end StepFlow
