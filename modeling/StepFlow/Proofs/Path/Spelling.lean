import StepFlow.Path.Grammar
import StepFlow.Proofs.Document.Decimal

/-!
# Texts of queries

The canonical text of a query: names and strings in single quotes, with a backslash before quotes and
backslashes, every selector in brackets, every condition in parentheses. `Query.Spelled` relates a query to this
text and to those in which some names of segments, at any depth, stand after a point instead
(`Query.Expressible.spelled`). A query is expressible when its numbers fit the words that they are read as, its
unions have two keys and its literals are no containers and no doubles.
-/

namespace StepFlow

/-- A character between quotes. -/
def escape (c : Char) : List Char := if c = '\'' ∨ c = '\\' then ['\\', c] else [c]

def inQuotes (s : String) : List Char := '\'' :: (s.toList.flatMap escape ++ ['\''])

def parenthesized (cs : List Char) : List Char := '(' :: (cs ++ [')'])

def bracketed (cs : List Char) : List Char := '[' :: (cs ++ [']'])

/-! ### Canonical texts -/

def Key.text : Key → List Char
  | name s => inQuotes s
  | index i => decimal i

/-- Keys after the first, each after a comma. -/
def moreKeys (keys : List Key) : List Char := keys.flatMap fun k => ',' :: k.text

/-- A bound of a slice. -/
def boundText (bound : Option Int) : List Char := bound.elim [] decimal

def CompareOp.text : CompareOp → List Char
  | eq => ['=', '=']
  | ne => ['!', '=']
  | lt => ['<']
  | le => ['<', '=']
  | gt => ['>']
  | ge => ['>', '=']

/-- The text of a scalar that is no double. -/
def Document.literalText : Document → List Char
  | .null => "null".toList
  | .bool true => "true".toList
  | .bool false => "false".toList
  | .num (.int i) => decimal i
  | .str s => inQuotes s
  | _ => []

mutual

def Segment.text : Segment → List Char
  | .child s => bracketed s.text
  | .descendants s => '.' :: '.' :: bracketed s.text

def Selector.text : Selector → List Char
  | .key k => k.text
  | .wildcard => ['*']
  | .union [] => []
  | .union (first :: more) => first.text ++ moreKeys more
  | .slice first stop none => boundText first ++ ':' :: boundText stop
  | .slice first stop (some step) => boundText first ++ ':' :: (boundText stop ++ ':' :: decimal step)
  | .filter condition => '?' :: parenthesized condition.text

def Filter.text : Filter → List Char
  | .or a b => parenthesized a.text ++ '|' :: '|' :: parenthesized b.text
  | .and a b => parenthesized a.text ++ '&' :: '&' :: parenthesized b.text
  | .not a => '!' :: parenthesized a.text
  | .holds operand => operand.text
  | .compare left op right => left.text ++ (op.text ++ right.text)

def Operand.text : Operand → List Char
  | .current query => '@' :: Query.text query
  | .root query => '$' :: Query.text query
  | .literal d => d.literalText

def Query.text : List Segment → List Char
  | [] => []
  | s :: rest => s.text ++ Query.text rest

end

/-! ### Expressible queries -/

/-- The integer fits a signed word. -/
def IsWord (i : Int) : Prop := Slice.minWord ≤ i ∧ i ≤ Slice.maxWord

def Key.Expressible : Key → Prop
  | name _ => True
  | index i => IsWord i

/-- A string, a truth value, null or an integer that fits a word. -/
def Document.IsLiteral : Document → Prop
  | .null | .bool _ | .str _ => True
  | .num (.int i) => Slice.minWord ≤ i ∧ i ≤ Numeral.maxWord
  | _ => False

mutual

def Segment.Expressible : Segment → Prop
  | .child s => s.Expressible
  | .descendants s => s.Expressible

def Selector.Expressible : Selector → Prop
  | .key k => k.Expressible
  | .wildcard => True
  | .union keys => 2 ≤ keys.length ∧ ∀ k ∈ keys, k.Expressible
  | .slice first stop step => (∀ i ∈ first, IsWord i) ∧ (∀ i ∈ stop, IsWord i) ∧ ∀ i ∈ step, IsWord i
  | .filter condition => condition.Expressible

def Filter.Expressible : Filter → Prop
  | .or a b => a.Expressible ∧ b.Expressible
  | .and a b => a.Expressible ∧ b.Expressible
  | .not a => a.Expressible
  | .holds operand => operand.Expressible
  | .compare left _ right => left.Expressible ∧ right.Expressible

def Operand.Expressible : Operand → Prop
  | .current query => Query.Expressible query
  | .root query => Query.Expressible query
  | .literal d => d.IsLiteral

def Query.Expressible : List Segment → Prop
  | [] => True
  | s :: rest => s.Expressible ∧ Query.Expressible rest

end

/-! ### Spellings -/

/-- A name that can stand after a point. -/
def IsPlain (name : String) : Prop := name.toList ≠ [] ∧ ∀ c ∈ name.toList, Grammar.isNameChar c

mutual

/-- The text spells the segment: canonically, but for names after points. -/
inductive Segment.Spelled : Segment → List Char → Prop
  | child {s : Selector} {cs : List Char} : s.Spelled cs → Segment.Spelled (.child s) (bracketed cs)
  | descendants {s : Selector} {cs : List Char} :
      s.Spelled cs → Segment.Spelled (.descendants s) ('.' :: '.' :: bracketed cs)
  | member {name : String} : IsPlain name → Segment.Spelled (.child (.key (.name name))) ('.' :: name.toList)
  | members {name : String} :
      IsPlain name → Segment.Spelled (.descendants (.key (.name name))) ('.' :: '.' :: name.toList)

inductive Selector.Spelled : Selector → List Char → Prop
  | key {k : Key} : k.Expressible → Selector.Spelled (.key k) k.text
  | wildcard : Selector.Spelled .wildcard ['*']
  | union {first second : Key} {more : List Key} : (∀ k ∈ first :: second :: more, k.Expressible) →
      Selector.Spelled (.union (first :: second :: more)) (first.text ++ moreKeys (second :: more))
  | slice {first stop step : Option Int} :
      (∀ i ∈ first, IsWord i) → (∀ i ∈ stop, IsWord i) → (∀ i ∈ step, IsWord i) →
      Selector.Spelled (.slice first stop step) (Selector.slice first stop step).text
  | filter {f : Filter} {cs : List Char} : f.Spelled cs → Selector.Spelled (.filter f) ('?' :: parenthesized cs)

inductive Filter.Spelled : Filter → List Char → Prop
  | or {a b : Filter} {cs ds : List Char} : a.Spelled cs → b.Spelled ds →
      Filter.Spelled (.or a b) (parenthesized cs ++ '|' :: '|' :: parenthesized ds)
  | and {a b : Filter} {cs ds : List Char} : a.Spelled cs → b.Spelled ds →
      Filter.Spelled (.and a b) (parenthesized cs ++ '&' :: '&' :: parenthesized ds)
  | not {a : Filter} {cs : List Char} : a.Spelled cs → Filter.Spelled (.not a) ('!' :: parenthesized cs)
  | holds {o : Operand} {cs : List Char} : o.Spelled cs → Filter.Spelled (.holds o) cs
  | compare {left right : Operand} {cs ds : List Char} (op : CompareOp) : left.Spelled cs → right.Spelled ds →
      Filter.Spelled (.compare left op right) (cs ++ (op.text ++ ds))

inductive Operand.Spelled : Operand → List Char → Prop
  | current {q : List Segment} {cs : List Char} : Query.Spelled q cs → Operand.Spelled (.current q) ('@' :: cs)
  | root {q : List Segment} {cs : List Char} : Query.Spelled q cs → Operand.Spelled (.root q) ('$' :: cs)
  | literal {d : Document} : d.IsLiteral → Operand.Spelled (.literal d) d.literalText

inductive Query.Spelled : List Segment → List Char → Prop
  | nil : Query.Spelled [] []
  | cons {s : Segment} {q : List Segment} {cs ds : List Char} :
      s.Spelled cs → Query.Spelled q ds → Query.Spelled (s :: q) (cs ++ ds)

end

mutual

theorem Segment.Expressible.spelled : ∀ {s : Segment}, s.Expressible → s.Spelled s.text
  | .child _, h => .child (Selector.Expressible.spelled h)
  | .descendants _, h => .descendants (Selector.Expressible.spelled h)

theorem Selector.Expressible.spelled : ∀ {s : Selector}, s.Expressible → s.Spelled s.text
  | .key _, h => .key h
  | .wildcard, _ => .wildcard
  | .union (_ :: _ :: _), h => .union h.2
  | .slice .., ⟨hfirst, hstop, hstep⟩ => .slice hfirst hstop hstep
  | .filter _, h => .filter (Filter.Expressible.spelled h)

theorem Filter.Expressible.spelled : ∀ {f : Filter}, f.Expressible → f.Spelled f.text
  | .or _ _, ⟨ha, hb⟩ => .or (Filter.Expressible.spelled ha) (Filter.Expressible.spelled hb)
  | .and _ _, ⟨ha, hb⟩ => .and (Filter.Expressible.spelled ha) (Filter.Expressible.spelled hb)
  | .not _, h => .not (Filter.Expressible.spelled h)
  | .holds _, h => .holds (Operand.Expressible.spelled h)
  | .compare _ op _, ⟨hl, hr⟩ => .compare op (Operand.Expressible.spelled hl) (Operand.Expressible.spelled hr)

theorem Operand.Expressible.spelled : ∀ {o : Operand}, o.Expressible → o.Spelled o.text
  | .current _, h => .current (Query.Expressible.spelled h)
  | .root _, h => .root (Query.Expressible.spelled h)
  | .literal _, h => .literal h

/-- The canonical text spells the query. -/
theorem Query.Expressible.spelled : ∀ {q : Query}, Query.Expressible q → Query.Spelled q (Query.text q)
  | [], _ => .nil
  | _ :: _, ⟨hs, hq⟩ => .cons (Segment.Expressible.spelled hs) (Query.Expressible.spelled hq)

end

end StepFlow
