import StepFlow.Choice
import StepFlow.Document.Record
import StepFlow.Proofs.Path.RoundTrip
import StepFlow.Proofs.Text

/-!
# One order for each kind

A kind reads a key of a value, if the value is of the kind, and compares keys: texts by their
characters, numbers by the doubles nearest to them, timestamps by the instants they name. Each of
these comparisons is a total order on keys, so that the five comparators of a kind are the five
relations of one order, on values of the kind and on no others. A comparison is the same whether its right
side stands in the rule or is read from a path.
-/

namespace StepFlow

instance : Std.TransCmp Number.cmp :=
  inferInstanceAs (Std.TransCmp (compareOn fun n : Number => n.toBinary64.units))

instance : Std.TransCmp Timestamp.cmp :=
  inferInstanceAs (Std.TransCmp (compareLex (compareOn Timestamp.seconds) (compareOn Timestamp.nanos)))

namespace Comparator

theorem lessThan_holds {o : Ordering} : lessThan.holds o = true ↔ o = .lt := by
  cases o <;> decide

theorem equals_holds {o : Ordering} : equals.holds o = true ↔ o = .eq := by
  cases o <;> decide

theorem lessThanEquals_holds (o : Ordering) :
    lessThanEquals.holds o = (lessThan.holds o || equals.holds o) := by
  cases o <;> rfl

theorem greaterThanEquals_holds (o : Ordering) :
    greaterThanEquals.holds o = (greaterThan.holds o || equals.holds o) := by
  cases o <;> rfl

theorem lessThan_holds_swap (o : Ordering) : lessThan.holds o.swap = greaterThan.holds o := by
  cases o <;> rfl

/-- The relations of which one holds of any two values. -/
def strict : List Comparator := [lessThan, equals, greaterThan]

theorem strict_holds (o : Ordering) : ∃ c ∈ strict, ∀ c' ∈ strict, c'.holds o = true ↔ c' = c := by
  cases o <;> decide

end Comparator

/-- The number itself. -/
def Document.toNumber? : Document → Option Number
  | num n => some n
  | _ => none

namespace ValueKind

/-- What a kind orders: the keys that it reads of values, and their order. -/
structure Scale where
  Key : Type
  key? : Document → Option Key
  cmp : Key → Key → Ordering
  trans : Std.TransCmp cmp

def scale : ValueKind → Scale
  | string => ⟨String, Document.toStr?, compare, inferInstance⟩
  | numeric => ⟨Number, Document.toNumber?, Number.cmp, inferInstance⟩
  | boolean => ⟨Bool, Document.toBool?, compare, inferInstance⟩
  | timestamp => ⟨Timestamp, Document.timestamp?, Timestamp.cmp, inferInstance⟩

instance (kind : ValueKind) : Std.TransCmp kind.scale.cmp := kind.scale.trans

variable {kind : ValueKind} {x y z : Document}

theorem includes_eq (kind : ValueKind) (d : Document) :
    kind.includes d = (kind.scale.key? d).isSome := by
  cases kind with
  | timestamp => rw [includes]; rfl
  | string | numeric | boolean => cases d <;> rfl

theorem order?_eq (kind : ValueKind) (x y : Document) : kind.order? x y =
    (kind.scale.key? x).bind fun a => (kind.scale.key? y).map (kind.scale.cmp a) := by
  cases kind with
  | timestamp =>
    rw [order?]
    show _ = x.timestamp?.bind fun a => y.timestamp?.map a.cmp
    cases x.timestamp? <;> cases y.timestamp? <;> rfl
  | string | numeric | boolean => cases x <;> cases y <;> rfl

/-- The comparison of two values. -/
def relates (kind : ValueKind) (c : Comparator) (x y : Document) : Bool := (kind.order? x y).any c.holds

theorem relates_eq_of_key {a b : kind.scale.Key} (ha : kind.scale.key? x = some a)
    (hb : kind.scale.key? y = some b) (c : Comparator) :
    kind.relates c x y = c.holds (kind.scale.cmp a b) := by
  rw [relates, order?_eq, ha, hb]
  rfl

theorem relates_iff {c : Comparator} : kind.relates c x y = true ↔
    ∃ a b, kind.scale.key? x = some a ∧ kind.scale.key? y = some b ∧
      c.holds (kind.scale.cmp a b) = true := by
  constructor
  · intro h
    rw [relates, order?_eq, Option.any_eq_true] at h
    obtain ⟨o, ho, hc⟩ := h
    obtain ⟨a, ha, ho⟩ := Option.bind_eq_some_iff.1 ho
    obtain ⟨b, hb, rfl⟩ := Option.map_eq_some_iff.1 ho
    exact ⟨a, b, ha, hb, hc⟩
  · rintro ⟨a, b, ha, hb, hc⟩
    rw [relates_eq_of_key ha hb, hc]

theorem order?_swap (kind : ValueKind) (x y : Document) :
    kind.order? y x = (kind.order? x y).map Ordering.swap := by
  rw [order?_eq, order?_eq]
  cases kind.scale.key? x with
  | none => cases kind.scale.key? y <;> rfl
  | some a =>
    cases kind.scale.key? y with
    | none => rfl
    | some b => exact congrArg some Std.OrientedCmp.eq_swap

/-- A comparator carries over to values if it does to keys. -/
theorem relates_trans {c : Comparator}
    (hc : ∀ {a b d}, c.holds (kind.scale.cmp a b) = true → c.holds (kind.scale.cmp b d) = true →
      c.holds (kind.scale.cmp a d) = true)
    (hxy : kind.relates c x y = true) (hyz : kind.relates c y z = true) : kind.relates c x z = true := by
  obtain ⟨a, b, ha, hb, hab⟩ := relates_iff.1 hxy
  obtain ⟨b', d, hb', hd, hbd⟩ := relates_iff.1 hyz
  obtain rfl := Option.some.inj (hb.symm.trans hb')
  exact relates_iff.2 ⟨a, d, ha, hd, hc hab hbd⟩

theorem exists_key_of_includes (h : kind.includes x = true) : ∃ a, kind.scale.key? x = some a := by
  rw [includes_eq] at h
  exact Option.isSome_iff_exists.1 h

/-- The comparators are the relations of one order on the values of the kind. -/
structure OneOrder (kind : ValueKind) : Prop where
  exactlyOne : ∀ x y, kind.includes x = true → kind.includes y = true →
    ∃ c ∈ Comparator.strict, ∀ c' ∈ Comparator.strict, kind.relates c' x y = true ↔ c' = c
  lessThanEquals : ∀ x y, kind.relates .lessThanEquals x y =
    (kind.relates .lessThan x y || kind.relates .equals x y)
  greaterThanEquals : ∀ x y, kind.relates .greaterThanEquals x y =
    (kind.relates .greaterThan x y || kind.relates .equals x y)
  swap : ∀ x y, kind.relates .lessThan y x = kind.relates .greaterThan x y
  lessThan_trans : ∀ x y z, kind.relates .lessThan x y = true → kind.relates .lessThan y z = true →
    kind.relates .lessThan x z = true
  equals_trans : ∀ x y z, kind.relates .equals x y = true → kind.relates .equals y z = true →
    kind.relates .equals x z = true
  other : ∀ x y, ¬ (kind.includes x = true ∧ kind.includes y = true) → ∀ c, kind.relates c x y = false

theorem oneOrder (kind : ValueKind) : kind.OneOrder where
  exactlyOne x y hx hy := by
    obtain ⟨a, ha⟩ := exists_key_of_includes hx
    obtain ⟨b, hb⟩ := exists_key_of_includes hy
    simp only [relates_eq_of_key ha hb]
    exact Comparator.strict_holds _
  lessThanEquals x y := by
    unfold relates
    cases kind.order? x y with
    | none => rfl
    | some o => exact Comparator.lessThanEquals_holds o
  greaterThanEquals x y := by
    unfold relates
    cases kind.order? x y with
    | none => rfl
    | some o => exact Comparator.greaterThanEquals_holds o
  swap x y := by
    unfold relates
    rw [order?_swap]
    cases kind.order? x y with
    | none => rfl
    | some o => exact Comparator.lessThan_holds_swap o
  lessThan_trans _ _ _ := relates_trans fun hab hbd => by
    rw [Comparator.lessThan_holds] at *
    exact Std.TransCmp.lt_trans hab hbd
  equals_trans _ _ _ := relates_trans fun hab hbd => by
    rw [Comparator.equals_holds] at *
    exact Std.TransCmp.eq_trans hab hbd
  other x y h c := by
    unfold relates
    rw [includes_eq, includes_eq] at h
    rw [order?_eq]
    cases hx : kind.scale.key? x with
    | none => rfl
    | some a =>
      cases hy : kind.scale.key? y with
      | none => rfl
      | some b => exact absurd (by rw [hx, hy]; exact ⟨rfl, rfl⟩) h

/-! ### What the orders are -/

theorem lessThan_iff {a b : kind.scale.Key} (ha : kind.scale.key? x = some a)
    (hb : kind.scale.key? y = some b) :
    kind.relates .lessThan x y = true ↔ kind.scale.cmp a b = .lt := by
  rw [relates_eq_of_key ha hb, Comparator.lessThan_holds]

theorem equals_iff {a b : kind.scale.Key} (ha : kind.scale.key? x = some a)
    (hb : kind.scale.key? y = some b) :
    kind.relates .equals x y = true ↔ kind.scale.cmp a b = .eq := by
  rw [relates_eq_of_key ha hb, Comparator.equals_holds]

/-- The order of each kind: that of texts by their characters, of the values of doubles, of truth values with
false before true, of instants whatever the offsets under which they are written. -/
structure Orders : Prop where
  string : ∀ a b : String, (relates .string .lessThan (.str a) (.str b) = true ↔ a < b) ∧
    (relates .string .equals (.str a) (.str b) = true ↔ a = b)
  numeric : ∀ a b : Number,
    (relates .numeric .lessThan (.num a) (.num b) = true ↔ a.toBinary64.units < b.toBinary64.units) ∧
    (relates .numeric .equals (.num a) (.num b) = true ↔ a.toBinary64.units = b.toBinary64.units)
  boolean : ∀ a b : Bool, (relates .boolean .lessThan (.bool a) (.bool b) = true ↔ a = false ∧ b = true) ∧
    (relates .boolean .equals (.bool a) (.bool b) = true ↔ a = b)
  timestamp : ∀ x y s t, Document.timestamp? x = some s → Document.timestamp? y = some t →
    (relates .timestamp .lessThan x y = true ↔
      s.seconds < t.seconds ∨ s.seconds = t.seconds ∧ s.nanos < t.nanos) ∧
    (relates .timestamp .equals x y = true ↔ s = t)

theorem orders : Orders where
  string a b := ⟨(lessThan_iff rfl rfl).trans compareOfLessAndEq_eq_lt,
    (equals_iff rfl rfl).trans Std.LawfulEqOrd.compare_eq_iff_eq⟩
  numeric a b := ⟨(lessThan_iff rfl rfl).trans Int.compare_eq_lt,
    (equals_iff rfl rfl).trans Int.compare_eq_eq⟩
  boolean a b := by cases a <;> cases b <;> decide
  timestamp x y s t hs ht := by
    have hs' : timestamp.scale.key? x = some s := hs
    have ht' : timestamp.scale.key? y = some t := ht
    refine ⟨(lessThan_iff hs' ht').trans ?_, (equals_iff hs' ht').trans ?_⟩
    · show s.cmp t = .lt ↔ _
      rw [Timestamp.cmp, Ordering.then_eq_lt, Int.compare_eq_lt, Int.compare_eq_eq, Nat.compare_eq_lt]
    · show s.cmp t = .eq ↔ _
      rw [Timestamp.cmp, Ordering.then_eq_eq, Int.compare_eq_eq, Nat.compare_eq_eq]
      constructor
      · rintro ⟨hseconds, hnanos⟩
        cases s; cases t
        simp_all
      · rintro rfl
        exact ⟨rfl, rfl⟩

end ValueKind

/-! ### The tests of a rule -/

namespace Test

open ValueKind

theorem comparison?_name (kind : ValueKind) (c : Comparator) : comparison? (kind.name ++ c.name) =
    if kind = .boolean ∧ c ≠ .equals then none else some (kind, c) := by
  cases kind <;> cases c <;> rfl

/-- The operators that are no comparisons. -/
def others : List String :=
  ["IsNull", "IsPresent", "IsNumeric", "IsString", "IsBoolean", "IsTimestamp", "StringMatches"]

theorem ofOperator_eq_comparison {key : String} (h : key ∉ others) (operand : Document) :
    ofOperator key operand = comparison key operand := by
  unfold ofOperator
  split
  all_goals first | rfl | exact absurd (by decide) h

theorem ofOperator_literal (kind : ValueKind) (c : Comparator) (y : Document) :
    ofOperator (kind.name ++ c.name) y =
      if kind = .boolean ∧ c ≠ .equals then
        .error (.invalidChoice (.unknownOperator (kind.name ++ c.name)))
      else if kind.includes y then .ok (.compare kind c (.literal y))
      else .error (.invalidChoice (.wrongOperand (kind.name ++ c.name) y)) := by
  have hname : kind.name ++ c.name ∉ others := by cases kind <;> cases c <;> decide
  have hsuffix : Text.beforeSuffix? "Path" (kind.name ++ c.name) = none := by
    cases kind <;> cases c <;> rfl
  rw [ofOperator_eq_comparison hname]
  unfold comparison
  rw [hsuffix]
  dsimp only
  rw [comparison?_name]
  by_cases h : kind = .boolean ∧ c ≠ .equals
  · simp only [if_pos h]
  · simp only [if_neg h, Bool.false_eq_true, if_false]

theorem ofOperator_path (kind : ValueKind) (c : Comparator) {expression : String} {p : Path}
    (hallowed : ¬ (kind = .boolean ∧ c ≠ .equals)) (hp : Path.ofString expression = .ok p) :
    ofOperator (kind.name ++ c.name ++ "Path") (.str expression) = .ok (.compare kind c (.path p)) := by
  have hname : kind.name ++ c.name ++ "Path" ∉ others := by cases kind <;> cases c <;> decide
  rw [ofOperator_eq_comparison hname]
  unfold comparison
  rw [Text.beforeSuffix?_append]
  dsimp only
  rw [comparison?_name, if_neg hallowed]
  simp only [if_true, hp]

end Test

namespace Rule

variable {context input x y : Document} {subject : Path} {operand : RuleOperand}

theorem holds_compare (kind : ValueKind) (c : Comparator) (hx : subject.value context input = some x)
    (hy : operand.value context input = .ok y) :
    (data subject (.compare kind c operand)).holds context input = .ok (kind.relates c x y) := by
  rw [holds, hx]
  show Test.holdsOf context input x (.compare kind c operand) = _
  rw [Test.holdsOf, hy, ValueKind.relates]
  cases h : kind.order? x y with
  | none => simp [bind, Except.bind, h]
  | some o => simp [bind, Except.bind, h]

theorem holds_missing (kind : ValueKind) (c : Comparator) (operand : RuleOperand)
    (hx : subject.value context input = none) :
    (data subject (.compare kind c operand)).holds context input =
      .error (.variableNotFound subject.expression) := by
  rw [holds, hx]
  rfl

/-- A path that reads the literal takes its place. -/
theorem holds_path_eq (kind : ValueKind) (c : Comparator) {p : Path} (subject : Path)
    (hp : p.value context input = some y) :
    (data subject (.compare kind c (.path p))).holds context input =
      (data subject (.compare kind c (.literal y))).holds context input := by
  cases hx : subject.value context input with
  | none => rw [holds_missing kind c _ hx, holds_missing kind c _ hx]
  | some x =>
    have hoperand : (RuleOperand.path p).value context input = .ok y := by
      rw [RuleOperand.value, hp]
    rw [holds_compare kind c hx hoperand, holds_compare kind c hx rfl]

end Rule

namespace ValueKind

/-- For each kind the comparators are one order on its values, false and never an error where a value is of
another type; a value is taken as the right side of a comparison exactly if it is of the kind and the kind
has that comparator, and a path that reads it does the same. -/
theorem oneOrder_each_kind : Orders ∧ ∀ kind : ValueKind, kind.OneOrder ∧
    (∀ c context input (subject : Path) (operand : RuleOperand) x y,
      subject.value context input = some x → operand.value context input = .ok y →
        (Rule.data subject (.compare kind c operand)).holds context input = .ok (kind.relates c x y)) ∧
    (∀ (c : Comparator) y, (∃ literal, Test.ofOperator (kind.name ++ c.name) y = .ok literal) ↔
      (kind = .boolean → c = .equals) ∧ kind.includes y = true) ∧
    ∀ (c : Comparator) y literal expression p, Test.ofOperator (kind.name ++ c.name) y = .ok literal →
      Path.ofString expression = .ok p →
        literal = .compare kind c (.literal y) ∧
        ∃ fromPath, Test.ofOperator (kind.name ++ c.name ++ "Path") (.str expression) = .ok fromPath ∧
          ∀ context input (subject : Path), p.value context input = some y →
            (Rule.data subject fromPath).holds context input =
              (Rule.data subject literal).holds context input := by
  refine ⟨orders, fun kind => ⟨oneOrder kind, fun c _ _ _ _ _ _ => Rule.holds_compare kind c,
    fun c y => ?_, fun c y literal expression p hliteral hp => ?_⟩⟩
  · rw [Test.ofOperator_literal]
    by_cases hallowed : kind = .boolean ∧ c ≠ .equals
    · rw [if_pos hallowed]
      exact iff_of_false (fun ⟨_, h⟩ => nomatch h) fun h => hallowed.2 (h.1 hallowed.1)
    · have hallowed' : kind = .boolean → c = .equals := fun hkind =>
        Decidable.not_not.1 fun hc => hallowed ⟨hkind, hc⟩
      rw [if_neg hallowed]
      split <;> rename_i hy
      · exact iff_of_true ⟨_, rfl⟩ ⟨hallowed', hy⟩
      · exact iff_of_false (fun ⟨_, h⟩ => nomatch h) fun h => hy h.2
  · rw [Test.ofOperator_literal] at hliteral
    split at hliteral <;> rename_i hallowed
    · nomatch hliteral
    split at hliteral
    · obtain rfl := Except.ok.inj hliteral
      exact ⟨rfl, _, Test.ofOperator_path kind c hallowed hp,
        fun _ _ subject => Rule.holds_path_eq kind c subject⟩
    · nomatch hliteral

/-- Two numbers, the first of them not a whole one. -/
private def sizes : Document := .ofList [("small", .num (.float ⟨false, 5, -1⟩)), ("large", .ofNat 3)]

private def small : Path := ⟨"$.small", false, [.child (.key (.name "small"))]⟩

private def large : Path := ⟨"$.large", false, [.child (.key (.name "large"))]⟩

theorem oneOrder_each_kind_sizes : ∃ literal fromPath,
    Test.ofOperator "NumericLessThan" (.ofNat 3) = .ok literal ∧ Path.ofString "$.large" = .ok large ∧
    Test.ofOperator "NumericLessThanPath" (.str "$.large") = .ok fromPath ∧
    large.value .null sizes = some (.ofNat 3) ∧
    small.value .null sizes = some (.num (.float ⟨false, 5, -1⟩)) ∧
    (Rule.data small literal).holds .null sizes = .ok true ∧
    (Rule.data small fromPath).holds .null sizes = .ok true := by
  obtain ⟨-, hholds, haccepts, hpaths⟩ := oneOrder_each_kind.2 numeric
  have hsmall : small.value .null sizes = some (.num (.float ⟨false, 5, -1⟩)) := rfl
  have hlarge : large.value .null sizes = some (.ofNat 3) := rfl
  have hspelled : Query.Spelled [.child (.key (.name "large"))] ".large".toList :=
    .cons (.member ⟨by decide, List.all_eq_true.1 (by decide)⟩) .nil
  have hpath : Path.ofString "$.large" = .ok large := congrArg (Except.mapError _) hspelled.parse_input
  obtain ⟨literal, hliteral⟩ := (haccepts .lessThan (.ofNat 3)).2 ⟨(fun h => nomatch h), rfl⟩
  obtain ⟨rfl, fromPath, hfromPath, hsame⟩ := hpaths .lessThan _ literal _ _ hliteral hpath
  have hless : numeric.relates .lessThan (.num (.float ⟨false, 5, -1⟩)) (.ofNat 3) = true := by
    decide +kernel
  have hrule := hholds .lessThan .null sizes small (.literal (.ofNat 3)) _ _ hsmall rfl
  rw [hless] at hrule
  exact ⟨_, fromPath, hliteral, hpath, hfromPath, hlarge, hsmall, hrule,
    (hsame .null sizes small hlarge).trans hrule⟩

/-- The same instant under two offsets. -/
example : relates .timestamp .equals (.str "2024-02-29T10:00:00Z") (.str "2024-02-29T12:30:00.0+02:30") =
    true := by
  decide +kernel

end ValueKind

end StepFlow
