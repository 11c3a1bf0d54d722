import Mathlib.Logic.Relation
import StepFlow.Proofs.Choice.Order
import StepFlow.Proofs.Document.Table

/-!
# The operators of a rule

A node of a rule is read by one member: the first of `And`, `Or` and `Not` that it has
(`Rule.joint?`), else its only member that is not reserved. In the second case the node has exactly one
operator, as several are rejected; in the first no other member is looked at. So a rule is accepted if
every node that is read is sound (`Rule.accepted_iff`), and all operators of it are read if none stands
beside `And`, `Or` or `Not`.
-/

namespace StepFlow

/-! ### The names of comparisons -/

namespace Test

/-- The operators that compare: each kind with each of its comparators, with a value or with a path. -/
def comparisons : List String :=
  (ValueKind.all.flatMap fun kind =>
    (Comparator.all.filter fun c => kind ≠ .boolean ∨ c = .equals).map fun c => kind.name ++ c.name).flatMap
      fun name => [name, name ++ "Path"]

/-- The operators that test a variable. -/
def operators : List String := others ++ comparisons

variable {name key : String} {kind : ValueKind} {c : Comparator}

theorem comparison?_eq_some (h : comparison? name = some (kind, c)) :
    name = kind.name ++ c.name ∧ (kind ≠ .boolean ∨ c = .equals) := by
  unfold comparison? at h
  obtain ⟨⟨kind', rest⟩, hkind, h⟩ := Option.bind_eq_some_iff.1 h
  obtain ⟨c', hc, h⟩ := Option.bind_eq_some_iff.1 h
  obtain ⟨_, -, hprefix⟩ := List.exists_of_findSome?_eq_some hkind
  obtain ⟨rest', hrest, heq⟩ := Option.map_eq_some_iff.1 hprefix
  cases heq
  have hname : c'.name = rest := by simpa using List.find?_some hc
  split at h
  · cases h
  · rename_i hallowed
    cases h
    exact ⟨by rw [hname]; exact Text.afterPrefix?_eq_some_iff.1 hrest, by grind⟩

theorem mem_comparisons (h : comparison? name = some (kind, c)) :
    name ∈ comparisons ∧ name ++ "Path" ∈ comparisons := by
  obtain ⟨rfl, hallowed⟩ := comparison?_eq_some h
  have hname : kind.name ++ c.name ∈ ValueKind.all.flatMap fun kind =>
      (Comparator.all.filter fun c => kind ≠ .boolean ∨ c = .equals).map fun c => kind.name ++ c.name := by
    refine List.mem_flatMap.2 ⟨kind, by cases kind <;> decide, List.mem_map.2 ⟨c, ?_, rfl⟩⟩
    exact List.mem_filter.2 ⟨by cases c <;> decide, decide_eq_true hallowed⟩
  exact ⟨List.mem_flatMap.2 ⟨_, hname, List.mem_cons_self ..⟩,
    List.mem_flatMap.2 ⟨_, hname, List.mem_cons_of_mem _ (List.mem_cons_self ..)⟩⟩

/-- A key that is no operator is rejected whatever its operand. -/
theorem mem_operators_of_ofOperator {operand : Document} {t : Test} (h : ofOperator key operand = .ok t) :
    key ∈ operators := by
  by_cases hother : key ∈ others
  · exact List.mem_append_left _ hother
  · rw [ofOperator_eq_comparison hother] at h
    refine List.mem_append_right _ ?_
    unfold comparison at h
    cases hsuffix : Text.beforeSuffix? "Path" key with
    | none =>
      rw [hsuffix] at h
      cases hname : comparison? key with
      | none => simp [hname] at h
      | some found => exact (mem_comparisons hname).1
    | some name =>
      rw [hsuffix] at h
      cases hname : comparison? name with
      | none => simp [hname] at h
      | some found => exact Text.beforeSuffix?_eq_some_iff.1 hsuffix ▸ (mem_comparisons hname).2

end Test

namespace Rule

open Relation (ReflTransGen)

/-! ### Nodes -/

/-- The members that join other rules, in the order in which they are looked for. -/
def joints : List String := ["And", "Or", "Not"]

/-- The member by which a node joins other rules, if it does. -/
def joint? (fields : Fields) : Option (String × Document) :=
  joints.findSome? fun key => (Table.get? key fields).map fun d => (key, d)

/-- The rules that stand under a member that joins them: one under `Not`, those of a list under the others. -/
def operandsOf (key : String) (d : Document) : List Document :=
  if key = "Not" then [d]
  else match d with
    | .arr items => items
    | _ => []

/-- The members that are operators: those that join rules, and those that test a variable. -/
def allOperators : List String := joints ++ Test.operators

/-- The operators of a node. -/
def operatorsOf (fields : Fields) : List String := fields.names.filter (· ∈ allOperators)

/-- A rule directly below another one, under any member that joins rules. -/
def Below (d c : Document) : Prop :=
  ∃ fields key operand, d = .obj fields ∧ key ∈ joints ∧ Table.get? key fields = some operand ∧
    c ∈ operandsOf key operand

/-- A rule directly below another one, under the member by which this is read. -/
def ReadBelow (d c : Document) : Prop :=
  ∃ fields key operand, d = .obj fields ∧ joint? fields = some (key, operand) ∧ c ∈ operandsOf key operand

/-- The members of a comparison are in order. -/
def Compares (fields : Fields) : Prop :=
  ∃ expression subject key operand test, Table.get? "Variable" fields = some (.str expression) ∧
    Path.ofString expression = .ok subject ∧ operators fields = [(key, operand)] ∧
    Test.ofOperator key operand = .ok test

/-- A node joins at least one rule, or else is a comparison. -/
def Sound (d : Document) : Prop :=
  ∃ fields, d = .obj fields ∧ match joint? fields with
    | some (key, operand) => operandsOf key operand ≠ []
    | none => Compares fields

/-- The rule is read without an error. -/
def Accepted (d : Document) : Prop := ∃ r, ofDocument d = .ok r

/-! ### Reading a node -/

section

variable {key : String} {fields : Fields} {d c operand : Document}

/-- The rules of a list that may not be empty. -/
def listed (key : String) : Document → Except WorkflowError (List Rule)
  | .arr items => if items.isEmpty then .error (.invalidChoice (.emptyList key)) else ofItems items
  | _ => .error (.invalidChoice (.emptyList key))

theorem rulesUnder_cons (key k : String) (d : Document) (rest : Fields) : rulesUnder key ((k, d) :: rest) =
    if k = key then some (listed key d) else rulesUnder key rest := by
  cases d <;> rfl

theorem rulesUnder_eq (key : String) (fields : Fields) :
    rulesUnder key fields = (Table.get? key fields).map (listed key) := by
  induction fields with
  | nil => rfl
  | cons entry fields ih =>
    obtain ⟨k, d⟩ := entry
    rw [Table.get?_cons, rulesUnder_cons, ih]
    split <;> rfl

theorem ruleUnder_eq (key : String) (fields : Fields) :
    ruleUnder key fields = (Table.get? key fields).map ofDocument := by
  induction fields with
  | nil => rfl
  | cons entry fields ih =>
    obtain ⟨k, d⟩ := entry
    rw [Table.get?_cons, ruleUnder, ih]
    split <;> rfl

/-- The rule under a member that joins rules. -/
def ofJoint : String × Document → Except WorkflowError Rule
  | ("And", d) => (listed "And" d).map .and
  | ("Or", d) => (listed "Or" d).map .or
  | (_, d) => (ofDocument d).map .not

theorem ofDocument_obj (fields : Fields) : ofDocument (.obj fields) =
    ((joint? fields).map ofJoint).getD (ofComparison fields) := by
  rw [ofDocument, rulesUnder_eq, rulesUnder_eq, ruleUnder_eq]
  simp only [joint?, joints, List.findSome?_cons, List.findSome?_nil]
  cases Table.get? "And" fields with
  | some d => rfl
  | none =>
    cases Table.get? "Or" fields with
    | some d => rfl
    | none => cases Table.get? "Not" fields <;> rfl

theorem ofItems_accepted {items : List Document} :
    (∃ rules, ofItems items = .ok rules) ↔ ∀ d ∈ items, Accepted d := by
  induction items with
  | nil => exact iff_of_true ⟨[], rfl⟩ (List.forall_mem_nil _)
  | cons d items ih =>
    rw [List.forall_mem_cons, ← ih]
    unfold Accepted
    rw [ofItems]
    cases ofDocument d <;> cases ofItems items <;> simp [bind, Except.bind]

theorem listed_accepted : (∃ rules, listed key d = .ok rules) ↔
    ∃ items, d = .arr items ∧ items ≠ [] ∧ ∀ c ∈ items, Accepted c := by
  constructor
  · rintro ⟨rules, h⟩
    unfold listed at h
    split at h
    · rename_i items
      split at h
      · cases h
      · rename_i hne
        exact ⟨items, rfl, by simpa using hne, ofItems_accepted.1 ⟨rules, h⟩⟩
    · cases h
  · rintro ⟨items, rfl, hne, hall⟩
    obtain ⟨rules, hrules⟩ := ofItems_accepted.2 hall
    exact ⟨rules, by rw [listed, if_neg (by simpa using hne), hrules]⟩

theorem map_accepted {α β : Type} {r : Except WorkflowError α} (f : α → β) :
    (∃ b, r.map f = .ok b) ↔ ∃ a, r = .ok a := by
  cases r <;> simp [Except.map]

theorem joint?_mem (h : joint? fields = some (key, operand)) :
    key ∈ joints ∧ Table.get? key fields = some operand := by
  obtain ⟨key', hkey', h⟩ := List.exists_of_findSome?_eq_some h
  obtain ⟨d, hd, heq⟩ := Option.map_eq_some_iff.1 h
  cases heq
  exact ⟨hkey', hd⟩

theorem ofJoint_accepted (h : key ∈ joints) : (∃ r, ofJoint (key, operand) = .ok r) ↔
    operandsOf key operand ≠ [] ∧ ∀ c ∈ operandsOf key operand, Accepted c := by
  have hlist {key : String} (hkey : key ≠ "Not") : (∃ rules, listed key operand = .ok rules) ↔
      operandsOf key operand ≠ [] ∧ ∀ c ∈ operandsOf key operand, Accepted c := by
    rw [listed_accepted]
    unfold operandsOf
    rw [if_neg hkey]
    split
    · rename_i items
      constructor
      · rintro ⟨_, ⟨⟩, h⟩
        exact h
      · exact fun h => ⟨items, rfl, h⟩
    · rename_i harr
      refine iff_of_false ?_ fun h => h.1 rfl
      rintro ⟨items, rfl, -⟩
      exact harr items rfl
  simp only [joints, List.mem_cons, List.not_mem_nil, or_false] at h
  rcases h with rfl | rfl | rfl
  · rw [← hlist (by decide), ← map_accepted Rule.and]
    rfl
  · rw [← hlist (by decide), ← map_accepted Rule.or]
    rfl
  · have hnot : operandsOf "Not" operand = [operand] := if_pos rfl
    rw [hnot, List.forall_mem_singleton, and_iff_right (List.cons_ne_nil _ _)]
    exact map_accepted Rule.not

theorem ofComparison_ok {expression : String} {subject : Path} {test : Test}
    (hvariable : Table.get? "Variable" fields = some (.str expression))
    (hsubject : Path.ofString expression = .ok subject) (hoperators : operators fields = [(key, operand)])
    (htest : Test.ofOperator key operand = .ok test) : ofComparison fields = .ok (.data subject test) := by
  simp only [ofComparison, hvariable, hsubject, hoperators, htest]
  rfl

theorem ofComparison_accepted : (∃ r, ofComparison fields = .ok r) ↔ Compares fields := by
  constructor
  · rintro ⟨r, h⟩
    unfold ofComparison at h
    split at h
    · rename_i expression hvariable
      split at h
      · cases h
      · rename_i subject hsubject
        split at h
        · cases h
        · rename_i key operand hoperators
          cases htest : Test.ofOperator key operand with
          | error e => rw [htest] at h; cases h
          | ok test => exact ⟨_, _, _, _, test, hvariable, hsubject, hoperators, htest⟩
        · cases h
    · cases h
  · rintro ⟨expression, subject, key, operand, test, hvariable, hsubject, hoperators, htest⟩
    exact ⟨_, ofComparison_ok hvariable hsubject hoperators htest⟩

theorem not_accepted_of_not_obj (h : ∀ fields, d ≠ .obj fields) : ¬ Accepted d := by
  rintro ⟨r, hr⟩
  cases d with
  | obj fields => exact h fields rfl
  | _ => cases hr

theorem sound_obj : Sound (.obj fields) ↔ match joint? fields with
    | some (key, operand) => operandsOf key operand ≠ []
    | none => Compares fields := by
  constructor
  · rintro ⟨_, ⟨⟩, h⟩
    exact h
  · exact fun h => ⟨fields, rfl, h⟩

theorem readBelow_obj : ReadBelow (.obj fields) c ↔
    ∃ key operand, joint? fields = some (key, operand) ∧ c ∈ operandsOf key operand := by
  constructor
  · rintro ⟨_, key, operand, ⟨⟩, h⟩
    exact ⟨key, operand, h⟩
  · rintro ⟨key, operand, h⟩
    exact ⟨fields, key, operand, rfl, h⟩

/-- A rule is accepted if its node is sound and all rules read below it are accepted. -/
theorem accepted_step : Accepted d ↔ Sound d ∧ ∀ c, ReadBelow d c → Accepted c := by
  by_cases hobj : ∃ fields, d = .obj fields
  · obtain ⟨fields, rfl⟩ := hobj
    rw [Accepted, ofDocument_obj, sound_obj]
    simp only [readBelow_obj]
    cases hjoint : joint? fields with
    | none => simpa using ofComparison_accepted
    | some found =>
      obtain ⟨key, operand⟩ := found
      simpa using ofJoint_accepted (joint?_mem hjoint).1
  · refine iff_of_false (not_accepted_of_not_obj fun fields heq => hobj ⟨fields, heq⟩) ?_
    rintro ⟨⟨fields, rfl, -⟩, -⟩
    exact hobj ⟨fields, rfl⟩

theorem sizeOf_operandsOf (h : c ∈ operandsOf key operand) : sizeOf c ≤ sizeOf operand := by
  unfold operandsOf at h
  split at h
  · rw [List.mem_singleton.1 h]
  · split at h
    · have := List.sizeOf_lt_of_mem h
      simp only [Document.arr.sizeOf_spec]
      omega
    · cases h

theorem sizeOf_readBelow (h : ReadBelow d c) : sizeOf c < sizeOf d := by
  obtain ⟨fields, key, operand, rfl, hjoint, hc⟩ := h
  have hentry := List.sizeOf_lt_of_mem (Table.mem_of_get? (joint?_mem hjoint).2)
  have hle := sizeOf_operandsOf hc
  simp only [Document.obj.sizeOf_spec, Prod.mk.sizeOf_spec] at hentry ⊢
  omega

/-- A rule is accepted if all nodes that are read are sound, wherever in the rule they stand. -/
theorem accepted_iff (d : Document) : Accepted d ↔ ∀ n, ReflTransGen ReadBelow d n → Sound n := by
  rw [accepted_step]
  constructor
  · rintro ⟨hd, hbelow⟩ n hn
    rcases hn.cases_head with rfl | ⟨c, hc, hn⟩
    · exact hd
    · exact (accepted_iff c).1 (hbelow c hc) n hn
  · exact fun h => ⟨h d .refl, fun c hc => (accepted_iff c).2 fun n hn => h n (.head hc hn)⟩
termination_by sizeOf d
decreasing_by all_goals exact sizeOf_readBelow hc

/-! ### The operators of a node -/

theorem not_reserved_of_operator {k : String} (h : k ∈ allOperators) : k ∉ reserved := by
  have hall : reserved.all fun k => k ∉ allOperators := by decide
  exact fun hk => of_decide_eq_true (List.all_eq_true.1 hall k hk) h

/-- Only members that are not reserved are operators. -/
theorem operatorsOf_eq (fields : Fields) :
    operatorsOf fields = (operators fields).names.filter (· ∈ allOperators) := by
  unfold operatorsOf operators Table.names
  rw [List.filter_map, List.filter_map, List.filter_filter]
  refine congrArg _ (List.filter_congr fun entry _ => ?_)
  by_cases hk : entry.1 ∈ allOperators
  · simp [hk, not_reserved_of_operator hk]
  · simp [hk]

/-- A comparison has one operator and no other member that is not reserved. -/
theorem Compares.operatorsOf_eq (h : Compares fields) : ∃ key, operatorsOf fields = [key] := by
  obtain ⟨_, _, key, operand, _, _, _, hoperators, htest⟩ := h
  have hkey : key ∈ allOperators := List.mem_append_right _ (Test.mem_operators_of_ofOperator htest)
  refine ⟨key, ?_⟩
  rw [Rule.operatorsOf_eq, hoperators]
  exact List.filter_eq_self.2 (List.forall_mem_singleton.2 (decide_eq_true hkey))

theorem joint_mem_operatorsOf (h : key ∈ joints) (hget : Table.get? key fields = some operand) :
    key ∈ operatorsOf fields := by
  refine List.mem_filter.2 ⟨List.mem_map_of_mem (Table.mem_of_get? hget), decide_eq_true ?_⟩
  exact List.mem_append_left _ h

/-- What stands beside the member that joins the rules of a node is not looked at. -/
theorem ofDocument_of_joint (h : joint? fields = some (key, operand)) :
    ofDocument (.obj fields) = ofDocument (.obj [(key, operand)]) := by
  have hsingle : joint? [(key, operand)] = some (key, operand) := by
    have hkey := (joint?_mem h).1
    simp only [joints, List.mem_cons, List.not_mem_nil, or_false] at hkey
    rcases hkey with rfl | rfl | rfl <;> rfl
  rw [ofDocument_obj, ofDocument_obj, h, hsingle]
  rfl

/-- The node has one operator. -/
def OneOperator (d : Document) : Prop := ∃ fields key, d = .obj fields ∧ operatorsOf fields = [key]

/-- A member that joins rules has no other operator beside it. -/
def Unmixed (d : Document) : Prop :=
  ∀ fields key operand, d = .obj fields → joint? fields = some (key, operand) → operatorsOf fields = [key]

theorem Sound.oneOperator (hsound : Sound d) (h : Unmixed d) : OneOperator d := by
  obtain ⟨fields, rfl, hsound⟩ := hsound
  cases hjoint : joint? fields with
  | some found => exact ⟨fields, found.1, rfl, h fields _ _ rfl hjoint⟩
  | none =>
    rw [hjoint] at hsound
    obtain ⟨key, hkey⟩ := hsound.operatorsOf_eq
    exact ⟨fields, key, rfl, hkey⟩

/-- Where nothing is mixed, all rules that stand below a node are read. -/
theorem Unmixed.readBelow (h : Unmixed d) (hc : Below d c) : ReadBelow d c := by
  obtain ⟨fields, key, operand, rfl, hkey, hget, hc⟩ := hc
  cases hjoint : joint? fields with
  | none =>
    have hnone := List.findSome?_eq_none_iff.1 hjoint key hkey
    rw [hget] at hnone
    cases hnone
  | some found =>
    obtain ⟨key', operand'⟩ := found
    have hmem := joint_mem_operatorsOf hkey hget
    rw [h fields key' operand' rfl hjoint] at hmem
    obtain rfl := List.mem_singleton.1 hmem
    obtain rfl := Option.some.inj (hget.symm.trans (joint?_mem hjoint).2)
    exact ⟨fields, key, operand, rfl, hjoint, hc⟩

theorem read_of_unmixed (h : ∀ n, ReflTransGen Below d n → Unmixed n) (hn : ReflTransGen Below d c) :
    ReflTransGen ReadBelow d c := by
  induction hn with
  | refl => exact .refl
  | tail hab hbc ih => exact ih.tail ((h _ hab).readBelow hbc)

theorem Sound.operatorsOf (h : Sound (.obj fields)) : Rule.operatorsOf fields ≠ [] ∧
    (joint? fields = none → (Rule.operatorsOf fields).length = 1) := by
  rw [sound_obj] at h
  cases hjoint : joint? fields with
  | some found =>
    obtain ⟨hkey, hget⟩ := joint?_mem hjoint
    exact ⟨List.ne_nil_of_mem (joint_mem_operatorsOf hkey hget), nofun⟩
  | none =>
    rw [hjoint] at h
    obtain ⟨key, hkey⟩ := h.operatorsOf_eq
    rw [hkey]
    exact ⟨List.cons_ne_nil _ _, fun _ => rfl⟩

end

/-- A rule is accepted if all nodes that are read are sound. Each of them is an object with an operator: with
exactly one if it is a comparison, while a node that joins rules is read as if it had no other member. So in
an accepted rule in which no operator stands beside `And`, `Or` or `Not` every node has exactly one operator.
A node without an operator, or a comparison with several, has the whole rule rejected. -/
theorem operators_of_accepted (d : Document) :
    (Accepted d ↔ ∀ n, ReflTransGen ReadBelow d n → Sound n) ∧
    (Accepted d → ∀ n, ReflTransGen ReadBelow d n → ∃ fields, n = .obj fields ∧
      match joint? fields with
      | some (key, operand) =>
        key ∈ operatorsOf fields ∧ ofDocument n = ofDocument (.obj [(key, operand)])
      | none => OneOperator n) ∧
    (Accepted d → (∀ n, ReflTransGen Below d n → Unmixed n) →
      ∀ n, ReflTransGen Below d n → OneOperator n) ∧
    ∀ fields, ReflTransGen ReadBelow d (.obj fields) →
      operatorsOf fields = [] ∨ joint? fields = none ∧ 2 ≤ (operatorsOf fields).length →
        ∃ e, ofDocument d = .error e := by
  refine ⟨accepted_iff d, fun hd n hn => ?_, fun hd hunmixed n hn => ?_, fun fields hn hoperators => ?_⟩
  · obtain ⟨fields, rfl, hsound⟩ := (accepted_iff d).1 hd n hn
    refine ⟨fields, rfl, ?_⟩
    cases hjoint : joint? fields with
    | some found =>
      obtain ⟨hkey, hget⟩ := joint?_mem hjoint
      exact ⟨joint_mem_operatorsOf hkey hget, ofDocument_of_joint hjoint⟩
    | none =>
      rw [hjoint] at hsound
      obtain ⟨key, hkey⟩ := hsound.operatorsOf_eq
      exact ⟨fields, key, rfl, hkey⟩
  · exact ((accepted_iff d).1 hd n (read_of_unmixed hunmixed hn)).oneOperator (hunmixed n hn)
  · have hrejected : ¬ Accepted d := by
      intro hd
      obtain ⟨hsome, hone⟩ := ((accepted_iff d).1 hd _ hn).operatorsOf
      rcases hoperators with hnil | ⟨hjoint, hlength⟩
      · exact hsome hnil
      · have := hone hjoint
        omega
    cases h : ofDocument d with
    | ok r => exact absurd ⟨r, h⟩ hrejected
    | error e => exact ⟨e, rfl⟩

/-- A rule with a condition beside `Not` that is not in what is evaluated. -/
def mixed : Document :=
  .obj [("Not", .obj [("IsNull", .bool true), ("Variable", .str "$.a")]),
    ("NumericEquals", .num (.int 1)), ("Variable", .str "$.n")]

/-- A rule with two operators is accepted, and one of them is left out of what is evaluated. -/
theorem mixed_accepted :
    mixed.Canonical ∧ ¬ OneOperator mixed ∧
    ofDocument mixed = .ok (.not (.data ⟨"$.a", false, [.child (.key (.name "a"))]⟩ (.isNull true))) := by
  have hcanonical : mixed.Canonical := by
    have houter : ["Not", "NumericEquals", "Variable"].Pairwise (· < ·) := by decide
    have hinner : ["IsNull", "Variable"].Pairwise (· < ·) := by decide
    exact ⟨houter, ⟨hinner, trivial, trivial, trivial⟩, trivial, trivial, trivial⟩
  have hspelled : Query.Spelled [.child (.key (.name "a"))] ".a".toList :=
    .cons (.member ⟨by decide, List.all_eq_true.1 (by decide)⟩) .nil
  have hpath : Path.ofString "$.a" = .ok ⟨"$.a", false, [.child (.key (.name "a"))]⟩ :=
    congrArg (Except.mapError _) hspelled.parse_input
  have hnull : ofComparison [("IsNull", .bool true), ("Variable", .str "$.a")] =
      .ok (.data ⟨"$.a", false, [.child (.key (.name "a"))]⟩ (.isNull true)) :=
    ofComparison_ok rfl hpath rfl rfl
  refine ⟨hcanonical, ?_, (congrArg (·.map Rule.not) hnull :)⟩
  rintro ⟨_, key, ⟨⟩, h⟩
  have htwo : ["Not", "NumericEquals"] = [key] := h ▸ by decide
  cases htwo

end Rule
end StepFlow
