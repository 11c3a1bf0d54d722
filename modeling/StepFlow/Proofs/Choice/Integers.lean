import StepFlow.Proofs.Binary64.Nearest
import StepFlow.Proofs.Choice.Order

/-!
# Integers in comparisons

Choice rules and filters compare two integers by the doubles nearest to them. Below `2 ^ 53` these are the
integers themselves; beyond, integers that are close together may have one nearest double, and are then taken
for equal. The order is never turned around.
-/

namespace StepFlow

open Binary64 (ofInt unit)

namespace CompareOp

/-- Does the operator allow for the order of its sides? -/
def admits (op : CompareOp) (o : Ordering) : Bool :=
  match op with
  | eq => o == .eq
  | ne => o != .eq
  | lt => o == .lt
  | le => o != .gt
  | gt => o == .gt
  | ge => o != .lt

theorem same_eq (a b : Number) : a.same b = (a.cmp b == .eq) := by
  rw [Bool.eq_iff_iff, beq_iff_eq, Number.cmp, Binary64.cmp, Int.compare_eq_eq]
  exact beq_iff_eq

theorem holds_num (op : CompareOp) (a b : Number) :
    op.holds (.num a) (.num b) = op.admits (a.cmp b) := by
  have hsame : Document.looselyEqual (.num a) (.num b) = (a.cmp b == .eq) := same_eq a b
  have horder : Document.order? (.num a) (.num b) = some (a.cmp b) := rfl
  cases op <;> rw [holds, admits] <;> simp only [hsame, horder] <;> cases a.cmp b <;> rfl

end CompareOp

theorem Filter.holdsAt_num {root value : Document} {left right : Operand} {a b : Number} (op : CompareOp)
    (ha : left.resolve root value = some (.num a)) (hb : right.resolve root value = some (.num b)) :
    (Filter.compare left op right).holdsAt root value = op.admits (a.cmp b) := by
  rw [Filter.holdsAt, ha, hb]
  exact CompareOp.holds_num op a b

namespace Number

/-- Is the integer the value of a double? -/
def Exact (i : Int) : Prop := ∃ d : Binary64, d.Canonical ∧ d.units = i * unit

theorem exact_of_natAbs_le {i : Int} (h : i.natAbs ≤ 2 ^ 53) : Exact i :=
  ⟨ofInt i, (Binary64.nearest_ofInt (by omega)).canonical, Binary64.units_ofInt h⟩

theorem compare_mul {k : Nat} (hk : 0 < k) (x y : Int) : compare (x * k) (y * k) = compare x y := by
  have hk' : (0 : Int) < k := Int.natCast_pos.2 hk
  rcases lt_trichotomy x y with hlt | rfl | hgt
  · rw [Int.compare_eq_lt.2 hlt, Int.compare_eq_lt]
    exact Int.mul_lt_mul_of_pos_right hlt hk'
  · rw [Int.compare_eq_eq.2 rfl, Int.compare_eq_eq.2 rfl]
  · rw [Int.compare_eq_gt.2 hgt, Int.compare_eq_gt]
    exact Int.mul_lt_mul_of_pos_right hgt hk'

/-- Integers of 64 bits are compared by their nearest doubles, in rules and in filters alike. So two integers
that are doubles, such as all up to `2 ^ 53`, are compared as integers; of two others the larger one
never counts as the smaller, and they count as equal only if they are at most `2 ^ 11` apart. -/
theorem integers_compared_as_doubles {x y : Int} (hx : -(2 ^ 63) ≤ x ∧ x < 2 ^ 64)
    (hy : -(2 ^ 63) ≤ y ∧ y < 2 ^ 64) :
    ((ofInt x).Nearest x ∧ (ofInt y).Nearest y) ∧
    (∀ (c : Comparator) context input (subject : Path) (operand : RuleOperand),
      subject.value context input = some (.num (.int x)) →
      operand.value context input = .ok (.num (.int y)) →
        (Rule.data subject (.compare .numeric c operand)).holds context input =
          .ok (c.holds (compare (ofInt x).units (ofInt y).units))) ∧
    (∀ (op : CompareOp) root value (left right : Operand),
      left.resolve root value = some (.num (.int x)) → right.resolve root value = some (.num (.int y)) →
        (Filter.compare left op right).holdsAt root value =
          op.admits (compare (ofInt x).units (ofInt y).units)) ∧
    (x.natAbs ≤ 2 ^ 53 → Exact x) ∧
    (Exact x → Exact y → compare (ofInt x).units (ofInt y).units = compare x y) ∧
    (x ≤ y → (ofInt x).units ≤ (ofInt y).units) ∧
    ((ofInt x).units = (ofInt y).units → (x - y).natAbs ≤ 2 ^ 11) := by
  have hnearestX : (ofInt x).Nearest x := Binary64.nearest_ofInt (by omega)
  have hnearestY : (ofInt y).Nearest y := Binary64.nearest_ofInt (by omega)
  refine ⟨⟨hnearestX, hnearestY⟩, fun c _ _ _ _ => Rule.holds_compare .numeric c,
    fun op _ _ _ _ => Filter.holdsAt_num op, exact_of_natAbs_le, ?_, fun hle => ?_, fun heq => ?_⟩
  · rintro ⟨d, hd, hvalue⟩ ⟨d', hd', hvalue'⟩
    rw [hnearestX.units_eq hd hvalue, hnearestY.units_eq hd' hvalue', compare_mul Binary64.unit_pos]
  · rcases hle.lt_or_eq with hlt | rfl
    · exact hnearestX.units_le hnearestY hlt
    · exact le_rfl
  · have hfarX : (ofInt x).distance x ≤ 2 ^ 10 * unit := Binary64.distance_ofInt_le (by omega)
    have hfarY : (ofInt y).distance y ≤ 2 ^ 10 * unit := Binary64.distance_ofInt_le (by omega)
    have hunit := Binary64.unit_pos
    have hmul : ((x - y) * unit).natAbs = (x - y).natAbs * unit := by
      rw [Int.natAbs_mul, Int.natAbs_natCast]
    have hfar : (x - y).natAbs * unit ≤ 2 ^ 11 * unit := by
      rw [← hmul, Int.sub_mul]
      unfold Binary64.distance at hfarX hfarY
      omega
    exact Nat.le_of_mul_le_mul_right hfar hunit

theorem integers_compared_as_doubles_small :
    (-(2 ^ 63) ≤ (-3 : Int) ∧ (-3 : Int) < 2 ^ 64) ∧
    (-(2 ^ 63) ≤ (9007199254740992 : Int) ∧ (9007199254740992 : Int) < 2 ^ 64) ∧
    (ofInt (-3)).units ≤ (ofInt 9007199254740992).units ∧
    Path.value ⟨"$", false, []⟩ .null (.num (.int (-3))) = some (.num (.int (-3))) ∧
    (Rule.data ⟨"$", false, []⟩ (.compare .numeric .lessThan (.literal (.num (.int 9007199254740992))))).holds
      .null (.num (.int (-3))) = .ok true := by
  have hx : -(2 ^ 63) ≤ (-3 : Int) ∧ (-3 : Int) < 2 ^ 64 := by omega
  have hy : -(2 ^ 63) ≤ (9007199254740992 : Int) ∧ (9007199254740992 : Int) < 2 ^ 64 := by omega
  obtain ⟨-, hrule, -, hexactX, hexact, hle, -⟩ := integers_compared_as_doubles hx hy
  have hexactY := (integers_compared_as_doubles hy hx).2.2.2.1
  have hcompare := hexact (hexactX (by omega)) (hexactY (by omega))
  have hholds := hrule .lessThan .null (.num (.int (-3))) ⟨"$", false, []⟩
    (.literal (.num (.int 9007199254740992))) rfl rfl
  rw [hcompare] at hholds
  exact ⟨hx, hy, hle (by omega), rfl, hholds⟩

/-- Two integers one apart that a rule and a filter take for equal. -/
theorem distinct_integers_equal :
    (9007199254740992 : Int) ≠ 9007199254740993 ∧
    (Rule.data ⟨"$", false, []⟩ (.compare .numeric .equals (.literal (.num (.int 9007199254740993))))).holds
      .null (.num (.int 9007199254740992)) = .ok true ∧
    (Rule.data ⟨"$", false, []⟩ (.compare .numeric .lessThan (.literal (.num (.int 9007199254740993))))).holds
      .null (.num (.int 9007199254740992)) = .ok false ∧
    (Filter.compare (.current []) .eq (.literal (.num (.int 9007199254740993)))).holdsAt .null
      (.num (.int 9007199254740992)) = true := by
  have hcmp : cmp (.int 9007199254740992) (.int 9007199254740993) = .eq := by decide +kernel
  have hsubject : Path.value ⟨"$", false, []⟩ .null (.num (.int 9007199254740992)) =
      some (.num (.int 9007199254740992)) := rfl
  have hoperand : (RuleOperand.literal (.num (.int 9007199254740993))).value .null
      (.num (.int 9007199254740992)) = .ok (.num (.int 9007199254740993)) := rfl
  have hrule (c : Comparator) :
      (Rule.data ⟨"$", false, []⟩ (.compare .numeric c (.literal (.num (.int 9007199254740993))))).holds
        .null (.num (.int 9007199254740992)) = .ok (c.holds .eq) := by
    rw [← hcmp]
    exact Rule.holds_compare .numeric c hsubject hoperand
  have hfilter : (Filter.compare (.current []) .eq (.literal (.num (.int 9007199254740993)))).holdsAt .null
      (.num (.int 9007199254740992)) =
        CompareOp.admits .eq (cmp (.int 9007199254740992) (.int 9007199254740993)) :=
    Filter.holdsAt_num .eq rfl rfl
  rw [hcmp] at hfilter
  exact ⟨by omega, hrule .equals, hrule .lessThan, hfilter⟩

end Number

end StepFlow
