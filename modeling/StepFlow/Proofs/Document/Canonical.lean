import StepFlow.Document
import StepFlow.Proofs.Document.Table

/-!
# Canonical documents

`Document.canonical` sorts the members of every object: what it gives is canonical (`canonical_canonical`),
and a canonical document stays as it is (`Canonical.canonical_eq`).
-/

namespace StepFlow
namespace Document

theorem canonicalItems_iff {items : List Document} : CanonicalItems items ↔ ∀ d ∈ items, d.Canonical := by
  induction items with
  | nil => simp [CanonicalItems]
  | cons d items ih => simp [CanonicalItems, ih]

theorem canonicalFields_iff {fields : Fields} : CanonicalFields fields ↔ ∀ entry ∈ fields, entry.2.Canonical := by
  induction fields with
  | nil => simp [CanonicalFields]
  | cons entry fields ih => simp [CanonicalFields, ih]

theorem canonical_arr_iff {items : List Document} : (arr items).Canonical ↔ ∀ d ∈ items, d.Canonical :=
  canonicalItems_iff

theorem canonical_obj_iff {fields : Fields} :
    (obj fields).Canonical ↔ fields.Sorted ∧ ∀ entry ∈ fields, entry.2.Canonical :=
  and_congr_right fun _ => canonicalFields_iff

theorem canonical_ofList {members : Fields} (h : ∀ entry ∈ members, entry.2.Canonical) :
    (ofList members).Canonical :=
  canonical_obj_iff.2 ⟨Table.sorted_ofList members, fun entry hentry => h entry (Table.mem_of_mem_ofList hentry)⟩

theorem canonicalItems_eq (items : List Document) : canonicalItems items = items.map canonical := by
  induction items with
  | nil => rfl
  | cons d items ih => rw [canonicalItems, ih, List.map_cons]

theorem canonicalFields_eq (fields : Fields) :
    canonicalFields fields = fields.map fun (k, d) => (k, d.canonical) := by
  induction fields with
  | nil => rfl
  | cons entry fields ih => rw [canonicalFields, ih, List.map_cons]

mutual

theorem canonical_canonical (d : Document) : d.canonical.Canonical := by
  cases d with
  | arr items => exact canonicalItems_canonical items
  | obj fields =>
    refine canonical_obj_iff.2 ⟨Table.sorted_ofList _, fun entry hentry => ?_⟩
    exact canonicalFields_iff.1 (canonicalFields_canonical fields) entry (Table.mem_of_mem_ofList hentry)
  | _ => trivial

theorem canonicalItems_canonical (items : List Document) : CanonicalItems (canonicalItems items) := by
  cases items with
  | nil => trivial
  | cons d items => exact ⟨canonical_canonical d, canonicalItems_canonical items⟩

theorem canonicalFields_canonical (fields : Fields) : CanonicalFields (canonicalFields fields) := by
  cases fields with
  | nil => trivial
  | cons entry fields => exact ⟨canonical_canonical entry.2, canonicalFields_canonical fields⟩

end

mutual

/-- A canonical document stays as it is. -/
theorem Canonical.canonical_eq {d : Document} (h : d.Canonical) : d.canonical = d := by
  cases d with
  | arr items => exact congrArg arr (CanonicalItems.canonicalItems_eq h)
  | obj fields =>
    obtain ⟨hsorted, hfields⟩ := h
    rw [canonical, CanonicalFields.canonicalFields_eq hfields, hsorted.ofList_eq]
  | _ => rfl

theorem CanonicalItems.canonicalItems_eq {items : List Document} (h : CanonicalItems items) :
    canonicalItems items = items := by
  cases items with
  | nil => rfl
  | cons d items => rw [canonicalItems, h.1.canonical_eq, CanonicalItems.canonicalItems_eq h.2]

theorem CanonicalFields.canonicalFields_eq {fields : Fields} (h : CanonicalFields fields) :
    canonicalFields fields = fields := by
  cases fields with
  | nil => rfl
  | cons entry fields =>
    obtain ⟨k, d⟩ := entry
    rw [canonicalFields, h.1.canonical_eq, CanonicalFields.canonicalFields_eq h.2]

end

theorem canonical_eq_null_iff {d : Document} : d.canonical = null ↔ d = null := by
  cases d <;> simp [canonical]

/-! ### Height -/

theorem height_le_fields {fields : Fields} {entry : String × Document} (h : entry ∈ fields) :
    entry.2.height ≤ heightFields fields := by
  induction fields with
  | nil => cases h
  | cons e fields ih =>
    rcases List.mem_cons.1 h with rfl | h
    · exact Nat.le_max_left ..
    · exact Nat.le_trans (ih h) (Nat.le_max_right ..)

theorem height_lt_obj {fields : Fields} {entry : String × Document} (h : entry ∈ fields) :
    entry.2.height < (obj fields).height :=
  Nat.lt_succ_of_le (height_le_fields h)

end Document
end StepFlow
