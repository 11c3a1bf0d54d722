import StepFlow.Document.Record
import StepFlow.Proofs.Document.Canonical

/-!
# Fields read back

What a field that has been written is read as: `present`, `written` and `nonempty` write what `optional`,
`nullable` and `defaulted` read. And where a field comes from that has been read: from a document, which is
not null when the field is optional.
-/

namespace StepFlow

/-- What is written of a value that may be null; nothing when it is absent. -/
def Nullable.document? {α : Type} (write : α → Document) : Nullable α → Option Document
  | absent => none
  | null => some .null
  | value a => some (write a)

namespace Record

variable {α : Type} {name other : String} {names : List String} {read : Document → Option α}
  {write : α → Document} {t : Fields} {a : α} {d : Document}

/-! ### Written fields -/

@[simp] theorem get?_present (name other : String) (write : α → Document) (o : Option α) :
    Table.get? other (present name write o) = if name = other then o.map write else none := by
  cases o <;> simp [present]

@[simp] theorem get?_written (name other : String) (write : α → Document) (o : Nullable α) :
    Table.get? other (written name write o) = if name = other then o.document? write else none := by
  cases o <;> simp [written, Nullable.document?]

@[simp] theorem get?_nonempty (name other : String) (write : α → Document) (as : List α) :
    Table.get? other (nonempty name write as) =
      if name = other ∧ as ≠ [] then some (.arr (as.map write)) else none := by
  cases as <;> simp [nonempty]

theorem names_present (name : String) (write : α → Document) (o : Option α) :
    (Table.names (present name write o)).Sublist [name] := by
  cases o with
  | none => exact List.nil_sublist _
  | some => exact .refl _

theorem names_written (name : String) (write : α → Document) (o : Nullable α) :
    (Table.names (written name write o)).Sublist [name] := by
  cases o with
  | absent => exact List.nil_sublist _
  | null | value => exact .refl _

theorem names_nonempty (name : String) (write : α → Document) (as : List α) :
    (Table.names (nonempty name write as)).Sublist [name] := by
  cases as with
  | nil => exact List.nil_sublist _
  | cons => exact .refl _

/-! ### Read back -/

/-- An object that is written from members with distinct names. -/
theorem exists_obj {fields : Fields} (h : fields.names.Nodup) :
    ∃ t : Fields, Document.ofList fields = .obj t ∧ t.names.Nodup ∧ ∀ name, t.get? name = fields.get? name :=
  ⟨_, rfl, (Table.sorted_ofList fields).nodup, fun name => Table.get?_ofList name h⟩

theorem required_eq (ht : t.names.Nodup) (h : t.get? name = some d) : required [name] read t = read d := by
  simp [required, Table.only?_single _ ht, h]

theorem defaulted_eq (ht : t.names.Nodup) {default : α} (h : t.get? name = some d) :
    defaulted [name] read default t = read d := by
  simp [defaulted, Table.only?_single _ ht, h]

theorem optional_of_only? {o : Option α} (h : Table.only? names t = some (o.map write))
    (hread : ∀ a ∈ o, write a ≠ .null ∧ read (write a) = some a) : optional names read t = some o := by
  cases o with
  | none => simp [optional, h]
  | some a =>
    obtain ⟨hnull, ha⟩ := hread a rfl
    simp [optional, h, ha]

theorem optional_eq (ht : t.names.Nodup) {o : Option α} (h : t.get? name = o.map write)
    (hread : ∀ a ∈ o, write a ≠ .null ∧ read (write a) = some a) : optional [name] read t = some o :=
  optional_of_only? (by rw [Table.only?_single _ ht, h]) hread

theorem optional_text_eq (ht : t.names.Nodup) {o : Option String} (h : t.get? name = o.map .str) :
    optional [name] Document.toStr? t = some o :=
  optional_eq ht h fun _ _ => ⟨nofun, rfl⟩

theorem nullable_eq (ht : t.names.Nodup) {o : Nullable α} (h : t.get? name = o.document? write)
    (hread : ∀ a, o = .value a → write a ≠ .null ∧ read (write a) = some a) :
    nullable [name] read t = some o := by
  cases o with
  | absent | null => simp [nullable, Table.only?_single _ ht, h, Nullable.document?]
  | value a =>
    obtain ⟨hnull, ha⟩ := hread a rfl
    simp [nullable, Table.only?_single _ ht, h, Nullable.document?, ha]

theorem toList?_map_map {as : List α} {f : α → α} (h : ∀ a ∈ as, read (write a) = some (f a)) :
    Document.toList? read (.arr (as.map write)) = some (as.map f) := by
  simp only [Document.toList?]
  induction as with
  | nil => rfl
  | cons a as ih =>
    obtain ⟨ha, has⟩ := List.forall_mem_cons.1 h
    simp [ha, ih has]

theorem toList?_map {as : List α} (h : ∀ a ∈ as, read (write a) = some a) :
    Document.toList? read (.arr (as.map write)) = some as := by
  rw [toList?_map_map (f := id) h, List.map_id]

theorem defaulted_nonempty_eq (ht : t.names.Nodup) {as : List α}
    (h : t.get? name = if as ≠ [] then some (.arr (as.map write)) else none)
    (hread : ∀ a ∈ as, read (write a) = some a) :
    defaulted [name] (Document.toList? read) [] t = some as := by
  cases as with
  | nil => simp [defaulted, Table.only?_single _ ht, h]
  | cons a as =>
    rw [if_pos (List.cons_ne_nil _ _)] at h
    rw [defaulted_eq ht h, toList?_map hread]

/-! ### Where fields come from -/

theorem of_required (h : required names read t = some a) : ∃ d, read d = some a := by
  simp only [required, Option.bind_eq_bind, Option.bind_eq_some_iff] at h
  obtain ⟨_, -, d, -, hd⟩ := h
  exact ⟨d, hd⟩

theorem of_optional {o : Option α} (h : optional names read t = some o) :
    ∀ a ∈ o, ∃ d, d ≠ .null ∧ read d = some a := by
  simp only [optional, Option.bind_eq_bind, Option.bind_eq_some_iff] at h
  obtain ⟨found, -, h⟩ := h
  rintro a ha
  split at h
  · cases h
    cases ha
  · cases h
    cases ha
  · rename_i d hnull
    obtain ⟨b, hb, rfl⟩ := Option.map_eq_some_iff.1 h
    cases ha
    exact ⟨d, fun heq => hnull (heq ▸ rfl), hb⟩

theorem of_defaulted {default : α} (h : defaulted names read default t = some a) :
    a = default ∨ ∃ d, read d = some a := by
  simp only [defaulted, Option.bind_eq_bind, Option.bind_eq_some_iff] at h
  obtain ⟨found, -, h⟩ := h
  cases found with
  | none =>
    cases h
    exact .inl rfl
  | some d => exact .inr ⟨d, h⟩

theorem of_toList? {as : List α} (h : Document.toList? read d = some as) : ∀ a ∈ as, ∃ d, read d = some a := by
  cases d with
  | arr items =>
    simp only [Document.toList?] at h
    induction items generalizing as with
    | nil =>
      cases h
      nofun
    | cons item items ih =>
      simp only [List.mapM_cons, Option.bind_eq_bind, Option.bind_eq_some_iff] at h
      obtain ⟨b, hb, bs, hbs, heq⟩ := h
      cases heq
      exact List.forall_mem_cons.2 ⟨⟨item, hb⟩, ih hbs⟩
  | _ => cases h

theorem of_defaulted_toList? {as : List α} (h : defaulted names (Document.toList? read) [] t = some as) :
    ∀ a ∈ as, ∃ d, read d = some a := by
  rcases of_defaulted h with rfl | ⟨d, hd⟩
  · nofun
  · exact of_toList? hd

end Record

namespace Document

theorem toNat?_ofNat {n bound : Nat} : (ofNat n).toNat? bound = if n < bound then some n else none := rfl

theorem lt_of_toNat? {d : Document} {n bound : Nat} (h : d.toNat? bound = some n) : n < bound := by
  cases d with
  | num x =>
    simp only [toNat?] at h
    unfold Number.toNat? at h
    split at h
    · split at h
      · rename_i hlt
        cases h
        exact hlt
      · cases h
    · cases h
  | _ => cases h

end Document
end StepFlow
