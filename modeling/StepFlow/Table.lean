/-!
# Tables

A table is a list of named entries. `insert` keeps the names strictly increasing, so that equal
tables are equal lists and every traversal goes in the order of the names.
-/

namespace StepFlow

abbrev Table (α : Type) := List (String × α)

namespace Table

variable {α : Type}

/-- The first entry of that name. -/
def get? (name : String) : Table α → Option α
  | [] => none
  | (k, a) :: rest => if k = name then some a else get? name rest

/-- Writes an entry into a table sorted by name, replacing one of the same name. -/
def insert (name : String) (a : α) : Table α → Table α
  | [] => [(name, a)]
  | (k, b) :: rest =>
    if name < k then (name, a) :: (k, b) :: rest
    else if name = k then (name, a) :: rest
    else (k, b) :: insert name a rest

/-- All entries of both tables, those of the second winning, the later over the earlier. -/
def merge (base update : Table α) : Table α :=
  update.foldl (fun table (k, a) => insert k a table) base

/-- The sorted entries; of several of one name the last wins. -/
def ofList (entries : Table α) : Table α := merge [] entries

def names (table : Table α) : List String := table.map (·.1)

/-- Strictly increasing names. -/
def Sorted (table : Table α) : Prop := table.names.Pairwise (· < ·)

/-- The only entry with one of the names, if there is one; fails when there are several. -/
def only? (names : List String) (table : Table α) : Option (Option α) :=
  match table.filter fun (k, _) => k ∈ names with
  | [] => some none
  | [(_, a)] => some (some a)
  | _ => none

/-! ### What is read after writing, and the order -/

theorem get?_insert (name other : String) (a : α) (table : Table α) :
    (table.insert name a).get? other = if other = name then some a else table.get? other := by
  induction table with
  | nil => simp [insert, get?, eq_comm]
  | cons entry rest ih =>
    obtain ⟨k, b⟩ := entry
    simp only [insert]
    split
    · simp [get?, eq_comm]
    · split
      · rename_i h; subst h; simp only [get?, eq_comm]; split <;> simp_all
      · simp only [get?, ih]
        split <;> split <;> simp_all

theorem mem_names_insert {name other : String} {a : α} {table : Table α} :
    other ∈ (table.insert name a).names ↔ other = name ∨ other ∈ table.names := by
  induction table with
  | nil => simp [insert, names]
  | cons entry rest ih =>
    obtain ⟨k, b⟩ := entry
    simp only [insert]
    split
    · simp [names]
    · split
      · rename_i h; subst h; simp [names]
      · simp only [names, List.map_cons, List.mem_cons] at ih ⊢
        rw [ih]
        grind

theorem sorted_insert (name : String) (a : α) {table : Table α} (h : table.Sorted) :
    (table.insert name a).Sorted := by
  induction table with
  | nil => simp [insert, Sorted, names]
  | cons entry rest ih =>
    obtain ⟨k, b⟩ := entry
    obtain ⟨hk, hrest⟩ := List.pairwise_cons.1 h
    simp only [insert]
    split
    · rename_i hlt
      refine List.pairwise_cons.2 ⟨fun other ho => ?_, h⟩
      rcases List.mem_cons.1 ho with rfl | ho
      · exact hlt
      · exact String.lt_trans hlt (hk other ho)
    · split
      · rename_i heq
        subst heq
        exact h
      · rename_i hlt hne
        refine List.pairwise_cons.2 ⟨fun other ho => ?_, ih hrest⟩
        rcases mem_names_insert.1 ho with rfl | ho
        · exact Decidable.byContradiction fun h =>
            hne (String.le_antisymm (String.not_lt.1 h) (String.not_lt.1 hlt))
        · exact hk other ho

theorem sorted_merge {base : Table α} (h : base.Sorted) (update : Table α) :
    (merge base update).Sorted := by
  induction update generalizing base with
  | nil => exact h
  | cons entry rest ih => exact ih (sorted_insert _ _ h)

theorem sorted_ofList (entries : Table α) : (ofList entries).Sorted :=
  @sorted_merge α [] List.Pairwise.nil entries

end Table

end StepFlow
