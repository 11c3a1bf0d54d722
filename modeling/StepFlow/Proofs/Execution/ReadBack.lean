import StepFlow.Execution.Context
import StepFlow.Proofs.Document.Record

/-!
# Contexts read back

A context that is written and read again has lost nothing but the outputs that are null: where a record has
the output null, what is read has none at all (`Context.ofDocument?_toDocument`). A context without such a
record comes back as it was (`Context.withoutNulls_eq_iff`).
-/

namespace StepFlow

open Record

/-- A value of an optional field that is written as null is not read as a value. -/
theorem optional_value_eq {t : Fields} {name : String} {o : Option Document} (ht : t.names.Nodup)
    (h : t.get? name = o) (ho : ∀ d ∈ o, d.Canonical) :
    optional [name] Document.toValue? t = some (o.filter (!·.isNull)) := by
  unfold Record.optional
  rw [Table.only?_single _ ht, h]
  cases o with
  | none => rfl
  | some d =>
    have hd := (ho d rfl).canonical_eq
    cases d <;> simp [Document.toValue?, Document.isNull, Option.filter, hd]

namespace StateRecord

/-- The documents of the record are canonical, and its duration is a double. -/
structure Canonical (r : StateRecord) : Prop where
  input : r.input.Canonical
  output : ∀ d ∈ r.output, d.Canonical
  duration : ∀ d ∈ r.duration, ∃ x, d = .num (.float x)

/-- The count of retries fits into a half word. -/
def Fits (r : StateRecord) : Prop := r.retryCount < Nat.pow 2 32

/-- The record without its output, if that is null. -/
def withoutNull (r : StateRecord) : StateRecord := { r with output := r.output.filter (!·.isNull) }

theorem withoutNull_eq_iff {r : StateRecord} : r.withoutNull = r ↔ r.output ≠ some .null := by
  obtain ⟨name, guid, input, entered, finished, duration, output, count, retrier⟩ := r
  simp only [withoutNull, mk.injEq, true_and, and_true]
  cases output with
  | none => simp
  | some d => cases d <;> simp [Document.isNull]

theorem names_members (r : StateRecord) :
    (Table.names ([("Name", .str r.name), ("Guid", .str r.guid), ("Input", r.input),
      ("RetryCount", .ofNat r.retryCount)] ++ present "EnteredTime" .str r.enteredTime
        ++ present "FinishedTime" .str r.finishedTime ++ present "Duration" id r.duration
        ++ present "Output" id r.output
        ++ present "Retrier" (fun xs => .arr (xs.map .str)) r.retrier)).Sublist
      (["Name", "Guid", "Input", "RetryCount"] ++ ["EnteredTime"] ++ ["FinishedTime"] ++ ["Duration"]
        ++ ["Output"] ++ ["Retrier"]) := by
  simp only [Table.names_append]
  exact (((((List.Sublist.refl _).append (names_present ..)).append (names_present ..)).append
    (names_present ..)).append (names_present ..)).append (names_present ..)

theorem ofDocument?_toDocument {r : StateRecord} (h : r.Canonical) (hfits : r.Fits) :
    ofDocument? r.toDocument = some r.withoutNull := by
  have hnodup := r.names_members.nodup (by decide)
  obtain ⟨t, hdoc, ht, hget⟩ := exists_obj hnodup
  have hname : required ["Name"] Document.toStr? t = some r.name := by
    rw [required_eq ht (by simp [hget]; rfl), Document.toStr?]
  have hguid : required ["Guid"] Document.toStr? t = some r.guid := by
    rw [required_eq ht (by simp [hget]; rfl), Document.toStr?]
  have hinput : required ["Input"] Document.toValue? t = some r.input := by
    rw [required_eq ht (by simp [hget]; rfl), Document.toValue?, h.input.canonical_eq]
  have hentered : optional ["EnteredTime"] Document.toStr? t = some r.enteredTime :=
    optional_text_eq ht (by simp [hget])
  have hfinished : optional ["FinishedTime"] Document.toStr? t = some r.finishedTime :=
    optional_text_eq ht (by simp [hget])
  have hduration : optional ["Duration"]
      (fun d => d.toBinary64?.map fun x => .num (.float x)) t = some r.duration := by
    have hmember : t.get? "Duration" = r.duration.map id := by simp [hget]
    refine optional_eq ht hmember fun d hd => ?_
    obtain ⟨x, rfl⟩ := h.duration d hd
    exact ⟨nofun, rfl⟩
  have houtput : optional ["Output"] Document.toValue? t = some r.withoutNull.output :=
    optional_value_eq ht (by simp [hget]) h.output
  have hcount : required ["RetryCount"] (Document.toNat? (Nat.pow 2 32)) t = some r.retryCount := by
    rw [required_eq ht (by simp [hget]; rfl), Document.toNat?_ofNat]
    exact if_pos hfits
  have hretrier : optional ["Retrier"] (Document.toList? Document.toStr?) t = some r.retrier := by
    have hmember : t.get? "Retrier" = r.retrier.map fun xs => .arr (xs.map .str) := by simp [hget]
    exact optional_eq ht hmember fun xs _ => ⟨nofun, toList?_map fun _ _ => rfl⟩
  rw [toDocument, hdoc]
  simp [ofDocument?, Document.members?, hname, hguid, hinput, hentered, hfinished, hduration, houtput, hcount,
    hretrier, withoutNull]

end StateRecord

theorem ExecutionInfo.ofDocument?_toDocument {e : ExecutionInfo} (h : e.input.Canonical) :
    ofDocument? e.toDocument = some e := by
  have hnodup :
      (Table.names [("Id", Document.str e.id), ("StartTime", .str e.startTime), ("Input", e.input)]).Nodup :=
    show (["Id", "StartTime", "Input"] : List String).Nodup by decide
  obtain ⟨t, hdoc, ht, hget⟩ := exists_obj hnodup
  have hid : required ["Id"] Document.toStr? t = some e.id := by
    rw [required_eq ht (by simp [hget]; rfl), Document.toStr?]
  have hstart : required ["StartTime"] Document.toStr? t = some e.startTime := by
    rw [required_eq ht (by simp [hget]; rfl), Document.toStr?]
  have hinput : required ["Input"] Document.toValue? t = some e.input := by
    rw [required_eq ht (by simp [hget]; rfl), Document.toValue?, h.canonical_eq]
  rw [toDocument, hdoc]
  simp [ofDocument?, Document.members?, hid, hstart, hinput]

namespace MapItem

def Fits (item : MapItem) : Prop := item.index < Nat.pow 2 64

theorem ofDocument?_toDocument {item : MapItem} (h : item.value.Canonical) (hfits : item.Fits) :
    ofDocument? item.toDocument = some item := by
  have hnodup : (Table.names [("Index", Document.ofNat item.index), ("Value", item.value)]).Nodup :=
    show (["Index", "Value"] : List String).Nodup by decide
  obtain ⟨t, hdoc, ht, hget⟩ := exists_obj hnodup
  have hindex : required ["Index"] (Document.toNat? (Nat.pow 2 64)) t = some item.index := by
    rw [required_eq ht (by simp [hget]; rfl), Document.toNat?_ofNat]
    exact if_pos hfits
  have hvalue : required ["Value"] Document.toValue? t = some item.value := by
    rw [required_eq ht (by simp [hget]; rfl), Document.toValue?, h.canonical_eq]
  have hitem : ofItem? (.obj t) = some item := by
    simp [ofItem?, Document.members?, hindex, hvalue]
  rw [toDocument, hdoc]
  exact hitem

end MapItem

namespace Context

/-- The documents of the context are canonical, and all durations are doubles. -/
structure Canonical (c : Context) : Prop where
  input : c.execution.input.Canonical
  state : c.state.Canonical
  states : ∀ r ∈ c.states, r.Canonical
  stateMachine : (Document.obj c.stateMachine).Canonical
  task : (Document.obj c.task).Canonical
  item : ∀ item ∈ c.item, item.value.Canonical

/-- All counts of retries fit into half words, and the number of the item into a word. -/
structure Fits (c : Context) : Prop where
  state : c.state.Fits
  states : ∀ r ∈ c.states, r.Fits
  item : ∀ item ∈ c.item, item.Fits

/-- The context without the outputs that are null. -/
def withoutNulls (c : Context) : Context :=
  { c with state := c.state.withoutNull, states := c.states.map StateRecord.withoutNull }

theorem withoutNulls_eq_iff {c : Context} :
    c.withoutNulls = c ↔ ∀ r ∈ c.state :: c.states, r.output ≠ some .null := by
  obtain ⟨execution, state, states, stateMachine, task, item⟩ := c
  simp only [withoutNulls, mk.injEq, true_and, and_true, List.forall_mem_cons, StateRecord.withoutNull_eq_iff]
  refine and_congr_right fun _ => ?_
  have hid : states.map StateRecord.withoutNull = states ↔
      states.map StateRecord.withoutNull = states.map id := by rw [List.map_id]
  rw [hid, List.map_inj_left]
  exact forall₂_congr fun r _ => StateRecord.withoutNull_eq_iff

theorem toFields?_obj {fields : Fields} (h : (Document.obj fields).Canonical) :
    toFields? (.obj fields) = some fields := by
  rw [toFields?, h.canonical_eq]

theorem ofDocument?_toDocument {c : Context} (h : c.Canonical) (hfits : c.Fits) :
    ofDocument? c.toDocument = some c.withoutNulls := by
  have hnames : (Table.names ([("Execution", c.execution.toDocument), ("State", c.state.toDocument),
      ("States", .arr (c.states.map (·.toDocument))), ("StateMachine", .obj c.stateMachine),
      ("Task", .obj c.task)] ++ present "Map" MapItem.toDocument c.item)).Sublist
      (["Execution", "State", "States", "StateMachine", "Task"] ++ ["Map"]) := by
    rw [Table.names_append]
    exact (List.Sublist.refl _).append (names_present ..)
  obtain ⟨t, hdoc, ht, hget⟩ := exists_obj (hnames.nodup (by decide))
  have hexecution : required ["Execution"] ExecutionInfo.ofDocument? t = some c.execution := by
    rw [required_eq ht (by simp [hget]; rfl), ExecutionInfo.ofDocument?_toDocument h.input]
  have hstate : required ["State"] StateRecord.ofDocument? t = some c.state.withoutNull := by
    rw [required_eq ht (by simp [hget]; rfl), StateRecord.ofDocument?_toDocument h.state hfits.state]
  have hstates : required ["States"] (Document.toList? StateRecord.ofDocument?) t =
      some (c.states.map StateRecord.withoutNull) := by
    rw [required_eq ht (by simp [hget]; rfl)]
    exact toList?_map_map fun r hr => StateRecord.ofDocument?_toDocument (h.states r hr) (hfits.states r hr)
  have hmachine : required ["StateMachine"] toFields? t = some c.stateMachine := by
    rw [required_eq ht (by simp [hget]; rfl), toFields?_obj h.stateMachine]
  have htask : required ["Task"] toFields? t = some c.task := by
    rw [required_eq ht (by simp [hget]; rfl), toFields?_obj h.task]
  have hitem : optional ["Map"] MapItem.ofDocument? t = some c.item := by
    have hmember : t.get? "Map" = c.item.map MapItem.toDocument := by simp [hget]
    exact optional_eq ht hmember fun item hitem =>
      ⟨nofun, MapItem.ofDocument?_toDocument (h.item item hitem) (hfits.item item hitem)⟩
  rw [toDocument, hdoc]
  simp [ofDocument?, Document.members?, hexecution, hstate, hstates, hmachine, htask, hitem, withoutNulls]

end Context
end StepFlow
