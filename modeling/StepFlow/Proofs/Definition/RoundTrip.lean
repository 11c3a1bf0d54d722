import StepFlow.Definition.Writer
import StepFlow.Proofs.Definition.Readable
import StepFlow.Proofs.Definition.Written
import StepFlow.Workflow

/-!
# Definitions read back

A definition that has been read from a document comes back, when it is written and read again
(`Graph.toDocument_of_ofDocument?`). The induction goes over graphs and states together, down to a height that
covers the document: `Graph.graphOf?_toDocument` and `State.stateOf?_toDocument`.
-/

namespace StepFlow.Definition

open Record

variable {t : Fields} {d : Document} {name : String}

/-! ### States as documents -/

/-- What is written of a state besides its type. -/
def State.members : State → Fields
  | .pass s => s.toFields
  | .task s => s.toFields
  | .choice s => s.toFields
  | .wait s => s.toFields
  | .succeed f => f.toFields
  | .fail s => s.toFields
  | .map s iterator => ("Iterator", iterator.toDocument) :: s.toFields
  | .parallel s branches => ("Branches", .arr (branchDocuments branches)) :: s.toFields

theorem State.toDocument_eq (s : State) : s.toDocument = typed s.type s.members := by
  cases s <;> simp only [toDocument, State.type, members]

theorem State.nodup_members (s : State) : ("Type" :: s.members.names).Nodup := by
  cases s with
  | pass s => exact (s.names_toFields.cons_cons _).nodup (by decide)
  | task s => exact (s.names_toFields.cons_cons _).nodup (by decide)
  | choice s => exact (s.names_toFields.cons_cons _).nodup (by decide)
  | wait s => exact (s.names_toFields.cons_cons _).nodup (by decide)
  | succeed f => exact (f.names_toFields.cons_cons _).nodup (by decide)
  | fail s => exact (s.names_toFields.cons_cons _).nodup (by decide)
  | map s => exact ((s.names_toFields.cons_cons "Iterator").cons_cons _).nodup (by decide)
  | parallel s => exact ((s.names_toFields.cons_cons "Branches").cons_cons _).nodup (by decide)

theorem typeOf?_name (numbered : Bool) (type : StateType) : typeOf? numbered (.str type.name) = some type := by
  cases type <;> rfl

/-- What is read of a state that has been written: its type, and a record with its members. -/
theorem State.split?_toDocument (s : State) (numbered : Bool) :
    ∃ t : Fields, split? numbered s.toDocument = some (s.type, t) ∧ t.names.Nodup ∧
      (∀ name, name ≠ "Type" → t.get? name = s.members.get? name) ∧
      ∀ entry ∈ t, entry.2.height < s.toDocument.height := by
  rw [toDocument_eq]
  have hnodup : (Table.names (("Type", .str s.type.name) :: s.members : Fields)).Nodup := s.nodup_members
  obtain ⟨t, hdoc, ht, hget⟩ := exists_obj hnodup
  rw [typed, hdoc]
  refine ⟨t.filter (·.1 ≠ "Type"), ?_, ?_, fun name hname => ?_, fun entry hentry => ?_⟩
  · have htype : required ["Type"] (typeOf? numbered) t = some s.type := by
      rw [required_eq ht (by simp [hget]; rfl), typeOf?_name]
    simp [split?, htype]
  · exact List.Nodup.sublist ((List.filter_sublist ..).map _) ht
  · rw [Table.get?_filter_ne hname, hget, Table.get?_cons, if_neg (Ne.symm hname)]
  · exact Document.height_lt_obj (List.mem_filter.1 hentry).1

mutual

theorem State.stateOf?_toDocument (s : State) (hs : s.Readable) {levels : Nat} (numbered : Bool)
    (hlevels : s.toDocument.height < levels) :
    stateOf? (graphOf? levels true) numbered s.toDocument = some s := by
  obtain ⟨t, hsplit, ht, hget, hheight⟩ := s.split?_toDocument numbered
  rw [stateOf?, hsplit]
  cases s with
  | pass s => simp [State.type, Pass.ofFields?_eq ht hs fun name htype _ _ => hget name htype]
  | task s => simp [State.type, Task.ofFields?_eq ht hs fun name htype _ _ => hget name htype]
  | choice s => simp [State.type, Choice.ofFields?_eq ht hs fun name htype _ _ => hget name htype]
  | wait s => simp [State.type, Wait.ofFields?_eq ht hs fun name htype _ _ => hget name htype]
  | succeed f =>
    have hread : Filters.ofFields? t = some f := Filters.ofFields?_eq ht fun name hname => hget name (by
      rintro rfl
      exact absurd hname (by decide))
    simp [State.type, hread]
  | fail s => simp [State.type, Fail.ofFields?_eq ht fun name htype _ _ => hget name htype]
  | map s iterator =>
    obtain ⟨hs, hiterator⟩ := hs
    have hread := Map.ofFields?_eq ht hs fun name htype hname _ => by
      rw [hget name htype, State.members, Table.get?_cons, if_neg (Ne.symm hname)]
    have hnone : t.get? "ItemProcessor" = none := by simp [hget, State.members, Map.toFields]
    have hsome : t.get? "Iterator" = some iterator.toDocument := by simp [hget, State.members]
    have hnested : required ["Iterator", "ItemProcessor"] (graphOf? levels true) t = some iterator := by
      have hlower := hheight _ (Table.mem_of_get? hsome)
      simp [required, Table.only?_pair _ ht hnone, hsome,
        Graph.graphOf?_toDocument iterator hiterator true (Nat.lt_trans hlower hlevels)]
    simp [State.type, hnested, hread]
  | parallel s branches =>
    obtain ⟨hs, hbranches⟩ := hs
    have hread := Parallel.ofFields?_eq ht hs fun name htype _ hname => by
      rw [hget name htype, State.members, Table.get?_cons, if_neg (Ne.symm hname)]
    have hsome : t.get? "Branches" = some (.arr (branchDocuments branches)) := by simp [hget, State.members]
    have hnested : required ["Branches"] (Document.toList? (graphOf? levels true)) t = some branches := by
      have hlower : (Document.arr (branchDocuments branches)).height < _ := hheight _ (Table.mem_of_get? hsome)
      rw [required_eq ht hsome, Document.toList?]
      exact mapM_branchDocuments branches hbranches (Nat.lt_of_succ_lt (Nat.lt_trans hlower hlevels))
    simp [State.type, hnested, hread]

theorem Graph.graphOf?_toDocument (g : Graph) (hg : g.Readable) {levels : Nat} (numbered : Bool)
    (hlevels : g.toDocument.height < levels) : graphOf? levels numbered g.toDocument = some g := by
  cases g with
  | mk header states =>
    obtain ⟨hheader, hsorted, hstates⟩ := hg
    have hnames : ("States" :: header.toFields.names).Nodup :=
      (header.names_toFields.cons_cons _).nodup (by decide)
    have hnodup : (Table.names (("States", .obj (stateDocuments states)) :: header.toFields : Fields)).Nodup := hnames
    obtain ⟨t, hdoc, ht, hget⟩ := exists_obj hnodup
    rw [Graph.toDocument, hdoc] at hlevels ⊢
    cases levels with
    | zero => cases hlevels
    | succ levels =>
      have hstart : required ["StartAt"] Document.toStr? t = some header.startAt := by
        rw [required_eq ht (by simp [hget, Header.toFields]; rfl), Document.toStr?]
      have hsome : t.get? "States" = some (.obj (stateDocuments states)) := by simp [hget]
      have hnested : required ["States"] (statesOf? (stateOf? (graphOf? levels true) numbered)) t = some states := by
        have hlower : Document.heightFields (stateDocuments states) + 1 < (Document.obj t).height :=
          Document.height_lt_obj (Table.mem_of_get? hsome)
        have hread := mapM_stateDocuments states hstates numbered
          (show Document.heightFields (stateDocuments states) < levels by omega)
        rw [required_eq ht hsome]
        simp [statesOf?, hread, hsorted.ofList_eq]
      have hcomment : textField "Comment" t = some header.comment :=
        textField_eq ht (by simp [hget, Header.toFields])
      have hversion : textField "Version" t = some header.version :=
        textField_eq ht (by simp [hget, Header.toFields])
      have htimeout : optional ["TimeoutSeconds"] (Document.toNat? maxWord) t = some header.timeoutSeconds :=
        countField_eq ht (by simp [hget, Header.toFields]) hheader
      simp [graphOf?, Document.members?, hstart, hnested, hcomment, hversion, htimeout]

theorem mapM_branchDocuments (branches : List Graph) (h : BranchesReadable branches) {levels : Nat}
    (hlevels : Document.heightItems (branchDocuments branches) < levels) :
    (branchDocuments branches).mapM (graphOf? levels true) = some branches := by
  cases branches with
  | nil => rfl
  | cons g branches =>
    obtain ⟨hg, hbranches⟩ := h
    obtain ⟨hfirst, hrest⟩ := Nat.max_lt.1 hlevels
    rw [branchDocuments, List.mapM_cons, Graph.graphOf?_toDocument g hg true hfirst,
      mapM_branchDocuments branches hbranches hrest]
    rfl

theorem mapM_stateDocuments (states : List (String × State)) (h : StatesReadable states) {levels : Nat}
    (numbered : Bool) (hlevels : Document.heightFields (stateDocuments states) < levels) :
    ((stateDocuments states).mapM fun (name, d) =>
      (stateOf? (graphOf? levels true) numbered d).map fun s => (name, s)) = some states := by
  cases states with
  | nil => rfl
  | cons entry states =>
    obtain ⟨name, s⟩ := entry
    obtain ⟨hs, hstates⟩ := h
    obtain ⟨hfirst, hrest⟩ := Nat.max_lt.1 hlevels
    simp [stateDocuments, State.stateOf?_toDocument s hs numbered hfirst,
      mapM_stateDocuments states hstates numbered hrest]

end

/-! ### Path fields -/

/-- The path fields of a type of state. -/
def pathNames : StateType → List String
  | .pass | .task | .map | .parallel => ["InputPath", "OutputPath", "ResultPath"]
  | .choice | .wait | .succeed => ["InputPath", "OutputPath"]
  | .fail => []

/-- A path field is written as it was read: a null as null, nothing where nothing was. -/
theorem get?_of_pathField {o : Nullable String} (h : pathField name t = some o) :
    t.get? name = o.document? .str := by
  simp only [pathField, nullable, Option.bind_eq_bind, Option.bind_eq_some_iff] at h
  obtain ⟨found, hfound, h⟩ := h
  rw [← Table.eq_get?_of_only? hfound]
  split at h
  · cases h
    rfl
  · cases h
    rfl
  · rename_i d _
    obtain ⟨text, htext, rfl⟩ := Option.map_eq_some_iff.1 h
    cases d with
    | str => exact congrArg (Option.map Document.str) htext
    | _ => cases htext

theorem Filters.paths_of_ofFields? {f : Filters} (h : Filters.ofFields? t = some f) :
    Holds t (pathNames .succeed) f.toFields := by
  simp only [ofFields?, Option.bind_eq_bind, Option.bind_eq_some_iff, Option.pure_def, Option.some.injEq] at h
  obtain ⟨_, -, _, hinput, _, houtput, rfl⟩ := h
  simp [Holds, pathNames, get?_of_pathField hinput, get?_of_pathField houtput]

theorem holds_paths {f : Filters} {o : Nullable String} {fields : Fields} (hf : Filters.ofFields? t = some f)
    (ho : pathField "ResultPath" t = some o) (hresult : fields.get? "ResultPath" = o.document? .str)
    (hinput : fields.get? "InputPath" = f.toFields.get? "InputPath")
    (houtput : fields.get? "OutputPath" = f.toFields.get? "OutputPath") :
    Holds t ["InputPath", "OutputPath", "ResultPath"] fields := by
  have hpaths := Filters.paths_of_ofFields? hf
  simp only [Holds, pathNames, List.forall_mem_cons, List.not_mem_nil, false_implies, implies_true,
    and_true] at hpaths ⊢
  rw [hinput, houtput, hresult]
  exact ⟨hpaths.1, hpaths.2, get?_of_pathField ho⟩

theorem Pass.paths_of_ofFields? {s : Pass} (h : Pass.ofFields? t = some s) :
    Holds t (pathNames .pass) s.toFields := by
  simp only [ofFields?, Option.bind_eq_bind, Option.bind_eq_some_iff, Option.pure_def, Option.some.injEq] at h
  obtain ⟨f, hf, _, -, _, hresult, _, -, _, -, rfl⟩ := h
  exact holds_paths hf hresult (by simp [toFields]) (by simp [toFields]) (by simp [toFields])

theorem Task.paths_of_ofFields? {s : Task} (h : Task.ofFields? t = some s) :
    Holds t (pathNames .task) s.toFields := by
  simp only [ofFields?, Option.bind_eq_bind, Option.bind_eq_some_iff, Option.pure_def, Option.some.injEq] at h
  obtain ⟨_, -, f, hf, _, -, _, hresult, _, -, _, -, _, -, _, -, _, -, _, -, rfl⟩ := h
  exact holds_paths hf hresult (by simp [toFields]) (by simp [toFields]) (by simp [toFields])

theorem Map.paths_of_ofFields? {s : Map} (h : Map.ofFields? t = some s) : Holds t (pathNames .map) s.toFields := by
  simp only [ofFields?, Option.bind_eq_bind, Option.bind_eq_some_iff, Option.pure_def, Option.some.injEq] at h
  obtain ⟨f, hf, _, -, _, hresult, _, -, _, -, _, -, _, -, _, -, rfl⟩ := h
  exact holds_paths hf hresult (by simp [toFields]) (by simp [toFields]) (by simp [toFields])

theorem Parallel.paths_of_ofFields? {s : Parallel} (h : Parallel.ofFields? t = some s) :
    Holds t (pathNames .parallel) s.toFields := by
  simp only [ofFields?, Option.bind_eq_bind, Option.bind_eq_some_iff, Option.pure_def, Option.some.injEq] at h
  obtain ⟨f, hf, _, -, _, hresult, _, -, _, -, rfl⟩ := h
  exact holds_paths hf hresult (by simp [toFields]) (by simp [toFields]) (by simp [toFields])

theorem Choice.paths_of_ofFields? {s : Choice} (h : Choice.ofFields? t = some s) :
    Holds t (pathNames .choice) s.toFields := by
  simp only [ofFields?, Option.bind_eq_bind, Option.bind_eq_some_iff, Option.pure_def, Option.some.injEq] at h
  obtain ⟨_, -, _, -, f, hf, rfl⟩ := h
  simpa [Holds, pathNames, toFields] using Filters.paths_of_ofFields? hf

theorem Wait.paths_of_ofFields? {s : Wait} (h : Wait.ofFields? t = some s) :
    Holds t (pathNames .wait) s.toFields := by
  simp only [ofFields?, Option.bind_eq_bind, Option.bind_eq_some_iff, Option.pure_def, Option.some.injEq] at h
  obtain ⟨f, hf, _, -, _, -, _, -, _, -, _, -, rfl⟩ := h
  simpa [Holds, pathNames, toFields] using Filters.paths_of_ofFields? hf

theorem State.paths_of_stateOf? {graph : Document → Option Graph} {numbered : Bool} {s : State} {type : StateType}
    (h : stateOf? graph numbered d = some s) (hsplit : split? numbered d = some (type, t)) :
    s.type = type ∧ Holds t (pathNames type) s.members := by
  simp only [stateOf?, hsplit, Option.bind_eq_bind, Option.bind_some] at h
  cases type with
  | pass =>
    obtain ⟨s, hs, rfl⟩ := Option.map_eq_some_iff.1 h
    exact ⟨rfl, Pass.paths_of_ofFields? hs⟩
  | task =>
    obtain ⟨s, hs, rfl⟩ := Option.map_eq_some_iff.1 h
    exact ⟨rfl, Task.paths_of_ofFields? hs⟩
  | choice =>
    obtain ⟨s, hs, rfl⟩ := Option.map_eq_some_iff.1 h
    exact ⟨rfl, Choice.paths_of_ofFields? hs⟩
  | wait =>
    obtain ⟨s, hs, rfl⟩ := Option.map_eq_some_iff.1 h
    exact ⟨rfl, Wait.paths_of_ofFields? hs⟩
  | succeed =>
    obtain ⟨f, hf, rfl⟩ := Option.map_eq_some_iff.1 h
    exact ⟨rfl, Filters.paths_of_ofFields? hf⟩
  | fail =>
    obtain ⟨s, -, rfl⟩ := Option.map_eq_some_iff.1 h
    exact ⟨rfl, nofun⟩
  | map =>
    obtain ⟨iterator, -, h⟩ := Option.bind_eq_some_iff.1 h
    obtain ⟨s, hs, rfl⟩ := Option.map_eq_some_iff.1 h
    refine ⟨rfl, fun name hname => (Map.paths_of_ofFields? hs name hname).trans ?_⟩
    rw [members, Table.get?_cons, if_neg (by rintro rfl; exact absurd hname (by decide))]
  | parallel =>
    obtain ⟨branches, -, h⟩ := Option.bind_eq_some_iff.1 h
    obtain ⟨s, hs, rfl⟩ := Option.map_eq_some_iff.1 h
    refine ⟨rfl, fun name hname => (Parallel.paths_of_ofFields? hs name hname).trans ?_⟩
    rw [members, Table.get?_cons, if_neg (by rintro rfl; exact absurd hname (by decide))]

/-- The path fields of a state are written as they were read. -/
theorem State.paths_toDocument {graph : Document → Option Graph} {numbered : Bool} {s : State} {type : StateType}
    (h : stateOf? graph numbered d = some s) (hsplit : split? numbered d = some (type, t)) :
    ∃ u : Fields, split? numbered s.toDocument = some (type, u) ∧
      ∀ name ∈ pathNames type, u.get? name = t.get? name := by
  obtain ⟨rfl, hholds⟩ := paths_of_stateOf? h hsplit
  obtain ⟨u, hsplit', -, hget, -⟩ := s.split?_toDocument numbered
  have htype : "Type" ∉ pathNames s.type := by cases s.type <;> decide
  refine ⟨u, hsplit', fun name hname => ?_⟩
  rw [hget name (ne_of_mem_of_not_mem hname htype), hholds name hname]

theorem Catcher.path_toDocument {c : Catcher} (h : Catcher.ofDocument? d = some c)
    (ht : d.members? Catcher.layout = some t) :
    ∃ u : Fields, c.toDocument = .obj u ∧ u.get? "ResultPath" = t.get? "ResultPath" := by
  simp only [ofDocument?, ht, Option.bind_eq_bind, Option.bind_some, Option.bind_eq_some_iff, Option.pure_def,
    Option.some.injEq] at h
  obtain ⟨errors, -, next, -, path, hpath, rfl⟩ := h
  obtain ⟨u, hdoc, -, hget⟩ := exists_obj (Catcher.nodup ⟨errors, next, path⟩)
  refine ⟨u, hdoc, ?_⟩
  rw [hget, get?_of_pathField hpath]
  simp

/-! ### Other names -/

/-- The first name of a field of a Map state. -/
def firstName (name : String) : String :=
  if name = "ItemProcessor" then "Iterator" else if name = "Parameters" then "ItemSelector" else name

/-- A record of a Map state under the first name of every field. -/
def firstNames (t : Fields) : Fields := t.map fun (name, d) => (firstName name, d)

/-- The fields that may be read under two names are read under both. -/
def BothNames (names : List String) : Prop :=
  ("Iterator" ∈ names ↔ "ItemProcessor" ∈ names) ∧ ("ItemSelector" ∈ names ↔ "Parameters" ∈ names)

instance (names : List String) : Decidable (BothNames names) := inferInstanceAs (Decidable (_ ∧ _))

theorem firstName_mem_iff {names : List String} (h : BothNames names) (k : String) :
    firstName k ∈ names ↔ k ∈ names := by
  unfold firstName
  split
  · rename_i hk
    rw [hk, h.1]
  · split
    · rename_i hk
      rw [hk, h.2]
    · rfl

theorem only?_firstNames {names : List String} (h : BothNames names) :
    Table.only? names (firstNames t) = Table.only? names t := by
  have hfilter : (firstNames t).filter (fun (k, _) => k ∈ names) =
      firstNames (t.filter fun (k, _) => k ∈ names) := by
    rw [firstNames, List.filter_map, firstNames]
    exact congrArg _ (List.filter_congr fun entry _ => by simp [firstName_mem_iff h])
  obtain ⟨found, hfound⟩ : ∃ found, (t.filter fun (k, _) => k ∈ names) = found := ⟨_, rfl⟩
  rw [Table.only?, Table.only?, hfilter, hfound]
  rcases found with - | ⟨_, - | _⟩ <;> rfl

theorem Map.ofFields?_firstNames (t : Fields) : Map.ofFields? (firstNames t) = Map.ofFields? t := by
  simp (disch := decide) only [ofFields?, Filters.ofFields?, Transition.ofFields?, Recovery.ofFields?, textField,
    pathField, valueField, Record.optional, nullable, defaulted, only?_firstNames]

theorem filter_firstNames (t : Fields) :
    (firstNames t).filter (·.1 ≠ "Type") = firstNames (t.filter (·.1 ≠ "Type")) := by
  rw [firstNames, List.filter_map, firstNames]
  refine congrArg _ (List.filter_congr fun entry _ => ?_)
  have hiff := firstName_mem_iff (show BothNames ["Type"] by decide) entry.1
  simp only [List.mem_singleton] at hiff
  simp [hiff]

theorem stateOf?_firstNames (graph : Document → Option Graph) (numbered : Bool) {u : Fields}
    (h : split? numbered (.obj t) = some (.map, u)) :
    stateOf? graph numbered (.obj (firstNames t)) = stateOf? graph numbered (.obj t) := by
  have hsplit : split? numbered (.obj (firstNames t)) = some (.map, firstNames u) := by
    simp only [split?, required, Option.bind_eq_bind, Option.bind_eq_some_iff, Option.pure_def, Option.some.injEq,
      Prod.mk.injEq] at h ⊢
    obtain ⟨_, ⟨_, honly, _, rfl, htype⟩, rfl, rfl⟩ := h
    exact ⟨_, ⟨_, (only?_firstNames (by decide)).trans honly, _, rfl, htype⟩, rfl, filter_firstNames t⟩
  simp (disch := decide) only [stateOf?, hsplit, h, Option.bind_eq_bind, Option.bind_some, required, only?_firstNames,
    Map.ofFields?_firstNames]

/-! ### Definitions -/

/-- Whatever has been read as a definition is read as the same definition once it is written: writing after
reading changes nothing a second time and is one to one, and the workflow is accepted or refused alike. On
the way no path field of a state or a catcher changes between null and absent, and a field of a Map state
under its other name is the same field. -/
theorem Graph.toDocument_of_ofDocument? {g : Graph} (h : Graph.ofDocument? d = some g) :
    Graph.ofDocument? g.toDocument = some g ∧
      (Graph.ofDocument? g.toDocument).map Graph.toDocument = (Graph.ofDocument? d).map Graph.toDocument ∧
      (∀ d' g', Graph.ofDocument? d' = some g' → g'.toDocument = g.toDocument → g' = g) ∧
      (Graph.ofDocument? g.toDocument).map Workflow.ofDefinition = (Graph.ofDocument? d).map Workflow.ofDefinition ∧
      (∀ graph numbered e s type t, stateOf? graph numbered e = some s → split? numbered e = some (type, t) →
        ∃ u : Fields, split? numbered s.toDocument = some (type, u) ∧
          ∀ name ∈ pathNames type, u.get? name = t.get? name) ∧
      (∀ e c t, Catcher.ofDocument? e = some c → e.members? Catcher.layout = some t →
        ∃ u : Fields, c.toDocument = .obj u ∧ u.get? "ResultPath" = t.get? "ResultPath") ∧
      ∀ graph numbered t u, split? numbered (.obj t) = some (.map, u) →
        stateOf? graph numbered (.obj (firstNames t)) = stateOf? graph numbered (.obj t) := by
  have hread (d : Document) (g : Graph) (h : Graph.ofDocument? d = some g) :
      Graph.ofDocument? g.toDocument = some g :=
    Graph.graphOf?_toDocument g (Graph.readable_of_ofDocument? h) false (Nat.lt_succ_self _)
  have hback := hread d g h
  refine ⟨hback, by rw [hback, h], fun d' g' h' heq => ?_, by rw [hback, h],
    fun graph numbered e s type t hs hsplit => State.paths_toDocument hs hsplit,
    fun e c t hc ht => Catcher.path_toDocument hc ht,
    fun graph numbered t u hsplit => stateOf?_firstNames graph numbered hsplit⟩
  have hback' := hread d' g' h'
  rw [heq, hback] at hback'
  exact (Option.some.inj hback').symm

/-- A definition with a state of every type, with nulls for path fields and fields under their other names. -/
def everyType : Document :=
  .obj [("StartAt", .str "Each"), ("States", .obj [
    ("Each", .obj [("Type", .str "Map"), ("Parameters", .obj [("b", .null), ("a", .bool true)]), ("ResultPath", .null),
      ("ItemProcessor", .obj [("StartAt", .str "Call"), ("States", .obj [
        ("Call", .obj [("Type", .num (.int 1)), ("Resource", .str "r"), ("InputPath", .null), ("End", .bool true),
          ("Catch", .arr [.obj [("ErrorEquals", .arr [.str "States.ALL"]), ("Next", .str "Done"),
            ("ResultPath", .null)]])]),
        ("Done", .obj [("Type", .str "Succeed"), ("OutputPath", .null)])])]),
      ("Next", .str "Pick")]),
    ("Pick", .obj [("Type", .str "Choice"), ("Choices", .arr []), ("Default", .str "Both")]),
    ("Both", .obj [("Type", .str "Parallel"), ("ResultPath", .str "$.both"), ("Next", .str "Stop"),
      ("Retry", .arr [.obj [("ErrorEquals", .arr [.str "E"]), ("IntervalSeconds", .num (.int 2)),
        ("MaxAttempts", .num (.int 0))]]),
      ("Branches", .arr [
        .obj [("StartAt", .str "Still"), ("States", .obj [
          ("Still", .obj [("Type", .str "Wait"), ("Seconds", .num (.int 1)), ("End", .bool true)])])],
        .obj [("StartAt", .str "Set"), ("States", .obj [
          ("Set", .obj [("Type", .str "Pass"), ("Result", .num (.int 7)), ("End", .bool true)])])]])]),
    ("Stop", .obj [("Type", .str "Fail"), ("Error", .str "E")])])]

theorem Graph.toDocument_of_ofDocument?_everyType :
    ∃ g, Graph.ofDocument? everyType = some g ∧ Graph.ofDocument? g.toDocument = some g := by
  obtain ⟨g, hg⟩ := Option.isSome_iff_exists.1 (show (Graph.ofDocument? everyType).isSome by decide +kernel)
  exact ⟨g, hg, (Graph.toDocument_of_ofDocument? hg).1⟩

end StepFlow.Definition
