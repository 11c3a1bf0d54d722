import StepFlow.Definition.Writer
import StepFlow.Proofs.Definition.Readable

/-!
# The fields of states, read back

A record whose members are those that are written of a state of one type is read as that state
(`Pass.ofFields?_eq` and its like), because no name is written twice (`Pass.names_toFields` and its like).
-/

namespace StepFlow.Definition

open Record

variable {t : Fields} {d : Document} {name : String}

/-! ### Fields -/

theorem textField_eq (ht : t.names.Nodup) {o : Option String} (h : t.get? name = o.map .str) :
    textField name t = some o := optional_text_eq ht h

theorem pathField_eq (ht : t.names.Nodup) {o : Nullable String} (h : t.get? name = o.document? .str) :
    pathField name t = some o := nullable_eq ht h fun _ _ => ⟨nofun, rfl⟩

theorem toValue?_value (h : Value d) : id d ≠ .null ∧ Document.toValue? (id d) = some d :=
  ⟨h.notNull, congrArg some h.canonical.canonical_eq⟩

theorem valueField_eq (ht : t.names.Nodup) {o : Option Document} (h : t.get? name = o)
    (ho : ∀ d ∈ o, Value d) : valueField [name] t = some o := by
  have hid : t.get? name = o.map id := by rw [h, Option.map_id_apply]
  exact optional_eq ht hid fun d hd => toValue?_value (ho d hd)

theorem countField_eq (ht : t.names.Nodup) {bound : Nat} {o : Option Nat} (h : t.get? name = o.map Document.ofNat)
    (ho : ∀ n ∈ o, n < bound) : optional [name] (Document.toNat? bound) t = some o :=
  optional_eq ht h fun n hn => ⟨nofun, by rw [Document.toNat?_ofNat, if_pos (ho n hn)]⟩

theorem doubleField_eq (ht : t.names.Nodup) {o : Option Binary64} (h : t.get? name = o.map double) :
    optional [name] Document.toBinary64? t = some o := optional_eq ht h fun _ _ => ⟨nofun, rfl⟩

theorem toList?_strings (xs : List String) : Document.toList? Document.toStr? (strings xs) = some xs :=
  toList?_map fun _ _ => rfl

/-! ### Retriers and catchers -/

theorem Retrier.ofDocument?_toDocument {r : Retrier} (h : r.Readable) :
    Retrier.ofDocument? r.toDocument = some r := by
  have hnodup : (Table.names (("ErrorEquals", strings r.errorEquals) ::
      (present "IntervalSeconds" double r.intervalSeconds ++ present "MaxAttempts" Document.ofNat r.maxAttempts
        ++ present "BackoffRate" double r.backoffRate))).Nodup := by
    have hnames := ((names_present "IntervalSeconds" double r.intervalSeconds).append
      (names_present "MaxAttempts" Document.ofNat r.maxAttempts)).append
        (names_present "BackoffRate" double r.backoffRate)
    rw [← Table.names_append, ← Table.names_append] at hnames
    exact List.Nodup.sublist (hnames.cons_cons "ErrorEquals") (by decide)
  obtain ⟨t, hdoc, ht, hget⟩ := exists_obj hnodup
  have herrors : required ["ErrorEquals"] (Document.toList? Document.toStr?) t = some r.errorEquals := by
    rw [required_eq ht (by simp [hget]; rfl), toList?_strings]
  have hinterval : optional ["IntervalSeconds"] Document.toBinary64? t = some r.intervalSeconds :=
    doubleField_eq ht (by simp [hget])
  have hmax : optional ["MaxAttempts"] (Document.toNat? maxHalfWord) t = some r.maxAttempts :=
    countField_eq ht (by simp [hget]) h
  have hrate : optional ["BackoffRate"] Document.toBinary64? t = some r.backoffRate :=
    doubleField_eq ht (by simp [hget])
  rw [toDocument, hdoc]
  simp [ofDocument?, Document.members?, herrors, hinterval, hmax, hrate]

theorem Catcher.nodup (c : Catcher) : (Table.names (("ErrorEquals", strings c.errorEquals) :: ("Next", .str c.next) ::
    written "ResultPath" .str c.resultPath)).Nodup := by
  have hnames := names_written "ResultPath" .str c.resultPath
  exact List.Nodup.sublist ((hnames.cons_cons "Next").cons_cons "ErrorEquals") (by decide)

theorem Catcher.ofDocument?_toDocument (c : Catcher) : Catcher.ofDocument? c.toDocument = some c := by
  obtain ⟨t, hdoc, ht, hget⟩ := exists_obj c.nodup
  have herrors : required ["ErrorEquals"] (Document.toList? Document.toStr?) t = some c.errorEquals := by
    rw [required_eq ht (by simp [hget]; rfl), toList?_strings]
  have hnext : required ["Next"] Document.toStr? t = some c.next := by
    rw [required_eq ht (by simp [hget]; rfl), Document.toStr?]
  have hresult : nullable ["ResultPath"] Document.toStr? t = some c.resultPath :=
    pathField_eq ht (by simp [hget])
  rw [toDocument, hdoc]
  simp [ofDocument?, Document.members?, herrors, hnext, hresult]

/-! ### Groups of fields -/

/-- Where `t` is read for the names of a group, it has the members that the group writes. -/
def Holds (t : Fields) (names : List String) (fields : Fields) : Prop :=
  ∀ name ∈ names, t.get? name = fields.get? name

def filterNames : List String := ["Comment", "InputPath", "OutputPath"]
def transitionNames : List String := ["End", "Next"]
def recoveryNames : List String := ["Retry", "Catch"]

theorem Filters.names_toFields (f : Filters) : f.toFields.names.Sublist filterNames := by
  simp only [toFields, Table.names_append]
  exact ((names_present "Comment" _ _).append (names_written "InputPath" _ _)).append (names_written "OutputPath" _ _)

theorem Transition.names_toFields (s : Transition) : s.toFields.names.Sublist transitionNames :=
  (names_present "Next" _ _).cons_cons "End"

theorem Recovery.names_toFields (r : Recovery) : r.toFields.names.Sublist recoveryNames := by
  simp only [toFields, Table.names_append]
  exact (names_nonempty "Retry" _ _).append (names_nonempty "Catch" _ _)

@[simp] theorem Filters.get?_toFields (f : Filters) (name : String) :
    Table.get? name f.toFields =
      if name = "Comment" then f.comment.map .str
      else if name = "InputPath" then f.inputPath.document? .str
      else if name = "OutputPath" then f.outputPath.document? .str else none := by
  simp only [toFields, Table.get?_append, get?_present, get?_written, eq_comm (b := name)]
  split
  · rename_i hname
    simp [hname]
  · split
    · rename_i hname
      simp [hname]
    · rfl

@[simp] theorem Transition.get?_toFields (s : Transition) (name : String) :
    Table.get? name s.toFields =
      if name = "End" then some (.bool s.isEnd) else if name = "Next" then s.next.map .str else none := by
  simp [toFields, eq_comm]

@[simp] theorem Recovery.get?_toFields (r : Recovery) (name : String) :
    Table.get? name r.toFields =
      if name = "Retry" ∧ r.retry ≠ [] then some (.arr (r.retry.map Retrier.toDocument))
      else if name = "Catch" ∧ r.catchers ≠ [] then some (.arr (r.catchers.map Catcher.toDocument)) else none := by
  simp only [toFields, Table.get?_append, get?_nonempty, eq_comm (b := name)]
  split <;> simp

theorem Filters.ofFields?_eq (ht : t.names.Nodup) {f : Filters} (h : Holds t filterNames f.toFields) :
    Filters.ofFields? t = some f := by
  have hcomment : textField "Comment" t = some f.comment :=
    textField_eq ht ((h _ (by simp [filterNames])).trans (by simp [toFields]))
  have hinput : pathField "InputPath" t = some f.inputPath :=
    pathField_eq ht ((h _ (by simp [filterNames])).trans (by simp [toFields]))
  have houtput : pathField "OutputPath" t = some f.outputPath :=
    pathField_eq ht ((h _ (by simp [filterNames])).trans (by simp [toFields]))
  simp [ofFields?, hcomment, hinput, houtput]

theorem Transition.ofFields?_eq (ht : t.names.Nodup) {s : Transition} (h : Holds t transitionNames s.toFields) :
    Transition.ofFields? t = some s := by
  have hnext : textField "Next" t = some s.next :=
    textField_eq ht ((h _ (by simp [transitionNames])).trans (by simp [toFields]))
  have hend : defaulted ["End"] Document.toBool? false t = some s.isEnd := by
    rw [defaulted_eq ht ((h _ (by simp [transitionNames])).trans (by simp [toFields]; rfl)), Document.toBool?]
  simp [ofFields?, hnext, hend]

theorem Recovery.ofFields?_eq (ht : t.names.Nodup) {r : Recovery} (hr : r.Readable)
    (h : Holds t recoveryNames r.toFields) : Recovery.ofFields? t = some r := by
  have hretry : defaulted ["Retry"] (Document.toList? Retrier.ofDocument?) [] t = some r.retry :=
    defaulted_nonempty_eq ht ((h _ (by simp [recoveryNames])).trans (by simp [toFields]))
      fun retrier hretrier => Retrier.ofDocument?_toDocument (hr retrier hretrier)
  have hcatch : defaulted ["Catch"] (Document.toList? Catcher.ofDocument?) [] t = some r.catchers :=
    defaulted_nonempty_eq ht ((h _ (by simp [recoveryNames])).trans (by simp [toFields]))
      fun c _ => Catcher.ofDocument?_toDocument c
  simp [ofFields?, hretry, hcatch]

/-! ### States -/

/-- Besides the type and the graphs of a state, `t` has the members that are written of the state. -/
abbrev HoldsState (t fields : Fields) : Prop :=
  ∀ name, name ≠ "Type" → name ≠ "Iterator" → name ≠ "Branches" → t.get? name = fields.get? name

theorem Pass.ofFields?_eq (ht : t.names.Nodup) {s : Pass} (hs : s.Readable) (h : HoldsState t s.toFields) :
    Pass.ofFields? t = some s := by
  have hfilters : Filters.ofFields? t = some s.filters := Filters.ofFields?_eq ht (by
    simp [Holds, filterNames, h, toFields])
  have htransition : Transition.ofFields? t = some s.transition := Transition.ofFields?_eq ht (by
    simp [Holds, transitionNames, h, toFields])
  have hresultPath : pathField "ResultPath" t = some s.resultPath := pathField_eq ht (by
    simp [h, toFields])
  have hparameters : valueField ["Parameters"] t = some s.parameters := valueField_eq ht (by
    simp [h, toFields]) hs.parameters
  have hresult : valueField ["Result"] t = some s.result := valueField_eq ht (by
    simp [h, toFields]) hs.result
  simp [ofFields?, hfilters, htransition, hresultPath, hparameters, hresult]

theorem Task.ofFields?_eq (ht : t.names.Nodup) {s : Task} (hs : s.Readable) (h : HoldsState t s.toFields) :
    Task.ofFields? t = some s := by
  have hresource : required ["Resource"] Document.toStr? t = some s.resource := by
    rw [required_eq ht (by simp [h, toFields]; rfl), Document.toStr?]
  have hfilters : Filters.ofFields? t = some s.filters := Filters.ofFields?_eq ht (by
    simp [Holds, filterNames, h, toFields])
  have htransition : Transition.ofFields? t = some s.transition := Transition.ofFields?_eq ht (by
    simp [Holds, transitionNames, h, toFields])
  have hresultPath : pathField "ResultPath" t = some s.resultPath := pathField_eq ht (by
    simp [h, toFields])
  have hparameters : valueField ["Parameters"] t = some s.parameters := valueField_eq ht (by
    simp [h, toFields]) hs.parameters
  have hselector : valueField ["ResultSelector"] t = some s.resultSelector := valueField_eq ht (by
    simp [h, toFields]) hs.resultSelector
  have hrecovery : Recovery.ofFields? t = some s.recovery := Recovery.ofFields?_eq ht hs.recovery (by
    simp [Holds, recoveryNames, h, toFields])
  have htimeout : optional ["TimeoutSeconds"] (Document.toNat? maxWord) t = some s.timeoutSeconds :=
    countField_eq ht (by
      simp [h, toFields]) hs.timeoutSeconds
  have hheartbeat : optional ["HeartbeatSeconds"] (Document.toNat? maxWord) t = some s.heartbeatSeconds :=
    countField_eq ht (by
      simp [h, toFields]) hs.heartbeatSeconds
  have hcredentials : valueField ["Credentials"] t = some s.credentials := valueField_eq ht (by
    simp [h, toFields]) hs.credentials
  simp [ofFields?, hresource, hfilters, htransition, hresultPath, hparameters, hselector, hrecovery, htimeout,
    hheartbeat, hcredentials]

theorem Choice.ofFields?_eq (ht : t.names.Nodup) {s : Choice} (hs : s.Readable) (h : HoldsState t s.toFields) :
    Choice.ofFields? t = some s := by
  have hchoices : required ["Choices"] (Document.toList? Document.toValue?) t = some s.choices := by
    have hmap : s.choices.map id = s.choices := List.map_id _
    rw [required_eq ht (by simp [h, toFields]; rfl), ← hmap, toList?_map]
    · rw [hmap]
    · exact fun d hd => congrArg some (hs d hd).canonical_eq
  have hdefault : textField "Default" t = some s.default := textField_eq ht (by
    simp [h, toFields])
  have hfilters : Filters.ofFields? t = some s.filters := Filters.ofFields?_eq ht (by
    simp [Holds, filterNames, h, toFields])
  simp [ofFields?, hchoices, hdefault, hfilters]

theorem Wait.ofFields?_eq (ht : t.names.Nodup) {s : Wait} (hs : s.Readable) (h : HoldsState t s.toFields) :
    Wait.ofFields? t = some s := by
  have hfilters : Filters.ofFields? t = some s.filters := Filters.ofFields?_eq ht (by
    simp [Holds, filterNames, h, toFields])
  have htransition : Transition.ofFields? t = some s.transition := Transition.ofFields?_eq ht (by
    simp [Holds, transitionNames, h, toFields])
  have hseconds : optional ["Seconds"] (Document.toNat? maxWord) t = some s.seconds := countField_eq ht (by
    simp [h, toFields]) hs
  have hsecondsPath : textField "SecondsPath" t = some s.secondsPath := textField_eq ht (by
    simp [h, toFields])
  have htimestamp : textField "Timestamp" t = some s.timestamp := textField_eq ht (by
    simp [h, toFields])
  have htimestampPath : textField "TimestampPath" t = some s.timestampPath := textField_eq ht (by
    simp [h, toFields])
  simp [ofFields?, hfilters, htransition, hseconds, hsecondsPath, htimestamp, htimestampPath]

theorem Fail.ofFields?_eq (ht : t.names.Nodup) {s : Fail} (h : HoldsState t s.toFields) :
    Fail.ofFields? t = some s := by
  have hcomment : textField "Comment" t = some s.comment := textField_eq ht (by simp [h, toFields])
  have herror : textField "Error" t = some s.error := textField_eq ht (by simp [h, toFields])
  have hcause : textField "Cause" t = some s.cause := textField_eq ht (by simp [h, toFields])
  simp [ofFields?, hcomment, herror, hcause]

theorem Map.ofFields?_eq (ht : t.names.Nodup) {s : Map} (hs : s.Readable) (h : HoldsState t s.toFields) :
    Map.ofFields? t = some s := by
  have hfilters : Filters.ofFields? t = some s.filters := Filters.ofFields?_eq ht (by
    simp [Holds, filterNames, h, toFields])
  have htransition : Transition.ofFields? t = some s.transition := Transition.ofFields?_eq ht (by
    simp [Holds, transitionNames, h, toFields])
  have hresultPath : pathField "ResultPath" t = some s.resultPath := pathField_eq ht (by
    simp [h, toFields])
  have hitemsPath : textField "ItemsPath" t = some s.itemsPath := textField_eq ht (by
    simp [h, toFields])
  -- The other name of the field is not there.
  have hnone : t.get? "Parameters" = none := by
    simp [h, toFields]
  have hsome : t.get? "ItemSelector" = s.itemSelector.map id := by
    simp [h, toFields]
  have hitem : valueField ["ItemSelector", "Parameters"] t = some s.itemSelector :=
    optional_of_only? (by rw [Table.only?_pair _ ht hnone, hsome]) fun d hd => toValue?_value (hs.itemSelector d hd)
  have hselector : valueField ["ResultSelector"] t = some s.resultSelector := valueField_eq ht (by
    simp [h, toFields]) hs.resultSelector
  have hmax : optional ["MaxConcurrency"] (Document.toNat? maxHalfWord) t = some s.maxConcurrency :=
    countField_eq ht (by
      simp [h, toFields]) hs.maxConcurrency
  have hrecovery : Recovery.ofFields? t = some s.recovery := Recovery.ofFields?_eq ht hs.recovery (by
    simp [Holds, recoveryNames, h, toFields])
  simp [ofFields?, hfilters, htransition, hresultPath, hitemsPath, hitem, hselector, hmax, hrecovery]

theorem Parallel.ofFields?_eq (ht : t.names.Nodup) {s : Parallel} (hs : s.Readable)
    (h : HoldsState t s.toFields) : Parallel.ofFields? t = some s := by
  have hfilters : Filters.ofFields? t = some s.filters := Filters.ofFields?_eq ht (by
    simp [Holds, filterNames, h, toFields])
  have htransition : Transition.ofFields? t = some s.transition := Transition.ofFields?_eq ht (by
    simp [Holds, transitionNames, h, toFields])
  have hresultPath : pathField "ResultPath" t = some s.resultPath := pathField_eq ht (by
    simp [h, toFields])
  have hselector : valueField ["ResultSelector"] t = some s.resultSelector := valueField_eq ht (by
    simp [h, toFields]) hs.resultSelector
  have hrecovery : Recovery.ofFields? t = some s.recovery := Recovery.ofFields?_eq ht hs.recovery (by
    simp [Holds, recoveryNames, h, toFields])
  simp [ofFields?, hfilters, htransition, hresultPath, hselector, hrecovery]

/-! ### Names of members -/

theorem Pass.names_toFields (s : Pass) : s.toFields.names.Sublist
    (filterNames ++ transitionNames ++ ["ResultPath"] ++ ["Parameters"] ++ ["Result"]) := by
  simp only [toFields, Table.names_append]
  exact (((s.filters.names_toFields.append s.transition.names_toFields).append (names_written ..)).append
    (names_present ..)).append (names_present ..)

theorem Task.names_toFields (s : Task) : s.toFields.names.Sublist
    ("Resource" :: (filterNames ++ transitionNames ++ ["ResultPath"] ++ ["Parameters"] ++ ["ResultSelector"]
      ++ recoveryNames ++ ["TimeoutSeconds"] ++ ["HeartbeatSeconds"] ++ ["Credentials"])) := by
  simp only [toFields, Table.names_cons, Table.names_append]
  exact (((((((((s.filters.names_toFields.append s.transition.names_toFields).append (names_written ..)).append
    (names_present ..)).append (names_present ..)).append s.recovery.names_toFields).append
      (names_present ..)).append (names_present ..)).append (names_present ..))).cons_cons _

theorem Choice.names_toFields (s : Choice) : s.toFields.names.Sublist
    ("Choices" :: (["Default"] ++ filterNames)) := by
  simp only [toFields, Table.names_cons, Table.names_append]
  exact ((names_present ..).append s.filters.names_toFields).cons_cons _

theorem Wait.names_toFields (s : Wait) : s.toFields.names.Sublist
    (filterNames ++ transitionNames ++ ["Seconds"] ++ ["SecondsPath"] ++ ["Timestamp"] ++ ["TimestampPath"]) := by
  simp only [toFields, Table.names_append]
  exact ((((s.filters.names_toFields.append s.transition.names_toFields).append (names_present ..)).append
    (names_present ..)).append (names_present ..)).append (names_present ..)

theorem Fail.names_toFields (s : Fail) : s.toFields.names.Sublist (["Comment"] ++ ["Error"] ++ ["Cause"]) := by
  simp only [toFields, Table.names_append]
  exact ((names_present ..).append (names_present ..)).append (names_present ..)

theorem Map.names_toFields (s : Map) : s.toFields.names.Sublist
    (filterNames ++ transitionNames ++ ["ResultPath"] ++ ["ItemsPath"] ++ ["ItemSelector"] ++ ["ResultSelector"]
      ++ ["MaxConcurrency"] ++ recoveryNames) := by
  simp only [toFields, Table.names_append]
  exact ((((((s.filters.names_toFields.append s.transition.names_toFields).append (names_written ..)).append
    (names_present ..)).append (names_present ..)).append (names_present ..)).append (names_present ..)).append
      s.recovery.names_toFields

theorem Parallel.names_toFields (s : Parallel) : s.toFields.names.Sublist
    (filterNames ++ transitionNames ++ ["ResultPath"] ++ ["ResultSelector"] ++ recoveryNames) := by
  simp only [toFields, Table.names_append]
  exact (((s.filters.names_toFields.append s.transition.names_toFields).append (names_written ..)).append
    (names_present ..)).append s.recovery.names_toFields

theorem Header.names_toFields (h : Header) : h.toFields.names.Sublist
    ("StartAt" :: (["Comment"] ++ ["Version"] ++ ["TimeoutSeconds"])) := by
  simp only [toFields, Table.names_cons, Table.names_append]
  exact (((names_present ..).append (names_present ..)).append (names_present ..)).cons_cons _

end StepFlow.Definition
