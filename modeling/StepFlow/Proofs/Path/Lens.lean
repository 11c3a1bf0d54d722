import StepFlow.Proofs.Path.Grammar
import StepFlow.Proofs.Path.Slot

/-!
# Reference paths as lenses

A reference path reads and writes one place: what has been written is read back, writing what is there changes
nothing, and of two writes only the second counts. The query that reads and the walk that writes find the same
place (`ReferencePath.value_eq_get?`).
-/

namespace StepFlow

variable {d out value : Document} {k : Key} {keys : List Key}

/-! ### Reading by a query -/

/-- The segment that selects the child under a key. -/
def Segment.ofKey (k : Key) : Segment := .child (.key k)

theorem Key.select_eq (k : Key) (n : Node) :
    ∃ found : Option Node, k.select n = found.toList ∧ found.map (·.value) = n.value.child? k := by
  obtain ⟨location, d⟩ := n
  cases k with
  | name s =>
    cases d with
    | obj fields =>
      cases h : Table.get? s fields with
      | none => exact ⟨none, by simp [Key.select, h], by simp [Document.child?, Document.get?, h]⟩
      | some child =>
        exact ⟨some (.child ⟨location, .obj fields⟩ (.member s) child), by simp [Key.select, h],
          by simp [Document.child?, Document.get?, h, Node.child]⟩
    | _ => exact ⟨none, rfl, rfl⟩
  | index i =>
    cases d with
    | arr items =>
      cases h : resolveIndex items.length i with
      | none => exact ⟨none, by simp [Key.select, h], by simp [Document.child?, h]⟩
      | some j =>
        cases hchild : items[j]? with
        | none => exact ⟨none, by simp [Key.select, h, hchild], by simp [Document.child?, h, hchild]⟩
        | some child =>
          exact ⟨some (.child ⟨location, .arr items⟩ (.element j) child), by simp [Key.select, h, hchild],
            by simp [Document.child?, h, hchild, Node.child]⟩
    | _ => exact ⟨none, rfl, rfl⟩

theorem Query.run_nil (root : Document) (query : Query) : Query.run root query [] = [] := by
  induction query with
  | nil => rfl
  | cons s query ih => exact ih

/-- A query by keys reads the one place that the keys name. -/
theorem Query.values_run_keys (root : Document) (keys : List Key) (n : Node) :
    (Query.run root (keys.map .ofKey) [n]).map (·.value) = (n.value.follow? keys).toList := by
  induction keys generalizing n with
  | nil => rfl
  | cons k keys ih =>
    obtain ⟨found, hselect, hchild⟩ := k.select_eq n
    have hrun : Query.run root ((k :: keys).map .ofKey) [n] = Query.run root (keys.map .ofKey) (k.select n ++ []) := rfl
    rw [hrun, List.append_nil, hselect, Document.follow?, ← hchild]
    cases found with
    | none => exact congrArg _ (Query.run_nil root _)
    | some m => exact ih m

theorem Path.collect_toList (o : Option Document) : collect o.toList = o := by cases o <;> rfl

theorem Path.value_eq_follow? {p : Path} (hquery : p.query = keys.map .ofKey) (context input : Document) :
    p.value context input = (if p.ofContext then context else input).follow? keys := by
  rw [value, hquery, Query.select, Query.values_run_keys, Path.collect_toList]
  rfl

namespace ReferencePath

variable {p : ReferencePath} {expression : String}

theorem ofKey_of_keyOf {s : Segment} (h : keyOf s = .ok k) : s = .ofKey k := by
  unfold keyOf at h
  split at h <;> cases h
  rfl

theorem query_of_mapM {query : Query} (h : query.mapM keyOf = .ok keys) : query = keys.map .ofKey := by
  induction query generalizing keys with
  | nil =>
    cases h
    rfl
  | cons s query ih =>
    rw [List.mapM_cons] at h
    obtain ⟨k, hk, h⟩ := Except.bind_eq_ok h
    obtain ⟨ks, hks, h⟩ := Except.bind_eq_ok h
    cases h
    rw [List.map_cons, ← ofKey_of_keyOf hk, ← ih hks]

/-- A reference path is a path by keys that reads the input. -/
theorem path_of_parse (h : parse expression = .ok p) :
    p.expression = expression ∧ ∃ q, Path.parse expression = .ok q ∧ q.ofContext = false ∧
      q.query = p.keys.map .ofKey := by
  unfold parse at h
  cases hfind : expression.toList.find? isForbidden with
  | some c =>
    rw [hfind] at h
    cases h
  | none =>
    rw [hfind] at h
    by_cases hcontext : "$$".isPrefixOf expression
    · rw [if_pos hcontext] at h
      cases h
    · rw [if_neg hcontext] at h
      obtain ⟨q, hq, h⟩ := Except.bind_eq_ok h
      obtain ⟨keys, hkeys, h⟩ := Except.bind_eq_ok h
      cases h
      refine ⟨rfl, q, hq, ?_, query_of_mapM hkeys⟩
      obtain ⟨text, htext, -⟩ := Path.parse_eq_ok hq
      refine Bool.eq_false_iff.2 fun hq => hcontext ?_
      rw [String.isPrefixOf, String.startsWith_string_iff, htext, if_pos hq]
      exact ⟨text, rfl⟩

/-- Only `$` names the whole document. -/
theorem eq_root_of_parse (h : parse expression = .ok p) (hkeys : p.keys = []) : p = root := by
  obtain ⟨hexpression, q, hq, hcontext, hquery⟩ := path_of_parse h
  obtain ⟨text, htext, -, hparse⟩ := Path.parse_eq_ok hq
  rw [hquery, hkeys] at hparse
  rw [hcontext, Grammar.eq_nil_of_parseQuery hparse] at htext
  have hroot : expression = "$" := String.toList_inj.1 htext
  cases p
  subst hexpression hkeys hroot
  rfl

/-- Reading by the query of the path finds what the walk along its keys finds. -/
theorem value_eq_get? (h : ofString expression = .ok p) :
    ∃ q, Path.ofString expression = .ok q ∧ ∀ context d, q.value context d = p.get? d := by
  obtain ⟨-, q, hq, hcontext, hquery⟩ := path_of_parse (Except.mapError_eq_ok h)
  refine ⟨q, by rw [Path.ofString, hq]; rfl, fun context d => ?_⟩
  rw [Path.value_eq_follow? hquery, hcontext]
  rfl

theorem set_of_keys (h : p.keys ≠ []) (d value : Document) :
    p.set d value = (d.write p.keys value).mapError (.resultPathMismatch p.expression) := by
  unfold set
  split
  · exact absurd ‹_› h
  · exact absurd ‹_› h
  · rfl

theorem set_eq_ok_iff (h : p.keys ≠ []) : p.set d value = .ok out ↔ d.write p.keys value = .ok out := by
  rw [set_of_keys h]
  cases d.write p.keys value <;> simp

theorem get?_set (hkeys : p.keys ≠ []) (h : p.set d value = .ok out) : p.get? out = some value :=
  Document.follow?_write ((set_eq_ok_iff hkeys).1 h)

theorem set_set (hkeys : p.keys ≠ []) (h : p.set d value = .ok out) (other : Document) :
    ∃ out', p.set d other = .ok out' ∧ p.set out other = .ok out' := by
  obtain ⟨out', hd, hout⟩ := Document.write_write ((set_eq_ok_iff hkeys).1 h) other
  exact ⟨out', (set_eq_ok_iff hkeys).2 hd, (set_eq_ok_iff hkeys).2 hout⟩

/-! ### The whole document -/

theorem set_root_obj (base update : Fields) :
    root.set (.obj base) (.obj update) = .ok (.obj (Table.merge base update)) := rfl

theorem set_root_of_ne (h : ∀ base update, d = .obj base → value ≠ .obj update) : root.set d value = .ok value := by
  cases d with
  | obj base =>
    cases value with
    | obj update => exact absurd rfl (h base update rfl)
    | _ => rfl
  | _ => rfl

theorem set_of_get? (hd : d.Canonical) (h : p.get? d = some value) : p.set d value = .ok d := by
  by_cases hkeys : p.keys = []
  · have hvalue : d = value := by simpa [get?, hkeys, Document.follow?] using h
    subst hvalue
    unfold set
    rw [hkeys]
    cases d with
    | obj fields =>
      have hsorted : Table.Sorted fields := (Document.canonical_obj_iff.1 hd).1
      dsimp only
      rw [hsorted.merge_self]
    | _ => rfl
  · exact (set_eq_ok_iff hkeys).2 (Document.write_of_follow? hd h)

theorem set_root_set (hd : d.Canonical) (hvalue : value.Canonical) (h : root.set d value = .ok out) :
    root.set out value = .ok out := by
  by_cases hobj : ∃ base update, d = .obj base ∧ value = .obj update
  · obtain ⟨base, update, rfl, rfl⟩ := hobj
    cases h
    have hbase : Table.Sorted base := (Document.canonical_obj_iff.1 hd).1
    have hupdate : Table.Sorted update := (Document.canonical_obj_iff.1 hvalue).1
    rw [set_root_obj, Table.merge_merge hbase hupdate.nodup]
  · rw [set_root_of_ne fun base update hb hu => hobj ⟨base, update, hb, hu⟩] at h
    cases h
    exact set_of_get? hvalue rfl

/-- A reference path is a lens on canonical documents, its reader being the query of the path. At `$` a write
merges two objects, the new members winning, and is idempotent. -/
theorem lens_of_ofString (h : ofString expression = .ok p) :
    (∃ q, Path.ofString expression = .ok q ∧ ∀ context d, q.value context d = p.get? d) ∧
      (∀ t v : Document, t.Canonical → p.get? t = some v → p.set t v = .ok t) ∧
      (p ≠ root →
        (∀ t v t' : Document, p.set t v = .ok t' → p.get? t' = some v) ∧
        ∀ t v t' w : Document, p.set t v = .ok t' → ∃ t'', p.set t w = .ok t'' ∧ p.set t' w = .ok t'') ∧
      (p = root →
        (∀ base update : Fields, (Document.obj base).Canonical → (Document.obj update).Canonical →
          ∃ merged : Fields, p.set (.obj base) (.obj update) = .ok (.obj merged) ∧ merged.Sorted ∧
            ∀ name, merged.get? name = (update.get? name).or (base.get? name)) ∧
        (∀ t v : Document, (∀ base update, t = .obj base → v ≠ .obj update) → p.set t v = .ok v) ∧
        ∀ t v t' : Document, t.Canonical → v.Canonical → p.set t v = .ok t' → p.set t' v = .ok t') := by
  refine ⟨value_eq_get? h, fun t v ht hv => set_of_get? ht hv, fun hroot => ?_, ?_⟩
  · have hkeys : p.keys ≠ [] := fun hkeys => hroot (eq_root_of_parse (Except.mapError_eq_ok h) hkeys)
    exact ⟨fun t v t' ht' => get?_set hkeys ht', fun t v t' w ht' => set_set hkeys ht' w⟩
  · rintro rfl
    refine ⟨fun base update hbase hupdate => ⟨_, set_root_obj base update, ?_, fun name => ?_⟩,
      fun t v => set_root_of_ne, fun t v t' => set_root_set⟩
    · exact Table.sorted_merge (Document.canonical_obj_iff.1 hbase).1 update
    · exact Table.get?_merge base (Document.canonical_obj_iff.1 hupdate).1.nodup

/-- A null is written below a null, by a negative index and a name that looks like a number. -/
theorem lens_of_ofString_throughNull :
    ∃ p, ofString "$.list[-1]['0']" = .ok p ∧ p ≠ root ∧
      p.set (.obj [("list", .arr [.null])]) .null = .ok (.obj [("list", .arr [.obj [("0", .null)]])]) ∧
      p.get? (.obj [("list", .arr [.obj [("0", .null)]])]) = some .null := by
  have hp : ofString "$.list[-1]['0']" = .ok ⟨"$.list[-1]['0']", [.name "list", .index (-1), .name "0"]⟩ :=
    Except.eq_ok_of_toOption (by decide +kernel)
  have hset : (⟨"$.list[-1]['0']", [.name "list", .index (-1), .name "0"]⟩ : ReferencePath).set
      (.obj [("list", .arr [.null])]) .null = .ok (.obj [("list", .arr [.obj [("0", .null)]])]) := rfl
  have hroot : (⟨"$.list[-1]['0']", [.name "list", .index (-1), .name "0"]⟩ : ReferencePath) ≠ root := by decide
  exact ⟨_, hp, hroot, hset, ((lens_of_ofString hp).2.2.1 hroot).1 _ _ _ hset⟩

end ReferencePath
end StepFlow
