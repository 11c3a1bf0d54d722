import Mathlib.Data.List.Forall2
import StepFlow.Proofs.Path.Acceptance
import StepFlow.Proofs.Path.RoundTrip
import StepFlow.Proofs.Workflow.ContextFree

/-!
# What a template renders to

`Template.RendersTo` says what a document renders to as a template: at each place that is read as a path stands
what this reads, as it is, and all else is as before, under the keys without their suffix. Of two keys that
become the same one that with the suffix counts. There is only one such rendering (`RendersTo.unique`), and it is
the one that is made (`rendersTo_render`).
-/

namespace StepFlow
namespace Template

variable {context input : Document} {d c out v w : Document} {key name : String} {p : Position}
variable {location : List Position}

/-! ### What is rendered -/

/-- The value is a path, which reads `out`: null where it matches nothing. -/
def Reads (context input d out : Document) : Prop :=
  ∃ expression p, d = .str expression ∧ Path.ofString expression = .ok p ∧
    out = (p.value context input).getD .null

/-- The value is a scalar and no text that starts with `$`. -/
def IsLiteral : Document → Prop
  | .arr _ | .obj _ => False
  | .str s => ¬ StartsPath s
  | _ => True

/-- A document, taken as a template, renders to another one. The members of an object are those of the
template under their names without the suffix; where a name with the suffix is there, it is this one that is
rendered, and the name without it stands for nothing. -/
inductive RendersTo (context input : Document) : Document → Document → Prop
  | path {s : String} {out : Document} : StartsPath s → Reads context input (.str s) out →
      RendersTo context input (.str s) out
  | literal {d : Document} : IsLiteral d → RendersTo context input d d
  | list {items outs : List Document} : outs.length = items.length →
      (∀ (i : Nat) (d out : Document), items[i]? = some d → outs[i]? = some out →
        RendersTo context input d out) →
      RendersTo context input (.arr items) (.arr outs)
  | record {fields members : Fields} : members.Sorted →
      (∀ name, name ∈ members.names ↔ name ∈ fields.names.map outName) →
      (∀ name v w, Table.get? (name ++ ".$") fields = some v → Table.get? name members = some w →
        Reads context input v w) →
      (∀ name v w, pathKey? name = none → Table.get? (name ++ ".$") fields = none →
        Table.get? name fields = some v → Table.get? name members = some w → RendersTo context input v w) →
      RendersTo context input (.obj fields) (.obj members)

/-- What a member of a template renders to. -/
def MemberRendersTo (context input : Document) (key : String) (v w : Document) : Prop :=
  if (pathKey? key).isSome then Reads context input v w else RendersTo context input v w

/-- The members are what those of the template render to, one after the other. -/
def MembersRenderTo (context input : Document) (fields members : Fields) : Prop :=
  List.Forall₂ (fun entry out => out.1 = outName entry.1 ∧
    MemberRendersTo context input entry.1 entry.2 out.2) fields members

theorem ofField_renders {field : String × Template}
    (hsub : ∀ t, ofDocument d = .ok t → RendersTo context input d (t.render context input))
    (h : ofField key d = .ok field) :
    field.1 = outName key ∧ MemberRendersTo context input key d (field.2.render context input) := by
  unfold ofField at h
  unfold MemberRendersTo outName
  split at h
  · rename_i name expression hkey
    obtain ⟨p, hp, rfl⟩ := Except.map_eq_ok h
    rw [hkey]
    exact ⟨rfl, expression, p, rfl, hp, rfl⟩
  · cases h
  · rename_i hkey
    obtain ⟨t, ht, rfl⟩ := Except.map_eq_ok h
    rw [hkey]
    exact ⟨rfl, hsub t ht⟩

section

variable {fields members : Fields} (h : MembersRenderTo context input fields members)
include h

theorem MembersRenderTo.names_eq : members.names = fields.names.map outName := by
  induction h with
  | nil => rfl
  | cons hentry _ ih => exact congrArg₂ List.cons hentry.1 ih

/-- Of the members that are rendered under one name the one that stands last is kept. -/
theorem MembersRenderTo.get?_ofList (hfields : fields.Sorted) (hv : Table.get? key fields = some v)
    (hlast : ∀ k ∈ fields.names, outName k = outName key → ¬ key < k) :
    ∃ w, Table.get? (outName key) (Table.ofList members) = some w ∧
      MemberRendersTo context input key v w := by
  obtain ⟨before, after, rfl⟩ := List.append_of_mem (Table.mem_of_get? hv)
  have hdrop := List.forall₂_drop before.length h
  rw [List.drop_left] at hdrop
  obtain ⟨⟨_, w⟩, after', ⟨rfl, hw⟩, hafter, hmembers⟩ := List.forall₂_cons_left_iff.1 hdrop
  refine ⟨w, ?_, hw⟩
  rw [← List.take_append_drop before.length members, hmembers]
  -- No member behind this one is rendered under the same name: its key would be greater.
  refine Table.get?_ofList_of_last fun hmem => ?_
  rw [MembersRenderTo.names_eq hafter] at hmem
  obtain ⟨k, hk, heq⟩ := List.mem_map.1 hmem
  have hkey : key < k := by
    rw [Table.Sorted, Table.names_append, List.pairwise_append] at hfields
    exact List.rel_of_pairwise_cons hfields.2.1 hk
  exact hlast k (by rw [Table.names_append]; exact List.mem_append_right _ (List.mem_cons_of_mem _ hk)) heq hkey

theorem MembersRenderTo.record (hfields : fields.Sorted) :
    RendersTo context input (.obj fields) (.obj (Table.ofList members)) := by
  refine .record (Table.sorted_ofList _) (fun name => ?_) (fun name v w hv hw => ?_) fun name v w hname hnone hv hw => ?_
  · rw [← h.names_eq, ← not_iff_not, ← Table.get?_eq_none_iff, Table.get?_ofList_eq_none_iff]
  · have hlast : ∀ k ∈ fields.names, outName k = outName (name ++ ".$") → ¬ name ++ ".$" < k := by
      intro k _ hk
      rw [outName_append, outName_eq_iff] at hk
      rcases hk with rfl | ⟨-, rfl⟩
      · exact String.lt_irrefl _
      · exact String.lt_asymm (lt_append k)
    obtain ⟨w', hw', hreads⟩ := h.get?_ofList hfields hv hlast
    rw [outName_append, hw] at hw'
    obtain rfl := Option.some.inj hw'
    rwa [MemberRendersTo, pathKey?_append] at hreads
  · have hlast : ∀ k ∈ fields.names, outName k = outName name → ¬ name < k := by
      intro k hk heq
      rw [outName_of_none hname, outName_eq_iff] at heq
      rcases heq with rfl | ⟨-, rfl⟩
      · exact absurd hk (Table.get?_eq_none_iff.1 hnone)
      · exact String.lt_irrefl _
    obtain ⟨w', hw', hrenders⟩ := h.get?_ofList hfields hv hlast
    rw [outName_of_none hname, hw] at hw'
    obtain rfl := Option.some.inj hw'
    rwa [MemberRendersTo, hname] at hrenders

end

theorem getElem?_of_forall₂ {α β : Type} {R : α → β → Prop} {l : List α} {l' : List β} (h : List.Forall₂ R l l')
    {i : Nat} {a : α} {b : β} (ha : l[i]? = some a) (hb : l'[i]? = some b) : R a b := by
  induction h generalizing i with
  | nil => cases ha
  | cons hR _ ih =>
    cases i with
    | zero =>
      cases ha
      cases hb
      exact hR
    | succ i => exact ih ha hb

mutual

/-- A template that has been read renders to what its document renders to. -/
theorem rendersTo_render {d : Document} {t : Template} (hd : d.Canonical) (h : ofDocument d = .ok t) :
    RendersTo context input d (t.render context input) := by
  cases d with
  | null | bool | num =>
    cases h
    exact .literal trivial
  | str s =>
    unfold ofDocument at h
    split at h
    · rename_i hprefix
      obtain ⟨p, hp, rfl⟩ := Except.map_eq_ok h
      exact .path (Text.isPrefixOf_iff.1 hprefix) ⟨s, p, rfl, hp, rfl⟩
    · rename_i hprefix
      cases h
      exact .literal fun hs => hprefix (Text.isPrefixOf_iff.2 hs)
  | arr items =>
    obtain ⟨ts, hts, rfl⟩ := Except.map_eq_ok h
    have hitems := renderItems_rendersTo (Document.canonical_arr_iff.1 hd) hts
    exact .list hitems.length_eq.symm fun i d out => getElem?_of_forall₂ hitems
  | obj fields =>
    obtain ⟨ts, hts, rfl⟩ := Except.map_eq_ok h
    obtain ⟨hsorted, hfields⟩ := Document.canonical_obj_iff.1 hd
    exact (renderFields_rendersTo hfields hts).record hsorted

theorem renderItems_rendersTo {items : List Document} {ts : List Template} (hd : ∀ d ∈ items, d.Canonical)
    (h : ofItems items = .ok ts) :
    List.Forall₂ (RendersTo context input) items (renderItems context input ts) := by
  cases items with
  | nil =>
    cases h
    exact .nil
  | cons d items =>
    obtain ⟨hd, hitems⟩ := List.forall_mem_cons.1 hd
    obtain ⟨t, ht, h⟩ := Except.bind_eq_ok h
    obtain ⟨ts', hts', h⟩ := Except.bind_eq_ok h
    cases h
    exact .cons (rendersTo_render hd ht) (renderItems_rendersTo hitems hts')

theorem renderFields_rendersTo {fields : Fields} {ts : List (String × Template)}
    (hd : ∀ entry ∈ fields, entry.2.Canonical) (h : ofFields fields = .ok ts) :
    MembersRenderTo context input fields (renderFields context input ts) := by
  cases fields with
  | nil =>
    cases h
    exact .nil
  | cons entry fields =>
    obtain ⟨key, d⟩ := entry
    obtain ⟨hd, hfields⟩ := List.forall_mem_cons.1 hd
    rw [ofFields_cons] at h
    obtain ⟨field, hfield, h⟩ := Except.bind_eq_ok h
    obtain ⟨ts', hts', h⟩ := Except.bind_eq_ok h
    cases h
    exact .cons (ofField_renders (fun t ht => rendersTo_render hd ht) hfield) (renderFields_rendersTo hfields hts')

end

/-! ### There is only one rendering -/

theorem Reads.unique (h : Reads context input d v) (h' : Reads context input d w) : v = w := by
  obtain ⟨_, p, rfl, hp, rfl⟩ := h
  obtain ⟨_, q, heq, hq, rfl⟩ := h'
  cases heq
  cases hp.symm.trans hq
  rfl

/-- A name is rendered from the key with the suffix if there is one, else from the key that is this name. -/
theorem exists_of_mem_outNames {fields : Fields} (h : name ∈ fields.names.map outName) :
    (∃ v, Table.get? (name ++ ".$") fields = some v) ∨
    (Table.get? (name ++ ".$") fields = none ∧ pathKey? name = none ∧ ∃ v, Table.get? name fields = some v) := by
  obtain ⟨key, hkey, heq⟩ := List.mem_map.1 h
  cases hdollar : Table.get? (name ++ ".$") fields with
  | some v => exact .inl ⟨v, rfl⟩
  | none =>
    rcases outName_eq_iff.1 heq with rfl | ⟨hnone, rfl⟩
    · exact absurd hkey (Table.get?_eq_none_iff.1 hdollar)
    · refine .inr ⟨rfl, hnone, Option.ne_none_iff_exists'.1 fun hget => ?_⟩
      exact Table.get?_eq_none_iff.1 hget hkey

theorem RendersTo.unique (h : RendersTo context input d v) (h' : RendersTo context input d w) : v = w := by
  induction h generalizing w with
  | path hs hv =>
    cases h' with
    | path _ hw => exact hv.unique hw
    | literal hliteral => exact absurd hs hliteral
  | literal hliteral =>
    cases h' with
    | path hs _ => exact absurd hs hliteral
    | literal _ => rfl
    | list => exact hliteral.elim
    | record => exact hliteral.elim
  | @list items outs hlength _ ih =>
    cases h' with
    | literal hliteral => exact hliteral.elim
    | @list _ outs' hlength' h' =>
      refine congrArg _ (List.ext_getElem (hlength.trans hlength'.symm) fun i hi hi' => ?_)
      have hitem : items[i]? = some (items.get ⟨i, hlength ▸ hi⟩) := List.getElem?_eq_getElem _
      exact ih i _ _ hitem (List.getElem?_eq_getElem hi) (h' i _ _ hitem (List.getElem?_eq_getElem hi'))
  | @record fields members hsorted hnames hpaths _ ih =>
    cases h' with
    | literal hliteral => exact hliteral.elim
    | @record _ members' hsorted' hnames' hpaths' h' =>
      refine congrArg _ (hsorted.ext hsorted' fun name => ?_)
      by_cases hname : name ∈ fields.names.map outName
      · obtain ⟨v, hv⟩ := Table.exists_get?_of_mem_names ((hnames name).2 hname)
        obtain ⟨w, hw⟩ := Table.exists_get?_of_mem_names ((hnames' name).2 hname)
        rw [hv, hw]
        rcases exists_of_mem_outNames hname with ⟨c, hc⟩ | ⟨hdollar, hplain, c, hc⟩
        · exact congrArg _ ((hpaths name c v hc hv).unique (hpaths' name c w hc hw))
        · exact congrArg _ (ih name c v hplain hdollar hc hv (h' name c w hplain hdollar hc hw))
      · rw [Table.get?_eq_none_iff.2 (mt (hnames name).1 hname), Table.get?_eq_none_iff.2 (mt (hnames' name).1 hname)]

/-! ### Templates without paths, and without paths of the context -/

/-- The property holds of the document and of all that is in it. -/
def Everywhere (P : Document → Prop) (d : Document) : Prop := ∀ location v, d.at? location = some v → P v

theorem Everywhere.here {P : Document → Prop} (h : Everywhere P d) : P d := h [] d rfl

theorem Everywhere.childAt? {P : Document → Prop} (h : Everywhere P d) (hc : d.childAt? p = some c) :
    Everywhere P c := fun location v hv => h (p :: location) v (by rw [Document.at?, hc]; exact hv)

/-- The value is no text that starts with `$`, and has no key that ends in `.$`. -/
def IsPlain (v : Document) : Prop :=
  (∀ s, v = .str s → ¬ StartsPath s) ∧
    ∀ fields : Fields, v = .obj fields → ∀ key ∈ fields.names, pathKey? key = none

/-- The value is no text that starts with `$$`. -/
def IsContextFree (v : Document) : Prop := ∀ rest, v ≠ .str ("$$" ++ rest)

theorem IsPlain.get?_eq_none {fields : Fields} (h : IsPlain (.obj fields)) (name : String) :
    Table.get? (name ++ ".$") fields = none := by
  refine Table.get?_eq_none_iff.2 fun hmem => ?_
  have hnone := h.2 fields rfl _ hmem
  rw [pathKey?_append] at hnone
  cases hnone

theorem Everywhere.accepted (h : Everywhere IsPlain d) (hd : d.Canonical) : Accepted d := by
  refine (accepted_iff d hd).2 fun location v hv => ⟨?_, fun s hs hstarts => absurd hstarts ((h location v hv).1 s hs)⟩
  rintro ⟨_, hlast, name, rfl⟩
  obtain ⟨above, rfl⟩ := List.getLast?_eq_some_iff.1 hlast
  obtain ⟨a, ha, hchild⟩ := Document.at?_concat_eq_some_iff.1 hv
  cases a with
  | obj fields => cases ((h above _ ha).get?_eq_none name).symm.trans hchild
  | _ => cases hchild

/-- A template without paths renders to itself. -/
theorem Everywhere.rendersTo_self (d : Document) (h : Everywhere IsPlain d) (hd : d.Canonical) :
    RendersTo context input d d := by
  have hchild {p : Position} {c : Document} (hc : d.childAt? p = some c) : RendersTo context input c c :=
    Everywhere.rendersTo_self c (h.childAt? hc) (hd.childAt? hc)
  cases d with
  | null | bool | num => exact .literal trivial
  | str s => exact .literal (h.here.1 s rfl)
  | arr items =>
    refine .list rfl fun i a b ha hb => ?_
    cases ha.symm.trans hb
    exact hchild (p := .element i) ha
  | obj fields =>
    have hplain := h.here.2 fields rfl
    have hnames : (Table.names fields).map outName = Table.names fields :=
      (List.map_congr_left fun key hkey => outName_of_none (hplain key hkey)).trans (List.map_id' _)
    refine .record hd.1 (fun name => by rw [hnames]) (fun name v w hv _ => ?_) fun name v w _ _ hv hw => ?_
    · cases (h.here.get?_eq_none name).symm.trans hv
    · cases hv.symm.trans hw
      exact hchild (p := .member name) hv
termination_by sizeOf d
decreasing_by exact Document.sizeOf_childAt? hc

theorem Reads.congr (context' : Document) (hd : IsContextFree d) (h : Reads context input d out) :
    Reads context' input d out := by
  obtain ⟨expression, p, rfl, hp, rfl⟩ := h
  refine ⟨expression, p, rfl, hp, ?_⟩
  have hfree : p.ofContext = false := by
    refine Bool.eq_false_iff.2 fun hcontext => ?_
    obtain ⟨text, htext⟩ := (Path.ofContext_iff hp).1 hcontext
    refine hd (String.ofList text) (congrArg _ ?_)
    have hrest : (String.ofList text).toList = text := String.toList_ofList ..
    rw [← String.toList_inj, htext, String.toList_append, hrest]
    rfl
  rw [p.value_congr context context' hfree]

/-- Where no path reads the context, the same is rendered in every context. -/
theorem RendersTo.congr (context' : Document) (h : RendersTo context input d out)
    (hd : Everywhere IsContextFree d) : RendersTo context' input d out := by
  induction h with
  | path hs hreads => exact .path hs (hreads.congr context' hd.here)
  | literal hliteral => exact .literal hliteral
  | list hlength _ ih => exact .list hlength fun i c w hc hw => ih i c w hc hw (hd.childAt? (p := .element i) hc)
  | record hsorted hnames hpaths _ ih =>
    refine .record hsorted hnames (fun name v w hv hw => ?_) fun name v w hname hnone hv hw => ?_
    · have hchild := hd.childAt? (p := .member (name ++ ".$")) hv
      exact (hpaths name v w hv hw).congr context' hchild.here
    · exact ih name v w hname hnone hv hw (hd.childAt? (p := .member name) hv)

/-! ### Where a path is rendered -/

/-- The position in what is rendered. -/
def outPosition : Position → Position
  | .member key => .member (outName key)
  | p => p

/-- No key on the way to the location gives way to the same key with the suffix. -/
def Kept (d : Document) (location : List Position) : Prop :=
  ∀ above key below, location = above ++ .member key :: below → pathKey? key = none →
    d.at? (above ++ [.member (key ++ ".$")]) = none

theorem Kept.childAt? (h : Kept d (p :: location)) (hc : d.childAt? p = some c) : Kept c location := by
  rintro above key below rfl hkey
  have hnone := h (p :: above) key below rfl hkey
  rwa [List.cons_append, Document.at?, hc] at hnone

theorem RendersTo.childAt? (h : RendersTo context input d out) (hkept : Kept d [p]) (hc : d.childAt? p = some c) :
    ∃ w, out.childAt? (outPosition p) = some w ∧ (IsPathKey p → Reads context input c w) ∧
      (¬ IsPathKey p → RendersTo context input c w) := by
  cases h with
  | path => cases hc
  | literal hliteral =>
    cases d with
    | arr | obj => exact hliteral.elim
    | _ => cases hc
  | @list items outs hlength h =>
    cases p with
    | member key => cases hc
    | element i =>
      have hi : i < outs.length := hlength ▸ (List.getElem?_eq_some_iff.1 hc).1
      have hout : outs[i]? = some outs[i] := List.getElem?_eq_getElem hi
      exact ⟨outs[i], hout, fun hp => absurd hp (not_isPathKey_element i), fun _ => h i c outs[i] hc hout⟩
  | @record fields members _ hnames hpaths h =>
    cases p with
    | element i => cases hc
    | member key =>
      have hget : Table.get? key fields = some c := hc
      have hkey : key ∈ fields.names := List.mem_map_of_mem (Table.mem_of_get? hget)
      obtain ⟨w, hw⟩ := Table.exists_get?_of_mem_names ((hnames (outName key)).2 (List.mem_map_of_mem hkey))
      refine ⟨w, hw, ?_, fun hother => ?_⟩
      · rintro ⟨name, ⟨⟩⟩
        rw [outName_append] at hw
        exact hpaths name c w hget hw
      · have hnone : pathKey? key = none := by
          rw [isPathKey_member, ← Option.ne_none_iff_exists', not_not] at hother
          exact hother
        have hdollar : (Document.obj fields).at? [.member (key ++ ".$")] = none := hkept [] key [] rfl hnone
        rw [Document.at?, Option.bind_eq_none_iff] at hdollar
        rw [outName_of_none hnone] at hw
        refine h key c w hnone (Option.eq_none_iff_forall_ne_some.2 fun v hv => ?_) hget hw
        cases hdollar v hv

/-- What stands at a location is rendered there, the keys on the way without their suffix. -/
theorem RendersTo.at? (h : RendersTo context input d out) (hkept : Kept d location)
    (hv : d.at? location = some v) :
    ∃ w, out.at? (location.map outPosition) = some w ∧ (UnderPathKey location → Reads context input v w) ∧
      (¬ UnderPathKey location → RendersTo context input v w) := by
  induction location generalizing d out with
  | nil =>
    obtain rfl := Option.some.inj hv
    exact ⟨out, rfl, fun hu => absurd hu not_underPathKey_nil, fun _ => h⟩
  | cons p location ih =>
    obtain ⟨c, hc, hv⟩ := Option.bind_eq_some_iff.1 hv
    have hfirst : Kept d [p] := by
      rintro (_ | ⟨q, above⟩) key below heq hkey
      · cases heq
        exact hkept [] key location rfl hkey
      · cases above <;> cases heq
    obtain ⟨w, hw, hpath, hother⟩ := h.childAt? hfirst hc
    rw [List.map_cons, Document.at?, hw]
    by_cases hp : IsPathKey p
    · -- A path is a text, so the location ends here.
      have hreads := hpath hp
      obtain ⟨expression, q, rfl, -⟩ := id hreads
      obtain ⟨rfl, rfl⟩ := at?_str hv
      exact ⟨w, rfl, fun _ => hreads, fun hu => absurd (underPathKey_singleton.2 hp) hu⟩
    · rw [underPathKey_cons hp]
      exact ih (hother hp) (hkept.childAt? hc) hv

theorem startsPath_of_ofString {expression : String} {p : Path} (h : Path.ofString expression = .ok p) :
    StartsPath expression := by
  obtain ⟨text, htext, -⟩ := Path.parse_eq_ok (Except.mapError_eq_ok h)
  have hprefix : "$".isPrefixOf expression = true := by
    rw [String.isPrefixOf, String.startsWith_string_iff, htext]
    split <;> exact ⟨_, rfl⟩
  exact Text.isPrefixOf_iff.1 hprefix

/-- A document is accepted as a template if every value of a key that ends in `.$`, and every text that starts
with `$`, is a path, at any depth. It renders to one document, that which `RendersTo` describes, and in it what
a path reads stands where the path stood. A template without paths renders to itself, and one without paths
that start with `$$` to the same in every context. -/
theorem rendering (d : Document) (hd : d.Canonical) :
    ((∃ t, ofDocument d = .ok t) ↔ ∀ location v, d.at? location = some v → InOrder location v) ∧
    (∀ t, ofDocument d = .ok t → ∀ context input,
      (∀ out, RendersTo context input d out ↔ out = t.render context input) ∧
      ∀ location expression p, d.at? location = some (.str expression) → Path.ofString expression = .ok p →
        Kept d location →
          (t.render context input).at? (location.map outPosition) = some ((p.value context input).getD .null)) ∧
    (Everywhere IsPlain d → ∃ t, ofDocument d = .ok t ∧ ∀ context input, t.render context input = d) ∧
    ∀ t, ofDocument d = .ok t → Everywhere IsContextFree d → ∀ context context' input,
      t.render context input = t.render context' input := by
  refine ⟨accepted_iff d hd, fun t ht context input => ⟨fun out => ?_, ?_⟩, fun hplain => ?_, ?_⟩
  · constructor
    · exact fun h => h.unique (rendersTo_render hd ht)
    · rintro rfl
      exact rendersTo_render hd ht
  · intro location expression p hv hp hkept
    obtain ⟨w, hw, hunder, hother⟩ := (rendersTo_render hd ht).at? hkept hv
    have hreads : Reads context input (.str expression) w := by
      by_cases hu : UnderPathKey location
      · exact hunder hu
      · cases hother hu with
        | path _ hreads => exact hreads
        | literal hliteral => exact absurd (startsPath_of_ofString hp) hliteral
    rw [hw, hreads.unique ⟨expression, p, rfl, hp, rfl⟩]
  · obtain ⟨t, ht⟩ := hplain.accepted hd
    exact ⟨t, ht, fun context input => (rendersTo_render hd ht).unique (Everywhere.rendersTo_self d hplain hd)⟩
  · intro t ht hfree context context' input
    exact ((rendersTo_render hd ht).congr context' hfree).unique (rendersTo_render hd ht)

/-- A name that stands with and without the suffix. -/
def doubled : Document := .obj [("a", .bool true), ("a.$", .str "$.b")]

theorem rendering_doubled : doubled.Canonical ∧ ∃ t p, ofDocument doubled = .ok t ∧ Path.ofString "$.b" = .ok p ∧
    ∀ context input, (t.render context input).at? [.member "a"] = some ((p.value context input).getD .null) := by
  have hnames : ["a", "a.$"].Pairwise (· < ·) := by decide
  have hd : doubled.Canonical := ⟨hnames, trivial, trivial, trivial⟩
  have hspelled : Query.Spelled [.child (.key (.name "b"))] ".b".toList :=
    .cons (.member ⟨by decide, List.all_eq_true.1 (by decide)⟩) .nil
  have hpath : Path.ofString "$.b" = .ok ⟨"$.b", false, [.child (.key (.name "b"))]⟩ :=
    congrArg (Except.mapError _) hspelled.parse_input
  have hlocation : doubled.at? [.member "a.$"] = some (.str "$.b") := rfl
  obtain ⟨t, ht⟩ : Accepted doubled := by
    have hplain : AcceptedUnder "a" (.bool true) := ⟨_, rfl⟩
    have hunder : AcceptedUnder "a.$" (.str "$.b") := ⟨_, _, rfl, hpath⟩
    exact accepted_obj.2 (List.forall_mem_cons.2 ⟨hplain, List.forall_mem_singleton.2 hunder⟩)
  refine ⟨hd, t, _, ht, hpath, fun context input => ?_⟩
  refine ((rendering doubled hd).2.1 t ht context input).2 _ _ _ hlocation hpath ?_
  rintro (_ | ⟨q, above⟩) key below heq hkey
  · cases heq
    cases hkey
  · cases above <;> cases heq

end Template
end StepFlow
