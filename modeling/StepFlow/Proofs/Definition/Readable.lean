import StepFlow.Definition.Reader
import StepFlow.Proofs.Document.Record

/-!
# Definitions that can be read

What is known of a definition that has been read from some document (`Graph.readable_of_ofDocument?`): its
numbers are words, the values in it are canonical and, where a null counts as absent, not null, and its states
are sorted by their names.
-/

namespace StepFlow.Definition

open Record

/-- A value of an optional field, as it is read. -/
structure Value (d : Document) : Prop where
  canonical : d.Canonical
  notNull : d ≠ .null

def Retrier.Readable (r : Retrier) : Prop := ∀ n ∈ r.maxAttempts, n < maxHalfWord

def Recovery.Readable (r : Recovery) : Prop := ∀ retrier ∈ r.retry, retrier.Readable

structure Pass.Readable (s : Pass) : Prop where
  parameters : ∀ d ∈ s.parameters, Value d
  result : ∀ d ∈ s.result, Value d

structure Task.Readable (s : Task) : Prop where
  parameters : ∀ d ∈ s.parameters, Value d
  resultSelector : ∀ d ∈ s.resultSelector, Value d
  recovery : s.recovery.Readable
  timeoutSeconds : ∀ n ∈ s.timeoutSeconds, n < maxWord
  heartbeatSeconds : ∀ n ∈ s.heartbeatSeconds, n < maxWord
  credentials : ∀ d ∈ s.credentials, Value d

def Choice.Readable (s : Choice) : Prop := ∀ d ∈ s.choices, d.Canonical

def Wait.Readable (s : Wait) : Prop := ∀ n ∈ s.seconds, n < maxWord

structure Map.Readable (s : Map) : Prop where
  itemSelector : ∀ d ∈ s.itemSelector, Value d
  resultSelector : ∀ d ∈ s.resultSelector, Value d
  maxConcurrency : ∀ n ∈ s.maxConcurrency, n < maxHalfWord
  recovery : s.recovery.Readable

structure Parallel.Readable (s : Parallel) : Prop where
  resultSelector : ∀ d ∈ s.resultSelector, Value d
  recovery : s.recovery.Readable

def Header.Readable (h : Header) : Prop := ∀ n ∈ h.timeoutSeconds, n < maxWord

mutual

def State.Readable : State → Prop
  | .pass s => s.Readable
  | .task s => s.Readable
  | .choice s => s.Readable
  | .wait s => s.Readable
  | .succeed _ => True
  | .fail _ => True
  | .map s iterator => s.Readable ∧ iterator.Readable
  | .parallel s branches => s.Readable ∧ BranchesReadable branches

def Graph.Readable : Graph → Prop
  | .mk header states => header.Readable ∧ Table.Sorted states ∧ StatesReadable states

def BranchesReadable : List Graph → Prop
  | [] => True
  | g :: rest => g.Readable ∧ BranchesReadable rest

def StatesReadable : List (String × State) → Prop
  | [] => True
  | (_, s) :: rest => s.Readable ∧ StatesReadable rest

end

theorem branchesReadable_iff {branches : List Graph} : BranchesReadable branches ↔ ∀ g ∈ branches, g.Readable := by
  induction branches with
  | nil => simp [BranchesReadable]
  | cons g branches ih => simp [BranchesReadable, ih]

theorem statesReadable_iff {states : List (String × State)} :
    StatesReadable states ↔ ∀ entry ∈ states, entry.2.Readable := by
  induction states with
  | nil => simp [StatesReadable]
  | cons entry states ih => simp [StatesReadable, ih]

/-! ### Fields -/

variable {t : Fields} {d : Document} {names : List String} {bound : Nat}

theorem value_of_valueField {o : Option Document} (h : valueField names t = some o) : ∀ d ∈ o, Value d := by
  intro d hd
  obtain ⟨d', hnull, heq⟩ := of_optional h d hd
  cases heq
  exact ⟨Document.canonical_canonical d', fun heq => hnull (Document.canonical_eq_null_iff.1 heq)⟩

theorem lt_of_optional {o : Option Nat} (h : optional names (Document.toNat? bound) t = some o) :
    ∀ n ∈ o, n < bound := by
  intro n hn
  obtain ⟨d, -, hd⟩ := of_optional h n hn
  exact Document.lt_of_toNat? hd

theorem Retrier.readable_of_ofDocument? {r : Retrier} (h : Retrier.ofDocument? d = some r) : r.Readable := by
  simp only [ofDocument?, Option.bind_eq_bind, Option.bind_eq_some_iff, Option.pure_def, Option.some.injEq] at h
  obtain ⟨_, -, _, -, _, -, _, hmax, _, -, rfl⟩ := h
  exact lt_of_optional hmax

theorem Recovery.readable_of_ofFields? {r : Recovery} (h : Recovery.ofFields? t = some r) : r.Readable := by
  simp only [ofFields?, Option.bind_eq_bind, Option.bind_eq_some_iff, Option.pure_def, Option.some.injEq] at h
  obtain ⟨_, hretry, _, -, rfl⟩ := h
  intro retrier hretrier
  obtain ⟨d, hd⟩ := of_defaulted_toList? hretry retrier hretrier
  exact Retrier.readable_of_ofDocument? hd

/-! ### States -/

theorem Pass.readable_of_ofFields? {s : Pass} (h : Pass.ofFields? t = some s) : s.Readable := by
  simp only [ofFields?, Option.bind_eq_bind, Option.bind_eq_some_iff, Option.pure_def, Option.some.injEq] at h
  obtain ⟨_, -, _, -, _, -, _, hparameters, _, hresult, rfl⟩ := h
  exact ⟨value_of_valueField hparameters, value_of_valueField hresult⟩

theorem Task.readable_of_ofFields? {s : Task} (h : Task.ofFields? t = some s) : s.Readable := by
  simp only [ofFields?, Option.bind_eq_bind, Option.bind_eq_some_iff, Option.pure_def, Option.some.injEq] at h
  obtain ⟨_, -, _, -, _, -, _, -, _, hparameters, _, hselector, _, hrecovery, _, htimeout, _, hheartbeat, _,
    hcredentials, rfl⟩ := h
  exact ⟨value_of_valueField hparameters, value_of_valueField hselector, Recovery.readable_of_ofFields? hrecovery,
    lt_of_optional htimeout, lt_of_optional hheartbeat, value_of_valueField hcredentials⟩

theorem Choice.readable_of_ofFields? {s : Choice} (h : Choice.ofFields? t = some s) : s.Readable := by
  simp only [ofFields?, Option.bind_eq_bind, Option.bind_eq_some_iff, Option.pure_def, Option.some.injEq] at h
  obtain ⟨_, hchoices, _, -, _, -, rfl⟩ := h
  obtain ⟨d, hd⟩ := of_required hchoices
  intro c hc
  obtain ⟨d', hd'⟩ := of_toList? hd c hc
  cases hd'
  exact Document.canonical_canonical d'

theorem Wait.readable_of_ofFields? {s : Wait} (h : Wait.ofFields? t = some s) : s.Readable := by
  simp only [ofFields?, Option.bind_eq_bind, Option.bind_eq_some_iff, Option.pure_def, Option.some.injEq] at h
  obtain ⟨_, -, _, -, _, hseconds, _, -, _, -, _, -, rfl⟩ := h
  exact lt_of_optional hseconds

theorem Map.readable_of_ofFields? {s : Map} (h : Map.ofFields? t = some s) : s.Readable := by
  simp only [ofFields?, Option.bind_eq_bind, Option.bind_eq_some_iff, Option.pure_def, Option.some.injEq] at h
  obtain ⟨_, -, _, -, _, -, _, -, _, hitem, _, hselector, _, hmax, _, hrecovery, rfl⟩ := h
  exact ⟨value_of_valueField hitem, value_of_valueField hselector, lt_of_optional hmax,
    Recovery.readable_of_ofFields? hrecovery⟩

theorem Parallel.readable_of_ofFields? {s : Parallel} (h : Parallel.ofFields? t = some s) : s.Readable := by
  simp only [ofFields?, Option.bind_eq_bind, Option.bind_eq_some_iff, Option.pure_def, Option.some.injEq] at h
  obtain ⟨_, -, _, -, _, -, _, hselector, _, hrecovery, rfl⟩ := h
  exact ⟨value_of_valueField hselector, Recovery.readable_of_ofFields? hrecovery⟩

theorem State.readable_of_stateOf? {graph : Document → Option Graph}
    (hgraph : ∀ d g, graph d = some g → g.Readable) {numbered : Bool} {s : State}
    (h : stateOf? graph numbered d = some s) : s.Readable := by
  simp only [stateOf?, Option.bind_eq_bind, Option.bind_eq_some_iff] at h
  obtain ⟨⟨type, fields⟩, -, h⟩ := h
  cases type with
  | pass =>
    obtain ⟨s, hs, rfl⟩ := Option.map_eq_some_iff.1 h
    exact Pass.readable_of_ofFields? hs
  | task =>
    obtain ⟨s, hs, rfl⟩ := Option.map_eq_some_iff.1 h
    exact Task.readable_of_ofFields? hs
  | choice =>
    obtain ⟨s, hs, rfl⟩ := Option.map_eq_some_iff.1 h
    exact Choice.readable_of_ofFields? hs
  | wait =>
    obtain ⟨s, hs, rfl⟩ := Option.map_eq_some_iff.1 h
    exact Wait.readable_of_ofFields? hs
  | succeed | fail =>
    obtain ⟨s, -, rfl⟩ := Option.map_eq_some_iff.1 h
    trivial
  | map =>
    obtain ⟨iterator, hiterator, h⟩ := Option.bind_eq_some_iff.1 h
    obtain ⟨s, hs, rfl⟩ := Option.map_eq_some_iff.1 h
    obtain ⟨d', hd'⟩ := of_required hiterator
    exact ⟨Map.readable_of_ofFields? hs, hgraph d' iterator hd'⟩
  | parallel =>
    obtain ⟨branches, hbranches, h⟩ := Option.bind_eq_some_iff.1 h
    obtain ⟨s, hs, rfl⟩ := Option.map_eq_some_iff.1 h
    obtain ⟨d', hd'⟩ := of_required hbranches
    refine ⟨Parallel.readable_of_ofFields? hs, branchesReadable_iff.2 fun g hg => ?_⟩
    obtain ⟨d'', hd''⟩ := of_toList? hd' g hg
    exact hgraph d'' g hd''

/-! ### Graphs -/

theorem statesReadable_of_statesOf? {state : Document → Option State}
    (hstate : ∀ d s, state d = some s → s.Readable) {states : Table State} (h : statesOf? state d = some states) :
    states.Sorted ∧ StatesReadable states := by
  cases d with
  | obj fields =>
    simp only [statesOf?, Option.bind_eq_bind, Option.bind_eq_some_iff] at h
    obtain ⟨entries, hentries, h⟩ := h
    cases h
    refine ⟨Table.sorted_ofList entries, statesReadable_iff.2 fun entry hentry => ?_⟩
    have hread : ∀ entry ∈ entries, entry.2.Readable := by
      clear hentry
      induction fields generalizing entries with
      | nil =>
        cases hentries
        nofun
      | cons field fields ih =>
        simp only [List.mapM_cons, Option.bind_eq_bind, Option.bind_eq_some_iff] at hentries
        obtain ⟨first, hfirst, others, hothers, heq⟩ := hentries
        cases heq
        obtain ⟨s, hs, rfl⟩ := Option.map_eq_some_iff.1 hfirst
        exact List.forall_mem_cons.2 ⟨hstate _ s hs, ih others hothers⟩
    exact hread entry (Table.mem_of_mem_ofList hentry)
  | _ => cases h

theorem Graph.readable_of_graphOf? {levels : Nat} {numbered : Bool} {g : Graph}
    (h : graphOf? levels numbered d = some g) : g.Readable := by
  induction levels generalizing numbered d g with
  | zero => cases h
  | succ levels ih =>
    simp only [graphOf?, Option.bind_eq_bind, Option.bind_eq_some_iff, Option.pure_def, Option.some.injEq] at h
    obtain ⟨_, -, _, -, states, hstates, _, -, _, -, _, htimeout, rfl⟩ := h
    obtain ⟨d', hd'⟩ := of_required hstates
    exact ⟨lt_of_optional htimeout, statesReadable_of_statesOf?
      (fun _ _ => State.readable_of_stateOf? fun _ _ => ih) hd'⟩

theorem Graph.readable_of_ofDocument? {g : Graph} (h : Graph.ofDocument? d = some g) : g.Readable :=
  readable_of_graphOf? h

end StepFlow.Definition
