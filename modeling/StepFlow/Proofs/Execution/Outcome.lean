import StepFlow.Proofs.Execution.Attempt
import StepFlow.Proofs.Workflow.Closed

/-!
# Outcomes of states

What running a state can come to: an outcome that leads to one of the targets of the state, or to the
end where the state may end, or an error of the state itself (`State.Gives`).
-/

namespace StepFlow

/-- The state may be left that way: for one of its targets, or for the end. -/
def State.MayLead (s : State) : Option String → Prop
  | some next => next ∈ s.targets
  | none => s.isEnd

/-- The outcome is one that the state can have; a Fail state passes its input on. -/
structure State.Admits (s : State) (input : Document) (outcome : Outcome) : Prop where
  next : s.MayLead outcome.next
  fail : ∀ f, s.action = .fail f → outcome = ⟨none, input⟩

/-- What a visit can come to: an outcome of the state, or an error of the state itself. -/
def State.Gives (s : State) (input : Document) : Except RuntimeError Outcome → Prop
  | .ok outcome => s.Admits input outcome
  | .error e => ∀ name, e ≠ .stateNotFound name

namespace State

variable {s : State} {input : Document}

theorem mayLead_next? {t : Transition} (h : s.transition? = some t) : s.MayLead t.next? := by
  cases t with
  | next name => simp [MayLead, Transition.next?, targets, h]
  | final =>
    obtain ⟨comment, action⟩ := s
    show (mk comment action).isEnd = true
    cases action with
    | pass | task | wait | map | parallel => simpa [isEnd, action] using h
    | choice | succeed | fail => cases h

theorem isEnd_of_fail {f : FailState} (h : s.action = .fail f) : s.isEnd = true := by
  unfold isEnd
  rw [h]

theorem gives_of_transition? {t : Transition} {output : Document} (h : s.transition? = some t)
    (hfail : ∀ f, s.action ≠ .fail f) : s.Gives input (.ok ⟨t.next?, output⟩) :=
  ⟨mayLead_next? h, fun f hf => (hfail f hf).elim⟩

/-- The states whose attempts may be retried and caught. -/
theorem gives_of_leaves {r : Recovery} {name : String} {t : Transition}
    {result : Except RuntimeError Outcome} (hresult : r.Leaves name t result)
    (ht : s.transition? = some t) (hcatchers : ∀ c ∈ r.catchers, c.next ∈ s.targets)
    (hfail : ∀ f, s.action ≠ .fail f) : s.Gives input result := by
  cases hresult with
  | done output => exact gives_of_transition? ht hfail
  | caught h output => exact ⟨hcatchers _ h, fun f hf => (hfail f hf).elim⟩
  | failed f => nofun
  | unwritten e => nofun

end State

theorem ChoiceState.firstMatch_mem {context input : Document} {choices : List Choice} {next : String}
    (h : firstMatch context input choices = .ok (some next)) : ∃ c ∈ choices, c.next = next := by
  induction choices with
  | nil => cases h
  | cons c rest ih =>
    obtain ⟨holds, -, h⟩ := Except.bind_eq_ok h
    cases holds with
    | true => exact ⟨c, List.mem_cons_self .., by simpa using h⟩
    | false =>
      obtain ⟨c', hc', hnext⟩ := ih h
      exact ⟨c', List.mem_cons_of_mem _ hc', hnext⟩

theorem PassState.run_gives {s : PassState} {comment : Option String} {name : String}
    {context input : Document} :
    (State.mk comment (.pass s)).Gives input (s.run name context input) := by
  unfold PassState.run
  dsimp only
  split
  · rename_i result _
    cases hmerge : mergeResult s.resultPath (renderWith s.parameters context
      (s.filters.input context input)) result with
    | error e => nofun
    | ok d => exact State.gives_of_transition? rfl nofun
  · exact State.gives_of_transition? rfl nofun

theorem ChoiceState.run_gives {s : ChoiceState} {comment : Option String} {name : String}
    {context input : Document} :
    (State.mk comment (.choice s)).Gives input (s.run name context input) := by
  unfold ChoiceState.run
  dsimp only
  cases hfound : firstMatch context (s.filters.input context input) s.choices with
  | error e => nofun
  | ok found =>
    show State.Gives _ _ (match found.or s.default with
      | some next => _
      | none => _)
    cases hnext : found.or s.default with
    | none => nofun
    | some next =>
      refine ⟨?_, nofun⟩
      show next ∈ [] ++ (s.choices.map (·.next) ++ s.default.toList)
      rcases Option.or_eq_some_iff.1 hnext with h | ⟨-, h⟩
      · rw [h] at hfound
        obtain ⟨c, hc, rfl⟩ := firstMatch_mem hfound
        simp only [List.nil_append, List.mem_append, List.mem_map]
        exact .inl ⟨c, hc, rfl⟩
      · simp [h]

theorem WaitState.ne_stateNotFound {s : WaitState} {now : Timestamp} {name : String}
    {context input : Document} {e : RuntimeError} (h : s.span now name context input = .error e) :
    ∀ other, e ≠ .stateNotFound other := by
  unfold WaitState.span WaitDuration.span at h
  split at h
  · cases h
  · dsimp only at h
    split at h <;> cases h
    nofun
  · cases h
  · dsimp only at h
    split at h <;> cases h
    nofun

end StepFlow
