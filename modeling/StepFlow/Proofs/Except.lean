/-!
# Successes and failures

What a computation that succeeded has been made of, properties of what succeeds, and where a pass over a list
stops.
-/

namespace StepFlow

theorem Except.bind_eq_ok {ε α β : Type} {e : Except ε α} {f : α → Except ε β} {b : β}
    (h : e.bind f = .ok b) : ∃ a, e = .ok a ∧ f a = .ok b := by
  cases e with
  | error e => cases h
  | ok a => exact ⟨a, rfl, h⟩

theorem Except.map_eq_ok {ε α β : Type} {e : Except ε α} {f : α → β} {b : β}
    (h : e.map f = .ok b) : ∃ a, e = .ok a ∧ f a = b := by
  cases e with
  | error e => cases h
  | ok a => exact ⟨a, rfl, Except.ok.inj h⟩

@[simp] theorem Except.mapError_ok {ε ε' α : Type} (f : ε → ε') (a : α) :
    (Except.ok a : Except ε α).mapError f = .ok a := rfl

@[simp] theorem Except.mapError_error {ε ε' α : Type} (f : ε → ε') (e : ε) :
    (Except.error e : Except ε α).mapError f = .error (f e) := rfl

theorem Except.mapError_eq_ok {ε ε' α : Type} {e : Except ε α} {f : ε → ε'} {a : α}
    (h : e.mapError f = .ok a) : e = .ok a := by
  cases e with
  | error e => cases h
  | ok b => exact congrArg _ (Except.ok.inj h)

theorem Except.eq_ok_of_toOption {ε α : Type} {e : Except ε α} {a : α} (h : e.toOption = some a) :
    e = .ok a := by
  cases e with
  | error e => cases h
  | ok b => exact congrArg _ (Option.some.inj h)

/-- `P` holds of what succeeds. -/
def IfOk {ε α : Type} (P : α → Prop) (r : Except ε α) : Prop := ∀ a, r = .ok a → P a

theorem IfOk.error {ε α : Type} {P : α → Prop} (e : ε) : IfOk P (.error e) := nofun

theorem IfOk.ok {ε α : Type} {P : α → Prop} {a : α} (h : P a) : IfOk P (.ok a : Except ε α) := by
  rintro _ ⟨⟩
  exact h

/-! ### Verdicts -/

/-- A computation without its result. -/
def verdict {ε α : Type} (r : Except ε α) : Except ε Unit := r.map fun _ => ()

section

variable {ε α β : Type}

theorem verdict_eq_ok {r : Except ε α} : verdict r = .ok () ↔ ∃ a, r = .ok a := by
  cases r <;> simp [verdict, Except.map]

theorem verdict_eq_error {r : Except ε α} {e : ε} : verdict r = .error e ↔ r = .error e := by
  cases r <;> simp [verdict, Except.map]

theorem verdict_mapError_eq_ok {ε' : Type} {r : Except ε' α} {f : ε' → ε} :
    verdict (r.mapError f) = .ok () ↔ ∃ a, r = .ok a := by
  cases r <;> simp [verdict, Except.map]

theorem verdict_mapError_eq_error {ε' : Type} {r : Except ε' α} {f : ε' → ε} {e : ε} :
    verdict (r.mapError f) = .error e ↔ ∃ e', r = .error e' ∧ f e' = e := by
  cases r <;> simp [verdict, Except.map]

theorem verdict_bind {r : Except ε α} {f : α → Except ε β} {c : Except ε Unit}
    (hf : ∀ a, r = .ok a → verdict (f a) = c) : verdict (r >>= f) = (verdict r >>= fun _ => c) := by
  cases r with
  | error e => rfl
  | ok a => exact hf a rfl

theorem seq_eq_ok {a b : Except ε Unit} : (a >>= fun _ => b) = .ok () ↔ a = .ok () ∧ b = .ok () := by
  cases a <;> simp [bind, Except.bind]

theorem seq_eq_error {a b : Except ε Unit} {e : ε} :
    (a >>= fun _ => b) = .error e ↔ a = .error e ∨ a = .ok () ∧ b = .error e := by
  cases a <;> simp [bind, Except.bind]

variable {f : α → Except ε Unit}

theorem forM_eq_ok {as : List α} : forM as f = .ok () ↔ ∀ a ∈ as, f a = .ok () := by
  induction as with
  | nil => simp [pure, Except.pure]
  | cons a as ih => rw [List.forM_cons, seq_eq_ok, ih, List.forall_mem_cons]

theorem forM_eq_error {as : List α} {e : ε} : forM as f = .error e ↔
    ∃ before a after, as = before ++ a :: after ∧ (∀ b ∈ before, f b = .ok ()) ∧ f a = .error e := by
  induction as with
  | nil => simp [pure, Except.pure]
  | cons a as ih =>
    rw [List.forM_cons, seq_eq_error, ih]
    constructor
    · rintro (ha | ⟨ha, before, b, after, rfl, hbefore, hb⟩)
      · exact ⟨[], a, as, rfl, nofun, ha⟩
      · exact ⟨a :: before, b, after, rfl, List.forall_mem_cons.2 ⟨ha, hbefore⟩, hb⟩
    · rintro ⟨before, b, after, heq, hbefore, hb⟩
      cases before with
      | nil =>
        cases heq
        exact .inl hb
      | cons c before =>
        cases heq
        exact .inr ⟨hbefore _ (List.mem_cons_self ..), before, b, after, rfl,
          fun d hd => hbefore d (List.mem_cons_of_mem _ hd), hb⟩

end

end StepFlow
