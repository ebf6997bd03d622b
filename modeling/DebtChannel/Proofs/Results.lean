/-!
# Results that came through

Reading and signing are `do` blocks that stop at the first failure. The first three lemmas open such
a block from its front, or look below a map over its result or its failure, when it came through;
three more do so when it failed, and the three after that put a block together from parts that came
through. In between, two tell what was in the way of a block that stops for a reason, if there is
one. The last two say what a walk over a list comes to when nothing stops it.
-/

namespace DebtChannel

variable {α β γ ε ε' : Type}

theorem exists_ok_of_bind_eq_ok {result : Except ε α} {next : α → Except ε β} {b : β}
    (h : result >>= next = .ok b) : ∃ a, result = .ok a ∧ next a = .ok b := by
  cases result with
  | error cause => cases h
  | ok a => exact ⟨a, rfl, h⟩

theorem exists_ok_of_map_eq_ok {result : Except ε α} {f : α → β} {b : β}
    (h : result.map f = .ok b) : ∃ a, result = .ok a ∧ f a = b := by
  cases result with
  | error cause => cases h
  | ok a => exact ⟨a, rfl, Except.ok.inj h⟩

theorem eq_ok_of_mapError_eq_ok {result : Except ε α} {wrap : ε → ε'} {a : α}
    (h : result.mapError wrap = .ok a) : result = .ok a := by
  cases result with
  | error cause => cases h
  | ok a' =>
      obtain rfl := Except.ok.inj h
      rfl

theorem eq_error_or_of_bind_eq_error {result : Except ε α} {next : α → Except ε β} {cause : ε}
    (h : result >>= next = .error cause) :
    result = .error cause ∨ ∃ a, result = .ok a ∧ next a = .error cause := by
  cases result with
  | error found => exact .inl (congrArg Except.error (Except.error.inj h))
  | ok a => exact .inr ⟨a, rfl, h⟩

theorem eq_error_of_map_eq_error {result : Except ε α} {f : α → β} {cause : ε}
    (h : result.map f = .error cause) : result = .error cause := by
  cases result with
  | error found => exact congrArg Except.error (Except.error.inj h)
  | ok a => cases h

theorem exists_error_of_mapError_eq_error {result : Except ε α} {wrap : ε → ε'} {cause : ε'}
    (h : result.mapError wrap = .error cause) : ∃ found, result = .error found ∧ wrap found = cause := by
  cases result with
  | error found => exact ⟨found, rfl, Except.error.inj h⟩
  | ok a => cases h

theorem eq_none_of_elim_eq_ok {cause? : Option ε} {a b : α}
    (h : cause?.elim (.ok a) .error = Except.ok b) : cause? = none := by
  cases cause? with
  | none => rfl
  | some cause => cases h

theorem eq_some_of_elim_eq_error {cause? : Option ε} {a : α} {cause : ε}
    (h : cause?.elim (.ok a) .error = Except.error cause) : cause? = some cause := by
  cases cause? with
  | none => cases h
  | some found => exact congrArg some (Except.error.inj h)

theorem bind_eq_ok {result : Except ε α} {next : α → Except ε β} {a : α} {b : β}
    (h : result = .ok a) (hnext : next a = .ok b) : result >>= next = .ok b := by
  rw [h]
  exact hnext

theorem map_eq_ok {result : Except ε α} {f : α → β} {a : α} (h : result = .ok a) :
    result.map f = .ok (f a) := by
  rw [h]
  rfl

theorem mapError_eq_ok {result : Except ε α} {wrap : ε → ε'} {a : α} (h : result = .ok a) :
    result.mapError wrap = .ok a := by
  rw [h]
  rfl

theorem eq_ok_of_toOption_eq_some {result : Except ε α} {a : α} (h : result.toOption = some a) :
    result = .ok a := by
  cases result with
  | error cause => cases h
  | ok a' => exact congrArg Except.ok (Option.some.inj h)

/-- A walk that succeeds on every element succeeds on the list. -/
theorem mapM_map_eq_pure {μ : Type → Type} [Monad μ] [LawfulMonad μ] (write : α → β)
    (read : β → μ γ) (g : α → γ) {values : List α}
    (h : ∀ value ∈ values, read (write value) = pure (g value)) :
    (values.map write).mapM read = pure (values.map g) := by
  induction values with
  | nil => rfl
  | cons value values ih =>
      rw [List.map_cons, List.mapM_cons, h value List.mem_cons_self, pure_bind,
        ih fun other hother => h other (List.mem_cons_of_mem _ hother), pure_bind, List.map_cons]

/-- A list reads back if each of its elements does. -/
theorem mapM_map_eq_ok {write : α → β} {read : β → Except ε α} {values : List α}
    (h : ∀ value ∈ values, read (write value) = .ok value) :
    (values.map write).mapM read = .ok values := by
  have hall := mapM_map_eq_pure write read id h
  rwa [List.map_id] at hall

end DebtChannel
