import Mathlib.Data.List.Basic

namespace GrammarService

/-!
# What is done in steps

Steps that can fail come to a value if each of them does, and to an error if one of them does. What
every step of a fold keeps, the fold keeps.
-/

universe u v

variable {ε ε' : Type u} {α β : Type v}

/-- Checks that succeed one after the other succeed each. -/
theorem ok_of_bind
    {first : Except ε α}
    {next : α → Except ε β}
    {value : β}
    (succeeds : (first >>= next) = .ok value) :
    ∃ middle, first = .ok middle ∧ next middle = .ok value := by
  cases first with
  | error fault => cases succeeds
  | ok middle => exact ⟨middle, rfl, succeeds⟩

/-- What comes to an error has come to it at one of its steps. -/
theorem error_of_bind
    {first : Except ε α}
    {next : α → Except ε β}
    {error : ε}
    (comes : (first >>= next) = .error error) :
    first = .error error ∨ ∃ middle, first = .ok middle ∧ next middle = .error error := by
  cases first with
  | error failure =>
      cases comes
      exact .inl rfl
  | ok middle => exact .inr ⟨middle, rfl, comes⟩

/-- An error that is told otherwise is what another error is told as. -/
theorem exists_of_mapError
    {change : ε → ε'}
    {result : Except ε α}
    {error : ε'}
    (comes : result.mapError change = .error error) :
    ∃ cause, error = change cause := by
  cases result <;> cases comes
  exact ⟨_, rfl⟩

/-- What comes to a value does so without its error being told otherwise. -/
theorem ok_of_mapError
    {change : ε → ε'}
    {result : Except ε α}
    {value : α}
    (comes : result.mapError change = .ok value) :
    result = .ok value := by
  cases result <;> cases comes
  rfl

/-- What every step of a checked fold keeps, the fold keeps. -/
theorem foldlM_keeps
    {step : β → α → Except ε β}
    (property : β → Prop)
    {items : List α}
    (keeps :
      ∀ item ∈ items, ∀ before after,
        property before → step before item = .ok after → property after)
    {before after : β}
    (folded : items.foldlM step before = .ok after)
    (holds : property before) :
    property after := by
  induction items generalizing before with
  | nil =>
      cases folded
      exact holds
  | cons head tail inductionHypothesis =>
      rw [List.foldlM_cons] at folded
      obtain ⟨middle, stepped, folded⟩ := ok_of_bind folded
      exact inductionHypothesis
        (fun item member => keeps item (List.mem_cons_of_mem head member)) folded
        (keeps head List.mem_cons_self before middle holds stepped)

/-- What every step of a fold keeps, the fold keeps. -/
theorem foldl_keeps
    {step : β → α → β}
    (property : β → Prop)
    {items : List α}
    (keeps : ∀ item ∈ items, ∀ before, property before → property (step before item))
    {before : β}
    (holds : property before) :
    property (items.foldl step before) := by
  induction items generalizing before with
  | nil => exact holds
  | cons head tail inductionHypothesis =>
      exact inductionHypothesis
        (fun item member => keeps item (List.mem_cons_of_mem head member))
        (keeps head List.mem_cons_self before holds)

end GrammarService
