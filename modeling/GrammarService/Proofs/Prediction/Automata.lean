import Mathlib
import GrammarService.Prediction.Automaton

namespace GrammarService

/-!
# Changing automata

An automaton changes in three ways only: a state is added for a set of configurations, a start is
recorded, or a successor is recorded. The lemmas here say what each leaves as it was.
-/

namespace Automaton

/-- Whether predictions at some precedence start in the state. -/
def IsStart
    (automaton : Automaton)
    (number : Nat) :
    Prop :=
  automaton.start = some number ∨
    ∃ precedence : Int, automaton.startsByPrecedence[precedence]? = some number

/-- A state with an entry in the index is found there. -/
theorem addState_of_known
    {automaton : Automaton}
    {set : ConfigurationSet}
    {number : Nat}
    (known : automaton.index[set.keys]? = some number)
    (verdict : Option Verdict) :
    automaton.addState set verdict = (number, automaton) := by
  simp [addState, known]

/-- A state without an entry in the index is appended. -/
theorem addState_of_new
    {automaton : Automaton}
    {set : ConfigurationSet}
    (new : automaton.index[set.keys]? = none)
    (verdict : Option Verdict) :
    automaton.addState set verdict =
      (automaton.states.size,
        { automaton with
          states := automaton.states.push ⟨set, ∅, verdict⟩
          index := automaton.index.insert set.keys automaton.states.size }) := by
  simp [addState, new]

/-- Remembering a successor changes the successors of one state and nothing else. -/
theorem getElem?_states_setSuccessor
    (automaton : Automaton)
    (number other : Nat)
    (symbol : Int)
    (successor : Successor) :
    (automaton.setSuccessor number symbol successor).states[other]? =
      (automaton.states[other]?).map fun state =>
        if number = other then
          { state with successors := state.successors.insert symbol successor }
        else
          state := by
  simp only [setSuccessor, Array.getElem?_modify]
  split <;> simp

/-- A state is still there, with its configurations, when a successor is remembered. -/
theorem present_setSuccessor
    {automaton : Automaton}
    {number : Nat}
    {state : AutomatonState}
    (present : automaton.states[number]? = some state)
    (other : Nat)
    (symbol : Int)
    (successor : Successor) :
    ∃ state',
      (automaton.setSuccessor other symbol successor).states[number]? = some state' ∧
        state'.configurations = state.configurations := by
  rw [getElem?_states_setSuccessor, present]
  refine ⟨_, rfl, ?_⟩
  dsimp only
  split <;> rfl

/-- What is in an array stays there when something is appended. -/
theorem getElem?_push_of_some
    {items : Array α}
    {number : Nat}
    {item last : α}
    (present : items[number]? = some item) :
    (items.push last)[number]? = some item := by
  obtain ⟨inBounds, rfl⟩ := Array.getElem?_eq_some_iff.mp present
  simp [Array.getElem?_push_lt inBounds]

/-- Recording a start leaves the states alone. -/
@[simp] theorem states_setStart
    (automaton : Automaton)
    (precedence : Int)
    (number : Nat) :
    (automaton.setStart precedence number).states = automaton.states := by
  unfold setStart
  split <;> rfl

/-- Recording a start leaves the index alone. -/
@[simp] theorem index_setStart
    (automaton : Automaton)
    (precedence : Int)
    (number : Nat) :
    (automaton.setStart precedence number).index = automaton.index := by
  unfold setStart
  split <;> rfl

/-- Recording a start leaves the successors alone. -/
@[simp] theorem successor?_setStart
    (automaton : Automaton)
    (precedence : Int)
    (recorded number : Nat)
    (symbol : Int) :
    (automaton.setStart precedence recorded).successor? number symbol =
      automaton.successor? number symbol := by
  simp [successor?]

/-- Adding a state leaves the start states alone. -/
@[simp] theorem start?_addState
    (automaton : Automaton)
    (set : ConfigurationSet)
    (verdict : Option Verdict)
    (precedence : Int) :
    (automaton.addState set verdict).2.start? precedence = automaton.start? precedence := by
  cases known : automaton.index[set.keys]? with
  | some _ => rw [addState_of_known known]
  | none => rw [addState_of_new known]; rfl

/-- Start states stay start states when a start is recorded that was missing. -/
theorem IsStart.setStart
    {automaton : Automaton}
    {number : Nat}
    (isStart : automaton.IsStart number)
    {precedence : Int}
    (missing : automaton.start? precedence = none)
    (recorded : Nat) :
    (automaton.setStart precedence recorded).IsStart number := by
  unfold start? at missing
  unfold Automaton.setStart
  by_cases byPrecedence : automaton.byPrecedence
  · simp only [byPrecedence, ↓reduceIte] at missing ⊢
    rcases isStart with isStart | ⟨other, isStart⟩
    · exact .inl isStart
    · refine .inr ⟨other, ?_⟩
      have different : precedence ≠ other := by
        rintro rfl
        simp [missing] at isStart
      simpa [Std.HashMap.getElem?_insert, different] using isStart
  · simp only [byPrecedence, Bool.false_eq_true, ↓reduceIte] at missing ⊢
    rcases isStart with isStart | isStart
    · simp [missing] at isStart
    · exact .inr isStart

/-- A recorded start state is a start state. -/
theorem isStart_setStart
    (automaton : Automaton)
    (precedence : Int)
    (number : Nat) :
    (automaton.setStart precedence number).IsStart number := by
  unfold setStart IsStart
  split
  · exact .inr ⟨precedence, by simp⟩
  · exact .inl rfl

end Automaton

end GrammarService
