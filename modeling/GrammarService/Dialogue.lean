namespace GrammarService

/-!
# Dialogues

A dialogue is a computation that makes calls to its surroundings and goes on with their answers. It
says what is called and in which order, and leaves to a handler what a call does. One dialogue can
so be run alone, be watched, or be run in turns with others over one state.
-/

/-- A computation that calls its surroundings; `Answer` gives the type of a call's answer. -/
inductive Dialogue {Call : Type} (Answer : Call → Type) (α : Type) : Type
  | done (result : α)
  | ask (call : Call) (next : Answer call → Dialogue Answer α)

namespace Dialogue

variable {Call : Type} {Answer : Call → Type} {α β σ : Type}

/-- Make one call. -/
def call (request : Call) : Dialogue Answer (Answer request) :=
  .ask request .done

/-- Go on with the result of a dialogue. -/
def andThen
    (first : Dialogue Answer α)
    (following : α → Dialogue Answer β) :
    Dialogue Answer β :=
  match first with
  | .done result => following result
  | .ask request next => .ask request fun answer => (next answer).andThen following

instance : Monad (Dialogue Answer) where
  pure := .done
  bind := andThen

/-- What calls do to a state. -/
abbrev Handler (Answer : Call → Type) (σ : Type) :=
  (request : Call) → σ → Answer request × σ

/-- Make one call of a dialogue, if there is one left. -/
def step
    (handler : Handler Answer σ)
    (state : σ) :
    Dialogue Answer α → Dialogue Answer α × σ
  | .done result => (.done result, state)
  | .ask request next =>
      let (answer, state) := handler request state
      (next answer, state)

/-- Make all calls of a dialogue. -/
def run
    (handler : Handler Answer σ)
    (state : σ) :
    Dialogue Answer α → α × σ
  | .done result => (result, state)
  | .ask request next =>
      let (answer, state) := handler request state
      (next answer).run handler state

/-- The calls of a dialogue with their answers, in order. -/
def transcript
    (handler : Handler Answer σ)
    (state : σ) :
    Dialogue Answer α → List (Sigma Answer)
  | .done _ => []
  | .ask request next =>
      let (answer, state) := handler request state
      ⟨request, answer⟩ :: (next answer).transcript handler state

end Dialogue

end GrammarService
