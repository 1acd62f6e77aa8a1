import GrammarService.Dialogue
import Mathlib.Data.List.Count
import Mathlib.Logic.Function.Basic

namespace GrammarService

/-!
# Histories of dialogues

What a dialogue did so far is its history: its calls with their answers, oldest first. A property
of a dialogue that speaks of histories is proved for all answers at once, and so it holds whoever
answers, and whatever other dialogues do in between.
-/

namespace Dialogue

variable {Call : Type} {Answer : Call → Type} {α β σ ι : Type}

/-- The calls made so far with their answers, oldest first. -/
abbrev History (Answer : Call → Type) := List (Sigma Answer)

/--
Whatever is answered, each call of a dialogue is allowed by the history before it, and the result
fits the history of the whole dialogue.
-/
def Keeps
    (allowed : History Answer → Call → Prop)
    (fits : History Answer → α → Prop) :
    (history : History Answer) → Dialogue Answer α → Prop
  | history, .done result => fits history result
  | history, .ask call next =>
      allowed history call ∧
        ∀ answer, (next answer).Keeps allowed fits (history ++ [⟨call, answer⟩])

namespace Keeps

variable
  {allowed : History Answer → Call → Prop}
  {fits : History Answer → α → Prop}
  {history : History Answer}
  {dialogue : Dialogue Answer α}

/-- What fits a history with its result can be replaced by what follows from it. -/
theorem mono
    {fitting : History Answer → α → Prop}
    (keeps : dialogue.Keeps allowed fits history)
    (weaker : ∀ history result, fits history result → fitting history result) :
    dialogue.Keeps allowed fitting history := by
  induction dialogue generalizing history with
  | done result => exact weaker _ _ keeps
  | ask call next inductionHypothesis =>
      exact ⟨keeps.1, fun answer => inductionHypothesis answer (keeps.2 answer)⟩

/-- A dialogue may go on with another one if that one may follow each of its results. -/
theorem andThen
    {fitting : History Answer → β → Prop}
    {following : α → Dialogue Answer β}
    (keeps :
      dialogue.Keeps allowed
        (fun history result => (following result).Keeps allowed fitting history) history) :
    (dialogue.andThen following).Keeps allowed fitting history := by
  induction dialogue generalizing history with
  | done result => exact keeps
  | ask call next inductionHypothesis =>
      exact ⟨keeps.1, fun answer => inductionHypothesis answer (keeps.2 answer)⟩

/-- A run of a dialogue has a history that is allowed call by call and that fits its result. -/
theorem transcript
    (keeps : dialogue.Keeps allowed fits history)
    (handler : Handler Answer σ)
    (state : σ) :
    (∀ before event after,
        dialogue.transcript handler state = before ++ event :: after →
          allowed (history ++ before) event.1) ∧
      fits (history ++ dialogue.transcript handler state) (dialogue.run handler state).1 := by
  induction dialogue generalizing history state with
  | done result =>
      refine ⟨fun before event after isSplit => ?_, ?_⟩
      · simp [Dialogue.transcript] at isSplit
      · simpa [Dialogue.transcript, Dialogue.run, Keeps] using keeps
  | ask call next inductionHypothesis =>
      obtain ⟨eachAllowed, resultFits⟩ :=
        inductionHypothesis (handler call state).1 (keeps.2 _) (handler call state).2
      constructor
      · intro before event after isSplit
        cases before with
        | nil =>
            obtain ⟨rfl, -⟩ := List.cons.inj isSplit
            simpa using keeps.1
        | cons first rest =>
            obtain ⟨rfl, goesOn⟩ := List.cons.inj isSplit
            simpa using eachAllowed rest event after goesOn
      · simpa [Dialogue.transcript, Dialogue.run] using resultFits

end Keeps

/-- Every event of a run is a call with what the handler answers to it in some state. -/
theorem exists_state_of_mem_transcript
    {dialogue : Dialogue Answer α}
    {handler : Handler Answer σ}
    {state : σ}
    {event : Sigma Answer}
    (present : event ∈ dialogue.transcript handler state) :
    ∃ state, event.2 = (handler event.1 state).1 := by
  induction dialogue generalizing state with
  | done result => cases present
  | ask call next inductionHypothesis =>
      rcases List.mem_cons.mp present with rfl | later
      · exact ⟨state, rfl⟩
      · exact inductionHypothesis _ later

/-- Whatever is answered, a dialogue makes no more than a number of calls. -/
def EndsWithin : Dialogue Answer α → (count : Nat) → Prop
  | .done _, _ => True
  | .ask _ _, 0 => False
  | .ask _ next, count + 1 => ∀ answer, (next answer).EndsWithin count

namespace EndsWithin

variable {count : Nat} {dialogue : Dialogue Answer α}

/-- A dialogue that makes no calls is done. -/
theorem exists_done (ends : dialogue.EndsWithin 0) : ∃ result, dialogue = .done result := by
  cases dialogue with
  | done result => exact ⟨result, rfl⟩
  | ask call next => exact ends.elim

/-- One turn takes one call off a dialogue. -/
theorem step
    (ends : dialogue.EndsWithin count)
    (handler : Handler Answer σ)
    (state : σ) :
    (dialogue.step handler state).1.EndsWithin (count - 1) := by
  cases dialogue with
  | done result => simp [Dialogue.step, EndsWithin]
  | ask call next =>
      cases count with
      | zero => exact ends.elim
      | succ count => exact ends _

/-- A dialogue that makes few calls makes no more than many. -/
theorem mono
    {many : Nat}
    (ends : dialogue.EndsWithin count)
    (fewer : count ≤ many) :
    dialogue.EndsWithin many := by
  induction dialogue generalizing count many with
  | done result => simp [EndsWithin]
  | ask call next inductionHypothesis =>
      cases count with
      | zero => exact ends.elim
      | succ count =>
          obtain ⟨many, rfl⟩ := Nat.exists_eq_add_of_le' (Nat.lt_of_lt_of_le count.succ_pos fewer)
          exact fun answer =>
            inductionHypothesis answer (ends answer) (Nat.le_of_succ_le_succ fewer)

/-- A dialogue that goes on with another one makes the calls of both. -/
theorem andThen
    {countBehind : Nat}
    {following : α → Dialogue Answer β}
    (ends : dialogue.EndsWithin count)
    (endsBehind : ∀ result, (following result).EndsWithin countBehind) :
    (dialogue.andThen following).EndsWithin (count + countBehind) := by
  induction dialogue generalizing count with
  | done result => exact (endsBehind result).mono (Nat.le_add_left ..)
  | ask call next inductionHypothesis =>
      cases count with
      | zero => exact ends.elim
      | succ count =>
          rw [Nat.succ_add]
          exact fun answer => inductionHypothesis answer (ends answer)

end EndsWithin

/-- The call that a dialogue makes next with its answer, if there is one left. -/
def firstEvent
    (handler : Handler Answer σ)
    (state : σ) :
    Dialogue Answer α → History Answer
  | .done _ => []
  | .ask call _ => [⟨call, (handler call state).1⟩]

/-- Dialogues that take turns over one state, each with its history. -/
structure Gathering (Answer : Call → Type) (ι α σ : Type) where
  remaining : ι → Dialogue Answer α
  history : ι → History Answer
  state : σ

namespace Gathering

variable [DecidableEq ι]

omit [DecidableEq ι] in
/-- Dialogues that have not begun. -/
def start
    (dialogues : ι → Dialogue Answer α)
    (state : σ) :
    Gathering Answer ι α σ where
  remaining := dialogues
  history := fun _ => []
  state := state

/-- Let one of the dialogues make its next call. -/
def turn
    (handler : Handler Answer σ)
    (gathering : Gathering Answer ι α σ)
    (speaker : ι) :
    Gathering Answer ι α σ :=
  let stepped := (gathering.remaining speaker).step handler gathering.state
  let event := (gathering.remaining speaker).firstEvent handler gathering.state
  { remaining := Function.update gathering.remaining speaker stepped.1
    history :=
      Function.update gathering.history speaker (gathering.history speaker ++ event)
    state := stepped.2 }

/-- Let the dialogues make calls in the order of a schedule. -/
def turns
    (handler : Handler Answer σ)
    (gathering : Gathering Answer ι α σ)
    (schedule : List ι) :
    Gathering Answer ι α σ :=
  schedule.foldl (turn handler) gathering

variable
  {handler : Handler Answer σ}
  {gathering : Gathering Answer ι α σ}
  {speaker : ι}

/-- A dialogue that is done changes nothing when it is its turn. -/
theorem turn_of_done
    {result : α}
    (isDone : gathering.remaining speaker = .done result) :
    gathering.turn handler speaker = gathering := by
  cases gathering with
  | mk remaining history state =>
      dsimp only at isDone
      simp only [turn, isDone, Dialogue.step, firstEvent, List.append_nil,
        Function.update_eq_self]
      rw [← isDone, Function.update_eq_self]

/-- What a turn does when the dialogue whose turn it is makes a call. -/
theorem turn_of_ask
    {call : Call}
    {next : Answer call → Dialogue Answer α}
    (asks : gathering.remaining speaker = .ask call next) :
    gathering.turn handler speaker =
      { remaining :=
          Function.update gathering.remaining speaker (next (handler call gathering.state).1)
        history :=
          Function.update gathering.history speaker
            (gathering.history speaker ++ [⟨call, (handler call gathering.state).1⟩])
        state := (handler call gathering.state).2 } := by
  simp [turn, asks, Dialogue.step, firstEvent]

/-- What every turn keeps holds after all turns of a schedule. -/
theorem turns_induction
    {property : Gathering Answer ι α σ → Prop}
    (keeps :
      ∀ gathering speaker, property gathering → property (gathering.turn handler speaker))
    (holds : property gathering)
    (schedule : List ι) :
    property (gathering.turns handler schedule) :=
  schedule.foldlRecOn _ holds fun gathering holds speaker _ => keeps gathering speaker holds

/-- What dialogues keep for all answers is kept when they take turns. -/
theorem keeps_turn
    {allowed : ι → History Answer → Call → Prop}
    {fits : ι → History Answer → α → Prop}
    (keeps :
      ∀ member,
        (gathering.remaining member).Keeps (allowed member) (fits member)
          (gathering.history member))
    (speaker member : ι) :
    ((gathering.turn handler speaker).remaining member).Keeps (allowed member) (fits member)
      ((gathering.turn handler speaker).history member) := by
  cases speaks : gathering.remaining speaker with
  | done result =>
      rw [turn_of_done speaks]
      exact keeps member
  | ask call next =>
      rw [turn_of_ask speaks]
      by_cases isSpeaker : member = speaker
      · subst isSpeaker
        have asked := keeps member
        rw [speaks] at asked
        simpa using asked.2 _
      · simpa [Function.update_of_ne isSpeaker] using keeps member

/-- A dialogue with an upper bound on its calls has made them when it had as many turns. -/
theorem endsWithin_turns
    {count : Nat}
    {member : ι}
    (ends : (gathering.remaining member).EndsWithin count)
    (schedule : List ι) :
    ((gathering.turns handler schedule).remaining member).EndsWithin
      (count - schedule.count member) := by
  induction schedule generalizing gathering count with
  | nil => simpa [turns] using ends
  | cons speaker rest inductionHypothesis =>
      have step :
          ((gathering.turn handler speaker).remaining member).EndsWithin
            (count - [speaker].count member) := by
        by_cases isSpeaker : member = speaker
        · subst isSpeaker
          simpa [turn] using ends.step handler gathering.state
        · simpa [turn, Function.update_of_ne isSpeaker, Ne.symm isSpeaker] using ends
      have := inductionHypothesis step
      rwa [Nat.sub_sub, ← List.count_append] at this

/-- A dialogue on its own takes turns as it runs. -/
theorem turns_alone
    {dialogue : Dialogue Answer α}
    {count : Nat}
    (ends : dialogue.EndsWithin count)
    (history : History Answer)
    (state : σ) :
    (Gathering.mk (fun _ : Unit => dialogue) (fun _ => history) state).turns handler
        (List.replicate count ()) =
      ⟨fun _ => .done (dialogue.run handler state).1,
        fun _ => history ++ dialogue.transcript handler state,
        (dialogue.run handler state).2⟩ := by
  induction count generalizing dialogue history state with
  | zero =>
      obtain ⟨result, rfl⟩ := ends.exists_done
      simp [turns, Dialogue.run, Dialogue.transcript]
  | succ count inductionHypothesis =>
      cases dialogue with
      | done result =>
          have noCalls : (Dialogue.done result : Dialogue Answer α).EndsWithin count := by
            simp [EndsWithin]
          have stays := inductionHypothesis noCalls history state
          rw [List.replicate_succ, turns, List.foldl_cons, turn_of_done rfl]
          exact stays
      | ask call next =>
          rw [List.replicate_succ, turns, List.foldl_cons, turn_of_ask rfl]
          have goesOn :=
            inductionHypothesis (ends (handler call state).1)
              (history ++ [⟨call, (handler call state).1⟩]) (handler call state).2
          have onlyMember {τ : Type} (old : Unit → τ) (new : τ) :
              Function.update old () new = fun _ => new :=
            funext fun _ => Function.update_self ..
          simpa [turns, onlyMember, Dialogue.run, Dialogue.transcript] using goesOn

end Gathering

end Dialogue

end GrammarService
