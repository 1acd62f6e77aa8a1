import GrammarService.Proofs.Prediction.Ending
import GrammarService.Proofs.Arithmetic.Layout

namespace GrammarService

/-!
# The shortcut at precedence loops loses nothing

At a precedence loop predictions do not follow another round where every rule they can return to
is at the end of a round of the same loop. The states and alternatives that they find are those
they would find without this shortcut.
-/

namespace Prediction

section Shortcut

variable
  {setting : Setting}
  {shortcut endIsFree : Bool}
  {search : Search}
  {origins : List Configuration}

/-- What is found with the shortcut is what is found without it. -/
theorem hasPair_iff_of_finishes
    (coherent : setting.network.Coherent)
    (laidOut : setting.network.LaidOut)
    (isOrderly : search.IsOrderly)
    (unvisited : search.visited = ∅)
    (returnsBehindCalls : search.store.ReturnsBehindCalls setting.network)
    (areIn : ∀ origin ∈ origins, search.store.IsIn origin.stack)
    {taken followed : Search}
    (withShortcut : Finishes true setting endIsFree (jobsFrom origins) search taken)
    (without : Finishes false setting endIsFree (jobsFrom origins) search followed)
    (state alternative : Nat) :
    taken.found.HasPair state alternative ↔ followed.found.HasPair state alternative := by
  rw [withShortcut.hasPair_iff isOrderly unvisited areIn,
    without.hasPair_iff isOrderly unvisited areIn]
  refine or_congr_right (exists_congr fun origin => and_congr_right fun isOrigin =>
    and_congr_right fun _ => ?_)
  constructor
  · rintro ⟨spot, reaches, keeps, isState⟩
    exact ⟨spot, reaches.lift id fun _ _ stride => stride.of_shortcut, keeps, isState⟩
  · rintro ⟨spot, reaches, keeps, rfl⟩
    obtain ⟨steps, strides⟩ := Ground.exists_strides_iff.mpr reaches
    exact strides.exists_with_shortcut coherent laidOut isOrderly.wellMade returnsBehindCalls
      ⟨areIn origin isOrigin, by simp [spotOf]⟩ keeps

/-- Following free edges from some configurations comes to an end, and with the shortcut it does
so within the limits that predictions set. -/
theorem exists_finishes
    (shaped : setting.network.RuleShaped)
    (coherent : setting.network.Coherent)
    (nonLooping : setting.network.NonLooping)
    (shortcut : Bool)
    (isOrderly : search.IsOrderly)
    (areIn : ∀ origin ∈ origins, search.store.IsIn origin.stack) :
    ∃ result,
      Finishes shortcut setting false (jobsFrom origins) search result ∧
        (shortcut = true → origins.foldl (followFrom setting false false) search = result) := by
  induction origins generalizing search with
  | nil => exact ⟨search, .done, fun _ => rfl⟩
  | cons origin origins inductionHypothesis =>
      obtain ⟨isIn, restAreIn⟩ := List.forall_mem_cons.mp areIn
      have isReady :
          ∀ job ∈ [Job.follow (.outset false origin)], job.IsReady search.store :=
        List.forall_mem_singleton.mpr ⟨rfl, isIn⟩
      obtain ⟨between, finishes, isWithin⟩ :=
        endsWithin_of_hasEnough shaped coherent
          (spans_walkSpan shaped coherent nonLooping origin.stack) shortcut
          (followLimit setting.network origin.stack) isOrderly isReady
          (List.forall_mem_singleton.mpr (enoughFor_outset setting.network isOrderly))
      have proceeds := finishes.proceeds isOrderly isReady
      obtain ⟨result, rest, restIsWithin⟩ :=
        inductionHypothesis proceeds.isOrderly
          fun other member => proceeds.grows.valid (restAreIn other member)
      refine ⟨result, finishes.append rest, fun isTaken => ?_⟩
      rw [← restIsWithin isTaken, ← isWithin isTaken]
      rfl

end Shortcut

namespace RightOperand

/-- Predictions in the network of arithmetic, inside the right operand of a product. -/
def setting : Setting where
  network := Arithmetic.network
  precedenceRule := none
  precedence := 4

/-- The stack of the right operand of a product that is a whole program. -/
def stacked : StackId × StackStore :=
  (StackStore.ofReturnStates [7, 19]).run StackStore.initial

/-- Behind the first atom of the operand. -/
def behindAtom : Configuration :=
  Configuration.start 10 1 stacked.1

/-- Nothing was found and followed yet. -/
def search : Search where
  store := stacked.2
  found := ConfigurationSet.empty false
  visited := ∅

/-- How far each state is behind those that tokens lead to. -/
def rank (number : Nat) : Nat :=
  [0, 2, 4, 1, 7, 3, 1, 2, 0, 3, 4, 5, 6, 2, 3, 6, 7, 8, 0, 1, 7, 8, 0, 1, 5, 2, 6, 1, 6, 0, 1,
    1].getD number 0

theorem coherent : setting.network.Coherent :=
  Network.coherent_of_decode Arithmetic.decode_encodedNetwork

theorem shaped : setting.network.RuleShaped :=
  Network.ruleShaped_of_checkRules (by decide +kernel)

theorem nonLooping : setting.network.NonLooping :=
  have climbing :
      (List.range setting.network.states.size).all (setting.network.checkClimbing rank) = true := by
    decide +kernel
  have climbs : setting.network.Climbs rank := Network.climbs_of_checkClimbing rank climbing
  climbs.acyclic.nonLooping shaped

/-- The states of a round of the loop, and the loop itself. -/
def round : List Nat :=
  [11, 12, 13, 14, 16, 17, 18, 19, 20, 21, 22, 23]

theorem laidOut : setting.network.LaidOut where
  loops := by
    intro loop isLoop _
    have onlyLoop :
        ((List.range setting.network.states.size).all fun number =>
          (setting.network.state number).kind != .starLoopEntry || number == 11) = true := by
      decide +kernel
    rcases Network.forall_state onlyLoop loop with isOnly | isBare
    · simp only [isLoop, bne_self_eq_false, Bool.false_or, beq_iff_eq] at isOnly
      subst isOnly
      have inside :
          (round.all fun number => (setting.network.state number).kind != .ruleStop) = true := by
        decide +kernel
      have closed :
          (round.all fun number =>
            number == 11 ||
              (setting.network.state number).edges.all fun edge => round.contains edge.next) =
            true := by
        decide +kernel
      simp only [List.all_eq_true, bne_iff_ne, Bool.or_eq_true, beq_iff_eq,
        List.contains_iff_mem] at inside closed
      have leadsBack : setting.network.LeadsStraight 11 13 := by
        refine @Network.LeadsStraight.step _ _ 13 (.epsilon 14 none) ?_ ?_ rfl ?_
        · decide +kernel
        · decide +kernel
        · refine @Network.LeadsStraight.step _ _ 14 (.epsilon 11 none) ?_ ?_ rfl .arrived
          · decide +kernel
          · decide +kernel
      exact ⟨.epsilon 12 none, [.epsilon 15 none], 13, (· ∈ round), {
        edges := by decide +kernel
        enters := rfl
        block := by decide +kernel
        ends := by decide +kernel
        loopsBack := leadsBack
        leaves :=
          ⟨_, List.mem_singleton_self _, rfl, by decide +kernel, .epsilon 4 none, by decide +kernel,
            rfl, by decide +kernel⟩
        begins := by decide
        inside := fun member => inside _ member
        closed := fun member isOther present =>
          ((closed _ member).resolve_left isOther) _ present }⟩
    · rw [isBare] at isLoop
      cases isLoop
  follows := by
    intro number target rule follow precedence present
    have inside :
        ((List.range setting.network.states.size).all fun number =>
          (setting.network.state number).edges.all fun edge =>
            !edge.isCall || (setting.network.state edge.next).kind != .ruleStop) = true := by
      decide +kernel
    simp only [List.all_eq_true, List.mem_range, Bool.or_eq_true, Bool.not_eq_true',
      bne_iff_ne] at inside
    exact (inside number (Network.lt_size_of_mem_edges present) _ present).resolve_left (by simp [Edge.isCall])

/-- The stack returns into the loop of the product, and then into the program. -/
theorem nodes_stacked :
    stacked.2.nodes = #[[], [⟨some 7, 0⟩], [⟨some 19, 1⟩]] ∧ stacked.1 = 2 := by
  constructor
  · cbv
  · cbv

theorem returnsBehindCalls : stacked.2.ReturnsBehindCalls setting.network := by
  have toProgram : setting.network.IsFollow 7 := ⟨6, 1, 1, 0, by decide +kernel⟩
  have toProduct : setting.network.IsFollow 19 := ⟨18, 1, 1, 4, by decide +kernel⟩
  intro stack below follow present
  rw [StackStore.entries, nodes_stacked.1] at present
  rcases stack with _ | _ | _ | stack
  · simp at present
  · obtain ⟨rfl, rfl⟩ : follow = 7 ∧ below = 0 := by simpa using present
    exact toProgram
  · obtain ⟨rfl, rfl⟩ : follow = 19 ∧ below = 1 := by simpa using present
    exact toProduct
  · simp at present

theorem isOrderly : search.IsOrderly where
  wellMade := (repeats_ofReturnStates StackStore.WellMade.initial [7, 19]).wellMade
  isIn := .empty _ _
  isIndexed := .empty _

end RightOperand

end Prediction

end GrammarService
