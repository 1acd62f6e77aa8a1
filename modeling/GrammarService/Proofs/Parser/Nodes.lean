import GrammarService.Proofs.Execution.Results
import GrammarService.Proofs.Parser.Unfolding

namespace GrammarService

/-!
# The nodes that a walk refers to

Whatever network a walk follows, the contexts that it can come back to and the parts of its nodes
are nodes of its table. A tree that a rule is parsed to therefore lacks none of its nodes; the only
thing that keeps it from standing for a derivation is a node that contains itself.
-/

namespace Parser

variable {σ : Type} [TokenSource σ] {run after : Run σ}

open ParseTree (HasPart)

/-- A link leads to a context below a number, if it leads to one at all. -/
def Link.LeadsBelow
    (size : Nat)
    (link : Link) :
    Prop :=
  ∀ parent, link.parent = some parent → parent < size

/-- Every context that a walk can come back to and every part of a node has a node. -/
structure Refers (run : Run σ) : Prop where
  context : run.context < run.nodes.size
  parts : ∀ number part, HasPart run.nodes number part → part < run.nodes.size
  links : ∀ link ∈ run.links, link.LeadsBelow run.nodes.size
  recursions : ∀ link ∈ run.recursions, link.LeadsBelow run.nodes.size
  linked : run.links.size = run.nodes.size

/-- A node that is given a child has no other new part. -/
theorem hasPart_of_addChild
    {nodes : Array ParseTree.RuleNode}
    {parent number part : Nat}
    {added : ParseTree.Child}
    (hasPart : HasPart (ParseTree.addChild nodes parent added) number part) :
    HasPart nodes number part ∨ added = .rule part := by
  obtain ⟨node, present, member⟩ := hasPart
  by_cases isParent : parent = number
  · subst isParent
    rw [ParseTree.addChild, Array.getElem?_modify, if_pos rfl] at present
    obtain ⟨before, wasPresent, rfl⟩ := Option.map_eq_some_iff.mp present
    rw [Array.toList_push, List.mem_append, List.mem_singleton] at member
    rcases member with inBefore | isAdded
    · exact .inl ⟨before, wasPresent, inBefore⟩
    · exact .inr isAdded.symm
  · rw [getElem?_addChild_of_ne isParent] at present
    exact .inl ⟨node, present, member⟩

/-- A new node has no parts. -/
theorem hasPart_of_push
    {nodes : Array ParseTree.RuleNode}
    {rule number part : Nat}
    (hasPart : HasPart (nodes.push ⟨rule, #[]⟩) number part) :
    HasPart nodes number part := by
  obtain ⟨node, present, member⟩ := hasPart
  rw [Array.getElem?_push] at present
  split at present
  · cases present
    cases member
  · exact ⟨node, present, member⟩

namespace Refers

section Changes

omit [TokenSource σ]

/-- The link of a context leads to a known one. -/
theorem leadsBelow_link
    (refers : Refers run)
    (context : Nat) :
    (run.link context).LeadsBelow run.nodes.size := by
  rw [Run.link, Array.getD_eq_getD_getElem?]
  cases present : run.links[context]? with
  | none => simp [Link.LeadsBelow]
  | some link => exact refers.links link (Array.mem_of_getElem? present)

/-- A further context that leads to a known one has no parts yet. -/
theorem addContext
    (refers : Refers run)
    (link : Link)
    (leads : link.LeadsBelow run.nodes.size)
    (rule : Nat) :
    Refers (run.addContext link rule) where
  context := by
    have := refers.context
    simp only [Run.addContext, Array.size_push]
    omega
  parts number part hasPart := by
    have := refers.parts number part (hasPart_of_push hasPart)
    simp only [Run.addContext, Array.size_push]
    omega
  links other member parent isParent := by
    simp only [Run.addContext, Array.size_push]
    rcases Array.mem_push.mp member with isOld | rfl
    · exact Nat.lt_succ_of_lt (refers.links other isOld parent isParent)
    · exact Nat.lt_succ_of_lt (leads parent isParent)
  recursions other member parent isParent := by
    simp only [Run.addContext, Array.size_push]
    exact Nat.lt_succ_of_lt (refers.recursions other member parent isParent)
  linked := by
    simp [Run.addContext, refers.linked]

/-- A node gets a token, or a node of the table, as a child. -/
theorem addChild
    (refers : Refers run)
    (parent : Nat)
    (added : ParseTree.Child)
    (known : ∀ part, added = .rule part → part < run.nodes.size) :
    Refers { run with nodes := ParseTree.addChild run.nodes parent added } where
  context := by
    rw [size_addChild]
    exact refers.context
  parts number part hasPart := by
    rw [size_addChild]
    rcases hasPart_of_addChild hasPart with wasPart | isAdded
    · exact refers.parts number part wasPart
    · exact known part isAdded
  links := by
    rw [size_addChild]
    exact refers.links
  recursions := by
    rw [size_addChild]
    exact refers.recursions
  linked := by
    rw [size_addChild]
    exact refers.linked

/-- A walk goes on in a known context. -/
theorem inContext
    (refers : Refers run)
    {context : Nat}
    (known : context < run.nodes.size)
    (state : Nat) :
    Refers { run with context := context, state := state } :=
  { refers with context := known }

/-- A context that is known is entered. -/
theorem enterRule
    (refers : Refers run)
    {context : Nat}
    (known : context < run.nodes.size)
    (state : Nat) :
    Refers (run.enterRule context state) := by
  have entered := refers.inContext known state
  unfold Run.enterRule
  dsimp only
  split
  · rename_i parent _
    exact entered.addChild parent (.rule context) (by simpa using known)
  · exact entered

/-- A context that is known is entered, and left by its link. -/
theorem enterRecursion
    (refers : Refers run)
    {context : Nat}
    (known : context < run.nodes.size)
    (state : Nat)
    (precedence : Int) :
    Refers (run.enterRecursion context state precedence) :=
  { refers.inContext known state with
    recursions := fun _ member => by
      rcases List.mem_cons.mp member with rfl | isOld
      · exact refers.leadsBelow_link context
      · exact refers.recursions _ isOld }

/-- The current context is put into another one that is known. -/
theorem wrapContext
    (refers : Refers run)
    {context : Nat}
    (known : context < run.nodes.size)
    (ruleStart : Nat) :
    Refers (run.wrapContext context ruleStart) := by
  have inside :
      Refers
        { run with
          links := run.links.setIfInBounds run.context ⟨some context, some ruleStart⟩
          context := context } :=
    { context := known
      parts := refers.parts
      links := fun link member parent isParent => by
        rcases Array.mem_or_eq_of_mem_setIfInBounds member with isOld | rfl
        · exact refers.links link isOld parent isParent
        · obtain rfl : context = parent := by simpa using isParent
          exact known
      recursions := refers.recursions
      linked := by simpa using refers.linked }
  exact inside.addChild context (.rule run.context) (by simpa using refers.context)

/-- The current context joins the tree, and the walk goes on in the one that it joins. -/
theorem leaveRecursion
    (refers : Refers run)
    {parent : Option Nat}
    (known : ∀ number, parent = some number → number < run.nodes.size) :
    Refers (run.leaveRecursion parent) := by
  have linked :
      Refers
        { run with
          precedences := run.precedences.tail
          links := run.links.modify run.context fun link => { link with parent := parent } } :=
    { refers with
      links := fun link member number isNumber => by
        obtain ⟨place, isPlace⟩ := Array.mem_iff_getElem?.mp member
        rw [Array.getElem?_modify] at isPlace
        split at isPlace
        · obtain ⟨_, _, rfl⟩ := Option.map_eq_some_iff.mp isPlace
          exact known number isNumber
        · exact refers.links link (Array.mem_of_getElem? isPlace) number isNumber
      linked := by simpa using refers.linked }
  unfold Run.leaveRecursion
  dsimp only
  split
  · rename_i parent
    have joined :=
      linked.addChild parent (.rule run.context) (by simpa using refers.context)
    exact { joined with context := by simpa [Run.attach] using known parent rfl }
  · exact linked

/-- The innermost left-recursive rule is left. -/
theorem leaveInnermost
    (refers : Refers run)
    {outer : Link}
    {recursions : List Link}
    (innermost : run.recursions = outer :: recursions) :
    Refers ({ run with recursions := recursions }.leaveRecursion outer.parent) := by
  have left : Refers { run with recursions := recursions } :=
    { refers with
      recursions := fun link member =>
        refers.recursions link (innermost ▸ List.mem_cons_of_mem _ member) }
  exact left.leaveRecursion (refers.recursions outer (innermost ▸ List.mem_cons_self))

end Changes

/-- Every move keeps what a walk refers to known. -/
theorem moves
    {network : Network}
    (refers : Refers run)
    (moves : Moves network run after) :
    Refers after := by
  cases moves with
  | free => exact { refers with }
  | @round _ outer _ _ _ _ _ _ recursive =>
      have leads := refers.recursions outer (List.mem_of_mem_head? recursive)
      have added := refers.addContext outer leads (run.ruleOf run.context)
      have isNew : run.nodes.size < (run.addContext outer (run.ruleOf run.context)).nodes.size := by
        simp [Run.addContext]
      exact { added.wrapContext isNew _ with }
  | token =>
      have added := refers.addChild run.context (.token run.current) (by simp)
      exact { added with }
  | @call target rule _ precedence _ _ =>
      let link : Link := ⟨some run.context, some (network.state run.state).number⟩
      have added :=
        refers.addContext link (by simpa [link, Link.LeadsBelow] using refers.context) rule
      have isNew : run.nodes.size < (run.addContext link rule).nodes.size := by
        simp [Run.addContext]
      dsimp only [Run.invoking]
      split
      · exact { added.enterRecursion isNew target precedence with }
      · exact { added.enterRule isNew target with }
  | @leave parent _ _ _ _ linked _ =>
      exact refers.inContext (refers.leadsBelow_link run.context parent (by rw [linked])) _
  | leaveRecursion _ _ innermost => exact { refers.leaveInnermost innermost with }

/-- A walk that has entered its first rule refers to that rule's node only. -/
theorem begun
    (tokens : TokenStream σ)
    (cache : PredictionCache)
    (network : Network)
    (rule : Nat) :
    Refers ((Run.start tokens cache).begun network rule) := by
  have added : Refers ((Run.start tokens cache).addContext ⟨none, none⟩ rule) :=
    { context := by simp [Run.start, Run.addContext]
      parts := fun number part hasPart => by
        obtain ⟨node, present, member⟩ := hasPart_of_push hasPart
        simp [Run.start] at present
      links := by simp [Run.start, Run.addContext, Link.LeadsBelow]
      recursions := by simp [Run.start, Run.addContext]
      linked := by simp [Run.start, Run.addContext] }
  unfold Run.begun
  dsimp only
  split
  · exact added.enterRecursion added.context _ _
  · exact added.enterRule added.context _

end Refers

/-- The root of a tree that a rule was parsed to is a node of it, and so is every part of a node. -/
theorem Ends.refers_of_parseRule
    {grammar : ParserGrammar}
    {rule root : Nat}
    {tokens : TokenStream σ}
    {cache : PredictionCache}
    (ends : Ends (parseRule grammar rule) (Run.start tokens cache) root after) :
    root < after.nodes.size ∧
      ∀ number part, HasPart after.nodes number part → part < after.nodes.size := by
  rw [parseRule_eq] at ends
  obtain ⟨_, _, begins, ends⟩ := ends_bind_iff.mp ends
  obtain rfl := ends_modify_iff.mp begins
  obtain ⟨_, walked, walks, ends⟩ := ends_bind_iff.mp ends
  obtain ⟨refers, -⟩ :=
    walks.walk_induction Refers
      (fun run refers => { refers with })
      (fun run after refers _ stepped => by
        obtain ⟨between, quiet, moves⟩ := stepped.moves_of_stepOnce
        have refersBetween : Refers between := by
          rw [quiet.same]
          exact { refers with }
        exact refersBetween.moves moves)
      (Refers.begun tokens cache grammar.network rule)
  unfold leaveFirst at ends
  split at ends
  · obtain ⟨_, _, got, ends⟩ := ends_bind_iff.mp ends
    obtain ⟨rfl, rfl⟩ := ends_get_iff.mp got
    split at ends
    · simp at ends
    · rename_i innermost
      obtain ⟨_, _, isSet, ends⟩ := ends_bind_iff.mp ends
      obtain rfl := ends_set_iff.mp isSet
      obtain ⟨rfl, rfl⟩ := ends_pure_iff.mp ends
      refine ⟨?_, (refers.leaveInnermost innermost).parts⟩
      rw [Run.size_nodes_leaveRecursion]
      exact refers.context
  · obtain ⟨_, _, got, ends⟩ := ends_bind_iff.mp ends
    obtain ⟨rfl, rfl⟩ := ends_get_iff.mp got
    obtain ⟨rfl, rfl⟩ := ends_pure_iff.mp ends
    exact ⟨refers.context, refers.parts⟩

/-- A tree that a rule is parsed to stands for a derivation unless it contains itself. -/
theorem exists_unfolds_of_invoke
    {parser : Parser σ}
    {rule : String}
    {tree : ParseTree}
    (parsed : (parser.invoke rule).1 = .ok tree)
    (loopFree : ¬ tree.ContainsItself) :
    ∃ derivation, tree.Unfolds derivation := by
  obtain ⟨number, after, -, ends, sameNodes⟩ := exists_ends_of_invoke parsed
  obtain ⟨rootKnown, partsKnown⟩ := ends.refers_of_parseRule
  rw [← sameNodes] at rootKnown partsKnown
  refine ParseTree.exists_unfolds (fun number below => ?_) loopFree
  rcases Relation.ReflTransGen.cases_tail below with rfl | ⟨above, -, hasPart⟩
  · exact rootKnown
  · exact partsKnown above number hasPart

end Parser

end GrammarService
