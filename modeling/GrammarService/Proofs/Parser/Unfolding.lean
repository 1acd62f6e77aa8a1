import GrammarService.Proofs.Parser.Contexts

namespace GrammarService

/-!
# What a table of nodes stands for

A table of nodes stands for the derivation that comes of following its numbers from the root. There
is at most one, and there is one unless some node on the way is inside itself or is missing.

Nodes inside each other have different numbers. That is why no derivation is higher than the table
has nodes, however often one of its nodes occurs.
-/

namespace ParseTree

/-- A node of a table has another one as a child. -/
def HasPart
    (nodes : Array RuleNode)
    (number part : Nat) :
    Prop :=
  ∃ node, nodes[number]? = some node ∧ .rule part ∈ node.children.toList

/-- A node at or below the root is inside itself. -/
def ContainsItself (tree : ParseTree) : Prop :=
  ∃ number,
    Relation.ReflTransGen (HasPart tree.nodes) tree.root number ∧
      Relation.TransGen (HasPart tree.nodes) number number

/-- A tree stands for the derivation that its nodes hold from the root on. -/
def Unfolds
    (tree : ParseTree)
    (derivation : Derivation) :
    Prop :=
  derivation.child = .rule tree.root ∧ derivation.IsStored tree.nodes

end ParseTree

namespace Derivation

open ParseTree (HasPart)

mutual

/-- The most rules of a derivation that are inside each other. -/
def height : Derivation → Nat
  | .leaf _ => 0
  | .node _ _ parts => heightOfAll parts + 1

/-- The most rules of several derivations that are inside each other. -/
def heightOfAll : List Derivation → Nat
  | [] => 0
  | first :: others => max (height first) (heightOfAll others)

end

mutual

/-- A derivation with a further part behind the others, wherever it has a certain node. -/
def graft
    (parent : Nat)
    (part : Derivation) :
    Derivation → Derivation
  | .leaf token => .leaf token
  | .node number rule parts =>
      if number = parent then
        .node number rule (graftAll parent part parts ++ [part])
      else
        .node number rule (graftAll parent part parts)

/-- Several derivations with a further part, wherever they have a certain node. -/
def graftAll
    (parent : Nat)
    (part : Derivation) :
    List Derivation → List Derivation
  | [] => []
  | first :: others => graft parent part first :: graftAll parent part others

end

section Stored

variable {nodes : Array ParseTree.RuleNode}

mutual

/-- A child stands for one derivation at most. -/
theorem IsStored.unique :
    {first second : Derivation} →
      IsStored nodes first →
        IsStored nodes second →
          first.child = second.child →
            first = second
  | .leaf _, .leaf _, _, _, same => by
      simpa [child] using same
  | .leaf _, .node .., _, _, same => by
      simp [child] at same
  | .node .., .leaf _, _, _, same => by
      simp [child] at same
  | .node number rule parts, .node otherNumber otherRule otherParts,
      ⟨present, stored⟩, ⟨otherPresent, otherStored⟩, same => by
      obtain rfl : number = otherNumber := by simpa [child] using same
      rw [present, Option.some.injEq] at otherPresent
      obtain ⟨rfl, sameParts⟩ :
          rule = otherRule ∧ parts.map child = otherParts.map child := by
        simpa [nodeOf] using otherPresent
      rw [AreStored.unique stored otherStored sameParts]

/-- Children stand for one sequence of derivations at most. -/
theorem AreStored.unique :
    {first second : List Derivation} →
      AreStored nodes first →
        AreStored nodes second →
          first.map child = second.map child →
            first = second
  | [], [], _, _, _ => rfl
  | [], _ :: _, _, _, same => by
      simp at same
  | _ :: _, [], _, _, same => by
      simp at same
  | _ :: _, _ :: _, ⟨stored, othersStored⟩, ⟨alsoStored, othersAlsoStored⟩, same => by
      rw [List.map_cons, List.map_cons, List.cons.injEq] at same
      rw [stored.unique alsoStored same.1, othersStored.unique othersAlsoStored same.2]

end

mutual

/-- Each number of a derivation is that of a rule in it, which is no larger. -/
theorem IsStored.exists_of_mem_numbers
    {number : Nat} :
    {derivation : Derivation} →
      IsStored nodes derivation →
        number ∈ numbers derivation →
          ∃ rule parts,
            IsStored nodes (.node number rule parts) ∧
              sizeOf (Derivation.node number rule parts) ≤ sizeOf derivation
  | .leaf _, _, member => by
      simp [numbers] at member
  | .node outermost rule parts, stored, member => by
      rw [numbers, List.mem_cons] at member
      rcases member with rfl | member
      · exact ⟨rule, parts, stored, le_rfl⟩
      · obtain ⟨inner, below, innerStored, smaller⟩ := stored.2.exists_of_mem_numbersOfAll member
        refine ⟨inner, below, innerStored, smaller.trans ?_⟩
        simp

/-- Each number of several derivations is that of a rule in them, which is no larger. -/
theorem AreStored.exists_of_mem_numbersOfAll
    {number : Nat} :
    {parts : List Derivation} →
      AreStored nodes parts →
        number ∈ numbersOfAll parts →
          ∃ rule below,
            IsStored nodes (.node number rule below) ∧
              sizeOf (Derivation.node number rule below) ≤ sizeOf parts
  | [], _, member => by
      simp [numbersOfAll] at member
  | first :: others, ⟨stored, othersStored⟩, member => by
      rw [numbersOfAll, List.mem_append] at member
      rcases member with inFirst | inOthers
      · obtain ⟨rule, below, innerStored, smaller⟩ := stored.exists_of_mem_numbers inFirst
        refine ⟨rule, below, innerStored, smaller.trans ?_⟩
        simp
        omega
      · obtain ⟨rule, below, innerStored, smaller⟩ :=
          othersStored.exists_of_mem_numbersOfAll inOthers
        refine ⟨rule, below, innerStored, smaller.trans ?_⟩
        simp

end

/-- No node is inside itself, since it would be smaller than it is. -/
theorem IsStored.number_notMem
    {number rule : Nat}
    {parts : List Derivation}
    (stored : IsStored nodes (.node number rule parts)) :
    number ∉ numbersOfAll parts := by
  intro member
  obtain ⟨inner, below, innerStored, smaller⟩ := stored.2.exists_of_mem_numbersOfAll member
  have same := innerStored.unique stored (by simp [child])
  simp [same] at smaller

mutual

/-- The rules inside each other take different places of the table, apart from those above. -/
theorem IsStored.height_add_card_le
    (above : Finset Nat)
    (known : above ⊆ Finset.range nodes.size) :
    {derivation : Derivation} →
      IsStored nodes derivation →
        (∀ number ∈ above, number ∉ numbers derivation) →
          height derivation + above.card ≤ nodes.size
  | .leaf _, _, _ => by
      simpa [height] using Finset.card_le_card known
  | .node number rule parts, stored, apart => by
      obtain ⟨inBounds, -⟩ := Array.getElem?_eq_some_iff.mp stored.1
      have fresh : number ∉ above := fun member => apart number member (by simp [numbers])
      have below :=
        stored.2.heightOfAll_add_card_le (insert number above)
          (Finset.insert_subset (Finset.mem_range.mpr inBounds) known)
          (by
            intro other member
            rcases Finset.mem_insert.mp member with rfl | isAbove
            · exact stored.number_notMem
            · exact fun inParts => apart other isAbove (by simp [numbers, inParts]))
      rw [Finset.card_insert_of_notMem fresh] at below
      rw [height]
      omega

/-- The rules inside each other in several derivations take different places of the table. -/
theorem AreStored.heightOfAll_add_card_le
    (above : Finset Nat)
    (known : above ⊆ Finset.range nodes.size) :
    {parts : List Derivation} →
      AreStored nodes parts →
        (∀ number ∈ above, number ∉ numbersOfAll parts) →
          heightOfAll parts + above.card ≤ nodes.size
  | [], _, _ => by
      simpa [heightOfAll] using Finset.card_le_card known
  | first :: others, ⟨stored, othersStored⟩, apart => by
      have ofFirst :=
        stored.height_add_card_le above known
          fun number member inFirst => apart number member (by simp [numbersOfAll, inFirst])
      have ofOthers :=
        othersStored.heightOfAll_add_card_le above known
          fun number member inOthers => apart number member (by simp [numbersOfAll, inOthers])
      rw [heightOfAll]
      omega

end

/-- No derivation is higher than its table has nodes. -/
theorem IsStored.height_le
    {derivation : Derivation}
    (stored : IsStored nodes derivation) :
    height derivation ≤ nodes.size := by
  simpa using
    stored.height_add_card_le ∅ (Finset.empty_subset _) (by simp)

mutual

/-- A derivation that does not have a node is as before when the node gets a further part. -/
theorem graft_of_notMem
    {parent : Nat}
    (part : Derivation) :
    {derivation : Derivation} →
      parent ∉ numbers derivation →
        graft parent part derivation = derivation
  | .leaf _, _ => rfl
  | .node number rule parts, apart => by
      rw [numbers, List.mem_cons, not_or] at apart
      rw [graft, if_neg (Ne.symm apart.1), graftAll_of_notMem part apart.2]

/-- Derivations that do not have a node are as before when the node gets a further part. -/
theorem graftAll_of_notMem
    {parent : Nat}
    (part : Derivation) :
    {parts : List Derivation} →
      parent ∉ numbersOfAll parts →
        graftAll parent part parts = parts
  | [], _ => rfl
  | first :: others, apart => by
      rw [numbersOfAll, List.mem_append, not_or] at apart
      rw [graftAll, graft_of_notMem part apart.1, graftAll_of_notMem part apart.2]

end

/-- A further part leaves the number of a derivation as it was. -/
@[simp] theorem child_graft
    (parent : Nat)
    (part derivation : Derivation) :
    (graft parent part derivation).child = derivation.child := by
  cases derivation with
  | leaf token => rfl
  | node number rule parts =>
      rw [graft]
      split <;> rfl

@[simp] theorem map_child_graftAll
    (parent : Nat)
    (part : Derivation)
    (parts : List Derivation) :
    (graftAll parent part parts).map child = parts.map child := by
  induction parts with
  | nil => rfl
  | cons first others inductionHypothesis => simp [graftAll, inductionHypothesis]

mutual

/-- When a node gets a child, a table holds its derivations with the part that the child is. -/
theorem IsStored.addChild
    {parent : Nat}
    (part : Derivation)
    (partStored : IsStored (ParseTree.addChild nodes parent part.child) part) :
    {derivation : Derivation} →
      IsStored nodes derivation →
        IsStored (ParseTree.addChild nodes parent part.child) (graft parent part derivation)
  | .leaf _, _ => trivial
  | .node number rule parts, ⟨present, stored⟩ => by
      have partsStored := stored.addChild part partStored
      rw [graft]
      split
      · rename_i isParent
        subst isParent
        refine ⟨?_, areStored_append.mpr ⟨partsStored, partStored, trivial⟩⟩
        rw [Parser.getElem?_addChild_self present, nodeOf_append]
        simp [nodeOf]
      · rename_i other
        refine ⟨?_, partsStored⟩
        rw [Parser.getElem?_addChild_of_ne (Ne.symm other), present]
        simp [nodeOf]

/-- When a node gets a child, a table holds several derivations with the part that it is. -/
theorem AreStored.addChild
    {parent : Nat}
    (part : Derivation)
    (partStored : IsStored (ParseTree.addChild nodes parent part.child) part) :
    {parts : List Derivation} →
      AreStored nodes parts →
        AreStored (ParseTree.addChild nodes parent part.child) (graftAll parent part parts)
  | [], _ => trivial
  | _ :: _, ⟨stored, othersStored⟩ =>
      ⟨IsStored.addChild part partStored stored,
        AreStored.addChild part partStored othersStored⟩

end

/-- Where several derivations are held, each of them is. -/
theorem AreStored.of_mem
    {parts : List Derivation}
    {part : Derivation}
    (stored : AreStored nodes parts)
    (isPart : part ∈ parts) :
    IsStored nodes part := by
  induction parts with
  | nil => cases isPart
  | cons first others inductionHypothesis =>
      rcases List.mem_cons.mp isPart with rfl | inOthers
      · exact stored.1
      · exact inductionHypothesis stored.2 inOthers

/-- The derivations of a node's children, if each of them has one. -/
theorem exists_areStored
    (children : List ParseTree.Child)
    (each :
      ∀ part, .rule part ∈ children →
        ∃ derivation, child derivation = .rule part ∧ IsStored nodes derivation) :
    ∃ parts, parts.map child = children ∧ AreStored nodes parts := by
  induction children with
  | nil => exact ⟨[], rfl, trivial⟩
  | cons first others inductionHypothesis =>
      obtain ⟨parts, areOthers, stored⟩ :=
        inductionHypothesis fun part member => each part (List.mem_cons_of_mem _ member)
      cases first with
      | token token =>
          exact ⟨.leaf token :: parts, by simp [child, areOthers], trivial, stored⟩
      | rule number =>
          obtain ⟨derivation, isFirst, firstStored⟩ := each number List.mem_cons_self
          exact ⟨derivation :: parts, by simp [isFirst, areOthers], firstStored, stored⟩

/-- What is inside a node of a table has a derivation of its own, which is smaller. -/
theorem IsStored.exists_of_transGen
    {number inner rule : Nat}
    {parts : List Derivation}
    (stored : IsStored nodes (.node number rule parts))
    (inside : Relation.TransGen (HasPart nodes) number inner) :
    ∃ innerRule below,
      IsStored nodes (.node inner innerRule below) ∧
        sizeOf (Derivation.node inner innerRule below) <
          sizeOf (Derivation.node number rule parts) := by
  have ofPart
      {number part rule : Nat}
      {parts : List Derivation}
      (stored : IsStored nodes (.node number rule parts))
      (hasPart : HasPart nodes number part) :
      ∃ innerRule below,
        IsStored nodes (.node part innerRule below) ∧
          sizeOf (Derivation.node part innerRule below) <
            sizeOf (Derivation.node number rule parts) := by
    obtain ⟨node, present, member⟩ := hasPart
    obtain rfl : nodeOf rule parts = node := by simpa using stored.1.symm.trans present
    obtain ⟨derivation, isPart, isRule⟩ : ∃ derivation ∈ parts, child derivation = .rule part := by
      simpa [nodeOf] using member
    have smaller := List.sizeOf_lt_of_mem isPart
    cases derivation with
    | leaf token => cases isRule
    | node inner innerRule below =>
        obtain rfl : inner = part := by simpa [child] using isRule
        refine ⟨innerRule, below, stored.2.of_mem isPart, smaller.trans ?_⟩
        simp
  induction inside with
  | single hasPart => exact ofPart stored hasPart
  | tail _ hasPart inductionHypothesis =>
      obtain ⟨middleRule, middleParts, middleStored, smaller⟩ := inductionHypothesis
      obtain ⟨innerRule, below, innerStored, stillSmaller⟩ := ofPart middleStored hasPart
      exact ⟨innerRule, below, innerStored, stillSmaller.trans smaller⟩

end Stored

end Derivation

namespace ParseTree

open GrammarService.Derivation

variable {tree : ParseTree}

/-- A tree stands for one derivation at most. -/
theorem Unfolds.unique
    {first second : Derivation}
    (unfolds : tree.Unfolds first)
    (alsoUnfolds : tree.Unfolds second) :
    first = second :=
  unfolds.2.unique alsoUnfolds.2 (unfolds.1.trans alsoUnfolds.1.symm)

/-- No node of a tree that stands for a derivation contains itself. -/
theorem Unfolds.not_containsItself
    {derivation : Derivation}
    (unfolds : tree.Unfolds derivation) :
    ¬ tree.ContainsItself := by
  rintro ⟨number, below, inside⟩
  obtain ⟨isRoot, stored⟩ := unfolds
  cases derivation with
  | leaf token => cases isRoot
  | node root rule parts =>
      obtain rfl : root = tree.root := by simpa [child] using isRoot
      obtain ⟨numberRule, numberParts, numberStored⟩ :
          ∃ numberRule numberParts,
            IsStored tree.nodes (.node number numberRule numberParts) := by
        rcases Relation.reflTransGen_iff_eq_or_transGen.mp below with rfl | further
        · exact ⟨rule, parts, stored⟩
        · obtain ⟨numberRule, numberParts, numberStored, -⟩ := stored.exists_of_transGen further
          exact ⟨numberRule, numberParts, numberStored⟩
      obtain ⟨innerRule, innerParts, innerStored, smaller⟩ :=
        numberStored.exists_of_transGen inside
      rw [innerStored.unique numberStored rfl] at smaller
      exact lt_irrefl _ smaller

/-- A tree without missing nodes, none of which contains itself, stands for a derivation. -/
theorem exists_unfolds
    (known :
      ∀ number, Relation.ReflTransGen (HasPart tree.nodes) tree.root number →
        number < tree.nodes.size)
    (loopFree : ¬ tree.ContainsItself) :
    ∃ derivation, tree.Unfolds derivation := by
  let Below := { number // Relation.ReflTransGen (HasPart tree.nodes) tree.root number }
  let Inside (inner outer : Below) : Prop :=
    Relation.TransGen (HasPart tree.nodes) outer.val inner.val
  have : Finite Below :=
    Finite.of_injective
      (fun number : Below => (⟨number.val, known _ number.property⟩ : Fin tree.nodes.size))
      (fun first second same => Subtype.ext (by simpa using same))
  have transitive : IsTrans Below Inside := ⟨fun _ _ _ inner outer => outer.trans inner⟩
  have irreflexive : Std.Irrefl Inside :=
    ⟨fun number inside => loopFree ⟨number.val, number.property, inside⟩⟩
  -- There are finitely many nodes, so going into nodes inside each other comes to an end.
  have wellFounded : WellFounded Inside := Finite.wellFounded_of_trans_of_irrefl Inside
  have each (number : Below) :
      ∃ derivation,
        child derivation = .rule number.val ∧ IsStored tree.nodes derivation := by
    induction number using wellFounded.induction with
    | _ number inductionHypothesis =>
        obtain ⟨node, present⟩ : ∃ node, tree.nodes[number.val]? = some node :=
          ⟨_, Array.getElem?_eq_getElem (known _ number.property)⟩
        obtain ⟨parts, areChildren, stored⟩ :=
          exists_areStored node.children.toList fun part member =>
            have hasPart : HasPart tree.nodes number.val part := ⟨node, present, member⟩
            inductionHypothesis ⟨part, number.property.tail hasPart⟩ (.single hasPart)
        refine ⟨.node number.val node.rule parts, rfl, ?_, stored⟩
        rw [present, nodeOf, areChildren, Array.toArray_toList]
  exact each ⟨tree.root, .refl⟩

end ParseTree

end GrammarService
