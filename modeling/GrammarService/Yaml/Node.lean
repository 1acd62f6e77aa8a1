import GrammarService.Yaml.Token

namespace GrammarService

/-!
# YAML documents

A document is a tree of lists, mappings and scalars. Of YAML, this reads what settings are written
in: one document of block and flow collections with plain and quoted scalars, without anchors, tags,
directives and block scalars. `Yaml.Node.read?` gives no tree for any other text.
-/

namespace Yaml

/-- A part of a document. -/
inductive Node
  | scalar (text : String) (isPlain : Bool)
  | list (elements : List Node)
  | mapping (members : List (Node × Node))
  deriving Repr, Inhabited

namespace Node

/-- The node that stands where nothing is written. -/
def absent : Node :=
  .scalar "" true

/-- Whether no node can begin with the token inside of a block. -/
def isBlockGap : Option Token → Bool
  | some .key => true
  | some .value => true
  | some .blockEnd => true
  | _ => false

/-- Whether no value can begin with the token inside of brackets. -/
def isFlowGap : Option Token → Bool
  | some .value => true
  | some .flowEntry => true
  | some .flowListEnd => true
  | some .flowMappingEnd => true
  | _ => false

mutual

/--
Split off a node. Blocks can only begin if `inBlock`, and a list that is not indented only if
`unindented`; `fuel` exceeds the steps to take.
-/
def take? :
    (fuel : Nat) → (inBlock unindented : Bool) → List Token → Option (Node × List Token)
  | 0, _, _, _ => none
  | fuel + 1, inBlock, unindented, tokens =>
      match tokens with
      | .scalar text isPlain :: rest => some (.scalar text isPlain, rest)
      | .flowListStart :: rest =>
          (takeFlowElements? fuel true rest).map fun (elements, rest) => (.list elements, rest)
      | .flowMappingStart :: rest =>
          (takeFlowMembers? fuel true rest).map fun (members, rest) => (.mapping members, rest)
      | .blockEntry :: _ =>
          if unindented then
            (takeUnindented? fuel tokens).map fun (elements, rest) => (.list elements, rest)
          else
            none
      | .blockListStart :: rest =>
          if inBlock then
            (takeElements? fuel rest).map fun (elements, rest) => (.list elements, rest)
          else
            none
      | .blockMappingStart :: rest =>
          if inBlock then
            (takeMembers? fuel rest).map fun (members, rest) => (.mapping members, rest)
          else
            none
      | _ => none

/-- Split off a node of a block, or nothing if none is written. -/
def takeOptional? :
    (fuel : Nat) → (unindented : Bool) → List Token → Option (Node × List Token)
  | 0, _, _ => none
  | fuel + 1, unindented, tokens =>
      if isBlockGap tokens.head? || (!unindented && tokens.head? = some .blockEntry) then
        some (absent, tokens)
      else
        take? fuel true unindented tokens

/-- Split off the elements of an indented list and its end. -/
def takeElements? :
    (fuel : Nat) → List Token → Option (List Node × List Token)
  | 0, _ => none
  | _ + 1, .blockEnd :: rest => some ([], rest)
  | fuel + 1, .blockEntry :: rest =>
      match takeOptional? fuel false rest with
      | none => none
      | some (element, rest) =>
          (takeElements? fuel rest).map fun (elements, rest) => (element :: elements, rest)
  | _ + 1, _ => none

/-- Split off the elements of a list that is not indented. -/
def takeUnindented? :
    (fuel : Nat) → List Token → Option (List Node × List Token)
  | 0, _ => none
  | fuel + 1, .blockEntry :: rest =>
      match takeOptional? fuel false rest with
      | none => none
      | some (element, rest) =>
          (takeUnindented? fuel rest).map fun (elements, rest) => (element :: elements, rest)
  | _ + 1, rest => some ([], rest)

/-- Split off the value behind a key of a block, or nothing if none is written. -/
def takeValue? :
    (fuel : Nat) → List Token → Option (Node × List Token)
  | 0, _ => none
  | fuel + 1, .value :: rest => takeOptional? fuel true rest
  | _ + 1, rest => some (absent, rest)

/-- Split off the members of a block and its end. -/
def takeMembers? :
    (fuel : Nat) → List Token → Option (List (Node × Node) × List Token)
  | 0, _ => none
  | _ + 1, .blockEnd :: rest => some ([], rest)
  | fuel + 1, .key :: rest =>
      match takeOptional? fuel true rest with
      | none => none
      | some (key, rest) =>
          match takeValue? fuel rest with
          | none => none
          | some (value, rest) =>
              (takeMembers? fuel rest).map fun (members, rest) => ((key, value) :: members, rest)
  | _ + 1, _ => none

/-- Split off the key and the value of a member inside of brackets. -/
def takeFlowMember? :
    (fuel : Nat) → List Token → Option ((Node × Node) × List Token)
  | 0, _ => none
  | fuel + 1, tokens =>
      let key := if isFlowGap tokens.head? then some (absent, tokens) else take? fuel false false tokens
      match key with
      | none => none
      | some (key, .value :: rest) =>
          if isFlowGap rest.head? then
            some ((key, absent), rest)
          else
            (take? fuel false false rest).map fun (value, rest) => ((key, value), rest)
      | some (key, rest) => some ((key, absent), rest)

/-- Split off the elements of a list in brackets and its end. -/
def takeFlowElements? :
    (fuel : Nat) → (isFirst : Bool) → List Token → Option (List Node × List Token)
  | 0, _, _ => none
  | _ + 1, _, .flowListEnd :: rest => some ([], rest)
  | fuel + 1, isFirst, tokens =>
      let atElement :=
        match isFirst, tokens with
        | true, tokens => some tokens
        | false, .flowEntry :: rest => some rest
        | false, _ => none
      match atElement with
      | none => none
      | some (.flowListEnd :: rest) => some ([], rest)
      | some (.key :: rest) =>
          match takeFlowMember? fuel rest with
          | none => none
          | some (member, rest) =>
              (takeFlowElements? fuel false rest).map fun (elements, rest) =>
                (.mapping [member] :: elements, rest)
      | some tokens =>
          match take? fuel false false tokens with
          | none => none
          | some (element, rest) =>
              (takeFlowElements? fuel false rest).map fun (elements, rest) =>
                (element :: elements, rest)

/-- Split off the members of a mapping in brackets and its end. -/
def takeFlowMembers? :
    (fuel : Nat) → (isFirst : Bool) → List Token → Option (List (Node × Node) × List Token)
  | 0, _, _ => none
  | _ + 1, _, .flowMappingEnd :: rest => some ([], rest)
  | fuel + 1, isFirst, tokens =>
      let atMember :=
        match isFirst, tokens with
        | true, tokens => some tokens
        | false, .flowEntry :: rest => some rest
        | false, _ => none
      match atMember with
      | none => none
      | some (.flowMappingEnd :: rest) => some ([], rest)
      | some tokens =>
          let member :=
            match tokens with
            | .key :: rest => takeFlowMember? fuel rest
            | tokens => (take? fuel false false tokens).map fun (key, rest) => ((key, absent), rest)
          match member with
          | none => none
          | some (member, rest) =>
              (takeFlowMembers? fuel false rest).map fun (members, rest) =>
                (member :: members, rest)

end

/-- Split off the root of a document behind its mark, or nothing if none is written. -/
def takeRoot?
    (fuel : Nat)
    (tokens : List Token) :
    Option (Node × List Token) :=
  match tokens with
  | [] => some (absent, [])
  | .documentStart :: rest =>
      match rest with
      | [] => some (absent, [])
      | .documentStart :: _ => none
      | .documentEnd :: _ => some (absent, rest)
      | _ => take? fuel true false rest
  | tokens => take? fuel true false tokens

/-- The tree of a text with at most one document. -/
def read? (text : String) : Option Node := do
  let tokens ← tokens? text.toList
  let (root, rest) ← takeRoot? (4 * tokens.length + 4) tokens
  if rest.all (· = .documentEnd) then
    return root
  else
    none

end Node

end Yaml

end GrammarService
