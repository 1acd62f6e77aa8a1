import GrammarService.Number.Shortest
import GrammarService.Text.Escaped

namespace GrammarService

/-!
# Settings

A setting is a value of a configuration before it is known what the value is for. Settings of
several sources are merged: a later source wins, and groups merge key by key.
-/

/-- A value of a configuration. -/
inductive Setting
  | nothing
  | boolean (value : Bool)
  /-- An integer written without a minus sign. -/
  | unsigned (value : Nat)
  /-- An integer written with a minus sign. -/
  | signed (value : Int)
  /-- A number with a fraction. -/
  | fractional (value : Double)
  /-- A single character, which is a text as well to those that read it in its place. -/
  | single (character : Char)
  | string (content : String)
  | list (elements : List Setting)
  /-- Settings by key, in the order of the keys. -/
  | group (members : List (String × Setting))
  deriving Repr, Inhabited

namespace Setting

/-- The greatest integer of 64 bits without a sign. -/
def maxUnsigned64 : Nat :=
  18446744073709551615

/-- The least and the greatest integer of 64 bits with a sign. -/
def minSigned64 : Int :=
  -9223372036854775808

@[inherit_doc minSigned64]
def maxSigned64 : Int :=
  9223372036854775807

/-- The least and the greatest integer of 128 bits. -/
def minSigned128 : Int :=
  -170141183460469231731687303715884105728

@[inherit_doc minSigned128]
def maxUnsigned128 : Nat :=
  340282366920938463463374607431768211455

/-- What a setting is, in words. -/
def describe : Setting → String
  | .nothing => "unit"
  | .boolean value => s!"bool {value}"
  | .unsigned value =>
      if value ≤ maxUnsigned64 then
        s!"unsigned int `{value}`"
      else
        s!"integer `{value}` as u128"
  | .signed value =>
      if minSigned64 ≤ value then
        s!"signed int `{value}`"
      else
        s!"integer `{value}` as i128"
  | .fractional value => s!"float `{value.shown}`"
  | .single character => "char " ++ Text.quotedCharacter character
  | .string content => "string " ++ Text.quoted content
  | .list _ => "sequence"
  | .group _ => "map"

mutual

/-- The setting with a text for every single character. -/
def spelledOut : Setting → Setting
  | .single character => .string (String.ofList [character])
  | .list elements => .list (spelledOutElements elements)
  | .group members => .group (spelledOutMembers members)
  | setting => setting

/-- Settings with a text for every single character. -/
def spelledOutElements : List Setting → List Setting
  | [] => []
  | setting :: settings => spelledOut setting :: spelledOutElements settings

/-- Settings by key with a text for every single character. -/
def spelledOutMembers : List (String × Setting) → List (String × Setting)
  | [] => []
  | (key, setting) :: members => (key, spelledOut setting) :: spelledOutMembers members

end

/-- Put a setting under a key, in place of one that was there. -/
def insertMember
    (key : String)
    (setting : Setting) :
    List (String × Setting) → List (String × Setting)
  | [] => [(key, setting)]
  | (other, previous) :: members =>
      if key < other then
        (key, setting) :: (other, previous) :: members
      else if key = other then
        (key, setting) :: members
      else
        (other, previous) :: insertMember key setting members

mutual

/-- The setting that two sources give together, the later one of which wins. -/
def merge : Setting → Setting → Setting
  | .group members, .group later => .group (mergeMembers members later)
  | _, later => later

/-- The settings that two sources give together by key. -/
def mergeMembers
    (members : List (String × Setting)) :
    List (String × Setting) → List (String × Setting)
  | [] => members
  | (key, setting) :: later =>
      let merged :=
        match members.lookup key with
        | some previous => merge previous setting
        | none => setting
      mergeMembers (insertMember key merged members) later

end

end Setting

end GrammarService
