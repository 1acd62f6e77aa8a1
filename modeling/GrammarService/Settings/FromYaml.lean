import GrammarService.Number.Notation
import GrammarService.Settings.Setting
import GrammarService.Text.Decimal
import GrammarService.Yaml.Node

namespace GrammarService

/-!
# Settings in YAML

The scalars of a YAML document become settings of the kind their spelling stands for: plain scalars
can be nothing, truth values or numbers, and all others are texts.
-/

namespace Setting

/-- Whether a text is a zero with further digits behind it, which is no number. -/
def isPaddedZero (text : List Char) : Bool :=
  match text with
  | '-' :: '0' :: digits => !digits.isEmpty && digits.all Char.isDigit
  | '+' :: '0' :: digits => !digits.isEmpty && digits.all Char.isDigit
  | '0' :: digits => !digits.isEmpty && digits.all Char.isDigit
  | _ => false

/-- The value of digits to a base, of which there is at least one. -/
def digitsToBase?
    (base : Nat)
    (digits : List Char) :
    Option Nat :=
  if digits.isEmpty then
    none
  else do
    let values ← digits.mapM Yaml.hexDigit?
    if values.all (· < base) then
      return values.foldl (fun value digit => base * value + digit) 0
    else
      none

/-- The value of an integer without its sign: in base 16, 8 or 2 with a mark, or else in base 10. -/
def magnitude? : List Char → Option Nat
  | '0' :: 'x' :: digits => digitsToBase? 16 digits
  | '0' :: 'o' :: digits => digitsToBase? 8 digits
  | '0' :: 'b' :: digits => digitsToBase? 2 digits
  | digits => if isPaddedZero digits then none else Text.digitsValue? digits

/-- The integer that digits without a minus sign stand for, if it is not beyond 128 bits. -/
def plainUnsigned? (digits : List Char) : Option Setting := do
  let value ← magnitude? digits
  if value ≤ maxUnsigned128 then some (.unsigned value) else none

/-- The integer of at most 128 bits that a plain scalar stands for. -/
def plainInteger? : List Char → Option Setting
  | '-' :: digits => do
      let value ← magnitude? digits
      if minSigned128 ≤ -(value : Int) then some (.signed (-(value : Int))) else none
  | '+' :: digits => plainUnsigned? digits
  | digits => plainUnsigned? digits

/-- The names of numbers that are not finite. -/
def specialNumbers : List (String × Double) :=
  [(".inf", .infinite false), (".Inf", .infinite false), (".INF", .infinite false),
    ("+.inf", .infinite false), ("+.Inf", .infinite false), ("+.INF", .infinite false),
    ("-.inf", .infinite true), ("-.Inf", .infinite true), ("-.INF", .infinite true),
    (".nan", .notANumber), (".NaN", .notANumber), (".NAN", .notANumber)]

/-- The setting that a plain scalar stands for. -/
def ofPlain (scalar : String) : Setting :=
  let characters := scalar.toList
  if ["", "null", "Null", "NULL", "~"].contains scalar then
    .nothing
  else if ["true", "True", "TRUE"].contains scalar then
    .boolean true
  else if ["false", "False", "FALSE"].contains scalar then
    .boolean false
  else
    match plainInteger? characters with
    | some setting => setting
    | none =>
        match specialNumbers.lookup scalar with
        | some value => .fractional value
        | none =>
            if isPaddedZero characters then
              .string scalar
            else
              match (Double.read? characters).filter Double.isFinite with
              | some value => .fractional value
              | none => .string scalar

/-- The text of a key. -/
def keyOf? : Yaml.Node → Option String
  | .scalar content _ => some content
  | _ => none

mutual

/-- The setting that a part of a document stands for. -/
def ofNode? : Yaml.Node → Option Setting
  | .scalar content isPlain => some (if isPlain then ofPlain content else .string content)
  | .list elements => (ofNodes? elements).map .list
  | .mapping members => (ofMembers? members []).map .group

/-- The settings that the elements of a list stand for. -/
def ofNodes? : List Yaml.Node → Option (List Setting)
  | [] => some []
  | node :: nodes =>
      match ofNode? node with
      | none => none
      | some setting => (ofNodes? nodes).map (setting :: ·)

/-- The settings that members stand for, added to others; the last one with a key counts. -/
def ofMembers? :
    List (Yaml.Node × Yaml.Node) → List (String × Setting) → Option (List (String × Setting))
  | [], members => some members
  | (key, node) :: nodes, members =>
      match keyOf? key, ofNode? node with
      | some key, some setting => ofMembers? nodes (insertMember key setting members)
      | _, _ => none

end

/-- The group of settings in a text, which is empty if its document holds nothing. -/
def ofYaml? (text : String) : Option Setting :=
  match Yaml.Node.read? text with
  | some (.mapping members) => ofNode? (.mapping members)
  | some (.scalar "" _) => some (.group [])
  | _ => none

end Setting

end GrammarService
