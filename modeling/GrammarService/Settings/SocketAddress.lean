import GrammarService.Text.Decimal

namespace GrammarService

/-!
# Socket addresses

A socket address is an internet address of version 4 or 6 with a port. `SocketAddress.read?` reads
the usual notations of them, and `SocketAddress.render` writes the shortest.
-/

/-- An internet address. -/
inductive InternetAddress
  | version4 (bytes : List Nat)
  /-- Eight groups of 16 bits; the zone tells which network a local address belongs to. -/
  | version6 (groups : List Nat) (zone : Nat)
  deriving Repr, DecidableEq, Inhabited

/-- An internet address with a port. -/
structure SocketAddress where
  address : InternetAddress
  port : Nat
  deriving Repr, DecidableEq, Inhabited

namespace SocketAddress

/-- The value of a hexadecimal digit, which a base can exclude. -/
def digit?
    (base : Nat)
    (character : Char) :
    Option Nat :=
  let value? :=
    if character.isDigit then
      some (character.toNat - '0'.toNat)
    else if 'a' ≤ character.toLower && character.toLower ≤ 'f' then
      some (character.toLower.toNat - 'a'.toNat + 10)
    else
      none
  value?.filter (· < base)

/-- Split off a number that is at most `greatest`, with at most `maxDigits` digits if given. -/
def takeNumber?
    (base greatest : Nat)
    (maxDigits : Option Nat)
    (text : List Char) :
    Option (Nat × List Char) :=
  let digits := text.takeWhile fun character => (digit? base character).isSome
  let value := (digits.filterMap (digit? base)).foldl (fun value digit => base * value + digit) 0
  if digits.isEmpty || greatest < value || maxDigits.any (· < digits.length) then
    none
  else
    some (value, text.drop digits.length)

/-- Split off a number of an address of version 4, which has no leading zeros. -/
def takeByte? (text : List Char) : Option (Nat × List Char) :=
  match text, takeNumber? 10 255 (some 3) text with
  | '0' :: _, some (value, rest) =>
      if rest.length + 1 = text.length then some (value, rest) else none
  | _, byte => byte

/-- Split off a character. -/
def takeMark?
    (mark : Char) :
    List Char → Option (List Char)
  | [] => none
  | character :: rest => if character = mark then some rest else none

/-- Split off an address of version 4. -/
def takeVersion4? (text : List Char) : Option (List Nat × List Char) := do
  let (first, rest) ← takeByte? text
  let (second, rest) ← (takeMark? '.' rest).bind takeByte?
  let (third, rest) ← (takeMark? '.' rest).bind takeByte?
  let (fourth, rest) ← (takeMark? '.' rest).bind takeByte?
  return ([first, second, third, fourth], rest)

/-- The two groups that the bytes of an address of version 4 make up. -/
def groupsOf : List Nat → List Nat
  | [first, second, third, fourth] => [first * 256 + second, third * 256 + fourth]
  | _ => []

/--
Split off at most `limit` groups between colons. The last two of them can be written as an address
of version 4; the result tells whether they were.
-/
def takeGroups
    (isFirst : Bool) :
    (limit : Nat) → List Char → List Nat × Bool × List Char
  | 0, text => ([], false, text)
  | limit + 1, text =>
      let behindColon := if isFirst then some text else takeMark? ':' text
      let embedded := if limit = 0 then none else behindColon.bind takeVersion4?
      match embedded, behindColon.bind (takeNumber? 16 0xFFFF (some 4)) with
      | some (bytes, rest), _ => (groupsOf bytes, true, rest)
      | none, some (group, rest) =>
          let (groups, isEmbedded, rest) := takeGroups false limit rest
          (group :: groups, isEmbedded, rest)
      | none, none => ([], false, text)

/-- Split off an address of version 6; two colons in a row stand for groups of zeros. -/
def takeVersion6? (text : List Char) : Option (List Nat × List Char) := do
  let (head, isEmbedded, rest) := takeGroups true 8 text
  if head.length = 8 then
    return (head, rest)
  else if isEmbedded then
    none
  else
    let rest ← (takeMark? ':' rest).bind (takeMark? ':')
    let (tail, _, rest) := takeGroups true (7 - head.length) rest
    return (head ++ List.replicate (8 - head.length - tail.length) 0 ++ tail, rest)

/-- The greatest port. -/
def maxPort : Nat :=
  65535

/-- The greatest zone. -/
def maxZone : Nat :=
  4294967295

/-- Read a port behind its colon, to the end of the text. -/
def readPort? (text : List Char) : Option Nat := do
  let (port, rest) ← (takeMark? ':' text).bind (takeNumber? 10 maxPort none)
  if rest.isEmpty then some port else none

/-- Read an address of version 6 in brackets with a port. -/
def readBracketed? (text : List Char) : Option SocketAddress := do
  let (groups, rest) ← takeVersion6? text
  let (zone, rest) ←
    match rest with
    | '%' :: rest => takeNumber? 10 maxZone none rest
    | rest => some (0, rest)
  let port ← (takeMark? ']' rest).bind readPort?
  return ⟨.version6 groups zone, port⟩

/-- Read a socket address. -/
def read? (text : String) : Option SocketAddress :=
  match text.toList with
  | '[' :: rest => readBracketed? rest
  | characters => do
      let (bytes, rest) ← takeVersion4? characters
      let port ← readPort? rest
      return ⟨.version4 bytes, port⟩

/-- Write groups between colons. -/
def renderGroups (groups : List Nat) : String :=
  String.intercalate ":" (groups.map fun group => String.ofList (Nat.toDigits 16 group))

/-- How many groups of zeros begin at each place. -/
def zeroRun (groups : List Nat) : Nat :=
  (groups.takeWhile (· = 0)).length

/-- The place and the length of the first of the longest runs of zeros. -/
def longestZeroRun (groups : List Nat) : Nat × Nat :=
  (List.range groups.length).foldl
    (fun (place, length) candidate =>
      let run := zeroRun (groups.drop candidate)
      if length < run then (candidate, run) else (place, length))
    (0, 0)

/-- Write an address of version 4. -/
def renderBytes (bytes : List Nat) : String :=
  String.intercalate "." (bytes.map toString)

/-- Write an address of version 6. -/
def renderVersion6 (groups : List Nat) : String :=
  match groups with
  | [0, 0, 0, 0, 0, 0xFFFF, high, low] =>
      "::ffff:" ++ renderBytes [high / 256, high % 256, low / 256, low % 256]
  | _ =>
      let (place, length) := longestZeroRun groups
      if 1 < length then
        renderGroups (groups.take place) ++ "::" ++ renderGroups (groups.drop (place + length))
      else
        renderGroups groups

/-- Write a socket address. -/
def render (address : SocketAddress) : String :=
  match address.address with
  | .version4 bytes => s!"{renderBytes bytes}:{address.port}"
  | .version6 groups zone =>
      let suffix := if zone = 0 then "" else s!"%{zone}"
      s!"[{renderVersion6 groups}{suffix}]:{address.port}"

end SocketAddress

end GrammarService
