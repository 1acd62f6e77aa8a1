import GrammarService.Settings.Setting

namespace GrammarService

/-!
# Reading settings

A setting is read as what it is for: a text, a truth value, an integer, a list. The members of a
group are read in the order of their keys, and the first that cannot be read decides the error.
-/

/-- Why a setting cannot be read. -/
inductive ReadingError
  | missing (key : String)
  /-- The setting at a path is not of the expected type. -/
  | wrongType (path : List String) (expected found : String)
  /-- The setting is of the expected type, but has no use as it is. -/
  | unusable
  deriving Repr, DecidableEq, Inhabited

namespace ReadingError

/-- The error of a setting that is part of another one. -/
def under
    (key : String) :
    ReadingError → ReadingError
  | .wrongType path expected found => .wrongType (key :: path) expected found
  | error => error

/-- The error without the place it is at. -/
def withoutPath : ReadingError → ReadingError
  | .wrongType _ expected found => .wrongType [] expected found
  | error => error

end ReadingError

namespace Setting

/-- The result of reading a setting. -/
abbrev Read := Except ReadingError

/-- The error of a setting that is not of the expected type. -/
def mismatch
    (setting : Setting)
    (expected : String) :
    Read α :=
  .error (.wrongType [] expected setting.describe)

/-- Read a text. -/
def asText
    (expected : String) :
    Setting → Read String
  | .string content => .ok content
  | setting => setting.mismatch expected

/-- Read a truth value. -/
def asBoolean : Setting → Read Bool
  | .boolean value => .ok value
  | setting => setting.mismatch "a boolean"

/-- An integer between two bounds. -/
def within
    (least greatest value : Int) :
    Read Int :=
  if least ≤ value && value ≤ greatest then
    .ok value
  else
    .error .unusable

/-- Read an integer between two bounds; the type of such integers has a name. -/
def asInteger
    (type : String)
    (least greatest : Int) :
    Setting → Read Int
  | .unsigned value =>
      if value ≤ maxUnsigned64 then
        within least greatest value
      else
        (Setting.unsigned value).mismatch type
  | .signed value =>
      if minSigned64 ≤ value then
        within least greatest value
      else
        (Setting.signed value).mismatch type
  | setting => setting.mismatch type

/-- Read a setting that can be nothing. -/
def asOptional
    (read : Setting → Read α) :
    Setting → Read (Option α)
  | .nothing => .ok none
  | setting => (read setting).map some

/-- Read each of some settings; a path names them by their numbers. -/
def readElements
    (read : Setting → Read α)
    (number : Nat) :
    List Setting → Read (List α)
  | [] => .ok []
  | setting :: settings => do
      let element ← (read setting).mapError (.under (toString number))
      let elements ← readElements read (number + 1) settings
      return element :: elements

/-- Read a list. -/
def asList
    (read : Setting → Read α) :
    Setting → Read (List α)
  | .list elements => readElements read 0 elements
  | setting => setting.mismatch "a sequence"

mutual

/-- Check that a setting can be kept to be read later, which integers beyond 64 bits cannot. -/
def checkKept : Setting → Read Unit
  | .unsigned value =>
      if value ≤ maxUnsigned64 then .ok () else (Setting.unsigned value).mismatch "any value"
  | .signed value =>
      if minSigned64 ≤ value then .ok () else (Setting.signed value).mismatch "any value"
  | .list elements => checkKeptElements 0 elements
  | .group members => checkKeptMembers members
  | _ => .ok ()

/-- Check that settings can be kept; a path names them by their numbers. -/
def checkKeptElements (number : Nat) : List Setting → Read Unit
  | [] => .ok ()
  | setting :: settings => do
      (checkKept setting).mapError (.under (toString number))
      checkKeptElements (number + 1) settings

/-- Check that members can be kept. -/
def checkKeptMembers : List (String × Setting) → Read Unit
  | [] => .ok ()
  | (key, setting) :: members => do
      (checkKept setting).mapError (.under key)
      checkKeptMembers members

end

/-- Read members one by one into a result; the reader passes over keys it does not know. -/
def readMembers
    (read : α → String → Setting → Read α)
    (result : α) :
    List (String × Setting) → Read α
  | [] => .ok result
  | (key, setting) :: members => do
      let result ← (read result key setting).mapError (.under key)
      readMembers read result members

/-- The members of a group. -/
def asGroup
    (expected : String) :
    Setting → Read (List (String × Setting))
  | .group members => .ok members
  | setting => setting.mismatch expected

end Setting

end GrammarService
