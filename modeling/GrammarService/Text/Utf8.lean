namespace GrammarService

/-!
# Reading UTF-8

`decode?` reads bytes that are valid UTF-8 throughout. `decodeLossy` reads any bytes: a longest
beginning of a character that is not completed, or else a single byte, is replaced by U+FFFD.
`takeBytes` cuts a text to a number of bytes.
-/

namespace Utf8

/-- The text that valid bytes encode. -/
def decode? (bytes : ByteArray) : Option String :=
  String.fromUTF8? bytes

/-- What stands for bytes that encode no character. -/
def replacement : Char :=
  '\ufffd'

/-- A character of which some bytes were read. -/
structure Partial where
  /-- The bits read so far. -/
  value : Nat
  /-- How many bytes are still to come. -/
  missing : Nat
  /-- The least and the greatest next byte that can go on. -/
  low : Nat
  high : Nat
  deriving Repr, DecidableEq

/-- The character of more than one byte that a byte begins. -/
def begin? (byte : Nat) : Option Partial :=
  if 0xC2 ≤ byte && byte ≤ 0xDF then
    some ⟨byte - 0xC0, 1, 0x80, 0xBF⟩
  else if 0xE0 ≤ byte && byte ≤ 0xEF then
    some ⟨byte - 0xE0, 2, if byte = 0xE0 then 0xA0 else 0x80,
      if byte = 0xED then 0x9F else 0xBF⟩
  else if 0xF0 ≤ byte && byte ≤ 0xF4 then
    some ⟨byte - 0xF0, 3, if byte = 0xF0 then 0x90 else 0x80,
      if byte = 0xF4 then 0x8F else 0xBF⟩
  else
    none

/-- Read bytes, none of which is part of a character begun before. -/
def decodeFrom : Option Partial → List UInt8 → List Char
  | none, [] => []
  | some _, [] => [replacement]
  | pending, byte :: bytes =>
      let number := byte.toNat
      let fresh :=
        if number < 0x80 then
          Char.ofNat number :: decodeFrom none bytes
        else
          match begin? number with
          | some started => decodeFrom (some started) bytes
          | none => replacement :: decodeFrom none bytes
      match pending with
      | none => fresh
      | some started =>
          if started.low ≤ number && number ≤ started.high then
            let value := started.value * 64 + (number - 0x80)
            if started.missing = 1 then
              Char.ofNat value :: decodeFrom none bytes
            else
              decodeFrom (some ⟨value, started.missing - 1, 0x80, 0xBF⟩) bytes
          else
            replacement :: fresh

/-- The text of any bytes, with a replacement for what encodes no character. -/
def decodeLossy (bytes : ByteArray) : String :=
  String.ofList (decodeFrom none bytes.toList)

/-- The longest beginning of a text that takes at most a number of bytes. -/
def takeBytes : Nat → List Char → List Char
  | _, [] => []
  | limit, character :: text =>
      if character.utf8Size ≤ limit then
        character :: takeBytes (limit - character.utf8Size) text
      else
        []

end Utf8

end GrammarService
