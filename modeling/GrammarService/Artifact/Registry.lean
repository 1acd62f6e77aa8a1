import GrammarService.Dialogue
import GrammarService.Grammar

namespace GrammarService

/-!
# The registry of loaded grammars

Loaded grammars are registered under random identities that no other registered grammar has. An
identity stands for its grammar until it is released. The registry is shared by all requests, so
what a request does with it is a dialogue.
-/

/-- A loaded lexer or parser grammar. -/
inductive LoadedGrammar
  | lexer (grammar : LexerGrammar)
  | parser (grammar : ParserGrammar)
  deriving Inhabited

namespace LoadedGrammar

/-- The name of the grammar. -/
def name : LoadedGrammar → String
  | .lexer grammar => grammar.name
  | .parser grammar => grammar.name

end LoadedGrammar

/-- What a loaded grammar is registered under. -/
structure Identity where
  text : String
  deriving Repr, DecidableEq, Inhabited

namespace Identity

/-- What every identity begins with. -/
def mark : String :=
  "gensym_"

/-- How many random characters follow in an identity. -/
def suffixLength : Nat :=
  32

/-- The identity with a random suffix. -/
def ofSuffix (suffix : String) : Identity where
  text := mark ++ suffix

/-- Whether an identity has the form of those given to loaded grammars. -/
def isWellFormed (identity : Identity) : Bool :=
  let suffix := identity.text.toList.drop mark.length
  mark.toList.isPrefixOf identity.text.toList && suffix.length = suffixLength &&
    suffix.all Char.isAlphanum

end Identity

/-- The registered grammars and the random suffixes that are left for identities. -/
structure Registry where
  entries : List (Identity × LoadedGrammar)
  suffixes : List String
  deriving Inhabited

namespace Registry

/-- The grammar registered under an identity. -/
def find?
    (registry : Registry)
    (identity : Identity) :
    Option LoadedGrammar :=
  registry.entries.lookup identity

/-- Whether a grammar is registered under an identity. -/
def contains
    (registry : Registry)
    (identity : Identity) :
    Bool :=
  (registry.find? identity).isSome

/-- Whether no grammar is registered under the identity with a suffix. -/
def isFree
    (registry : Registry)
    (suffix : String) :
    Bool :=
  !registry.contains (Identity.ofSuffix suffix)

/-- Register a grammar under the first suffix that is free; suffixes that are not are used up. -/
def register
    (registry : Registry)
    (grammar : LoadedGrammar) :
    Option Identity × Registry :=
  match registry.suffixes.dropWhile fun suffix => !registry.isFree suffix with
  | [] => (none, { registry with suffixes := [] })
  | suffix :: suffixes =>
      let identity := Identity.ofSuffix suffix
      (some identity, ⟨(identity, grammar) :: registry.entries, suffixes⟩)

/-- The grammar registered under an identity, if it has a name. -/
def resolve
    (registry : Registry)
    (identity : Identity)
    (name : String) :
    Option LoadedGrammar :=
  (registry.find? identity).filter fun grammar => grammar.name = name

/-- Forget the grammar registered under an identity. -/
def release
    (registry : Registry)
    (identity : Identity) :
    Registry :=
  { registry with entries := registry.entries.filter fun (other, _) => other ≠ identity }

/-- A call to the registry. -/
inductive Call
  | register (grammar : LoadedGrammar)
  | resolve (identity : Identity) (name : String)
  | release (identity : Identity)

namespace Call

/-- What the registry answers to a call. -/
abbrev Answer : Call → Type
  | .register _ => Option Identity
  | .resolve _ _ => Option LoadedGrammar
  | .release _ => Unit

end Call

/-- What calls do to the registry. -/
def perform : Dialogue.Handler Call.Answer Registry
  | .register grammar, registry => registry.register grammar
  | .resolve identity name, registry => (registry.resolve identity name, registry)
  | .release identity, registry => ((), registry.release identity)

end Registry

end GrammarService
