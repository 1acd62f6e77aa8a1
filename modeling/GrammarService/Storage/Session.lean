import GrammarService.Storage.FileStore

namespace GrammarService

/-!
# Sessions

A session is a folder of its own for one request, with a random name. Grammars are written into it,
and closing it removes it with everything in it unless it is retained.
-/

/-- A folder for one request. -/
structure Session where
  folder : Path
  /-- Whether the folder is kept when the session is closed. -/
  retained : Bool
  deriving Repr, DecidableEq, Inhabited

/-- Why a session could not do what was asked. -/
inductive SessionError
  | notCreated (cause : FileError)
  /-- No random name was left for the folder. -/
  | noName
  | grammarNotWritten (file : String) (cause : FileError)
  deriving Repr, DecidableEq

namespace Session

/-- What the name of every session's folder begins with. -/
def folderMark : String :=
  "tusk_"

/-- How many random characters follow in the name of a session's folder. -/
def suffixLength : Nat :=
  32

/-- Make the folder of a new session; it must not be there before. -/
def create
    (store : FileStore)
    (root : Path)
    (retained : Bool)
    (suffix : String) :
    Except SessionError (Session × FileStore) :=
  match store.addFolder root (folderMark ++ suffix) with
  | .error cause => .error (.notCreated cause)
  | .ok (folder, store) => .ok (⟨folder, retained⟩, store)

/-- The name of the file that holds a grammar. -/
def grammarFile (name : String) : String :=
  name ++ ".g4"

/-- Write a grammar into a new file; the result holds the file's path. -/
def writeGrammar
    (session : Session)
    (store : FileStore)
    (name grammar : String) :
    Except SessionError (Path × FileStore) :=
  match store.addFile session.folder (grammarFile name) grammar.toUTF8 with
  | .error cause =>
      let file := (FileStore.namesOf (grammarFile name)).getLast?.getD ""
      .error (.grammarNotWritten file cause)
  | .ok written => .ok written

/-- The store after a session: without its folder, unless that is retained or cannot be removed. -/
def close
    (session : Session)
    (store : FileStore) :
    FileStore :=
  if session.retained then
    store
  else
    match store.removeFolder session.folder with
    | .ok store => store
    | .error _ => store

end Session

end GrammarService
