namespace GrammarService

/-!
# Stored files

A store is a tree of folders and files, kept as a list of entries by path. A name given to an
operation may hold several names between slashes: all but the last of them lead through folders.
Nothing is replaced unless an operation says so.
-/

/-- The names that lead from the top of a store to an entry. -/
abbrev Path := List String

/-- Why an operation on a store was refused. -/
inductive FileError
  | notFound
  | alreadyExists
  | notAFolder
  | isAFolder
  | nameTooLong
  | nameInvalid
  | notText
  deriving Repr, DecidableEq

namespace FileError

/-- The error in words, with its number if the system gives it one. -/
def message : FileError → String
  | .notFound => "No such file or directory (os error 2)"
  | .alreadyExists => "File exists (os error 17)"
  | .notAFolder => "Not a directory (os error 20)"
  | .isAFolder => "Is a directory (os error 21)"
  | .nameTooLong => "File name too long (os error 36)"
  | .nameInvalid => "file name contained an unexpected NUL byte"
  | .notText => "stream did not contain valid UTF-8"

end FileError

/-- What a path leads to. -/
inductive FileEntry
  | folder
  | file (content : ByteArray)
  deriving Inhabited

/-- Folders and files by path. The top folder is always there and is not listed. -/
structure FileStore where
  entries : List (Path × FileEntry)
  deriving Inhabited

namespace FileStore

/-- The store that holds the top folder only. -/
def empty : FileStore where
  entries := []

/-- What a path leads to, if anything. -/
def find?
    (store : FileStore)
    (path : Path) :
    Option FileEntry :=
  if path.isEmpty then
    some .folder
  else
    store.entries.lookup path

/-- Whether a path leads to a folder. -/
def isFolder
    (store : FileStore)
    (path : Path) :
    Bool :=
  match store.find? path with
  | some .folder => true
  | _ => false

/-- Put an entry at a path, in place of what was there. -/
def insert
    (store : FileStore)
    (path : Path)
    (entry : FileEntry) :
    FileStore where
  entries := (path, entry) :: store.entries.filter fun (other, _) => other ≠ path

/-- The longest name of an entry, in bytes. -/
def maxNameBytes : Nat :=
  255

/-- The folder that a name leads to from a folder. -/
def enter
    (store : FileStore)
    (folder : Path)
    (name : String) :
    Except FileError Path :=
  if name = "" || name = "." then
    .ok folder
  else if name = ".." then
    .ok folder.dropLast
  else if maxNameBytes < name.utf8ByteSize then
    .error .nameTooLong
  else
    match store.find? (folder ++ [name]) with
    | some .folder => .ok (folder ++ [name])
    | some (.file _) => .error .notAFolder
    | none => .error .notFound

/-- The path that names lead to from a folder, through folders up to the last name. -/
def follow
    (store : FileStore)
    (folder : Path) :
    List String → Except FileError Path
  | [] => .ok folder
  | [name] =>
      if name = "" || name = "." then
        .ok folder
      else if name = ".." then
        .ok folder.dropLast
      else if maxNameBytes < name.utf8ByteSize then
        .error .nameTooLong
      else
        .ok (folder ++ [name])
  | name :: names => do
      let inner ← store.enter folder name
      store.follow inner names

/-- The names between the slashes of a text. -/
def namesOf (text : String) : List String :=
  (text.toList.splitOn '/').map String.ofList

/-- The path of a name in a folder, which has to be there. A leading slash stands for the top. -/
def locate
    (store : FileStore)
    (folder : Path)
    (name : String) :
    Except FileError Path := do
  if name.toList.contains '\x00' then
    throw .nameInvalid
  let start := if name.toList.head? = some '/' then [] else folder
  let here ← start.foldlM store.enter []
  store.follow here (namesOf name)

/-- Make a new folder. -/
def addFolder
    (store : FileStore)
    (folder : Path)
    (name : String) :
    Except FileError (Path × FileStore) := do
  let path ← store.locate folder name
  match store.find? path with
  | some _ => throw .alreadyExists
  | none => return (path, store.insert path .folder)

/-- Make a new file. -/
def addFile
    (store : FileStore)
    (folder : Path)
    (name : String)
    (content : ByteArray) :
    Except FileError (Path × FileStore) := do
  let path ← store.locate folder name
  match store.find? path with
  | some _ => throw .alreadyExists
  | none => return (path, store.insert path (.file content))

/-- Write a file, in place of one that was there. -/
def putFile
    (store : FileStore)
    (folder : Path)
    (name : String)
    (content : ByteArray) :
    Except FileError FileStore := do
  let path ← store.locate folder name
  match store.find? path with
  | some .folder => throw .isAFolder
  | _ => return store.insert path (.file content)

/-- The content of a file. -/
def fileContent
    (store : FileStore)
    (folder : Path)
    (name : String) :
    Except FileError ByteArray := do
  let path ← store.locate folder name
  match store.find? path with
  | none => throw .notFound
  | some .folder => throw .isAFolder
  | some (.file content) => return content

/-- Remove a folder and everything in it. -/
def removeFolder
    (store : FileStore)
    (path : Path) :
    Except FileError FileStore :=
  match store.find? path with
  | none => .error .notFound
  | some (.file _) => .error .notAFolder
  | some .folder => .ok ⟨store.entries.filter fun (other, _) => !path.isPrefixOf other⟩

/-- The names of the entries in a folder, sorted. -/
def list
    (store : FileStore)
    (folder : Path) :
    List String :=
  let names := store.entries.filterMap fun (path, _) =>
    if path.length = folder.length + 1 && folder.isPrefixOf path then path.getLast? else none
  names.mergeSort fun left right => !decide (right < left)

end FileStore

end GrammarService
