import GrammarService.Compiler.Run
import GrammarService.Proofs.Artifact.Loading
import GrammarService.Proofs.Request.Names
import GrammarService.Storage.Session

namespace GrammarService

/-!
# What is in the folder of a session

What a session's files are written and read as depends on what is in the session's folder and on
nothing else in the store, not even on where the folder is.
-/

/-- What is in a folder, by its path from there. -/
abbrev Contents := Path → Option FileEntry

/-- The contents of a folder that was just made. -/
def Contents.none : Contents :=
  fun path => if path = [] then some .folder else Option.none

/-- A compiler works in the folder that it is run in, and what it does depends on the name of the
grammar and on what is in the folder. -/
structure GrammarCompiler.IsConfined (compiler : GrammarCompiler) : Prop where
  /-- Nothing changes but what is in the folder. -/
  outside :
    ∀ folder grammar (files : FileStore) path,
      (∀ name, ¬ folder ++ [name] <+: path) →
        (compiler.compile folder grammar files).2.find? path = files.find? path
  /-- What is put in the folder is put in folders. -/
  isTree :
    ∀ folder grammar (files : FileStore),
      files.IsTree →
        files.find? folder = some .folder → (compiler.compile folder grammar files).2.IsTree
  /-- Where the contents are the same, so are the result and the contents afterwards. -/
  determined :
    ∀ folder other grammar (files otherFiles : FileStore),
      files.within folder = otherFiles.within other →
        (compiler.compile folder grammar files).1 = (compiler.compile other grammar otherFiles).1 ∧
          (compiler.compile folder grammar files).2.within folder =
            (compiler.compile other grammar otherFiles).2.within other

namespace Session

/-- The folder of a session is there and has some contents. -/
structure Contains
    (session : Session)
    (files : FileStore)
    (contents : Contents) :
    Prop where
  isTree : files.IsTree
  isProper : FileStore.IsProper session.folder
  isFolder : files.find? session.folder = some .folder
  within : files.within session.folder = contents

namespace Contains

variable
  {session other : Session}
  {files otherFiles : FileStore}
  {contents : Contents}
  {name : String}
  (contains : session.Contains files contents)

include contains

/-- The names of the session's folder lead to it. -/
theorem entered : session.folder.foldlM files.enter [] = .ok session.folder := by
  have isFolder : files.find? ([] ++ session.folder) = some .folder := contains.isFolder
  exact FileStore.foldlM_enter_of_isProper contains.isTree isFolder contains.isProper

/-- What a name in the session's folder leads to. -/
theorem find?_eq (name : String) : files.find? (session.folder ++ [name]) = contents [name] :=
  congrFun contains.within [name]

/-- Names are looked up in the session's folder. -/
theorem locate_eq (isPlain : FileStore.IsPlain name) :
    files.locate session.folder name =
      if FileStore.maxNameBytes < name.utf8ByteSize then
        .error .nameTooLong
      else
        .ok (session.folder ++ [name]) :=
  FileStore.locate_of_isPlain isPlain contains.entered

/-- A file with a name that is too long is not written. -/
theorem addFile_of_long
    (isPlain : FileStore.IsPlain name)
    (isLong : FileStore.maxNameBytes < name.utf8ByteSize)
    (content : ByteArray) :
    files.addFile session.folder name content = .error .nameTooLong := by
  rw [FileStore.addFile, contains.locate_eq isPlain, if_pos isLong]
  rfl

/-- A file that is there already is not written. -/
theorem addFile_of_present
    (isPlain : FileStore.IsPlain name)
    (isShort : ¬ FileStore.maxNameBytes < name.utf8ByteSize)
    (present : contents [name] ≠ none)
    (content : ByteArray) :
    files.addFile session.folder name content = .error .alreadyExists := by
  obtain ⟨entry, isEntry⟩ := Option.ne_none_iff_exists'.mp present
  rw [FileStore.addFile, contains.locate_eq isPlain, if_neg isShort]
  simp only [bind, Except.bind, contains.find?_eq, isEntry]
  rfl

/-- A file that is not there yet is written. -/
theorem addFile_of_absent
    (isPlain : FileStore.IsPlain name)
    (isShort : ¬ FileStore.maxNameBytes < name.utf8ByteSize)
    (absent : contents [name] = none)
    (content : ByteArray) :
    files.addFile session.folder name content =
      .ok (session.folder ++ [name],
        files.insert (session.folder ++ [name]) (.file content)) := by
  rw [FileStore.addFile, contains.locate_eq isPlain, if_neg isShort]
  simp only [bind, Except.bind, contains.find?_eq, absent]
  rfl

/-- What is in the session's folder when something was added to it. -/
theorem insert
    (absent : contents [name] = none)
    (entry : FileEntry) :
    session.Contains (files.insert (session.folder ++ [name]) entry)
      (Function.update contents [name] (some entry)) where
  isTree := contains.isTree.insert contains.isFolder ((contains.find?_eq name).trans absent) entry
  isProper := contains.isProper
  isFolder := by
    rw [FileStore.find?_insert, if_neg (by simp), contains.isFolder]
  within := by
    funext path
    rw [FileStore.within, FileStore.find?_insert]
    by_cases isNew : path = [name]
    · simp [isNew]
    · rw [Function.update_of_ne isNew, if_neg (by simpa using isNew), ← contains.within]
      rfl

/-- Files are read from the session's folder. -/
theorem fileContent_eq
    (otherContains : other.Contains otherFiles contents)
    (isPlain : FileStore.IsPlain name) :
    files.fileContent session.folder name = otherFiles.fileContent other.folder name := by
  rw [FileStore.fileContent, FileStore.fileContent, contains.locate_eq isPlain,
    otherContains.locate_eq isPlain]
  split
  · rfl
  · simp only [bind, Except.bind, contains.find?_eq, otherContains.find?_eq]

/-- Compiled grammars are read from the session's folder. -/
theorem readGrammars_eq
    (otherContains : other.Contains otherFiles contents)
    {layout : Layout}
    (parserPlain : FileStore.IsPlain (Artifacts.unitFile layout.parserUnit))
    (lexerPlain : FileStore.IsPlain (Artifacts.unitFile layout.lexerUnit)) :
    Artifacts.readGrammars files session.folder layout =
      Artifacts.readGrammars otherFiles other.folder layout := by
  simp only [Artifacts.readGrammars, Artifacts.readUnit,
    contains.fileContent_eq otherContains parserPlain,
    contains.fileContent_eq otherContains lexerPlain]

end Contains

/-- The folder of a session lies in the folder that sessions are made in. -/
def IsPlaced
    (session : Session)
    (root : Path) :
    Prop :=
  ∃ name, session.folder = root.foldl FileStore.nextFolder [] ++ [name]

/-- Different folders that sessions are made in have nothing in common. -/
theorem IsPlaced.not_isPrefix
    {session other : Session}
    {root path : Path}
    (isPlaced : session.IsPlaced root)
    (otherPlaced : other.IsPlaced root)
    (differ : session.folder ≠ other.folder)
    (isInside : other.folder <+: path) :
    ¬ session.folder <+: path := by
  obtain ⟨name, isFolder⟩ := isPlaced
  obtain ⟨otherName, otherFolder⟩ := otherPlaced
  intro alsoInside
  refine differ ((List.prefix_of_prefix_length_le alsoInside isInside ?_).eq_of_length ?_) <;>
    simp [isFolder, otherFolder]

/-- What making a session can come to. -/
inductive Creates
    (files : FileStore)
    (root : Path) :
    Except SessionError (Session × FileStore) → Prop where
  | refused (cause : SessionError) : Creates files root (.error cause)
  | created
      {session : Session}
      {after : FileStore}
      (isPlaced : session.IsPlaced root)
      (absent : files.find? session.folder = none)
      (contains : session.Contains after .none)
      (outside :
        ∀ path, ¬ session.folder <+: path → after.find? path = files.find? path) :
      Creates files root (.ok (session, after))

/-- A session is made in a new folder, in the folder that sessions are made in. -/
theorem creates_create
    {files : FileStore}
    (isTree : files.IsTree)
    {suffix : String}
    (isRandom : ∀ character ∈ suffix.toList, character.isAlphanum = true)
    (root : Path)
    (retained : Bool) :
    Creates files root (create files root retained suffix) := by
  -- With a suffix of letters and digits, the folder's name cannot lead to another folder.
  have isName : Header.IsName (folderMark ++ suffix).toList := by
    refine ⟨'t', ("usk_" ++ suffix).toList, by simp [folderMark], by decide, ?_⟩
    intro character present
    rw [String.toList_append, List.mem_append] at present
    rcases present with isMark | isSuffix
    · have areContinuing : "usk_".toList.all Header.continuesName = true := by decide
      exact List.all_eq_true.mp areContinuing character isMark
    · simp [Header.continuesName, isRandom character isSuffix]
  have isPlain : FileStore.IsPlain (folderMark ++ suffix ++ "") :=
    FileStore.isPlain_append isName (by decide) (by decide)
  rw [String.append_empty] at isPlain
  unfold create FileStore.addFolder
  cases located : files.locate root (folderMark ++ suffix) with
  | error cause => exact .refused _
  | ok path =>
      obtain ⟨here, entered, isShort, rfl⟩ := FileStore.entered_of_locate isPlain located
      obtain ⟨isFolder, isProper⟩ :=
        FileStore.isFolder_of_foldlM_enter isTree FileStore.find?_nil (by simp [FileStore.IsProper])
          entered
      simp only [bind, Except.bind]
      cases found : files.find? (here ++ [folderMark ++ suffix]) with
      | some entry => exact .refused _
      | none =>
          have find?_eq (other : Path) :
              (files.insert (here ++ [folderMark ++ suffix]) .folder).find? other =
                if other = here ++ [folderMark ++ suffix] then some .folder
                else files.find? other :=
            FileStore.find?_insert .folder other
          refine .created ⟨folderMark ++ suffix, ?_⟩ found
            ⟨isTree.insert isFolder found .folder, ?_, ?_, ?_⟩ ?_
          · rw [← FileStore.eq_foldl_of_foldlM_enter entered]
          · intro name isName
            rcases List.mem_append.mp isName with isAbove | isLast
            · exact isProper name isAbove
            · rw [List.mem_singleton.mp isLast]
              exact ⟨isPlain.ne_empty, isPlain.ne_dot, isPlain.ne_dots, isShort⟩
          · rw [find?_eq, if_pos rfl]
          · funext path
            rw [FileStore.within, find?_eq, Contents.none]
            by_cases isTop : path = []
            · simp [isTop]
            · rw [if_neg (by simpa using isTop), if_neg isTop]
              exact isTree.absent_below found path
          · intro path notInside
            rw [find?_eq, if_neg]
            rintro rfl
            exact notInside List.prefix_rfl

/-- Closing a session removes its folder, unless it is retained, and nothing else. -/
theorem Contains.close
    {session : Session}
    {files : FileStore}
    {contents : GrammarService.Contents}
    {root : Path}
    (contains : session.Contains files contents)
    (isPlaced : session.IsPlaced root) :
    (session.close files).IsTree ∧
      ∀ path, ¬ session.folder <+: path → (session.close files).find? path = files.find? path := by
  have isBelow : session.folder ≠ [] := by
    obtain ⟨name, isFolder⟩ := isPlaced
    simp [isFolder]
  unfold Session.close
  split
  · exact ⟨contains.isTree, fun _ _ => rfl⟩
  · split
    · rename_i removed isRemoved
      refine ⟨contains.isTree.removeFolder isRemoved isBelow, fun path notInside => ?_⟩
      rw [FileStore.find?_removeFolder isRemoved isBelow, if_neg notInside]
    · exact ⟨contains.isTree, fun _ _ => rfl⟩

end Session

end GrammarService
