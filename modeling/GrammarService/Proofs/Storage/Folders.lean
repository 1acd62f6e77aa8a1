import GrammarService.Proofs.Steps
import GrammarService.Storage.FileStore
import Mathlib.Data.List.Basic
import Mathlib.Data.List.Induction

namespace GrammarService

/-!
# Folders and the names in them

A store is a tree if everything in it lies in a folder. In a tree, the names of a folder lead to it
again, unless one of them stands for another folder. A plain name is looked up directly in the folder
that it is looked up from.
-/

/-- Looking up a key behind a choice of keys. -/
theorem lookup_filter_key
    {κ α : Type}
    [BEq κ]
    [LawfulBEq κ]
    (keeps : κ → Bool)
    (entries : List (κ × α))
    (key : κ) :
    (entries.filter fun entry => keeps entry.1).lookup key =
      if keeps key then entries.lookup key else none := by
  induction entries with
  | nil => simp
  | cons entry rest inductionHypothesis =>
      obtain ⟨other, value⟩ := entry
      by_cases isKey : key = other
      · subst isKey
        by_cases kept : keeps key
        · simp [kept]
        · rw [List.filter_cons_of_neg (by simpa using kept), inductionHypothesis]
          simp [kept]
      · have differs : (key == other) = false := by simpa using isKey
        by_cases kept : keeps other
        · rw [List.filter_cons_of_pos (by simpa using kept)]
          simp only [List.lookup_cons, differs, inductionHypothesis]
        · rw [List.filter_cons_of_neg (by simpa using kept), inductionHypothesis]
          simp only [List.lookup_cons, differs]

namespace FileStore

variable {store : FileStore} {folder path : Path} {name : String}

section Entries

@[simp] theorem find?_nil : store.find? [] = some .folder :=
  rfl

/-- What a path leads to, unless it is the one to the top. -/
theorem find?_of_ne_nil
    (isBelow : path ≠ []) :
    store.find? path = store.entries.lookup path := by
  simp [find?, isBelow]

/-- Putting an entry at a path changes what this path leads to. -/
theorem find?_insert
    (entry : FileEntry)
    (other : Path) :
    (store.insert (folder ++ [name]) entry).find? other =
      if other = folder ++ [name] then some entry else store.find? other := by
  by_cases isTop : other = []
  · subst isTop
    simp
  · rw [find?_of_ne_nil isTop, find?_of_ne_nil isTop, insert]
    by_cases isPath : other = folder ++ [name]
    · simp [isPath]
    · have differs : (other == folder ++ [name]) = false := by simpa using isPath
      simp only [List.lookup_cons, differs, if_neg isPath]
      refine (lookup_filter_key (fun known => decide (known ≠ folder ++ [name])) ..).trans ?_
      simp [isPath]

/-- Removing a folder takes away what is in it. -/
theorem find?_removeFolder
    {removed : FileStore}
    (isRemoved : store.removeFolder path = .ok removed)
    (isBelow : path ≠ [])
    (other : Path) :
    removed.find? other = if path <+: other then none else store.find? other := by
  unfold removeFolder at isRemoved
  split at isRemoved
  · cases isRemoved
  · cases isRemoved
  · cases isRemoved
    by_cases isTop : other = []
    · subst isTop
      simp [isBelow]
    · rw [find?_of_ne_nil isTop, find?_of_ne_nil isTop]
      refine (lookup_filter_key (fun known => !path.isPrefixOf known) ..).trans ?_
      by_cases isInside : path <+: other
      · simp [isInside, List.isPrefixOf_iff_prefix.mpr isInside]
      · simp [isInside]

end Entries

/-- Whatever is in the store is in a folder. -/
def IsTree (store : FileStore) : Prop :=
  ∀ folder name, store.find? (folder ++ [name]) ≠ none → store.find? folder = some .folder

namespace IsTree

/-- What lies below something lies below a folder. -/
theorem isFolder_above
    (isTree : store.IsTree)
    {rest : Path}
    (isBelow : rest ≠ [])
    (present : store.find? (folder ++ rest) ≠ none) :
    store.find? folder = some .folder := by
  induction rest using List.reverseRecOn with
  | nil => exact absurd rfl isBelow
  | append_singleton rest name inductionHypothesis =>
      rw [← List.append_assoc] at present
      have isFolder := isTree _ _ present
      rcases rest.eq_nil_or_concat with rfl | ⟨_, _, isConcat⟩
      · simpa using isFolder
      · exact inductionHypothesis (by simp [isConcat]) (by simp [isFolder])

/-- A folder lies in a folder, or is the top one. -/
theorem isFolder_dropLast
    (isTree : store.IsTree)
    (isFolder : store.find? folder = some .folder) :
    store.find? folder.dropLast = some .folder := by
  rcases folder.eq_nil_or_concat with rfl | ⟨above, name, rfl⟩
  · exact isFolder
  · rw [List.concat_eq_append] at isFolder ⊢
    rw [List.dropLast_concat]
    exact isTree above name (by simp [isFolder])

/-- Nothing lies below what is not there. -/
theorem absent_below
    (isTree : store.IsTree)
    (absent : store.find? folder = none)
    (rest : Path) :
    store.find? (folder ++ rest) = none := by
  by_cases isEmpty : rest = []
  · simpa [isEmpty] using absent
  · by_contra present
    cases absent.symm.trans (isTree.isFolder_above isEmpty present)

/-- A store stays a tree when something new is put into a folder. -/
theorem insert
    (isTree : store.IsTree)
    (isFolder : store.find? folder = some .folder)
    (absent : store.find? (folder ++ [name]) = none)
    (entry : FileEntry) :
    (store.insert (folder ++ [name]) entry).IsTree := by
  intro other last present
  rw [find?_insert] at present ⊢
  have notNew : ∀ above, store.find? above = some .folder → above ≠ folder ++ [name] := by
    rintro above isThere rfl
    cases absent.symm.trans isThere
  by_cases isNew : other ++ [last] = folder ++ [name]
  · obtain ⟨rfl, -⟩ := List.append_inj' isNew rfl
    rw [if_neg (notNew _ isFolder), isFolder]
  · rw [if_neg isNew] at present
    have isAbove := isTree other last present
    rw [if_neg (notNew _ isAbove), isAbove]

/-- A store stays a tree when a folder is removed with everything in it. -/
theorem removeFolder
    (isTree : store.IsTree)
    {removed : FileStore}
    (isRemoved : store.removeFolder path = .ok removed)
    (isBelow : path ≠ []) :
    removed.IsTree := by
  intro other last present
  rw [find?_removeFolder isRemoved isBelow] at present ⊢
  split at present
  · exact absurd rfl present
  · rename_i notInside
    rw [if_neg fun isInside => notInside (isInside.trans (List.prefix_append ..))]
    exact isTree other last present

end IsTree

section Names

/-- The folder that a name leads to if it leads to one. -/
def nextFolder
    (folder : Path)
    (name : String) :
    Path :=
  if name = "" || name = "." then
    folder
  else if name = ".." then
    folder.dropLast
  else
    folder ++ [name]

/-- Each name of a path stands for itself and is short enough. -/
def IsProper (path : Path) : Prop :=
  ∀ name ∈ path, name ≠ "" ∧ name ≠ "." ∧ name ≠ ".." ∧ name.utf8ByteSize ≤ maxNameBytes

/-- A name that is the last one of a path wherever it is looked up. -/
structure IsPlain (name : String) : Prop where
  ne_empty : name ≠ ""
  ne_dot : name ≠ "."
  ne_dots : name ≠ ".."
  noSlash : '/' ∉ name.toList
  noNul : '\x00' ∉ name.toList

/-- What entering a folder leads to. -/
theorem eq_nextFolder_of_enter
    {here : Path}
    (entered : store.enter folder name = .ok here) :
    here = nextFolder folder name := by
  unfold enter at entered
  split at entered
  · rename_i stays
    cases entered
    rw [nextFolder, if_pos stays]
  · rename_i moves
    split at entered
    · rename_i leaves
      cases entered
      rw [nextFolder, if_neg moves, if_pos leaves]
    · rename_i stays
      split at entered
      · cases entered
      · split at entered <;> cases entered
        rw [nextFolder, if_neg moves, if_neg stays]

/-- What entering one folder after another leads to. -/
theorem eq_foldl_of_foldlM_enter
    {names : List String}
    {here : Path}
    (entered : names.foldlM store.enter folder = .ok here) :
    here = names.foldl nextFolder folder := by
  induction names generalizing folder with
  | nil =>
      cases entered
      rfl
  | cons name rest inductionHypothesis =>
      rw [List.foldlM_cons] at entered
      obtain ⟨middle, first, entered⟩ := ok_of_bind entered
      obtain rfl := eq_nextFolder_of_enter first
      exact inductionHypothesis entered

/-- The names of a proper path are followed one after another. -/
theorem foldl_nextFolder
    (isProper : IsProper path)
    (folder : Path) :
    path.foldl nextFolder folder = folder ++ path := by
  induction path generalizing folder with
  | nil => simp
  | cons name rest inductionHypothesis =>
      obtain ⟨⟨notEmpty, notDot, notDots, -⟩, isRest⟩ := List.forall_mem_cons.mp isProper
      rw [List.foldl_cons, inductionHypothesis isRest, nextFolder, if_neg (by simp [notEmpty, notDot]),
        if_neg notDots, List.append_assoc, List.singleton_append]

/-- Where names lead to from a folder is a folder, and it is named properly. -/
theorem isFolder_of_foldlM_enter
    (isTree : store.IsTree)
    {names : List String}
    {here : Path}
    (isFolder : store.find? folder = some .folder)
    (isProper : IsProper folder)
    (entered : names.foldlM store.enter folder = .ok here) :
    store.find? here = some .folder ∧ IsProper here := by
  refine foldlM_keeps (fun path => store.find? path = some .folder ∧ IsProper path) ?_ entered
    ⟨isFolder, isProper⟩
  rintro name - before after ⟨beforeFolder, beforeProper⟩ step
  unfold enter at step
  split at step
  · cases step
    exact ⟨beforeFolder, beforeProper⟩
  · rename_i moves
    split at step
    · cases step
      refine ⟨isTree.isFolder_dropLast beforeFolder, fun name isName => ?_⟩
      exact beforeProper name (List.dropLast_subset _ isName)
    · rename_i notDots
      split at step
      · cases step
      · rename_i isShort
        split at step <;> cases step
        rename_i found
        simp only [Bool.or_eq_true, decide_eq_true_eq, not_or] at moves
        refine ⟨found, fun other isName => ?_⟩
        rcases List.mem_append.mp isName with before | isLast
        · exact beforeProper other before
        · rw [List.mem_singleton.mp isLast]
          exact ⟨moves.1, moves.2, notDots, Nat.not_lt.mp isShort⟩

/-- A folder whose names are proper is what they lead to. -/
theorem foldlM_enter_of_isProper
    (isTree : store.IsTree)
    {names : List String}
    (isFolder : store.find? (folder ++ names) = some .folder)
    (isProper : IsProper names) :
    names.foldlM store.enter folder = .ok (folder ++ names) := by
  induction names generalizing folder with
  | nil => simp [pure, Except.pure]
  | cons name rest inductionHypothesis =>
      obtain ⟨⟨notEmpty, notDot, notDots, isShort⟩, isRest⟩ := List.forall_mem_cons.mp isProper
      rw [List.append_cons] at isFolder ⊢
      have isMiddle : store.find? (folder ++ [name]) = some .folder := by
        by_cases isLast : rest = []
        · simpa [isLast] using isFolder
        · exact isTree.isFolder_above isLast (by rw [isFolder]; simp)
      have entered : store.enter folder name = .ok (folder ++ [name]) := by
        simp [enter, notEmpty, notDot, notDots, Nat.not_lt.mpr isShort, isMiddle]
      rw [List.foldlM_cons, entered]
      exact inductionHypothesis isFolder isRest

/-- Where a plain name is looked up to from a folder. -/
theorem locate_of_isPlain
    (isPlain : IsPlain name)
    {here : Path}
    (entered : folder.foldlM store.enter [] = .ok here) :
    store.locate folder name =
      if maxNameBytes < name.utf8ByteSize then .error .nameTooLong else .ok (here ++ [name]) := by
  have notTop : name.toList.head? ≠ some '/' := fun isFirst =>
    isPlain.noSlash (List.mem_of_head? isFirst)
  have isAlone : namesOf name = [name] := by
    simp [namesOf, List.splitOn_eq_singleton isPlain.noSlash]
  simp [locate, isPlain.noNul, notTop, entered, isAlone, follow, isPlain.ne_empty, isPlain.ne_dot,
    isPlain.ne_dots, bind, Except.bind]

/-- A plain name that leads anywhere leads from where its folder leads to. -/
theorem entered_of_locate
    (isPlain : IsPlain name)
    (located : store.locate folder name = .ok path) :
    ∃ here,
      folder.foldlM store.enter [] = .ok here ∧
        name.utf8ByteSize ≤ maxNameBytes ∧ path = here ++ [name] := by
  cases entered : folder.foldlM store.enter [] with
  | error error =>
      have notTop : name.toList.head? ≠ some '/' := fun isFirst =>
        isPlain.noSlash (List.mem_of_head? isFirst)
      simp [locate, isPlain.noNul, notTop, entered, bind, Except.bind] at located
  | ok here =>
      rw [locate_of_isPlain isPlain entered] at located
      split at located
      · cases located
      · rename_i isShort
        cases located
        exact ⟨here, rfl, Nat.not_lt.mp isShort, rfl⟩

/-- A plain name leads directly into a folder that is named properly, if it leads anywhere. -/
theorem eq_of_locate
    (isPlain : IsPlain name)
    (isProper : IsProper folder)
    (located : store.locate folder name = .ok path) :
    path = folder ++ [name] := by
  obtain ⟨here, entered, -, rfl⟩ := entered_of_locate isPlain located
  rw [eq_foldl_of_foldlM_enter entered, foldl_nextFolder isProper, List.nil_append]

end Names

section Contents

/-- What is in a folder, by its path from there. -/
def within
    (store : FileStore)
    (folder : Path) :
    Path → Option FileEntry :=
  fun path => store.find? (folder ++ path)

end Contents

end FileStore

end GrammarService
