import GrammarService.Proofs.Dialogue.Histories
import GrammarService.Proofs.Service.Settling

namespace GrammarService

/-!
# Where a request stands at a site

A request at a site has no session yet, is busy in a session whose folder is there, or is over. Each
of its calls moves it on and changes nothing outside the folder of its session.
-/

/-- The files of a site form a tree, and the random suffixes that are left are of letters and
digits. -/
structure Site.State.IsSound (state : Site.State) : Prop where
  isTree : state.files.IsTree
  areRandom :
    ∀ suffix ∈ state.suffixes, ∀ character ∈ suffix.toList, character.isAlphanum = true

/-- A state of a site that only the contents of one folder are different in. -/
structure Site.State.DiffersIn
    (folder : Path)
    (before after : Site.State) :
    Prop where
  isSound : after.IsSound
  outside : ∀ path, ¬ folder <+: path → after.files.find? path = before.files.find? path

namespace Site

/-- What creating a session at a site can come to. -/
inductive Creates
    (site : Site)
    (state : State) :
    Except SessionError Session × State → Prop where
  | refused
      (cause : SessionError)
      {after : State}
      (isSound : after.IsSound)
      (sameFiles : after.files = state.files) :
      Creates site state (.error cause, after)
  | created
      {session : Session}
      {after : State}
      (isPlaced : session.IsPlaced site.sessionRoot)
      (absent : state.files.find? session.folder = none)
      (contains : session.Contains after.files .none)
      (differs : State.DiffersIn session.folder state after) :
      Creates site state (.ok session, after)

/-- A session is created in a folder that was not there. -/
theorem creates_createSession
    (site : Site)
    {state : State}
    (isSound : state.IsSound) :
    site.Creates state (site.createSession state) := by
  unfold createSession
  cases left : state.suffixes with
  | nil => exact .refused _ isSound rfl
  | cons suffix suffixes =>
      obtain ⟨isRandom, areRandom⟩ := List.forall_mem_cons.mp (left ▸ isSound.areRandom)
      have creates :=
        Session.creates_create isSound.isTree isRandom site.sessionRoot site.retainSessions
      dsimp only
      generalize
        Session.create state.files site.sessionRoot site.retainSessions suffix = created at creates ⊢
      cases creates with
      | refused cause => exact .refused cause ⟨isSound.isTree, areRandom⟩ rfl
      | created isPlaced absent contains outside =>
          exact .created isPlaced absent contains ⟨⟨contains.isTree, areRandom⟩, outside⟩

end Site

namespace Request

section Calls

variable
  {site : Site}
  {state : Site.State}
  {session : Session}
  {contents : Contents}

/-- A call that stays in a session changes what is in the session's folder and nothing else. -/
theorem Call.StaysIn.differsIn_perform
    {call : Call}
    (stays : call.StaysIn session)
    (confined : site.compiler.IsConfined)
    (isSound : state.IsSound)
    (contains : session.Contains state.files contents) :
    Site.State.DiffersIn session.folder state (site.perform call state).2 ∧
      (site.perform call state).2.files.find? session.folder = some .folder := by
  have unchanged : Site.State.DiffersIn session.folder state state := ⟨isSound, fun _ _ => rfl⟩
  cases call with
  | writeGrammar other grammar =>
      obtain ⟨rfl, isPlain⟩ := stays
      simp only [Site.perform, Session.writeGrammar]
      by_cases isLong : FileStore.maxNameBytes < (Session.grammarFile grammar.name).utf8ByteSize
      · rw [contains.addFile_of_long isPlain isLong]
        exact ⟨unchanged, contains.isFolder⟩
      · by_cases absent : contents [Session.grammarFile grammar.name] = none
        · have added := contains.insert absent (.file grammar.text.toUTF8)
          rw [contains.addFile_of_absent isPlain isLong absent]
          refine ⟨⟨⟨added.isTree, isSound.areRandom⟩, fun path notInside => ?_⟩, added.isFolder⟩
          rw [FileStore.find?_insert, if_neg]
          rintro rfl
          exact notInside (List.prefix_append ..)
        · rw [contains.addFile_of_present isPlain isLong absent]
          exact ⟨unchanged, contains.isFolder⟩
  | compile other name =>
      obtain rfl := stays
      have outside := confined.outside other.folder name state.files
      have isTree := confined.isTree other.folder name state.files contains.isTree contains.isFolder
      refine ⟨⟨⟨isTree, isSound.areRandom⟩, fun path notInside => ?_⟩, ?_⟩
      · exact outside path fun inner isInside => notInside ((List.prefix_append ..).trans isInside)
      · refine (outside other.folder fun inner isInside => ?_).trans contains.isFolder
        exact absurd isInside.length_le (by simp)
  | load | execute =>
      exact ⟨⟨⟨isSound.isTree, isSound.areRandom⟩, fun _ _ => rfl⟩, contains.isFolder⟩
  | checkCompiler | createSession | close => exact stays.elim

end Calls

/-- The files that a call writes or reads by itself, each with the folder it is looked up from. -/
def Call.files : Call → List (Path × String)
  | .writeGrammar session grammar => [(session.folder, Session.grammarFile grammar.name)]
  | .load session layout =>
      [(session.folder, Artifacts.unitFile layout.parserUnit),
        (session.folder, Artifacts.unitFile layout.lexerUnit)]
  | _ => []

/-- A call's files lie directly in the folder of the request's session, and no file was written in
the place of another. -/
structure IsTidy
    (history : History)
    (event : Sigma Call.Answer) :
    Prop where
  files :
    ∀ file ∈ event.1.files,
      ∃ session : Session,
        ⟨.createSession, .ok session⟩ ∈ history ∧
          file.1 = session.folder ∧
            ∀ (store : FileStore) path,
              store.locate file.1 file.2 = .ok path → path = session.folder ++ [file.2]
  apart : ¬ Collides event

/-- Where a request stands at a site with some files: what it did so far and what is left of it. -/
inductive Stands
    (site : Site)
    (request : Request)
    (outcome : Outcome)
    (files : FileStore) :
    History → Handling Outcome → Prop where
  | begun : Stands site request outcome files [] request.handle
  | checked
      {layout : Layout}
      {grammars : List NamedGrammar}
      (resolved : request.resolve = .ok (layout, grammars)) :
      Stands site request outcome files [⟨.checkCompiler, .ok ()⟩]
        (request.handleGrammars layout grammars)
  | busy
      {history : History}
      {session : Session}
      {rest : Handling Outcome}
      (isOpen : IsOpen history session)
      (isOnly : ∀ other, ⟨.createSession, .ok other⟩ ∈ history → other = session)
      (isPlaced : session.IsPlaced site.sessionRoot)
      (contains : session.Contains files (files.within session.folder))
      (settles :
        Settles site session outcome history rest (files.within session.folder)) :
      Stands site request outcome files history
        (rest.andThen fun result => .ask (.close session) fun _ => .done result)
  | ended
      {history : History}
      {result : Outcome}
      (isClosed : ∀ session, ¬ IsOpen history session)
      (isSettled :
        ∀ session,
          ⟨.createSession, .ok session⟩ ∈ history → Sufficed history → result = outcome) :
      Stands site request outcome files history (.done result)

/-- A request has moved on by what it did in some state. -/
structure MovesOn
    (site : Site)
    (request : Request)
    (outcome : Outcome)
    (state : Site.State)
    (history : History)
    (after : Site.State)
    (events : History)
    (rest : Handling Outcome) :
    Prop where
  stands : request.Stands site outcome after.files (history ++ events) rest
  isSound : after.IsSound
  /-- Nothing has changed outside the folder of the request's session. -/
  outside :
    ∀ path,
      (∀ session : Session,
          IsOpen history session ∨ IsOpen (history ++ events) session →
            ¬ session.folder <+: path) →
        after.files.find? path = state.files.find? path
  areTidy : ∀ event ∈ events, IsTidy (history ++ events) event
  /-- The folder of a new session was not there before. -/
  isNew :
    ∀ session : Session,
      IsOpen (history ++ events) session →
        IsOpen history session ∨ state.files.find? session.folder = none

section Moves

variable
  {site : Site}
  {request : Request}
  {outcome : Outcome}
  {state : Site.State}
  {history : History}

/-- A request moves on in any state that its session is as it was in. -/
theorem Stands.elsewhere
    {files after : FileStore}
    {rest : Handling Outcome}
    (stands : request.Stands site outcome files history rest)
    (isTree : after.IsTree)
    (same :
      ∀ session : Session,
        IsOpen history session →
          ∀ path, session.folder <+: path → after.find? path = files.find? path) :
    request.Stands site outcome after history rest := by
  cases stands with
  | begun => exact .begun
  | checked resolved => exact .checked resolved
  | ended isClosed isSettled => exact .ended isClosed isSettled
  | @busy _ session _ isOpen isOnly isPlaced contains settles =>
      have sameWithin : after.within session.folder = files.within session.folder :=
        funext fun path => same session isOpen _ (List.prefix_append ..)
      refine .busy isOpen isOnly isPlaced ⟨isTree, contains.isProper, ?_, rfl⟩ ?_
      · exact (same session isOpen _ List.prefix_rfl).trans contains.isFolder
      · rwa [sameWithin]

/-- A request that is over stays where it is. -/
theorem movesOn_of_done
    {result : Outcome}
    (stands : request.Stands site outcome state.files history (.done result))
    (isSound : state.IsSound) :
    MovesOn site request outcome state history state [] (.done result) where
  stands := by simpa using stands
  isSound := isSound
  outside := fun _ _ => rfl
  areTidy := by simp
  isNew := fun _ isOpen => .inl (by simpa using isOpen)

/-- A call without a session, which changes no files and leads to no session. -/
theorem movesOn_of_outside
    {after : Site.State}
    {event : Sigma Call.Answer}
    {rest : Handling Outcome}
    (stands : request.Stands site outcome state.files (history ++ [event]) rest)
    (isSound : after.IsSound)
    (sameFiles : after.files = state.files)
    (isTidy : IsTidy (history ++ [event]) event)
    (notOpen : ∀ session, ¬ IsOpen (history ++ [event]) session) :
    MovesOn site request outcome state history after [event] rest where
  stands := by rwa [sameFiles]
  isSound := isSound
  outside := fun _ _ => by rw [sameFiles]
  areTidy := by simpa using isTidy
  isNew := fun session isOpen => absurd isOpen (notOpen session)

/-- A request without a created session has no open one. -/
theorem not_isOpen_of_notCreated
    (notCreated : ∀ session, ⟨.createSession, .ok session⟩ ∉ history)
    (session : Session) :
    ¬ IsOpen history session :=
  fun isOpen => notCreated session isOpen.created

/-- A request begins by looking for the compiler, unless its grammars cannot be used. -/
theorem movesOn_begun (isSound : state.IsSound) :
    MovesOn site request outcome state [] (request.handle.step site.perform state).2
      (request.handle.firstEvent site.perform state)
      (request.handle.step site.perform state).1 := by
  have notOpen (answer : Except CompilerError Unit) :
      ∀ session, ¬ IsOpen ([] ++ [⟨.checkCompiler, answer⟩]) session :=
    not_isOpen_of_notCreated (by simp)
  unfold handle
  cases resolved : request.resolve with
  | error error =>
      exact movesOn_of_done (.ended (not_isOpen_of_notCreated (by simp)) (by simp)) isSound
  | ok plan =>
      obtain ⟨layout, grammars⟩ := plan
      simp only [Dialogue.step, Dialogue.firstEvent, Site.perform]
      cases site.compiler.check with
      | error cause =>
          exact movesOn_of_outside (.ended (notOpen _) (by simp)) isSound rfl
            ⟨by simp [Call.files], id⟩ (notOpen _)
      | ok =>
          exact movesOn_of_outside (.checked resolved) isSound rfl ⟨by simp [Call.files], id⟩
            (notOpen _)

/-- A request goes on by creating its session. -/
theorem movesOn_checked
    {layout : Layout}
    {grammars : List NamedGrammar}
    (settles :
      ∀ session history,
        Settles site session outcome history (request.handleInSession session layout grammars) .none)
    (isSound : state.IsSound) :
    MovesOn site request outcome state [⟨.checkCompiler, .ok ()⟩]
      ((request.handleGrammars layout grammars).step site.perform state).2
      ((request.handleGrammars layout grammars).firstEvent site.perform state)
      ((request.handleGrammars layout grammars).step site.perform state).1 := by
  have creates := site.creates_createSession isSound
  simp only [handleGrammars, Dialogue.step, Dialogue.firstEvent, Site.perform]
  generalize site.createSession state = created at creates ⊢
  cases creates with
  | refused cause isSound sameFiles =>
      have notOpen :
          ∀ session,
            ¬ IsOpen ([⟨.checkCompiler, .ok ()⟩] ++ [⟨.createSession, .error cause⟩]) session :=
        not_isOpen_of_notCreated (by simp)
      exact movesOn_of_outside (.ended notOpen (by simp)) isSound sameFiles
        ⟨by simp [Call.files], id⟩ notOpen
  | @created session after isPlaced absent contains differs =>
      have isOnly (other : Session)
          (created :
            ⟨.createSession, .ok other⟩ ∈
              ([⟨.checkCompiler, .ok ()⟩] ++ [⟨.createSession, .ok session⟩] : History)) :
          other = session := by
        simpa using created
      refine ⟨.busy ⟨by simp, by simp⟩ isOnly isPlaced ?_ ?_, differs.isSound, ?_, ?_, ?_⟩
      · rwa [contains.within]
      · rw [contains.within]
        exact settles session _
      · exact fun path notInside =>
          differs.outside path (notInside session (.inr ⟨by simp, by simp⟩))
      · simp only [List.forall_mem_singleton]
        exact ⟨by simp [Call.files], id⟩
      · intro other isOpen
        rw [isOnly other isOpen.created]
        exact .inr absent

/-- What sufficed so far sufficed before. -/
theorem Sufficed.of_append
    {later : History}
    (sufficed : Sufficed (history ++ later)) :
    Sufficed history :=
  fun event present => sufficed event (List.mem_append_left _ present)

/-- A call that stays in a session has its files in the session's folder. -/
theorem Call.StaysIn.isTidy
    {session : Session}
    {call : Call}
    {answer : call.Answer}
    (stays : call.StaysIn session)
    (created : ⟨.createSession, .ok session⟩ ∈ history)
    (isProper : FileStore.IsProper session.folder)
    (apart : ¬ Collides ⟨call, answer⟩) :
    IsTidy history ⟨call, answer⟩ := by
  refine ⟨fun file isFile => ⟨session, created, ?_⟩, apart⟩
  cases call with
  | writeGrammar other grammar =>
      obtain ⟨rfl, isPlain⟩ := stays
      obtain rfl := List.mem_singleton.mp isFile
      exact ⟨rfl, fun _ _ => FileStore.eq_of_locate isPlain isProper⟩
  | load other layout =>
      obtain ⟨rfl, parserPlain, lexerPlain⟩ := stays
      simp only [Call.files, List.mem_cons, List.not_mem_nil, or_false] at isFile
      rcases isFile with rfl | rfl
      · exact ⟨rfl, fun _ _ => FileStore.eq_of_locate parserPlain isProper⟩
      · exact ⟨rfl, fun _ _ => FileStore.eq_of_locate lexerPlain isProper⟩
  | _ => cases isFile

/-- A request that is done in its session closes it. -/
theorem movesOn_closing
    {session : Session}
    {result : Outcome}
    (isSound : state.IsSound)
    (isOpen : IsOpen history session)
    (isPlaced : session.IsPlaced site.sessionRoot)
    (contains : session.Contains state.files (state.files.within session.folder))
    (isSettled : Sufficed history → result = outcome) :
    MovesOn site request outcome state history (site.perform (.close session) state).2
      [⟨.close session, ()⟩] (.done result) := by
  obtain ⟨isTree, outside⟩ := contains.close isPlaced
  have isClosed (other : Session) : ¬ IsOpen (history ++ [⟨.close session, ()⟩]) other :=
    fun stillOpen => stillOpen.notClosed session (by simp)
  refine ⟨.ended isClosed fun other _ sufficed => isSettled sufficed.of_append,
    ⟨isTree, isSound.areRandom⟩, fun path notInside => outside path (notInside _ (.inl isOpen)), ?_,
    fun other stillOpen => absurd stillOpen (isClosed other)⟩
  simp only [List.forall_mem_singleton]
  exact ⟨by simp [Call.files], id⟩

/-- A request that is busy in its session goes on in it. -/
theorem movesOn_calling
    (confined : site.compiler.IsConfined)
    {session : Session}
    {call : Call}
    {next : call.Answer → Handling Outcome}
    (isSound : state.IsSound)
    (isOpen : IsOpen history session)
    (isOnly : ∀ other, ⟨.createSession, .ok other⟩ ∈ history → other = session)
    (isPlaced : session.IsPlaced site.sessionRoot)
    (contains : session.Contains state.files (state.files.within session.folder))
    (settles :
      Settles site session outcome history (.ask call next)
        (state.files.within session.folder)) :
    MovesOn site request outcome state history (site.perform call state).2
      [⟨call, (site.perform call state).1⟩]
      ((next (site.perform call state).1).andThen fun result =>
        .ask (.close session) fun _ => .done result) := by
  obtain ⟨stays, settles⟩ := settles
  obtain ⟨apart, goesOn⟩ := settles state contains
  obtain ⟨differs, isFolder⟩ := stays.differsIn_perform confined isSound contains
  have notClose (other : Session) : call ≠ .close other := by
    rintro rfl
    exact stays
  have isOnlyLater (other : Session)
      (created :
        ⟨.createSession, .ok other⟩ ∈ history ++ [⟨call, (site.perform call state).1⟩]) :
      other = session := by
    rcases List.mem_append.mp created with before | isCall
    · exact isOnly other before
    · have isCreation : .createSession = call := congrArg Sigma.fst (List.mem_singleton.mp isCall)
      rw [← isCreation] at stays
      exact stays.elim
  have stillOpen : IsOpen (history ++ [⟨call, (site.perform call state).1⟩]) session :=
    isOpen.append notClose
  have stillContains :
      session.Contains (site.perform call state).2.files
        ((site.perform call state).2.files.within session.folder) :=
    ⟨differs.isSound.isTree, contains.isProper, isFolder, rfl⟩
  refine ⟨.busy stillOpen isOnlyLater isPlaced stillContains goesOn, differs.isSound,
    fun path notInside => differs.outside path (notInside _ (.inl isOpen)), ?_, ?_⟩
  · simp only [List.forall_mem_singleton]
    exact stays.isTidy (List.mem_append_left _ isOpen.created) contains.isProper apart
  · intro other otherOpen
    rw [isOnlyLater other otherOpen.created]
    exact .inl isOpen

/-- A request moves on by each of its calls. -/
theorem Stands.movesOn
    {dialogue : Handling Outcome}
    (stands : request.Stands site outcome state.files history dialogue)
    (confined : site.compiler.IsConfined)
    (settles :
      ∀ layout grammars,
        request.resolve = .ok (layout, grammars) →
          ∀ session history,
            Settles site session outcome history
              (request.handleInSession session layout grammars) .none)
    (isSound : state.IsSound) :
    MovesOn site request outcome state history (dialogue.step site.perform state).2
      (dialogue.firstEvent site.perform state) (dialogue.step site.perform state).1 := by
  cases stands with
  | begun => exact movesOn_begun isSound
  | checked resolved => exact movesOn_checked (settles _ _ resolved) isSound
  | ended isClosed isSettled => exact movesOn_of_done (.ended isClosed isSettled) isSound
  | @busy _ session rest isOpen isOnly isPlaced contains settled =>
      cases rest with
      | done result => exact movesOn_closing isSound isOpen isPlaced contains settled
      | ask call next =>
          exact movesOn_calling confined isSound isOpen isOnly isPlaced contains settled

end Moves

end Request

end GrammarService
