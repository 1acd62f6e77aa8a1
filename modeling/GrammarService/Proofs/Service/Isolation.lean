import GrammarService.Proofs.Service.Standing

namespace GrammarService

/-!
# Requests at one site

However requests take turns at a site, each of them has a folder to itself for as long as its session
is open, and so it is replied to as if it were alone.
-/

namespace Request

section Calls

variable
  {request : Request}
  {session : Session}
  {layout : Layout}
  {grammarName : String}
  {following : Handling Outcome}
  {count : Nat}

/-- Writing grammars takes a call for each. -/
theorem endsWithin_writeAll
    (ends : following.EndsWithin count)
    (grammars : List NamedGrammar) :
    (writeAll session grammarName following grammars).EndsWithin (count + grammars.length) := by
  induction grammars with
  | nil => exact ends
  | cons grammar later inductionHypothesis =>
      rintro (cause | _)
      · trivial
      · exact inductionHypothesis

/-- Compiling grammars takes a call for each. -/
theorem endsWithin_compileAll
    (ends : following.EndsWithin count)
    (names : List String) :
    (compileAll session grammarName following names).EndsWithin (count + names.length) := by
  induction names with
  | nil => exact ends
  | cons name later inductionHypothesis =>
      rintro (cause | _ | ⟨diagnostic, diagnostics⟩)
      · trivial
      · exact inductionHypothesis
      · trivial

/-- Loading and executing are a call each. -/
theorem endsWithin_loadAndExecute : (request.loadAndExecute session layout).EndsWithin 2 := by
  rintro (cause | artifacts)
  · trivial
  · exact fun _ => trivial

/-- A request makes nine calls at most. -/
theorem endsWithin_handle (request : Request) : request.handle.EndsWithin 9 := by
  unfold handle
  cases resolved : request.resolve with
  | error error => trivial
  | ok plan =>
      obtain ⟨layout, grammars⟩ := plan
      have resolves := resolves_of_resolve resolved
      have isTwo : 2 + layout.compilationOrder.length + grammars.length ≤ 6 := by
        cases resolves <;> simp [Layout.compilationOrder]
      have inSession (session : Session) :
          (request.handleInSession session layout grammars).EndsWithin 6 :=
        (endsWithin_writeAll (endsWithin_compileAll endsWithin_loadAndExecute _) _).mono isTwo
      rintro (cause | _)
      · trivial
      · rintro (cause | session)
        · trivial
        · have closes (result : Outcome) :
              (.ask (.close session) fun _ => .done result : Handling Outcome).EndsWithin 1 :=
            fun _ => trivial
          exact (inSession session).andThen closes

end Calls

/-- Whatever a request does in its session comes to one outcome. -/
theorem exists_settles
    {site : Site}
    (confined : site.compiler.IsConfined)
    (request : Request) :
    ∃ outcome,
      ∀ layout grammars,
        request.resolve = .ok (layout, grammars) →
          ∀ session history,
            Settles site session outcome history
              (request.handleInSession session layout grammars) .none := by
  cases resolved : request.resolve with
  | error error => exact ⟨.stopped "" (.shape error), fun _ _ isResolved => by cases isResolved⟩
  | ok plan =>
      obtain ⟨layout, grammars⟩ := plan
      obtain ⟨outcome, settles⟩ := settlesIn_handleInSession confined resolved
      refine ⟨outcome, fun _ _ isResolved => ?_⟩
      cases isResolved
      exact settles

/-- What is tidy in a history is tidy in a longer one. -/
theorem IsTidy.mono
    {history later : History}
    {event : Sigma Call.Answer}
    (isTidy : IsTidy history event)
    (isLater : history ⊆ later) :
    IsTidy later event where
  files := fun file isFile => by
    obtain ⟨session, created, isDirect⟩ := isTidy.files file isFile
    exact ⟨session, isLater created, isDirect⟩
  apart := isTidy.apart

namespace Stands

variable
  {site : Site}
  {request : Request}
  {outcome : Outcome}
  {files : FileStore}
  {history : History}
  {rest : Handling Outcome}
  {session : Session}

/-- The folder of an open session is there, in the folder that sessions are made in. -/
theorem isPlaced
    (stands : request.Stands site outcome files history rest)
    (isOpen : IsOpen history session) :
    session.IsPlaced site.sessionRoot ∧ files.find? session.folder = some .folder := by
  cases stands with
  | begun | checked => simpa using isOpen.created
  | ended isClosed => exact absurd isOpen (isClosed session)
  | busy _ isOnly isPlaced contains =>
      rw [isOnly session isOpen.created]
      exact ⟨isPlaced, contains.isFolder⟩

/-- A request that had a session and is over has come to its outcome. -/
theorem eq_of_done
    {result : Outcome}
    (stands : request.Stands site outcome files history rest)
    (isDone : rest = .done result)
    (created : ⟨.createSession, .ok session⟩ ∈ history)
    (sufficed : Sufficed history) :
    result = outcome := by
  cases stands with
  | begun | checked => simp at created
  | ended _ isSettled =>
      cases isDone
      exact isSettled session created sufficed
  | @busy _ _ rest => cases rest <;> cases isDone

end Stands

/-- Requests at a site that have their sessions to themselves. -/
structure KeepsApart
    {ι : Type}
    (site : Site)
    (requests : ι → Request)
    (outcomes : ι → Outcome)
    (gathering : Dialogue.Gathering Call.Answer ι Outcome Site.State) :
    Prop where
  isSound : gathering.state.IsSound
  stands :
    ∀ member,
      (requests member).Stands site (outcomes member) gathering.state.files
        (gathering.history member) (gathering.remaining member)
  apart :
    ∀ member other,
      member ≠ other →
        ∀ session otherSession : Session,
          IsOpen (gathering.history member) session →
            IsOpen (gathering.history other) otherSession →
              session.folder ≠ otherSession.folder
  areTidy :
    ∀ member, ∀ event ∈ gathering.history member, IsTidy (gathering.history member) event

namespace KeepsApart

variable
  {ι : Type}
  [DecidableEq ι]
  {site : Site}
  {requests : ι → Request}
  {outcomes : ι → Outcome}
  {gathering : Dialogue.Gathering Call.Answer ι Outcome Site.State}

omit [DecidableEq ι] in
/-- Requests that have not begun have nothing in common. -/
theorem start
    {state : Site.State}
    (isSound : state.IsSound) :
    KeepsApart site requests outcomes
      (Dialogue.Gathering.start (fun member => (requests member).handle) state) where
  isSound := isSound
  stands := fun _ => .begun
  apart := fun _ _ _ _ _ isOpen => by cases isOpen.created
  areTidy := by simp [Dialogue.Gathering.start]

omit [DecidableEq ι] in
/-- The folder of a request that moves on is none that another request is busy in. -/
theorem apart_of_movesOn
    (kept : KeepsApart site requests outcomes gathering)
    {speaker member : ι}
    (isOther : speaker ≠ member)
    {after : Site.State}
    {events : History}
    {rest : Handling Outcome}
    (moves :
      (requests speaker).MovesOn site (outcomes speaker) gathering.state
        (gathering.history speaker) after events rest)
    {own session : Session}
    (ownOpen :
      IsOpen (gathering.history speaker) own ∨ IsOpen (gathering.history speaker ++ events) own)
    (isOpen : IsOpen (gathering.history member) session) :
    own.IsPlaced site.sessionRoot ∧ own.folder ≠ session.folder := by
  have alreadyApart (openBefore : IsOpen (gathering.history speaker) own) :
      own.folder ≠ session.folder :=
    kept.apart speaker member isOther own session openBefore isOpen
  rcases ownOpen with openBefore | openAfter
  · exact ⟨((kept.stands speaker).isPlaced openBefore).1, alreadyApart openBefore⟩
  · refine ⟨(moves.stands.isPlaced openAfter).1, ?_⟩
    -- A new session's folder was not there before, and so no request was busy in it.
    rcases moves.isNew own openAfter with openBefore | absent
    · exact alreadyApart openBefore
    · intro same
      rw [same, ((kept.stands member).isPlaced isOpen).2] at absent
      cases absent

/-- Requests have their sessions to themselves also when one of them has moved on. -/
theorem turn
    (kept : KeepsApart site requests outcomes gathering)
    (confined : site.compiler.IsConfined)
    (settles :
      ∀ member layout grammars,
        (requests member).resolve = .ok (layout, grammars) →
          ∀ session history,
            Settles site session (outcomes member) history
              ((requests member).handleInSession session layout grammars) .none)
    (speaker : ι) :
    KeepsApart site requests outcomes (gathering.turn site.perform speaker) := by
  have moves := (kept.stands speaker).movesOn confined (settles speaker) kept.isSound
  unfold Dialogue.Gathering.turn
  generalize (gathering.remaining speaker).step site.perform gathering.state = stepped at moves ⊢
  generalize (gathering.remaining speaker).firstEvent site.perform gathering.state = events
    at moves ⊢
  have apartFrom {member : ι} (isOther : member ≠ speaker) {own session : Session}
      (ownOpen : IsOpen (gathering.history speaker ++ events) own)
      (isOpen : IsOpen (gathering.history member) session) :
      own.folder ≠ session.folder :=
    (kept.apart_of_movesOn isOther.symm moves (.inr ownOpen) isOpen).2
  refine ⟨moves.isSound, fun member => ?_, fun member other differ session otherSession => ?_,
    fun member => ?_⟩
  · by_cases isSpeaker : member = speaker
    · subst isSpeaker
      simpa using moves.stands
    · -- A request that is not speaking finds its folder as it left it.
      simp only [Function.update_of_ne isSpeaker]
      refine (kept.stands member).elsewhere moves.isSound.isTree fun session isOpen path inside =>
        moves.outside path fun own ownOpen => ?_
      obtain ⟨ownPlaced, isApart⟩ :=
        kept.apart_of_movesOn (Ne.symm isSpeaker) moves ownOpen isOpen
      exact ownPlaced.not_isPrefix ((kept.stands member).isPlaced isOpen).1 isApart inside
  · by_cases isSpeaker : member = speaker
    · subst isSpeaker
      simp only [Function.update_self, Function.update_of_ne differ.symm]
      exact fun isOpen otherOpen => apartFrom differ.symm isOpen otherOpen
    · by_cases otherSpeaks : other = speaker
      · subst otherSpeaks
        simp only [Function.update_self, Function.update_of_ne isSpeaker]
        exact fun isOpen otherOpen => (apartFrom isSpeaker otherOpen isOpen).symm
      · simp only [Function.update_of_ne isSpeaker, Function.update_of_ne otherSpeaks]
        exact kept.apart member other differ session otherSession
  · by_cases isSpeaker : member = speaker
    · subst isSpeaker
      simp only [Function.update_self, List.forall_mem_append]
      exact ⟨fun event present =>
        (kept.areTidy member event present).mono (List.subset_append_left ..), moves.areTidy⟩
    · simpa only [Function.update_of_ne isSpeaker] using kept.areTidy member

end KeepsApart

/-- Let requests take turns at a site. -/
def handleInTurns
    {ι : Type}
    [DecidableEq ι]
    (site : Site)
    (requests : ι → Request)
    (state : Site.State)
    (schedule : List ι) :
    Dialogue.Gathering Call.Answer ι Outcome Site.State :=
  (Dialogue.Gathering.start (fun member => (requests member).handle) state).turns site.perform
    schedule

/-- Requests at a site do not come into contact with each other. -/
structure Isolated
    {ι : Type}
    [DecidableEq ι]
    (site : Site)
    (requests : ι → Request)
    (gathering : Dialogue.Gathering Call.Answer ι Outcome Site.State) :
    Prop where
  /-- The files of each request lie directly in the folder of its session, and none was written in
  the place of another. -/
  areTidy :
    ∀ member, ∀ event ∈ gathering.history member, IsTidy (gathering.history member) event
  /-- Sessions that are open at one time have different folders. -/
  apart :
    ∀ member other,
      member ≠ other →
        ∀ session otherSession : Session,
          IsOpen (gathering.history member) session →
            IsOpen (gathering.history other) otherSession →
              session.folder ≠ otherSession.folder
  /-- When it is the turn of a request, nothing changes outside the folder of its session. -/
  outside :
    ∀ member path,
      (∀ session : Session,
          IsOpen (gathering.history member) session ∨
              IsOpen ((gathering.turn site.perform member).history member) session →
            ¬ session.folder <+: path) →
        (gathering.turn site.perform member).state.files.find? path =
          gathering.state.files.find? path
  /-- A request that had a session is replied to as if it were alone, wherever that would be. -/
  asAlone :
    ∀ member result session,
      gathering.remaining member = .done result →
        ⟨.createSession, .ok session⟩ ∈ gathering.history member →
          Sufficed (gathering.history member) →
            ∀ (lone : Site.State) loneSession,
              lone.IsSound →
                ⟨.createSession, .ok loneSession⟩ ∈
                    (requests member).handle.transcript site.perform lone →
                  Sufficed ((requests member).handle.transcript site.perform lone) →
                    result.reply = (site.respond lone (requests member)).1

/-- What a request that runs alone comes to if it gets a session. -/
theorem run_eq_of_settles
    {site : Site}
    {request : Request}
    {outcome : Outcome}
    {lone : Site.State}
    {session : Session}
    (confined : site.compiler.IsConfined)
    (settles :
      ∀ layout grammars,
        request.resolve = .ok (layout, grammars) →
          ∀ session history,
            Settles site session outcome history
              (request.handleInSession session layout grammars) .none)
    (isSound : lone.IsSound)
    (created : ⟨.createSession, .ok session⟩ ∈ request.handle.transcript site.perform lone)
    (sufficed : Sufficed (request.handle.transcript site.perform lone)) :
    (request.handle.run site.perform lone).1 = outcome := by
  -- A run alone is what a single request comes to that takes all of its turns.
  have kept :
      KeepsApart site (fun _ : Unit => request) (fun _ => outcome)
        ((Dialogue.Gathering.start (fun _ : Unit => request.handle) lone).turns site.perform
          (List.replicate 9 ())) :=
    Dialogue.Gathering.turns_induction
      (fun _ speaker kept => kept.turn confined (fun _ => settles) speaker) (.start isSound) _
  rw [Dialogue.Gathering.start,
    Dialogue.Gathering.turns_alone request.endsWithin_handle [] lone] at kept
  exact (kept.stands ()).eq_of_done rfl (by simpa using created) (by simpa using sufficed)

/-- Requests that take turns at a site do not come into contact with each other, and each of them is
over after nine turns. -/
theorem isolated_handleInTurns
    {ι : Type}
    [DecidableEq ι]
    {site : Site}
    (confined : site.compiler.IsConfined)
    (requests : ι → Request)
    {state : Site.State}
    (isSound : state.IsSound)
    (schedule : List ι) :
    Isolated site requests (handleInTurns site requests state schedule) ∧
      ∀ member,
        9 ≤ schedule.count member →
          ∃ result,
            (handleInTurns site requests state schedule).remaining member = .done result := by
  choose outcomes settles using fun member => exists_settles confined (requests member)
  have kept :
      KeepsApart site requests outcomes (handleInTurns site requests state schedule) :=
    Dialogue.Gathering.turns_induction
      (fun _ speaker kept => kept.turn confined settles speaker) (.start isSound) schedule
  refine ⟨⟨kept.areTidy, kept.apart, fun member path notInside => ?_, ?_⟩, fun member enough => ?_⟩
  · have moves := (kept.stands member).movesOn confined (settles member) kept.isSound
    refine moves.outside path fun session isOpen => notInside session ?_
    simpa [Dialogue.Gathering.turn] using isOpen
  · intro member result session isDone created sufficed lone loneSession loneSound loneCreated
      loneSufficed
    rw [(kept.stands member).eq_of_done isDone created sufficed, Site.respond,
      ← run_eq_of_settles confined (settles member) loneSound loneCreated loneSufficed]
  · have ends :
        ((handleInTurns site requests state schedule).remaining member).EndsWithin
          (9 - schedule.count member) :=
      Dialogue.Gathering.endsWithin_turns (requests member).endsWithin_handle schedule
    rw [Nat.sub_eq_zero_of_le enough] at ends
    exact ends.exists_done

/-! Two requests with one grammar, which the compiler complains about. -/

namespace Neighbours

/-- The compiler complains about each grammar, in other words if its file is missing. -/
def compiler : GrammarCompiler where
  check := .ok ()
  compile folder grammar files :=
    let file := files.within folder [Session.grammarFile grammar]
    (.ok [if file.isSome then "error(50): syntax error" else "error(7): cannot open file"], files)

def site : Site where
  sessionRoot := []
  retainSessions := false
  compiler := compiler

def request : Request where
  grammar := some "grammar Sum; sum : NUMBER"
  lexer := none
  parser := none
  source := "1"
  rule := "sum"

def state : Site.State := ⟨.empty, ⟨[], []⟩, ["a", "b"]⟩

theorem isConfined_compiler : site.compiler.IsConfined where
  outside := fun _ _ _ _ _ => rfl
  isTree := fun _ _ _ isTree _ => isTree
  determined := fun _ _ _ _ _ same => by simp [site, compiler, same]

theorem isSound_state : state.IsSound where
  isTree := by simp [FileStore.IsTree, state, FileStore.find?, FileStore.empty]
  areRandom := by
    have areRandom : state.suffixes.all fun suffix => suffix.toList.all Char.isAlphanum := by decide
    simpa only [List.all_eq_true] using areRandom

theorem isolated_neighbours :
    Isolated site (fun _ : Bool => request)
        (handleInTurns site (fun _ => request) state
          (List.replicate 9 [true, false]).flatten) ∧
      ∀ member,
        ∃ result,
          (handleInTurns site (fun _ : Bool => request) state
            (List.replicate 9 [true, false]).flatten).remaining member = .done result := by
  obtain ⟨isolated, ends⟩ :=
    isolated_handleInTurns isConfined_compiler (fun _ : Bool => request) isSound_state
      (List.replicate 9 [true, false]).flatten
  exact ⟨isolated, fun member => ends member (by cases member <;> decide)⟩

end Neighbours

end Request

end GrammarService
