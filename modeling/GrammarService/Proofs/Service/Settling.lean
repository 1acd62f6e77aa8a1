import GrammarService.Proofs.Request.Courses
import GrammarService.Proofs.Storage.Sessions
import GrammarService.Service.Site

namespace GrammarService

/-!
# What a request comes to in its session

What a request does in its session comes to depends on the request and the compiler only: not on
where the session's folder is, not on what else is stored, and not on the identities that loaded
grammars are registered under, as long as there are some.
-/

namespace Request

/-- A grammar was not written since its file was there already. -/
def Collides : Sigma Call.Answer → Prop
  | ⟨.writeGrammar _ _, .error (.grammarNotWritten _ .alreadyExists)⟩ => True
  | _ => False

/-- The identities had run out when grammars were loaded. -/
def LacksIdentity : Sigma Call.Answer → Prop
  | ⟨.load _ _, .error .noIdentity⟩ => True
  | _ => False

/-- The identities never ran out. -/
def Sufficed (history : History) : Prop :=
  ∀ event ∈ history, ¬ LacksIdentity event

/-- A call is about files in the folder of a session, if about any. -/
def Call.StaysIn (session : Session) : Call → Prop
  | .writeGrammar other grammar =>
      other = session ∧ FileStore.IsPlain (Session.grammarFile grammar.name)
  | .compile other _ => other = session
  | .load other layout =>
      other = session ∧
        FileStore.IsPlain (Artifacts.unitFile layout.parserUnit) ∧
          FileStore.IsPlain (Artifacts.unitFile layout.lexerUnit)
  | .execute _ _ _ => True
  | .checkCompiler | .createSession | .close _ => False

/--
At a site, a dialogue in a session whose folder has some contents comes to an outcome, whatever is
done elsewhere between its calls. Its calls stay in the session and do not collide.
-/
def Settles
    (site : Site)
    (session : Session)
    (outcome : Outcome) :
    History → Handling Outcome → Contents → Prop
  | history, .done result, _ => Sufficed history → result = outcome
  | history, .ask call next, contents =>
      call.StaysIn session ∧
        ∀ state : Site.State,
          session.Contains state.files contents →
            ¬ Collides ⟨call, (site.perform call state).1⟩ ∧
              Settles site session outcome (history ++ [⟨call, (site.perform call state).1⟩])
                (next (site.perform call state).1)
                ((site.perform call state).2.files.within session.folder)

/-- A dialogue in a session comes to the same outcome in each session with some contents. -/
def SettlesIn
    (site : Site)
    (dialogue : Session → Handling Outcome)
    (contents : Contents) :
    Prop :=
  ∃ outcome, ∀ session history, Settles site session outcome history (dialogue session) contents

section Settling

variable
  {site : Site}
  {dialogue : Session → Handling Outcome}
  {contents : Contents}

/-- A call that stays in its session is settled if it is where a session has the contents. -/
theorem settlesIn_of_forall
    {call : Session → Call}
    {next : (session : Session) → Call.Answer (call session) → Handling Outcome}
    (stays : ∀ session, (call session).StaysIn session)
    (settles :
      ∀ (session : Session) (state : Site.State),
        session.Contains state.files contents →
          SettlesIn site (fun session => .ask (call session) (next session)) contents) :
    SettlesIn site (fun session => .ask (call session) (next session)) contents := by
  by_cases reached :
      ∃ (session : Session) (state : Site.State), session.Contains state.files contents
  · obtain ⟨session, state, contains⟩ := reached
    exact settles session state contains
  · -- The call is never answered then, and so any outcome will do.
    refine ⟨.stopped "" (.shape .nothing), fun session history => ⟨stays session, ?_⟩⟩
    exact fun state contains => absurd ⟨session, state, contains⟩ reached

/-- A call that leaves nothing to be done settles it. -/
theorem settlesIn_of_done
    {call : Session → Call}
    {next : (session : Session) → Call.Answer (call session) → Handling Outcome}
    (outcome : Outcome)
    (stays : ∀ session, (call session).StaysIn session)
    (isDone :
      ∀ (session : Session) (state : Site.State),
        session.Contains state.files contents →
          ¬ Collides ⟨call session, (site.perform (call session) state).1⟩ ∧
            next session (site.perform (call session) state).1 = .done outcome) :
    SettlesIn site (fun session => .ask (call session) (next session)) contents := by
  refine ⟨outcome, fun session history => ⟨stays session, fun state contains => ?_⟩⟩
  obtain ⟨apart, done⟩ := isDone session state contains
  rw [done]
  exact ⟨apart, fun _ => rfl⟩

/-- What was loaded is executed, and that settles it. -/
theorem settlesIn_loadAndExecute
    (request : Request)
    {layout : Layout}
    (parserPlain : FileStore.IsPlain (Artifacts.unitFile layout.parserUnit))
    (lexerPlain : FileStore.IsPlain (Artifacts.unitFile layout.lexerUnit)) :
    SettlesIn site (fun session => request.loadAndExecute session layout) contents := by
  refine settlesIn_of_forall (fun session => ⟨rfl, parserPlain, lexerPlain⟩) ?_
  intro first firstState firstContains
  cases areRead : Artifacts.readGrammars firstState.files first.folder layout with
  | error error =>
      refine settlesIn_of_done (.stopped layout.grammarName (.notLoaded error))
        (fun session => ⟨rfl, parserPlain, lexerPlain⟩) fun session state contains => ⟨id, ?_⟩
      have sameRead :=
        (contains.readGrammars_eq firstContains parserPlain lexerPlain).trans areRead
      simp only [Site.perform, Artifacts.load, sameRead, Dialogue.run]
  | ok grammars =>
      obtain ⟨parser, lexer⟩ := grammars
      refine ⟨.ofExecution layout.grammarName (execute parser lexer request.source request.rule),
        fun session history => ⟨⟨rfl, parserPlain, lexerPlain⟩, fun state contains => ?_⟩⟩
      have sameRead :=
        (contains.readGrammars_eq firstContains parserPlain lexerPlain).trans areRead
      simp only [Site.perform, Artifacts.load, sameRead]
      rcases Artifacts.run_enrol parser lexer state.registry with exhausted | ⟨_, enrolled⟩
      · rw [exhausted]
        have lacks : LacksIdentity ⟨.load session layout, .error .noIdentity⟩ := trivial
        exact ⟨id, fun sufficed => absurd lacks (sufficed _ (by simp))⟩
      · -- The identities are other ones each time, but executing does not look at them.
        rw [enrolled]
        exact ⟨id, trivial, fun _ _ => ⟨id, fun _ => rfl⟩⟩

/-- Grammars are compiled one after another, and then the dialogue goes on or it is settled. -/
theorem settlesIn_compileAll
    (confined : site.compiler.IsConfined)
    {grammarName : String}
    (goesOn : ∀ contents, SettlesIn site dialogue contents)
    (names : List String) :
    SettlesIn site (fun session => compileAll session grammarName (dialogue session) names)
      contents := by
  induction names generalizing contents with
  | nil => exact goesOn contents
  | cons name later inductionHypothesis =>
      refine settlesIn_of_forall (fun session => rfl) fun first firstState firstContains => ?_
      -- What the compiler does in one session with the contents, it does in every one.
      have same {session : Session} {state : Site.State}
          (contains : session.Contains state.files contents) :=
        confined.determined session.folder first.folder name state.files firstState.files
          (contains.within.trans firstContains.within.symm)
      generalize site.compiler.compile first.folder name firstState.files = compiled at same
      obtain ⟨result, files⟩ := compiled
      rcases result with cause | _ | ⟨diagnostic, diagnostics⟩
      · refine settlesIn_of_done (.stopped grammarName (.compilerUnavailable cause))
          (fun session => rfl) fun session state contains => ⟨id, ?_⟩
        simp only [Site.perform, (same contains).1]
      · obtain ⟨outcome, settles⟩ :
            SettlesIn site (fun session => compileAll session grammarName (dialogue session) later)
              (files.within first.folder) :=
          inductionHypothesis
        refine ⟨outcome, fun session history => ⟨rfl, fun state contains => ⟨id, ?_⟩⟩⟩
        simp only [Site.perform, (same contains).1, (same contains).2]
        exact settles session _
      · refine settlesIn_of_done (.stopped name (.notCompiled (diagnostic :: diagnostics)))
          (fun session => rfl) fun session state contains => ⟨id, ?_⟩
        simp only [Site.perform, (same contains).1]

/-- Two grammars with different names are written to different files. -/
theorem grammarFile_injective : Function.Injective Session.grammarFile := by
  intro first second same
  have sameText := congrArg String.toList same
  simpa [Session.grammarFile, String.toList_inj] using sameText

/-- Grammars are written one after another, without one in the place of another, and then the
dialogue goes on or it is settled. -/
theorem settlesIn_writeAll
    {grammarName : String}
    (goesOn : ∀ contents, SettlesIn site dialogue contents)
    {grammars : List NamedGrammar}
    (areNames : ∀ grammar ∈ grammars, Header.IsName grammar.name.toList)
    (differ : (grammars.map NamedGrammar.name).Nodup)
    (absent : ∀ grammar ∈ grammars, contents [Session.grammarFile grammar.name] = none) :
    SettlesIn site (fun session => writeAll session grammarName (dialogue session) grammars)
      contents := by
  induction grammars generalizing contents with
  | nil => exact goesOn contents
  | cons grammar later inductionHypothesis =>
      obtain ⟨isName, laterNames⟩ := List.forall_mem_cons.mp areNames
      obtain ⟨isAbsent, laterAbsent⟩ := List.forall_mem_cons.mp absent
      obtain ⟨isOther, laterDiffer⟩ := List.nodup_cons.mp differ
      have isPlain : FileStore.IsPlain (Session.grammarFile grammar.name) :=
        FileStore.isPlain_append isName (by decide) (by decide)
      by_cases isLong : FileStore.maxNameBytes < (Session.grammarFile grammar.name).utf8ByteSize
      · refine settlesIn_of_done (.stopped grammarName (.notWritten (.grammarNotWritten
          ((FileStore.namesOf (Session.grammarFile grammar.name)).getLast?.getD "") .nameTooLong)))
          (fun session => ⟨rfl, isPlain⟩) fun session state contains => ?_
        simp only [Site.perform, Session.writeGrammar, contains.addFile_of_long isPlain isLong]
        exact ⟨id, trivial⟩
      · have stillAbsent (other : NamedGrammar) (isLater : other ∈ later) :
            Function.update contents [Session.grammarFile grammar.name]
              (some (.file grammar.text.toUTF8)) [Session.grammarFile other.name] = none := by
          rw [Function.update_of_ne, laterAbsent other isLater]
          intro sameFile
          refine isOther (List.mem_map.mpr ⟨other, isLater, ?_⟩)
          exact grammarFile_injective (List.singleton_inj.mp sameFile)
        obtain ⟨outcome, settles⟩ := inductionHypothesis laterNames laterDiffer stillAbsent
        refine ⟨outcome, fun session history => ⟨⟨rfl, isPlain⟩, fun state contains => ?_⟩⟩
        simp only [Site.perform, Session.writeGrammar,
          contains.addFile_of_absent isPlain isLong isAbsent]
        refine ⟨id, ?_⟩
        rw [(contains.insert isAbsent _).within]
        exact settles session _

/-- Everything that a request does in its session is settled if the session was just made. -/
theorem settlesIn_handleInSession
    (confined : site.compiler.IsConfined)
    {request : Request}
    {layout : Layout}
    {grammars : List NamedGrammar}
    (resolved : request.resolve = .ok (layout, grammars)) :
    SettlesIn site (fun session => request.handleInSession session layout grammars) .none := by
  have resolves := resolves_of_resolve resolved
  obtain ⟨parserPlain, lexerPlain⟩ := resolves.isPlain_unitFiles
  exact settlesIn_writeAll
    (fun _ => settlesIn_compileAll confined
      (fun _ => settlesIn_loadAndExecute request parserPlain lexerPlain) _)
    (fun _ isGrammar => resolves.isName isGrammar) resolves.names_nodup (by simp [Contents.none])

end Settling

end Request

end GrammarService
