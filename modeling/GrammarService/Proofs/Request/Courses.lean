import GrammarService.Proofs.Dialogue.Histories
import GrammarService.Request.Handling

namespace GrammarService

/-!
# The courses that handling a request can take

Each component that a request needs can fail, and the request ends at the first failure. `Ends`
lists the ends that it can come to, each with all calls made until then and with what the request
comes to. `MayFollow` says of each call what has to have been done before it. Handling a request
keeps both, whatever its calls are answered.
-/

namespace Request

/-- The calls that a request made so far with their answers, oldest first. -/
abbrev History := Dialogue.History Call.Answer

/-- A call failed: it was answered by an error, or a compilation by diagnostics. -/
def Failed : Sigma Call.Answer → Prop
  | ⟨.checkCompiler, answer⟩ => answer ≠ .ok ()
  | ⟨.createSession, answer⟩ => ∀ session, answer ≠ .ok session
  | ⟨.writeGrammar _ _, answer⟩ => answer ≠ .ok ()
  | ⟨.compile _ _, answer⟩ => answer ≠ .ok []
  | ⟨.load _ _, answer⟩ => ∀ artifacts, answer ≠ .ok artifacts
  | ⟨.execute _ _ _, answer⟩ => ∀ output, answer ≠ .ok output
  | ⟨.close _, _⟩ => False

/-- The grammars that were to be written so far. -/
def written (history : History) : List NamedGrammar :=
  history.filterMap fun
    | ⟨.writeGrammar _ grammar, _⟩ => some grammar
    | _ => none

/-- The names of the grammars that were to be compiled so far. -/
def compiled (history : History) : List String :=
  history.filterMap fun
    | ⟨.compile _ name, _⟩ => some name
    | _ => none

/-- A session was created, and nothing was asked to close a session yet. -/
structure IsOpen
    (history : History)
    (session : Session) :
    Prop where
  created : ⟨.createSession, .ok session⟩ ∈ history
  notClosed : ∀ other, ⟨.close other, ()⟩ ∉ history

/-- What has to have been done for a request before it makes a call. -/
def Prepared
    (request : Request)
    (history : History) :
    Call → Prop
  | .checkCompiler =>
      history = [] ∧ ∃ layout grammars, request.resolve = .ok (layout, grammars)
  | .createSession => history = [⟨.checkCompiler, .ok ()⟩]
  | .writeGrammar session grammar =>
      IsOpen history session ∧
        ∃ layout grammars later,
          request.resolve = .ok (layout, grammars) ∧
            grammars = written history ++ grammar :: later
  | .compile session name =>
      IsOpen history session ∧
        ∃ layout grammars later,
          request.resolve = .ok (layout, grammars) ∧
            (∀ grammar ∈ grammars, ⟨.writeGrammar session grammar, .ok ()⟩ ∈ history) ∧
              layout.compilationOrder = compiled history ++ name :: later
  | .load session layout =>
      IsOpen history session ∧
        (∀ other answer, ⟨.load session other, answer⟩ ∉ history) ∧
          ∃ grammars,
            request.resolve = .ok (layout, grammars) ∧
              ∀ name ∈ layout.compilationOrder, ⟨.compile session name, .ok []⟩ ∈ history
  | .execute artifacts source rule =>
      (source = request.source ∧ rule = request.rule) ∧
        ∃ before session layout,
          IsOpen history session ∧ history = before ++ [⟨.load session layout, .ok artifacts⟩]
  | .close session => IsOpen history session

/-- When a request may make a call: all is prepared for it, and nothing but closing the session
follows a failure. -/
structure MayFollow
    (request : Request)
    (history : History)
    (call : Call) :
    Prop where
  prepared : request.Prepared history call
  unfailed : (∀ event ∈ history, ¬ Failed event) ∨ ∃ session, call = .close session

/-- A request that has a session, has written some of its grammars and compiled some. -/
def course
    (session : Session)
    (grammars : List NamedGrammar)
    (names : List String) :
    History :=
  [⟨.checkCompiler, .ok ()⟩, ⟨.createSession, .ok session⟩] ++
    grammars.map (fun grammar => ⟨.writeGrammar session grammar, .ok ()⟩) ++
    names.map (fun name => ⟨.compile session name, .ok []⟩)

/-- What a request can come to in its session, before the session is closed. -/
inductive EndsIn
    (request : Request)
    (session : Session)
    (layout : Layout)
    (grammars : List NamedGrammar) :
    History → Outcome → Prop where
  | notWritten
      {before after : List NamedGrammar}
      {grammar : NamedGrammar}
      (isSplit : grammars = before ++ grammar :: after)
      (cause : SessionError) :
      EndsIn request session layout grammars
        (course session before [] ++ [⟨.writeGrammar session grammar, .error cause⟩])
        (.stopped layout.grammarName (.notWritten cause))
  | notRun
      {before after : List String}
      {name : String}
      (isSplit : layout.compilationOrder = before ++ name :: after)
      (cause : CompilerError) :
      EndsIn request session layout grammars
        (course session grammars before ++ [⟨.compile session name, .error cause⟩])
        (.stopped layout.grammarName (.compilerUnavailable cause))
  | notCompiled
      {before after : List String}
      {name : String}
      (isSplit : layout.compilationOrder = before ++ name :: after)
      {diagnostics : List String}
      (present : diagnostics ≠ []) :
      EndsIn request session layout grammars
        (course session grammars before ++ [⟨.compile session name, .ok diagnostics⟩])
        (.stopped name (.notCompiled diagnostics))
  | notLoaded
      (cause : ArtifactError) :
      EndsIn request session layout grammars
        (course session grammars layout.compilationOrder ++
          [⟨.load session layout, .error cause⟩])
        (.stopped layout.grammarName (.notLoaded cause))
  | executed
      (artifacts : Artifacts)
      (result : Except ExecutionError ParseOutput) :
      EndsIn request session layout grammars
        (course session grammars layout.compilationOrder ++
          [⟨.load session layout, .ok artifacts⟩] ++
          [⟨.execute artifacts request.source request.rule, result⟩])
        (.ofExecution layout.grammarName result)

/-- What a request can come to, with all calls that it made. -/
inductive Ends
    (request : Request) :
    History → Outcome → Prop where
  | misshapen
      {error : ShapeError}
      (rejected : request.resolve = .error error) :
      Ends request [] (.stopped "" (.shape error))
  | unavailable
      {layout : Layout}
      {grammars : List NamedGrammar}
      (resolved : request.resolve = .ok (layout, grammars))
      (cause : CompilerError) :
      Ends request [⟨.checkCompiler, .error cause⟩]
        (.stopped layout.grammarName (.compilerUnavailable cause))
  | notCreated
      {layout : Layout}
      {grammars : List NamedGrammar}
      (resolved : request.resolve = .ok (layout, grammars))
      (cause : SessionError) :
      Ends request [⟨.checkCompiler, .ok ()⟩, ⟨.createSession, .error cause⟩]
        (.stopped layout.grammarName (.storageUnavailable cause))
  | closed
      {layout : Layout}
      {grammars : List NamedGrammar}
      (resolved : request.resolve = .ok (layout, grammars))
      {session : Session}
      {history : History}
      {outcome : Outcome}
      (ends : EndsIn request session layout grammars history outcome) :
      Ends request (history ++ [⟨.close session, ()⟩]) outcome

section Course

variable
  {request : Request}
  {session : Session}
  {layout : Layout}
  {grammars : List NamedGrammar}
  {names : List String}

@[simp] theorem written_course : written (course session grammars names) = grammars := by
  simp only [written, course, List.cons_append, List.nil_append, List.filterMap_cons_none,
    List.filterMap_append, List.filterMap_map, Function.comp_def, List.filterMap_some,
    List.append_right_eq_self, List.filterMap_eq_nil_iff, implies_true]

@[simp] theorem compiled_course : compiled (course session grammars names) = names := by
  simp only [compiled, course, List.cons_append, List.nil_append, List.filterMap_cons_none,
    List.filterMap_append, List.filterMap_map, Function.comp_def, List.filterMap_some,
    List.append_left_eq_self, List.filterMap_eq_nil_iff, implies_true]

/-- A course has its session, and has not closed it. -/
theorem isOpen_course : IsOpen (course session grammars names) session := by
  constructor <;> simp [course]

/-- Nothing on a course has failed. -/
theorem not_failed_of_mem_course
    {event : Sigma Call.Answer}
    (present : event ∈ course session grammars names) :
    ¬ Failed event := by
  simp only [course, List.mem_append, List.mem_cons, List.not_mem_nil, or_false, List.mem_map]
    at present
  rcases present with ((rfl | rfl) | ⟨grammar, -, rfl⟩) | ⟨name, -, rfl⟩ <;> simp [Failed]

theorem course_append_written (grammar : NamedGrammar) :
    course session grammars [] ++ [⟨.writeGrammar session grammar, .ok ()⟩] =
      course session (grammars ++ [grammar]) [] := by
  simp [course]

theorem course_append_compiled (name : String) :
    course session grammars names ++ [⟨.compile session name, .ok []⟩] =
      course session grammars (names ++ [name]) := by
  simp [course]

/-- An open session stays open while nothing is closed. -/
theorem IsOpen.append
    {history : History}
    {event : Sigma Call.Answer}
    (isOpen : IsOpen history session)
    (notClose : ∀ other, event.1 ≠ .close other) :
    IsOpen (history ++ [event]) session := by
  refine ⟨List.mem_append_left _ isOpen.created, fun other present => ?_⟩
  rcases List.mem_append.mp present with before | isEvent
  · exact isOpen.notClosed other before
  · rw [← List.mem_singleton.mp isEvent] at notClose
    exact notClose other rfl

/-- The session of a request is open until it is closed. -/
theorem EndsIn.isOpen
    {history : History}
    {outcome : Outcome}
    (ends : EndsIn request session layout grammars history outcome) :
    IsOpen history session := by
  cases ends with
  | executed artifacts result => exact (isOpen_course.append (by simp)).append (by simp)
  | _ => exact isOpen_course.append (by simp)

/-- The request may make a call on a course if all is prepared for the call. -/
theorem mayFollow_course
    {call : Call}
    (prepared : request.Prepared (course session grammars names) call) :
    request.MayFollow (course session grammars names) call :=
  ⟨prepared, .inl fun _ => not_failed_of_mem_course⟩

end Course

section Stages

variable
  {request : Request}
  {session : Session}
  {layout : Layout}
  {grammars : List NamedGrammar}

/-- The last stage in a session. -/
theorem keeps_loadAndExecute (resolved : request.resolve = .ok (layout, grammars)) :
    (request.loadAndExecute session layout).Keeps request.MayFollow
      (EndsIn request session layout grammars)
      (course session grammars layout.compilationOrder) := by
  have loads :
      request.Prepared (course session grammars layout.compilationOrder)
        (.load session layout) :=
    ⟨isOpen_course, by simp [course], grammars, resolved,
      fun name isName => by simpa [course] using isName⟩
  refine ⟨mayFollow_course loads, ?_⟩
  rintro (cause | artifacts)
  · exact .notLoaded cause
  · refine ⟨⟨⟨⟨rfl, rfl⟩, _, session, layout, isOpen_course.append (by simp), rfl⟩, .inl ?_⟩,
      fun result => .executed artifacts result⟩
    intro event present
    rcases List.mem_append.mp present with before | isLoad
    · exact not_failed_of_mem_course before
    · rw [List.mem_singleton.mp isLoad]
      simp [Failed]

/-- Compiling grammars, with some of them compiled already. -/
theorem keeps_compileAll
    (resolved : request.resolve = .ok (layout, grammars))
    {following : Handling Outcome}
    (goesOn :
      following.Keeps request.MayFollow (EndsIn request session layout grammars)
        (course session grammars layout.compilationOrder))
    {done left : List String}
    (isAll : layout.compilationOrder = done ++ left) :
    (compileAll session layout.grammarName following left).Keeps request.MayFollow
      (EndsIn request session layout grammars) (course session grammars done) := by
  induction left generalizing done with
  | nil => rwa [isAll, List.append_nil] at goesOn
  | cons name later inductionHypothesis =>
      have compiles : request.Prepared (course session grammars done) (.compile session name) :=
        ⟨isOpen_course, layout, grammars, later, resolved,
          fun grammar isGrammar => by simpa [course] using isGrammar, by simpa using isAll⟩
      refine ⟨mayFollow_course compiles, ?_⟩
      rintro (cause | _ | ⟨diagnostic, diagnostics⟩)
      · exact .notRun isAll cause
      · rw [course_append_compiled]
        exact inductionHypothesis (by simpa using isAll)
      · exact .notCompiled isAll (by simp)

/-- Writing grammars, with some of them written already. -/
theorem keeps_writeAll
    (resolved : request.resolve = .ok (layout, grammars))
    {following : Handling Outcome}
    (goesOn :
      following.Keeps request.MayFollow (EndsIn request session layout grammars)
        (course session grammars []))
    {done left : List NamedGrammar}
    (isAll : grammars = done ++ left) :
    (writeAll session layout.grammarName following left).Keeps request.MayFollow
      (EndsIn request session layout grammars) (course session done []) := by
  induction left generalizing done with
  | nil =>
      obtain rfl : grammars = done := by simpa using isAll
      exact goesOn
  | cons grammar later inductionHypothesis =>
      have writes : request.Prepared (course session done []) (.writeGrammar session grammar) :=
        ⟨isOpen_course, layout, grammars, later, resolved, by simpa using isAll⟩
      refine ⟨mayFollow_course writes, ?_⟩
      rintro (cause | _)
      · exact .notWritten isAll cause
      · rw [course_append_written]
        exact inductionHypothesis (by simpa using isAll)

/-- Everything that is done in a session. -/
theorem keeps_handleInSession (resolved : request.resolve = .ok (layout, grammars)) :
    (request.handleInSession session layout grammars).Keeps request.MayFollow
      (EndsIn request session layout grammars) (course session [] []) :=
  keeps_writeAll resolved (keeps_compileAll resolved (keeps_loadAndExecute resolved) rfl) rfl

/-- Whatever happened in a session, it is closed at the end. -/
theorem keeps_close
    (resolved : request.resolve = .ok (layout, grammars))
    {history : History}
    {outcome : Outcome}
    (ends : EndsIn request session layout grammars history outcome) :
    (Dialogue.ask (.close session) fun _ => .done outcome : Handling Outcome).Keeps
      request.MayFollow request.Ends history :=
  ⟨⟨ends.isOpen, .inr ⟨session, rfl⟩⟩, fun _ => .closed resolved ends⟩

end Stages

/-- Whatever its calls are answered, a request makes them in order and comes to one of its ends. -/
theorem keeps_handle (request : Request) :
    request.handle.Keeps request.MayFollow request.Ends [] := by
  unfold handle
  cases resolved : request.resolve with
  | error error => exact .misshapen resolved
  | ok plan =>
      obtain ⟨layout, grammars⟩ := plan
      refine ⟨⟨⟨rfl, layout, grammars, resolved⟩, .inl (by simp)⟩, ?_⟩
      rintro (cause | _)
      · exact .unavailable resolved cause
      · refine ⟨⟨rfl, .inl (by simp [Failed])⟩, ?_⟩
        rintro (cause | session)
        · exact .notCreated resolved cause
        · exact .andThen
            ((keeps_handleInSession resolved).mono fun _ _ ends => keeps_close resolved ends)

/-- A run of a request comes to one of its ends, with all calls that it made. -/
theorem ends_transcript
    {σ : Type}
    (request : Request)
    (handler : Dialogue.Handler Call.Answer σ)
    (state : σ) :
    request.Ends (request.handle.transcript handler state)
      (request.handle.run handler state).1 :=
  (request.keeps_handle.transcript handler state).2

end Request

end GrammarService
