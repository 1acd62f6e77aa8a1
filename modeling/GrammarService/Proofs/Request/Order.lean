import GrammarService.Proofs.Request.Courses

namespace GrammarService

/-!
# The order of a request's calls

Whatever its calls are answered, a request makes each of them only after what it depends on, makes
none behind a failure but the one that closes its session, and closes its session as its last call
if it was created. Where nothing fails, it makes all of them.
-/

namespace Request

/-- The calls of a whole request are in order. -/
structure InOrder
    (request : Request)
    (events : History) :
    Prop where
  /-- Each call may follow the calls before it. -/
  mayFollow :
    ∀ before event after,
      events = before ++ event :: after → request.MayFollow before event.1
  /-- A session that was created, and no other one, is closed, once and behind everything else. -/
  closes :
    ∀ session,
      ⟨.createSession, .ok session⟩ ∈ events ↔
        ∃ before,
          events = before ++ [⟨.close session, ()⟩] ∧ ∀ other, ⟨.close other, ()⟩ ∉ before
  /-- If nothing fails, each grammar is written and compiled once, and then all are executed. -/
  complete :
    (∀ event ∈ events, ¬ Failed event) →
      ∀ layout grammars,
        request.resolve = .ok (layout, grammars) →
          ∃ session artifacts output,
            events =
              course session grammars layout.compilationOrder ++
                [⟨.load session layout, .ok artifacts⟩,
                  ⟨.execute artifacts request.source request.rule, .ok output⟩,
                  ⟨.close session, ()⟩]

/-- A request has no other session than the one that its calls are about. -/
theorem EndsIn.eq_of_created
    {request : Request}
    {session other : Session}
    {layout : Layout}
    {grammars : List NamedGrammar}
    {history : History}
    {outcome : Outcome}
    (ends : EndsIn request session layout grammars history outcome)
    (created : ⟨.createSession, .ok other⟩ ∈ history) :
    other = session := by
  cases ends <;> simpa [course] using created

/-- A request that closes no session as its last call has not created one. -/
theorem Ends.closes
    {request : Request}
    {events : History}
    {outcome : Outcome}
    (ends : request.Ends events outcome)
    (session : Session) :
    ⟨.createSession, .ok session⟩ ∈ events ↔
      ∃ before,
        events = before ++ [⟨.close session, ()⟩] ∧ ∀ other, ⟨.close other, ()⟩ ∉ before := by
  cases ends with
  | misshapen => simp
  | unavailable | notCreated =>
      constructor
      · simp
      · rintro ⟨before, isSplit, -⟩
        have sameLast := congrArg List.getLast? isSplit
        simp at sameLast
  | @closed layout grammars resolved own history outcome endsIn =>
      constructor
      · intro created
        have inHistory : ⟨.createSession, .ok session⟩ ∈ history := by simpa using created
        obtain rfl := endsIn.eq_of_created inHistory
        exact ⟨history, rfl, endsIn.isOpen.notClosed⟩
      · rintro ⟨before, isSplit, -⟩
        obtain ⟨rfl, isLast⟩ := List.append_inj' isSplit rfl
        obtain rfl : own = session := by simpa using isLast
        exact List.mem_append_left _ endsIn.isOpen.created

/-- A request in whose session nothing fails has executed its grammars. -/
theorem EndsIn.complete
    {request : Request}
    {session : Session}
    {layout : Layout}
    {grammars : List NamedGrammar}
    {history : History}
    {outcome : Outcome}
    (ends : EndsIn request session layout grammars history outcome)
    (unfailed : ∀ event ∈ history, ¬ Failed event) :
    ∃ artifacts output,
      history =
        course session grammars layout.compilationOrder ++
          [⟨.load session layout, .ok artifacts⟩] ++
            [⟨.execute artifacts request.source request.rule, .ok output⟩] := by
  cases ends with
  | notWritten | notRun | notLoaded =>
      have lastUnfailed := unfailed _ (List.mem_append_right _ (List.mem_singleton_self _))
      simp [Failed] at lastUnfailed
  | notCompiled _ present =>
      have lastUnfailed := unfailed _ (List.mem_append_right _ (List.mem_singleton_self _))
      simp [Failed, present] at lastUnfailed
  | executed artifacts result =>
      have lastUnfailed := unfailed _ (List.mem_append_right _ (List.mem_singleton_self _))
      cases result with
      | error error => simp [Failed] at lastUnfailed
      | ok output => exact ⟨artifacts, output, rfl⟩

/-- A request in which nothing fails has made all of its calls. -/
theorem Ends.complete
    {request : Request}
    {events : History}
    {outcome : Outcome}
    (ends : request.Ends events outcome)
    (unfailed : ∀ event ∈ events, ¬ Failed event)
    {layout : Layout}
    {grammars : List NamedGrammar}
    (resolved : request.resolve = .ok (layout, grammars)) :
    ∃ session artifacts output,
      events =
        course session grammars layout.compilationOrder ++
          [⟨.load session layout, .ok artifacts⟩,
            ⟨.execute artifacts request.source request.rule, .ok output⟩,
            ⟨.close session, ()⟩] := by
  cases ends with
  | misshapen rejected => cases rejected.symm.trans resolved
  | unavailable | notCreated => simp [Failed] at unfailed
  | @closed _ _ resolvedHere session _ _ endsIn =>
      cases resolvedHere.symm.trans resolved
      obtain ⟨artifacts, output, rfl⟩ :=
        endsIn.complete fun event present => unfailed event (List.mem_append_left _ present)
      exact ⟨session, artifacts, output, by simp⟩

end Request

end GrammarService
