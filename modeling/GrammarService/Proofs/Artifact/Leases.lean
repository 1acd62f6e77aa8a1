import GrammarService.Proofs.Artifact.Loading
import GrammarService.Proofs.Dialogue.Histories
import Mathlib.Data.List.Induction
import Mathlib.Data.List.Nodup

namespace GrammarService

/-!
# Leases of registered grammars

Who registers a grammar has a lease of it, until the identity that was given for it is released.
However loads take turns at a registry, the registry holds what the live leases are of and nothing
else. An identity therefore resolves to the grammar that it was given for, and a load that is over
leaves nothing behind.
-/

namespace Registry

/-- A grammar with the identity that was given for it. -/
structure Lease where
  identity : Identity
  grammar : LoadedGrammar

/-- The calls to a registry with their answers, oldest first. -/
abbrev History := Dialogue.History Call.Answer

/-- The live leases after one more call. -/
def Lease.after (live : List Lease) : Sigma Call.Answer → List Lease
  | ⟨.register grammar, some identity⟩ => ⟨identity, grammar⟩ :: live
  | ⟨.release identity, _⟩ => live.eraseP fun lease => lease.identity = identity
  | _ => live

/-- The leases that are live after a history. -/
def leases (history : History) : List Lease :=
  history.foldl Lease.after []

/-- Who has some live leases resolves and releases nothing but what they are of. -/
def Permitted (live : List Lease) : Call → Prop
  | .register _ => True
  | .resolve identity name =>
      ∃ lease ∈ live, lease.identity = identity ∧ lease.grammar.name = name
  | .release identity => ∃ lease ∈ live, lease.identity = identity

/-- A call is permitted with some live leases, and its answer is right for them. -/
def Accords (live : List Lease) : Sigma Call.Answer → Prop
  | ⟨.register _, answer⟩ => ∀ lease ∈ live, answer ≠ some lease.identity
  | ⟨.resolve identity name, answer⟩ =>
      ∃ lease ∈ live,
        lease.identity = identity ∧ lease.grammar.name = name ∧ answer = some lease.grammar
  | ⟨.release identity, _⟩ => ∃ lease ∈ live, lease.identity = identity

/-- Every call of a history accords with the leases that were live before it. -/
def Accordant (history : History) : Prop :=
  ∀ before event after, history = before ++ event :: after → Accords (leases before) event

/-- A registry holds what the live leases of its users are of, each under an identity of its own. -/
structure Leased
    {ι : Type}
    (registry : Registry)
    (live : ι → List Lease) :
    Prop where
  find?_eq_some_iff :
    ∀ identity grammar,
      registry.find? identity = some grammar ↔ ∃ member, ⟨identity, grammar⟩ ∈ live member
  distinct : ∀ member, ((live member).map Lease.identity).Nodup
  apart :
    ∀ member other,
      member ≠ other →
        ∀ lease ∈ live member, ∀ otherLease ∈ live other, lease.identity ≠ otherLease.identity

section Histories

variable {history : History} {event : Sigma Call.Answer}

@[simp] theorem leases_append (history later : History) :
    leases (history ++ later) = later.foldl Lease.after (leases history) := by
  simp [leases]

/-- A history accords if what came before its last call does, and that call too. -/
@[simp] theorem accordant_append_singleton_iff :
    Accordant (history ++ [event]) ↔ Accordant history ∧ Accords (leases history) event := by
  constructor
  · intro accordant
    refine ⟨fun before earlier after isSplit => ?_, accordant history event [] rfl⟩
    exact accordant before earlier (after ++ [event]) (by simp [isSplit])
  · rintro ⟨accordant, accords⟩ before earlier after isSplit
    rcases List.eq_nil_or_concat after with rfl | ⟨after, last, rfl⟩
    · obtain ⟨rfl, isLast⟩ := List.append_inj' isSplit rfl
      cases isLast
      exact accords
    · rw [List.concat_eq_append, ← List.cons_append, ← List.append_assoc] at isSplit
      exact accordant before earlier after (List.append_inj' isSplit rfl).1

theorem accordant_nil : Accordant [] := by
  intro before event after isSplit
  simp at isSplit

/-- The live leases of a user whose calls were answered rightly have identities of their own. -/
theorem Accordant.distinct (accordant : Accordant history) :
    ((leases history).map Lease.identity).Nodup := by
  induction history using List.reverseRecOn with
  | nil => exact List.nodup_nil
  | append_singleton history event inductionHypothesis =>
      rw [accordant_append_singleton_iff] at accordant
      have distinct := inductionHypothesis accordant.1
      rw [leases_append, List.foldl_cons, List.foldl_nil]
      obtain ⟨call, answer⟩ := event
      cases call with
      | register grammar =>
          cases answer with
          | none => exact distinct
          | some identity =>
              refine List.nodup_cons.mpr ⟨fun taken => ?_, distinct⟩
              obtain ⟨lease, isLive, rfl⟩ := List.mem_map.mp taken
              exact accordant.2 lease isLive rfl
      | resolve identity name => exact distinct
      | release identity => exact distinct.sublist (List.eraseP_sublist.map _)

/-- What a user has a lease of is what its identity was resolved to. -/
theorem Accordant.resolved
    {lease : Lease}
    {name : String}
    {answer : Option LoadedGrammar}
    (accordant : Accordant (history ++ [⟨.resolve lease.identity name, answer⟩]))
    (isLive : lease ∈ leases history) :
    answer = some lease.grammar := by
  rw [accordant_append_singleton_iff] at accordant
  obtain ⟨found, foundLive, sameIdentity, -, isAnswer⟩ := accordant.2
  rw [isAnswer, List.inj_on_of_nodup_map accordant.1.distinct foundLive isLive sameIdentity]

end Histories

/-- A lease ends when its identity is released, and no other one with it. -/
theorem mem_after_release_iff
    {live : List Lease}
    (distinct : (live.map Lease.identity).Nodup)
    {lease : Lease}
    {identity : Identity} :
    lease ∈ Lease.after live ⟨.release identity, ()⟩ ↔
      lease ∈ live ∧ lease.identity ≠ identity := by
  simp only [Lease.after]
  induction live with
  | nil => simp
  | cons first rest inductionHypothesis =>
      rw [List.map_cons, List.nodup_cons] at distinct
      by_cases released : first.identity = identity
      · rw [List.eraseP_cons_of_pos (by simpa using released)]
        constructor
        · intro isLater
          refine ⟨List.mem_cons_of_mem _ isLater, fun isReleased => distinct.1 ?_⟩
          rw [released, ← isReleased]
          exact List.mem_map_of_mem isLater
        · rintro ⟨isLease, notReleased⟩
          rcases List.mem_cons.mp isLease with rfl | isLater
          · exact absurd released notReleased
          · exact isLater
      · rw [List.eraseP_cons_of_neg (by simpa using released), List.mem_cons,
          inductionHypothesis distinct.2, List.mem_cons]
        constructor
        · rintro (rfl | ⟨isLater, notReleased⟩)
          · exact ⟨.inl rfl, released⟩
          · exact ⟨.inr isLater, notReleased⟩
        · rintro ⟨rfl | isLater, notReleased⟩
          · exact .inl rfl
          · exact .inr ⟨isLater, notReleased⟩

namespace Leased

variable
  {ι : Type}
  [DecidableEq ι]
  {registry : Registry}
  {live : ι → List Lease}

omit [DecidableEq ι] in
/-- What a live lease is of is found under its identity. -/
theorem find?_of_mem
    (leased : Leased registry live)
    {member : ι}
    {lease : Lease}
    (isLive : lease ∈ live member) :
    registry.find? lease.identity = some lease.grammar :=
  (leased.find?_eq_some_iff _ _).mpr ⟨member, isLive⟩

/-- A new lease of a grammar, under an identity that nothing was found under. -/
theorem register
    (leased : Leased registry live)
    {identity : Identity}
    (isFresh : registry.find? identity = none)
    (grammar : LoadedGrammar)
    (suffixes : List String)
    (speaker : ι) :
    Leased ⟨(identity, grammar) :: registry.entries, suffixes⟩
      (Function.update live speaker (⟨identity, grammar⟩ :: live speaker)) := by
  have isOther {member : ι} {lease : Lease} (isLive : lease ∈ live member) :
      lease.identity ≠ identity := by
    rintro rfl
    cases isFresh.symm.trans (leased.find?_of_mem isLive)
  have isLive_iff {member : ι} {lease : Lease} :
      lease ∈ Function.update live speaker (⟨identity, grammar⟩ :: live speaker) member ↔
        (member = speaker ∧ lease = ⟨identity, grammar⟩) ∨ lease ∈ live member := by
    by_cases isSpeaker : member = speaker
    · subst isSpeaker
      simp
    · simp [isSpeaker]
  constructor
  · intro asked found
    simp only [isLive_iff, exists_or, exists_eq_left]
    -- Nobody had a lease of the new identity, since nothing was found under it.
    by_cases isAsked : asked = identity
    · subst isAsked
      have notOlder : ¬ ∃ member, ⟨asked, found⟩ ∈ live member :=
        fun ⟨_, isLive⟩ => isOther isLive rfl
      simp [notOlder, eq_comm]
    · rw [find?_registered_of_ne isAsked, leased.find?_eq_some_iff]
      simp [isAsked]
  · intro member
    by_cases isSpeaker : member = speaker
    · subst isSpeaker
      rw [Function.update_self, List.map_cons, List.nodup_cons]
      refine ⟨fun taken => ?_, leased.distinct member⟩
      obtain ⟨lease, isLive, isIdentity⟩ := List.mem_map.mp taken
      exact isOther isLive isIdentity
    · rw [Function.update_of_ne isSpeaker]
      exact leased.distinct member
  · intro member other differ first isFirst second isSecond
    rcases isLive_iff.mp isFirst with ⟨rfl, rfl⟩ | firstLive <;>
      rcases isLive_iff.mp isSecond with ⟨rfl, rfl⟩ | secondLive
    · exact absurd rfl differ
    · exact (isOther secondLive).symm
    · exact isOther firstLive
    · exact leased.apart member other differ _ firstLive _ secondLive

/-- A lease less, whose identity is released by who has it. -/
theorem release
    (leased : Leased registry live)
    {speaker : ι}
    {lease : Lease}
    (isLive : lease ∈ live speaker) :
    Leased (registry.release lease.identity)
      (Function.update live speaker
        (Lease.after (live speaker) ⟨.release lease.identity, ()⟩)) := by
  have remains {member : ι} {other : Lease} :
      other ∈
          Function.update live speaker
            (Lease.after (live speaker) ⟨.release lease.identity, ()⟩) member ↔
        other ∈ live member ∧ other.identity ≠ lease.identity := by
    by_cases isSpeaker : member = speaker
    · subst isSpeaker
      rw [Function.update_self, mem_after_release_iff (leased.distinct member)]
    · rw [Function.update_of_ne isSpeaker]
      exact ⟨fun isOther =>
        ⟨isOther, leased.apart member speaker isSpeaker _ isOther _ isLive⟩, And.left⟩
  constructor
  · intro asked found
    rw [find?_release]
    simp only [remains]
    split
    · rename_i isReleased
      simp [isReleased]
    · rename_i notReleased
      rw [leased.find?_eq_some_iff]
      simp [notReleased]
  · intro member
    by_cases isSpeaker : member = speaker
    · subst isSpeaker
      rw [Function.update_self]
      exact (leased.distinct member).sublist (List.eraseP_sublist.map _)
    · rw [Function.update_of_ne isSpeaker]
      exact leased.distinct member
  · intro member other differ first isFirst second isSecond
    exact leased.apart member other differ _ (remains.mp isFirst).1 _ (remains.mp isSecond).1

/-- A permitted call is answered as it should be, and keeps the registry to the live leases. -/
theorem perform
    (leased : Leased registry live)
    {speaker : ι}
    {call : Call}
    (permitted : Permitted (live speaker) call) :
    Accords (live speaker) ⟨call, (Registry.perform call registry).1⟩ ∧
      Leased (Registry.perform call registry).2
        (Function.update live speaker
          (Lease.after (live speaker) ⟨call, (Registry.perform call registry).1⟩)) := by
  cases call with
  | register grammar =>
      have registers := registry.registers_register grammar
      simp only [Registry.perform]
      generalize registry.register grammar = registered at registers ⊢
      cases registers with
      | exhausted =>
          refine ⟨by simp [Accords], ?_⟩
          rw [Lease.after, Function.update_eq_self]
          · exact ⟨leased.find?_eq_some_iff, leased.distinct, leased.apart⟩
          all_goals simp
      | @fresh identity isFresh suffixes =>
          refine ⟨fun lease isLive isAnswer => ?_, leased.register isFresh grammar suffixes speaker⟩
          cases isAnswer
          cases isFresh.symm.trans (leased.find?_of_mem isLive)
  | resolve identity name =>
      obtain ⟨lease, isLive, rfl, rfl⟩ := permitted
      refine ⟨⟨lease, isLive, rfl, rfl, resolve_name (leased.find?_of_mem isLive)⟩, ?_⟩
      simpa [Registry.perform, Lease.after] using leased
  | release identity =>
      obtain ⟨lease, isLive, rfl⟩ := permitted
      exact ⟨⟨lease, isLive, rfl⟩, leased.release isLive⟩

end Leased

/-- What may be asked of a registry behind a history whose answers were right. -/
def MayFollow
    (history : History)
    (call : Call) :
    Prop :=
  Accordant history → Permitted (leases history) call

/-- Users of a registry who keep to their leases, and whose calls were all answered rightly. -/
structure KeptTo
    {ι α : Type}
    (fits : ι → History → α → Prop)
    (gathering : Dialogue.Gathering Call.Answer ι α Registry) :
    Prop where
  leased : Leased gathering.state fun member => leases (gathering.history member)
  accordant : ∀ member, Accordant (gathering.history member)
  keeps :
    ∀ member,
      (gathering.remaining member).Keeps MayFollow (fits member) (gathering.history member)

namespace KeptTo

variable
  {ι α : Type}
  [DecidableEq ι]
  {fits : ι → History → α → Prop}
  {gathering : Dialogue.Gathering Call.Answer ι α Registry}

omit [DecidableEq ι] in
/-- Who makes a call is permitted to. -/
theorem permitted
    (kept : KeptTo fits gathering)
    {member : ι}
    {call : Call}
    {next : Call.Answer call → Dialogue Call.Answer α}
    (asks : gathering.remaining member = .ask call next) :
    Permitted (leases (gathering.history member)) call := by
  have keeps := kept.keeps member
  rw [asks] at keeps
  exact keeps.1 (kept.accordant member)

/-- A turn keeps users of a registry to their leases. -/
theorem turn
    (kept : KeptTo fits gathering)
    (speaker : ι) :
    KeptTo fits (gathering.turn Registry.perform speaker) := by
  cases speaks : gathering.remaining speaker with
  | done result => rwa [Dialogue.Gathering.turn_of_done speaks]
  | ask call next =>
      have keeps :
          ∀ member,
            ((gathering.turn Registry.perform speaker).remaining member).Keeps MayFollow
              (fits member) ((gathering.turn Registry.perform speaker).history member) :=
        Dialogue.Gathering.keeps_turn kept.keeps speaker
      obtain ⟨accords, leased⟩ := kept.leased.perform (kept.permitted speaks)
      rw [Dialogue.Gathering.turn_of_ask speaks] at keeps ⊢
      refine ⟨?_, fun member => ?_, keeps⟩
      · convert leased using 1
        funext member
        by_cases isSpeaker : member = speaker
        · subst isSpeaker
          simp
        · simp [Function.update_of_ne isSpeaker]
      · by_cases isSpeaker : member = speaker
        · subst isSpeaker
          simpa using ⟨kept.accordant member, accords⟩
        · simpa [Function.update_of_ne isSpeaker] using kept.accordant member

/-- Users who keep to their leases and begin with an empty registry are kept to them. -/
theorem turns_start
    {dialogues : ι → Dialogue Call.Answer α}
    (keeps : ∀ member, (dialogues member).Keeps MayFollow (fits member) [])
    (suffixes : List String)
    (schedule : List ι) :
    KeptTo fits
      ((Dialogue.Gathering.start dialogues ⟨[], suffixes⟩).turns Registry.perform schedule) := by
  refine Dialogue.Gathering.turns_induction (fun _ speaker kept => kept.turn speaker) ?_ schedule
  exact ⟨⟨by simp [find?, leases, Dialogue.Gathering.start],
    by simp [leases, Dialogue.Gathering.start], by simp [leases, Dialogue.Gathering.start]⟩,
    fun _ => accordant_nil, keeps⟩

end KeptTo

end Registry

namespace Artifacts

/-- What compiled grammars are loaded from. -/
structure Source where
  files : FileStore
  folder : Path
  layout : Layout

namespace Source

/-- The identities that a load was left with. -/
def identitiesOf : Except ArtifactError Artifacts → List Identity
  | .ok artifacts => artifacts.identities
  | .error _ => []

/-- Load grammars, use them, and drop their leases. -/
def hold (source : Source) : Enrolment (Except ArtifactError Artifacts) :=
  (load source.files source.folder source.layout).andThen fun result =>
    (release (identitiesOf result)).andThen fun _ => .done result

/-- What a load can come to, with all calls that it made. -/
inductive Gives
    (source : Source)
    (history : Registry.History) :
    Except ArtifactError Artifacts → Prop where
  | notRead
      {error : ArtifactError}
      (areRead : readGrammars source.files source.folder source.layout = .error error)
      (notResolved : ∀ name, error ≠ .notResolved name) :
      Gives source history (.error error)
  | exhausted
      {grammar : LoadedGrammar}
      (noneFree : ⟨.register grammar, none⟩ ∈ history) :
      Gives source history (.error .noIdentity)
  | loaded
      {parser : ParserGrammar}
      {lexer : LexerGrammar}
      {parserIdentity lexerIdentity : Identity}
      (areRead : readGrammars source.files source.folder source.layout = .ok (parser, lexer))
      (parserRegistered : ⟨.register (.parser parser), some parserIdentity⟩ ∈ history)
      (lexerRegistered : ⟨.register (.lexer lexer), some lexerIdentity⟩ ∈ history) :
      Gives source history (.ok ⟨lexer, parser, [parserIdentity, lexerIdentity]⟩)

/-- A load that came to a result has leases of what it gives, and of nothing else. -/
def Holds
    (source : Source)
    (history : Registry.History)
    (result : Except ArtifactError Artifacts) :
    Prop :=
  Registry.Accordant history →
    ((Registry.leases history).map Registry.Lease.identity).Perm (identitiesOf result) ∧
      source.Gives history result

/-- A load whose leases were dropped has none left. -/
def Leaves
    (source : Source)
    (history : Registry.History)
    (result : Except ArtifactError Artifacts) :
    Prop :=
  Registry.Accordant history → Registry.leases history = [] ∧ source.Gives history result

variable {source : Source} {history : Registry.History}

/-- What a load came to stays what it came to. -/
theorem Gives.mono
    {later : Registry.History}
    {result : Except ArtifactError Artifacts}
    (gives : source.Gives history result)
    (isLater : history ⊆ later) :
    source.Gives later result := by
  cases gives with
  | notRead areRead notResolved => exact .notRead areRead notResolved
  | exhausted noneFree => exact .exhausted (isLater noneFree)
  | loaded areRead parserRegistered lexerRegistered =>
      exact .loaded areRead (isLater parserRegistered) (isLater lexerRegistered)

/-- Identities are released by who has leases of them and of nothing else. -/
theorem keeps_release
    {identities : List Identity}
    (all :
      Registry.Accordant history →
        ((Registry.leases history).map Registry.Lease.identity).Perm identities) :
    (release identities).Keeps Registry.MayFollow
      (fun later _ =>
        Registry.Accordant later →
          Registry.Accordant history ∧ Registry.leases later = [] ∧ history ⊆ later)
      history := by
  induction identities generalizing history with
  | nil => exact fun accordant => ⟨accordant, by simpa using all accordant, fun _ => id⟩
  | cons identity rest inductionHypothesis =>
      refine ⟨fun accordant => ?_, fun answer => ?_⟩
      · exact List.mem_map.mp ((all accordant).mem_iff.mpr List.mem_cons_self)
      · refine (inductionHypothesis fun accordant => ?_).mono fun later _ ends accordant => ?_
        · rw [Registry.accordant_append_singleton_iff] at accordant
          have erased := (all accordant.1).erase identity
          rw [List.erase_cons_head, List.erase_eq_eraseP', List.eraseP_map] at erased
          simpa [Registry.Lease.after, Function.comp_def, beq_eq_decide] using erased
        · obtain ⟨before, isEmpty, isLater⟩ := ends accordant
          exact ⟨(Registry.accordant_append_singleton_iff.mp before).1, isEmpty,
            fun _ present => isLater (List.mem_append_left _ present)⟩

/-- A load that gives up releases what it has leases of. -/
theorem keeps_giveUp
    {error : ArtifactError}
    {identities : List Identity}
    (all :
      Registry.Accordant history →
        ((Registry.leases history).map Registry.Lease.identity).Perm identities)
    (gives : Registry.Accordant history → source.Gives history (.error error)) :
    (giveUp identities error).Keeps Registry.MayFollow source.Holds history := by
  refine .andThen ((keeps_release all).mono fun later _ ends => ?_)
  intro accordant
  obtain ⟨before, isEmpty, isLater⟩ := ends accordant
  exact ⟨by simp [isEmpty, identitiesOf], (gives before).mono isLater⟩

/-- A pair of grammars was registered, and nothing else was done. -/
def pairRegistered
    (parser : ParserGrammar)
    (lexer : LexerGrammar)
    (parserIdentity lexerIdentity : Identity) :
    Registry.History :=
  [⟨.register (.parser parser), some parserIdentity⟩,
    ⟨.register (.lexer lexer), some lexerIdentity⟩]

/-- A load that has registered both grammars takes them as they are. -/
theorem keeps_resolvePair
    {parser : ParserGrammar}
    {lexer : LexerGrammar}
    (areRead : readGrammars source.files source.folder source.layout = .ok (parser, lexer))
    (parserIdentity lexerIdentity : Identity) :
    (resolvePair parserIdentity lexerIdentity parser.name lexer.name).Keeps
      Registry.MayFollow source.Holds
      (pairRegistered parser lexer parserIdentity lexerIdentity) := by
  have areLive :
      Registry.leases (pairRegistered parser lexer parserIdentity lexerIdentity) =
        [⟨lexerIdentity, .lexer lexer⟩, ⟨parserIdentity, .parser parser⟩] :=
    rfl
  generalize isPair : pairRegistered parser lexer parserIdentity lexerIdentity = pair at areLive ⊢
  have parserLive : ⟨parserIdentity, .parser parser⟩ ∈ Registry.leases pair := by
    simp [areLive]
  have lexerLive : ⟨lexerIdentity, .lexer lexer⟩ ∈ Registry.leases pair := by
    simp [areLive]
  have lexerStillLive {name : String} {answer : Option LoadedGrammar} :
      ⟨lexerIdentity, .lexer lexer⟩ ∈
        Registry.leases (pair ++ [⟨.resolve parserIdentity name, answer⟩]) := by
    simpa [Registry.Lease.after] using lexerLive
  have parserFound {answer : Option LoadedGrammar}
      (accordant : Registry.Accordant (pair ++ [⟨.resolve parserIdentity parser.name, answer⟩])) :
      answer = some (.parser parser) :=
    accordant.resolved parserLive
  refine ⟨fun _ => ⟨_, parserLive, rfl, rfl⟩, fun parserAnswer => ?_⟩
  dsimp only
  -- The load is ready for each answer, but only the registered grammars accord with the leases.
  split
  · rename_i readParser
    refine ⟨fun _ => ⟨_, lexerStillLive, rfl, rfl⟩, fun lexerAnswer => ?_⟩
    have lexerFound {answer : Option LoadedGrammar}
        (accordant : Registry.Accordant
          (pair ++ [⟨.resolve parserIdentity parser.name, some (.parser readParser)⟩] ++
            [⟨.resolve lexerIdentity lexer.name, answer⟩])) :
        answer = some (.lexer lexer) :=
      accordant.resolved lexerStillLive
    dsimp only
    split
    · rename_i readLexer
      intro accordant
      cases lexerFound accordant
      cases parserFound (Registry.accordant_append_singleton_iff.mp accordant).1
      refine ⟨?_, .loaded areRead ?_ ?_⟩
      · simp [Registry.Lease.after, areLive, identitiesOf, List.Perm.swap]
      · simp [← isPair, pairRegistered]
      · simp [← isPair, pairRegistered]
    · rename_i notLexer
      refine keeps_giveUp (fun _ => ?_) fun accordant => absurd (lexerFound accordant) (notLexer _)
      simp [Registry.Lease.after, areLive, List.Perm.swap]
  · rename_i notParser
    refine keeps_giveUp (fun _ => ?_) fun accordant => absurd (parserFound accordant) (notParser _)
    simp [Registry.Lease.after, areLive, List.Perm.swap]

/-- A load that has registered its parser goes on with its lexer. -/
theorem keeps_enrolLexer
    {parser : ParserGrammar}
    {lexer : LexerGrammar}
    (areRead : readGrammars source.files source.folder source.layout = .ok (parser, lexer))
    (parserIdentity : Identity) :
    (enrolLexer parserIdentity parser.name lexer).Keeps Registry.MayFollow source.Holds
      [⟨.register (.parser parser), some parserIdentity⟩] := by
  refine ⟨fun _ => trivial, ?_⟩
  rintro (_ | lexerIdentity)
  · refine keeps_giveUp (fun _ => .refl _) fun _ => ?_
    exact .exhausted (List.mem_append_right _ List.mem_cons_self)
  · exact keeps_resolvePair areRead parserIdentity lexerIdentity

/-- Loading keeps to leases. -/
theorem keeps_load (source : Source) :
    (load source.files source.folder source.layout).Keeps Registry.MayFollow source.Holds [] := by
  unfold load
  split
  · rename_i error areRead
    exact fun _ => ⟨.nil, .notRead areRead fun _ => ne_notResolved_of_readGrammars areRead⟩
  · rename_i parser lexer areRead
    refine ⟨fun _ => trivial, ?_⟩
    rintro (_ | parserIdentity)
    · exact fun _ => ⟨.nil, .exhausted List.mem_cons_self⟩
    · exact keeps_enrolLexer areRead parserIdentity

/-- Loading, and dropping the leases, keeps to leases. -/
theorem keeps_hold (source : Source) :
    source.hold.Keeps Registry.MayFollow source.Leaves [] := by
  refine .andThen (source.keeps_load.mono fun history result holds => ?_)
  refine .andThen ((keeps_release fun accordant => (holds accordant).1).mono
    fun later _ ends accordant => ?_)
  obtain ⟨before, isEmpty, isLater⟩ := ends accordant
  exact ⟨isEmpty, (holds before).2.mono isLater⟩

/-- A load and the dropping of its leases are six calls at most. -/
theorem endsWithin_hold (source : Source) : source.hold.EndsWithin 6 := by
  unfold hold load
  split
  · trivial
  · rintro (_ | parserIdentity)
    · trivial
    · rintro (_ | lexerIdentity)
      · exact fun _ => trivial
      · rintro (_ | _ | _)
        · exact fun _ _ => trivial
        · exact fun _ _ => trivial
        · rintro (_ | _ | _) <;> exact fun _ _ => trivial

end Source

/-- Loads take turns at a registry, and what they hold is what their leases are of. -/
structure HeldByLeases
    {ι : Type}
    [DecidableEq ι]
    (sources : ι → Source)
    (gathering :
      Dialogue.Gathering Registry.Call.Answer ι (Except ArtifactError Artifacts) Registry) :
    Prop where
  /-- The registry holds what the live leases are of, each under an identity of its own. -/
  leased :
    Registry.Leased gathering.state fun member => Registry.leases (gathering.history member)
  /-- Identities are given that the load has no lease of, are resolved to what they were given for,
  and are released by the load that has a lease of them. -/
  accordant : ∀ member, Registry.Accordant (gathering.history member)
  /-- A grammar is registered as long as there is an identity that nothing is registered under. -/
  registers :
    ∀ member grammar next,
      gathering.remaining member = .ask (.register grammar) next →
        ∀ suffix ∈ gathering.state.suffixes,
          gathering.state.find? (.ofSuffix suffix) = none →
            ∃ identity,
              (gathering.turn Registry.perform member).history member =
                gathering.history member ++ [⟨.register grammar, some identity⟩]
  /-- Dropping a lease takes away what it is of and nothing else. -/
  drops :
    ∀ member identity next,
      gathering.remaining member = .ask (.release identity) next →
        (∃ lease ∈ Registry.leases (gathering.history member), lease.identity = identity) ∧
          ∀ other,
            (gathering.turn Registry.perform member).state.find? other =
              if other = identity then none else gathering.state.find? other
  /-- A load that is over has left nothing, and gave what it read if there were identities. -/
  ended :
    ∀ member result,
      gathering.remaining member = .done result →
        Registry.leases (gathering.history member) = [] ∧
          (sources member).Gives (gathering.history member) result
  /-- What was registered was resolved. -/
  resolved :
    ∀ member name, gathering.remaining member ≠ .done (.error (.notResolved name))

/-- Loads that take turns at a registry that was empty, with some random suffixes for it. -/
def holdInTurns
    {ι : Type}
    [DecidableEq ι]
    (sources : ι → Source)
    (suffixes : List String)
    (schedule : List ι) :
    Dialogue.Gathering Registry.Call.Answer ι (Except ArtifactError Artifacts) Registry :=
  (Dialogue.Gathering.start (fun member => (sources member).hold) ⟨[], suffixes⟩).turns
    Registry.perform schedule

/-- However many loads take turns, and whatever the random suffixes are, the registry holds what
their live leases are of, and each load is over after six turns. -/
theorem heldByLeases_holdInTurns
    {ι : Type}
    [DecidableEq ι]
    (sources : ι → Source)
    (suffixes : List String)
    (schedule : List ι) :
    HeldByLeases sources (holdInTurns sources suffixes schedule) ∧
      ∀ member,
        6 ≤ schedule.count member →
          ∃ result, (holdInTurns sources suffixes schedule).remaining member = .done result := by
  have kept :
      Registry.KeptTo (fun member => (sources member).Leaves)
        (holdInTurns sources suffixes schedule) :=
    .turns_start (fun member => (sources member).keeps_hold) suffixes schedule
  have ends (member : ι) :
      ((holdInTurns sources suffixes schedule).remaining member).EndsWithin
        (6 - schedule.count member) :=
    Dialogue.Gathering.endsWithin_turns (sources member).endsWithin_hold schedule
  generalize holdInTurns sources suffixes schedule = gathering at kept ends ⊢
  have ended (member : ι) (result : Except ArtifactError Artifacts)
      (isDone : gathering.remaining member = .done result) :
      Registry.leases (gathering.history member) = [] ∧
        (sources member).Gives (gathering.history member) result := by
    have keeps := kept.keeps member
    rw [isDone] at keeps
    exact keeps (kept.accordant member)
  refine ⟨⟨kept.leased, kept.accordant, ?_, ?_, ended, ?_⟩, fun member enough => ?_⟩
  · intro member grammar next asks suffix isLeft isFree
    have registers := gathering.state.registers_register grammar
    rw [Dialogue.Gathering.turn_of_ask asks]
    simp only [Registry.perform, Function.update_self]
    generalize gathering.state.register grammar = registered at registers ⊢
    cases registers with
    | exhausted noneFree =>
        have taken := noneFree suffix isLeft
        simp [Registry.isFree, Registry.contains, isFree] at taken
    | @fresh identity isFresh suffixes => exact ⟨identity, rfl⟩
  · intro member identity next asks
    refine ⟨kept.permitted asks, fun other => ?_⟩
    rw [Dialogue.Gathering.turn_of_ask asks]
    exact Registry.find?_release gathering.state identity other
  · intro member name isDone
    obtain ⟨-, gives⟩ := ended member _ isDone
    cases gives with
    | notRead areRead notResolved => exact notResolved name rfl
  · have ends := ends member
    rw [Nat.sub_eq_zero_of_le enough] at ends
    exact ends.exists_done

end Artifacts

end GrammarService
