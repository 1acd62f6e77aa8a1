import GrammarService.Proofs.IntervalSet.Canonical
import GrammarService.Proofs.Network.Places

namespace GrammarService

/-!
# The symbols on edges

A network that was read has its symbol sets in ascending ranges, so that looking for a symbol in
one of them finds just what its ranges hold. Where the symbols that edges list are those of the
vocabulary and the end of the input, no edge consumes anything else.
-/

namespace Edge

/-- The set an edge was given, if it was given one. -/
def symbols? : Edge → Option IntervalSet
  | .set _ symbols => some symbols
  | .notSet _ symbols => some symbols
  | _ => none

/-- Free edges consume nothing. -/
theorem consumes_of_isFree
    {edge : Edge}
    (free : edge.isFree = true)
    (symbol low high : Int) :
    edge.consumes symbol low high = false := by
  cases edge <;> first | rfl | cases free

/-- An edge that lists symbols consumes these. -/
theorem consumes_of_label
    {edge : Edge}
    {symbols : IntervalSet}
    (lists : edge.label? = some symbols)
    (symbol low high : Int) :
    edge.consumes symbol low high = true ↔ symbols.contains symbol = true := by
  cases edge with
  | atom target label =>
      cases lists
      rw [IntervalSet.singleton, @IntervalSet.contains_add_iff .empty .nil, consumes, beq_iff_eq,
        eq_comm]
      simp
  | range target first last =>
      cases lists
      rw [@IntervalSet.contains_addRange_iff .empty .nil]
      simp [consumes]
  | set target members =>
      cases lists
      rfl
  | _ => cases lists

/-- An edge that lists no symbols consumes symbols of the vocabulary only. -/
theorem le_of_consumes
    {edge : Edge}
    {symbol low high : Int}
    (listsNone : edge.label? = none)
    (consumes : edge.consumes symbol low high = true) :
    low ≤ symbol := by
  cases edge with
  | notSet target symbols =>
      simp only [Edge.consumes, Bool.and_eq_true, decide_eq_true_eq] at consumes
      exact consumes.1.1
  | wildcard target =>
      simp only [Edge.consumes, decide_eq_true_eq] at consumes
      exact consumes.1
  | atom => cases listsNone
  | range => cases listsNone
  | set => cases listsNone
  | _ => cases consumes

end Edge

namespace Network

/-- A set that was read is in ascending ranges. -/
theorem isCanonical_of_decodeSet
    {symbols : IntervalSet}
    (reads : Decoder.Reads decodeSet symbols) :
    IntervalSet.IsCanonical symbols.intervals := by
  obtain ⟨ranges, _, reads⟩ := Decoder.reads_bind reads
  obtain ⟨withEnd, _, reads⟩ := Decoder.reads_bind reads
  obtain ⟨intervals, _, reads⟩ := Decoder.reads_bind reads
  rw [← Decoder.reads_pure reads]
  refine foldl_keeps (fun symbols : IntervalSet => IntervalSet.IsCanonical symbols.intervals) ?_ ?_
  · exact fun range _ symbols canonical => canonical.addRange range.1 range.2
  · split
    · exact @IntervalSet.IsCanonical.addRange .empty .nil _ _
    · exact .nil

/-- The set of an edge is one of those that were read before. -/
theorem mem_sets_of_edgeOf
    {tables : EdgeTables}
    {type first second third : Int}
    {target : Nat}
    {edge : Edge}
    (built : edgeOf tables type target first second third = .ok edge)
    {symbols : IntervalSet}
    (isSymbols : edge.symbols? = some symbols) :
    symbols ∈ tables.sets := by
  have ofReference :
      ∀ {value : Int} {symbols : IntervalSet},
        setReference tables.sets value = .ok symbols → symbols ∈ tables.sets := by
    intro value symbols found
    unfold setReference at found
    split at found
    · rename_i isFound
      cases found
      obtain ⟨place, _, present⟩ := Option.bind_eq_some_iff.mp isFound
      exact Array.mem_of_getElem? present
    · cases found
  unfold edgeOf at built
  split at built
  case h_3 =>
    obtain ⟨_, _, built⟩ := ok_of_bind built
    obtain ⟨_, _, built⟩ := ok_of_bind built
    cases built
    cases isSymbols
  case h_4 =>
    obtain ⟨_, _, built⟩ := ok_of_bind built
    cases built
    cases isSymbols
  -- Only the two types of set edges get one of the sets.
  case h_7 | h_8 =>
    obtain ⟨_, found, built⟩ := ok_of_bind built
    cases built
    cases isSymbols
    exact ofReference found
  case h_11 => cases built
  all_goals
    cases built
    cases isSymbols

/-- The sets on the edges of a network that was read are in ascending ranges. -/
theorem isCanonical_of_decode
    {data : List Int}
    {network : Network}
    (decoded : decode data = .ok network)
    {number : Nat}
    {edge : Edge}
    (present : edge ∈ (network.state number).edges)
    {symbols : IntervalSet}
    (isSymbols : edge.symbols? = some symbols) :
    IntervalSet.IsCanonical symbols.intervals := by
  obtain ⟨readings, rfl, readsSets⟩ := readings_of_decode_with_sets decoded
  rcases readings.stages.edge_cases present with isRead | ⟨_, _, _, _, _, _, _, _, rfl⟩
  · obtain ⟨place, isPlace⟩ := List.mem_iff_getElem?.mp isRead
    have reads := Decoder.reads_counted readings.readsEdges isPlace
    obtain ⟨_, _, reads⟩ := Decoder.reads_bind reads
    obtain ⟨_, _, reads⟩ := Decoder.reads_bind reads
    obtain ⟨_, _, reads⟩ := Decoder.reads_bind reads
    obtain ⟨_, _, reads⟩ := Decoder.reads_bind reads
    obtain ⟨_, _, reads⟩ := Decoder.reads_bind reads
    obtain ⟨_, _, reads⟩ := Decoder.reads_bind reads
    obtain ⟨_, _, reads⟩ := Decoder.reads_bind reads
    obtain ⟨_, _, reads⟩ := Decoder.reads_bind reads
    obtain ⟨_, built, reads⟩ := Decoder.reads_bind reads
    cases Decoder.reads_pure reads
    have isSet := mem_sets_of_edgeOf (Decoder.reads_lift built) isSymbols
    obtain ⟨setPlace, isSetPlace⟩ := List.mem_iff_getElem?.mp (List.mem_toArray.mp isSet)
    exact isCanonical_of_decodeSet (Decoder.reads_counted readsSets isSetPlace)
  · cases isSymbols

/-- The symbols that edges list are token types of the vocabulary or the end of the input. -/
def ListsVocabulary (network : Network) : Prop :=
  ∀ {number : Nat} {edge : Edge} {symbols : IntervalSet},
    edge ∈ (network.state number).edges →
      edge.label? = some symbols →
        ∀ symbol, symbols.contains symbol = true →
          symbol = endOfInput ∨ minTokenType ≤ symbol ∧ symbol ≤ network.maxTokenType

/-- No edge consumes what is neither the end of the input nor in the vocabulary. -/
theorem ListsVocabulary.not_consumes
    {network : Network}
    (lists : network.ListsVocabulary)
    {number : Nat}
    {edge : Edge}
    (present : edge ∈ (network.state number).edges)
    {symbol : Int}
    (notEnd : symbol ≠ endOfInput)
    (outside : symbol < minTokenType) :
    ¬ edge.consumes symbol minTokenType network.maxTokenType = true := by
  intro consumes
  cases isLabel : edge.label? with
  | none =>
      have within := Edge.le_of_consumes isLabel consumes
      omega
  | some symbols =>
      have listed := (Edge.consumes_of_label isLabel _ _ _).mp consumes
      rcases lists present isLabel symbol listed with isEnd | within
      · exact notEnd isEnd
      · omega

/-- Whether a range is within the vocabulary, or is the end of the input alone. -/
def isOfVocabulary
    (network : Network)
    (range : Interval) :
    Bool :=
  decide (range.first = endOfInput ∧ range.last = endOfInput) ||
    decide (minTokenType ≤ range.first ∧ range.last ≤ network.maxTokenType)

/-- Whether the symbols that edges list are of the vocabulary. -/
def checkVocabulary (network : Network) : Bool :=
  (List.range network.states.size).all fun number =>
    (network.state number).edges.all fun edge =>
      edge.label?.all fun symbols => symbols.intervals.all network.isOfVocabulary

/-- The check of the vocabulary can be trusted. -/
theorem listsVocabulary_of_checkVocabulary
    {network : Network}
    (checked : network.checkVocabulary = true) :
    network.ListsVocabulary := by
  intro number edge symbols present isLabel symbol contained
  simp only [checkVocabulary, List.all_eq_true, Option.all_eq_true, List.mem_range] at checked
  obtain ⟨range, member, begins, ends⟩ := IntervalSet.holds_of_containsIn contained
  have within :=
    checked number (lt_size_of_mem_edges present) edge present symbols isLabel range member
  simp only [isOfVocabulary, Bool.or_eq_true, decide_eq_true_eq] at within
  rcases within with isEnd | within
  · exact .inl (by omega)
  · exact .inr ⟨within.1.trans begins, ends.trans within.2⟩

end Network

end GrammarService
