namespace GrammarService

/-!
# Conditions on alternatives

An alternative of a decision can be guarded. A condition written in the grammar cannot be run and
counts as fulfilled; a precedence condition is compared with the precedence of the rule
invocation in progress. `both` and `either` join conditions in a normal form: the operands of a
conjunction or disjunction are ascending and without repetition, there are at least two of them,
none is of the same kind as the whole, and at most one is a precedence condition.
-/

/-- What has to hold for an alternative to be possible. -/
inductive Condition
  /-- Always holds. -/
  | always
  /-- A condition written in the grammar. -/
  | predicate (rule : Nat) (index : Int) (contextDependent : Bool)
  /-- Holds at invocation precedences up to `highest`. -/
  | precedence (highest : Int)
  | allOf (operands : List Condition)
  | anyOf (operands : List Condition)
  deriving Repr, Hashable, Inhabited

namespace Condition

/-- The place of a kind of condition in the order of conditions. -/
def rank : Condition → Nat
  | .always => 0
  | .predicate .. => 1
  | .precedence _ => 2
  | .allOf _ => 3
  | .anyOf _ => 4

mutual

/-- Compare two conditions: by kind, and then by what they hold. -/
def order : Condition → Condition → Ordering
  | .predicate rule index dependent, .predicate rule' index' dependent' =>
      (compare rule rule').then ((compare index index').then (compare dependent dependent'))
  | .precedence highest, .precedence highest' => compare highest highest'
  | .allOf operands, .allOf operands' => orderLists operands operands'
  | .anyOf operands, .anyOf operands' => orderLists operands operands'
  | first, second => compare first.rank second.rank

/-- Compare two lists of conditions element by element; a list comes before its extensions. -/
def orderLists : List Condition → List Condition → Ordering
  | [], [] => .eq
  | [], _ :: _ => .lt
  | _ :: _, [] => .gt
  | first :: rest, first' :: rest' => (order first first').then (orderLists rest rest')

end

mutual

/-- Only equal conditions compare as equal. -/
theorem order_eq_iff : (first second : Condition) → (order first second = .eq ↔ first = second)
  | .always, second => by
      cases second <;> simp [order, rank]
  | .predicate .., second => by
      cases second <;> simp [order, rank]
  | .precedence _, second => by
      cases second <;> simp [order, rank]
  | .allOf operands, second => by
      cases second with
      | allOf operands' => simpa [order] using orderLists_eq_iff operands operands'
      | _ => simp [order, rank]
  | .anyOf operands, second => by
      cases second with
      | anyOf operands' => simpa [order] using orderLists_eq_iff operands operands'
      | _ => simp [order, rank]

/-- Only equal lists of conditions compare as equal. -/
theorem orderLists_eq_iff :
    (first second : List Condition) → (orderLists first second = .eq ↔ first = second)
  | [], second => by
      cases second <;> simp [orderLists]
  | head :: tail, second => by
      cases second with
      | nil => simp [orderLists]
      | cons head' tail' =>
          simp [orderLists, order_eq_iff head head', orderLists_eq_iff tail tail']

end

instance : DecidableEq Condition := fun first second =>
  decidable_of_iff _ (order_eq_iff first second)

/-- Insert a condition into ascending ones, unless it is among them. -/
def insert
    (operand : Condition) :
    List Condition → List Condition
  | [] => [operand]
  | head :: tail =>
      match order operand head with
      | .lt => operand :: head :: tail
      | .eq => head :: tail
      | .gt => head :: insert operand tail

/-- Insert several conditions into ascending ones. -/
def insertAll
    (operands : List Condition)
    (into : List Condition) :
    List Condition :=
  operands.foldl (fun joined operand => insert operand joined) into

/-- The highest precedence that a precedence condition allows. -/
def highest? : Condition → Option Int
  | .precedence highest => some highest
  | _ => none

/--
Join ascending operands with `wrap`, after `keep` has reduced their precedence conditions to one.
A single operand stands for itself.
-/
def combine
    (keep : Int → Int → Int)
    (wrap : List Condition → Condition)
    (operands : List Condition) :
    Condition :=
  let reduced :=
    match operands.filterMap highest? with
    | [] => operands
    | first :: others =>
        insert (.precedence (others.foldl keep first))
          (operands.filter fun operand => operand.highest?.isNone)
  match reduced with
  | [single] => single
  | several => wrap several

/-- The operands of a conjunction, or the condition itself. -/
def conjuncts : Condition → List Condition
  | .allOf operands => operands
  | condition => [condition]

/-- The operands of a disjunction, or the condition itself. -/
def disjuncts : Condition → List Condition
  | .anyOf operands => operands
  | condition => [condition]

/-- The condition that both given conditions hold: the lowest precedence bound decides. -/
def both : Condition → Condition → Condition
  | .always, second => second
  | first, .always => first
  | first, second =>
      combine min .allOf (insertAll second.conjuncts (insertAll first.conjuncts []))

/-- The condition that one of the given conditions holds: the highest precedence bound decides. -/
def either : Condition → Condition → Condition
  | .always, _ => .always
  | _, .always => .always
  | first, second =>
      combine max .anyOf (insertAll second.disjuncts (insertAll first.disjuncts []))

mutual

/-- Whether the condition holds at an invocation precedence. -/
def holdsAt
    (precedence : Int) :
    Condition → Bool
  | .always => true
  | .predicate .. => true
  | .precedence highest => decide (precedence ≤ highest)
  | .allOf operands => allHoldAt precedence operands
  | .anyOf operands => anyHoldsAt precedence operands

/-- Whether all conditions of a list hold. -/
def allHoldAt
    (precedence : Int) :
    List Condition → Bool
  | [] => true
  | operand :: operands => holdsAt precedence operand && allHoldAt precedence operands

/-- Whether a condition of a list holds. -/
def anyHoldsAt
    (precedence : Int) :
    List Condition → Bool
  | [] => false
  | operand :: operands => holdsAt precedence operand || anyHoldsAt precedence operands

end

/-- The disjunction of some conditions, or none when there are no conditions. -/
def eitherOf? : List Condition → Option Condition
  | [] => none
  | first :: others => some (others.foldl either first)

mutual

/--
What is left of the condition once its precedence conditions are settled at an invocation
precedence, or nothing when it cannot hold any more.
-/
def settleAt?
    (precedence : Int) :
    Condition → Option Condition
  | .always => some .always
  | .predicate rule index dependent => some (.predicate rule index dependent)
  | .precedence highest => if precedence ≤ highest then some .always else none
  | .allOf operands =>
      match settleAllAt? precedence operands with
      | none => none
      | some settled =>
          if settled = operands then
            some (.allOf operands)
          else
            some ((settled.filter (· ≠ .always)).foldl both .always)
  | .anyOf operands =>
      let settled := settleEachAt precedence operands
      if .always ∈ settled then
        some .always
      else if settled = operands then
        some (.anyOf operands)
      else
        eitherOf? settled

/-- Settle all conditions of a list, none of which may fail. -/
def settleAllAt?
    (precedence : Int) :
    List Condition → Option (List Condition)
  | [] => some []
  | operand :: operands =>
      match settleAt? precedence operand, settleAllAt? precedence operands with
      | some settled, some rest => some (settled :: rest)
      | _, _ => none

/-- Settle the conditions of a list and drop those that fail. -/
def settleEachAt
    (precedence : Int) :
    List Condition → List Condition
  | [] => []
  | operand :: operands =>
      match settleAt? precedence operand with
      | some settled => settled :: settleEachAt precedence operands
      | none => settleEachAt precedence operands

end

mutual

/-- The condition in words. -/
def render : Condition → String
  | .always => "\x7btrue\x7d?"
  | .predicate rule index dependent =>
      "\x7b" ++ toString rule ++ ":" ++ toString index ++ "\x7d?" ++
        (if dependent then "@" else "")
  | .precedence highest => "\x7b" ++ toString highest ++ ">=prec\x7d?"
  | .allOf operands => String.intercalate "&&" (renderEach operands)
  | .anyOf operands => String.intercalate "||" (renderEach operands)

/-- The conditions of a list in words. -/
def renderEach : List Condition → List String
  | [] => []
  | operand :: operands => operand.render :: renderEach operands

end

end Condition

end GrammarService
