/-
Numbers joined by operators, and the trees that they stand for.

The table of precedence gives each operator a level. A tree respects it if the
operator of an operand never binds less tightly than the one that it is an
operand of; where both bind alike, the left operand is read first, but for
powers the right one.
-/

import RubySyntax.Tree.Arena

namespace RubySyntax

inductive Operator where
  | power
  | times
  | divide
  | modulo
  | plus
  | minus
  | shiftLeft
  | shiftRight
  | bitAnd
  | bitOr
  | bitXor
  | greater
  | greaterEqual
  | less
  | lessEqual
  | compare
  | equal
  | caseEqual
  | notEqual
  | matches
  | notMatches
  | logicalAnd
  | logicalOr
  | andWord
  | orWord
deriving DecidableEq, Repr, Inhabited

namespace Operator

def spelling : Operator → String
  | .power => "**"
  | .times => "*"
  | .divide => "/"
  | .modulo => "%"
  | .plus => "+"
  | .minus => "-"
  | .shiftLeft => "<<"
  | .shiftRight => ">>"
  | .bitAnd => "&"
  | .bitOr => "|"
  | .bitXor => "^"
  | .greater => ">"
  | .greaterEqual => ">="
  | .less => "<"
  | .lessEqual => "<="
  | .compare => "<=>"
  | .equal => "=="
  | .caseEqual => "==="
  | .notEqual => "!="
  | .matches => "=~"
  | .notMatches => "!~"
  | .logicalAnd => "&&"
  | .logicalOr => "||"
  | .andWord => "and"
  | .orWord => "or"

def written (operator : Operator) : Bytes :=
  ascii operator.spelling

/-- The table of precedence. The higher the level, the tighter an operator
binds. -/
def level : Operator → Nat
  | .power => 10
  | .times | .divide | .modulo => 9
  | .plus | .minus => 8
  | .shiftLeft | .shiftRight => 7
  | .bitAnd => 6
  | .bitOr | .bitXor => 5
  | .greater | .greaterEqual | .less | .lessEqual => 4
  | .compare | .equal | .caseEqual | .notEqual | .matches | .notMatches => 3
  | .logicalAnd => 2
  | .logicalOr => 1
  | .andWord | .orWord => 0

def IsEquality (operator : Operator) : Prop :=
  operator.level = equal.level

instance : DecidablePred IsEquality :=
  fun operator => inferInstanceAs (Decidable (operator.level = equal.level))

def AllowsLeft (outer inner : Operator) : Prop :=
  if outer = .power then outer.level < inner.level else outer.level ≤ inner.level

def AllowsRight (outer inner : Operator) : Prop :=
  if outer = .power then outer.level ≤ inner.level else outer.level < inner.level

def chains (operator : Operator) (left : Option Operator) : Nat :=
  if operator.IsEquality ∧ ∃ inner ∈ left, inner.IsEquality then 1 else 0

theorem level_lt_of_ne {operator : Operator} (different : operator ≠ .power) :
    operator.level < power.level := by
  revert different
  cases operator <;> decide

theorem eq_word_of_level_lt {operator : Operator} (low : operator.level < 1) :
    operator = .andWord ∨ operator = .orWord := by
  revert low
  cases operator <;> decide

def Shapes (operator : Operator) (symbols : SymbolTable) (left right : NodeId)
    (shape : Shape NodeId) : Prop :=
  match operator with
  | .logicalAnd | .andWord => shape = .binary .and left right
  | .logicalOr | .orWord => shape = .binary .or left right
  | operator => ∃ name, shape = .call false left name [right] none ∧
      name.index < symbols.size ∧ symbols.name name = operator.written

end Operator

inductive OperatorTree where
  | number (value : Nat)
  | apply (operator : Operator) (left right : OperatorTree)
deriving DecidableEq, Repr, Inhabited

namespace OperatorTree

def first : OperatorTree → Nat
  | .number value => value
  | .apply _ left _ => left.first

def rest : OperatorTree → List (Operator × Nat)
  | .number _ => []
  | .apply operator left right => left.rest ++ (operator, right.first) :: right.rest

def root? : OperatorTree → Option Operator
  | .number _ => none
  | .apply operator _ _ => some operator

/-- Every operator agrees with those at the roots of its operands. -/
def Ordered : OperatorTree → Prop
  | .number _ => True
  | .apply operator left right => left.Ordered ∧ right.Ordered ∧
      (∀ inner ∈ left.root?, operator.AllowsLeft inner) ∧
      ∀ inner ∈ right.root?, operator.AllowsRight inner

/-- How many comparisons for equality have another as their left operand. -/
def chained : OperatorTree → Nat
  | .number _ => 0
  | .apply operator left right =>
      left.chained + operator.chains left.root? + right.chained

end OperatorTree

def Arena.Holds (arena : Arena) (symbols : SymbolTable) : OperatorTree → NodeId → Prop
  | .number value, id => ∃ node, arena.get? id = some node ∧ node.shape = .integer value
  | .apply operator left right, id => ∃ node leftId rightId,
      arena.get? id = some node ∧ arena.Holds symbols left leftId ∧
        arena.Holds symbols right rightId ∧ operator.Shapes symbols leftId rightId node.shape

/-! ### Written expressions -/

def decimal (value : Nat) : Bytes :=
  ascii (toString value)

def operatorText (rest : List (Operator × Nat)) : Bytes :=
  rest.flatMap fun (operator, value) => 0x20 :: operator.written ++ 0x20 :: decimal value

def expressionText (first : Nat) (rest : List (Operator × Nat)) : Bytes :=
  decimal first ++ operatorText rest

end RubySyntax
