/-
The modes of the lexer: what the next token is expected to be.

Most characters that start several kinds of tokens are told apart by the mode
and by the blanks around them. The predicates here are all that the lexical
rules ask of a mode.
-/

namespace RubySyntax

inductive Mode where
  /-- An expression is expected: at the start of a statement, after most
  operators and after opening brackets. -/
  | begin
  | operandEnd
  /-- After the `)` of a parenthesised first argument of a command. -/
  | argumentEnd
  /-- After a method name in a definition, after `)` and after `->`. -/
  | nameEnd
  /-- After a name that may take arguments without parentheses. -/
  | argument
  /-- The same, for a name at the start of a statement. -/
  | command
  /-- An expression may follow, as after `return`. -/
  | middle
  /-- A method name is expected, as after `def`. -/
  | methodName
  | dot
  | className
  /-- An expression is expected, and labels are not accepted. -/
  | value
deriving DecidableEq, Repr, Inhabited

namespace Mode

def isBegin : Mode → Bool
  | .begin | .middle | .value | .className => true
  | _ => false

def isArgument : Mode → Bool
  | .argument | .command => true
  | _ => false

def isEnd : Mode → Bool
  | .operandEnd | .argumentEnd | .nameEnd => true
  | _ => false

def namesMethod : Mode → Bool
  | .methodName | .dot => true
  | _ => false

def foldsNewline : Mode → Bool
  | .begin | .methodName | .dot | .className | .value => true
  | _ => false

def prefersModifier : Mode → Bool
  | .begin | .value | .className => false
  | _ => true

/-- A mark that can stand before or between operands stands before one: at the
start of an expression, or as an argument with a blank before it and none
after it. -/
def prefersUnary (mode : Mode) (blankBefore blankAfter : Bool) : Bool :=
  mode.isBegin || (mode.isArgument && blankBefore && !blankAfter)

/-- That reading was chosen for the blanks alone. -/
def isAmbiguous (mode : Mode) (blankBefore blankAfter : Bool) : Bool :=
  !mode.isBegin && mode.prefersUnary blankBefore blankAfter

def allowsLabel (mode : Mode) (statementStart : Bool) : Bool :=
  (mode == .begin && !statementStart) || mode.isArgument

def allowsHeredoc (mode : Mode) (blankBefore : Bool) : Bool :=
  mode != .dot && mode != .className && !mode.isEnd &&
    (!mode.isArgument || blankBefore)

def afterOperator (mode : Mode) : Mode :=
  if mode.namesMethod then .argument else .begin

def afterCallName (statementStart : Bool) : Mode :=
  if statementStart then .command else .argument

end Mode

end RubySyntax
