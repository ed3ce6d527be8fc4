/-
Marks that are read from the mode, the blanks around them and the bytes that
follow.

A reading gives the whole length of the mark, what it is, the mode after it,
and a warning if it was chosen for the blanks alone.
-/

import RubySyntax.Lexer.Mode
import RubySyntax.Report.Problem

namespace RubySyntax

inductive OperatorKind where
  | mark (mark : Punct)
  | assign (operator : Punct)
  /-- A method name that is no other token. -/
  | method (name : String)
deriving DecidableEq, Repr, Inhabited

structure OperatorReading where
  kind : OperatorKind
  length : Nat
  mode : Mode
  /-- A warning, and how many bytes it covers. -/
  warning : Option (Problem × Nat) := none
deriving DecidableEq, Repr, Inhabited

namespace OperatorReading

def head (rest : Bytes) : Char :=
  (rest.headD 0).char

def plain (mark : Punct) (length : Nat) (mode : Mode) : OperatorReading :=
  { kind := .mark mark, length, mode }

def assigning (operator : Punct) : OperatorReading :=
  { kind := .assign operator, length := operator.spelling.length + 1, mode := .begin }

/-- A mark that reads as `unary` before an operand and as `binary` between
two. If only the blanks decide, a warning covers the mark. -/
def splatOr (unary binary : Punct) (mode : Mode) (blankBefore : Bool) (after : Bytes) :
    OperatorReading :=
  let blankAfter := (after.headD 0).isSpace
  let length := binary.spelling.length
  { kind := .mark (if mode.prefersUnary blankBefore blankAfter then unary else binary)
    length
    mode := mode.afterOperator
    warning :=
      if mode.isAmbiguous blankBefore blankAfter then some (.argumentMark binary, length)
      else none }

def star (mode : Mode) (blankBefore : Bool) (rest : Bytes) : OperatorReading :=
  if head rest == '*' then
    if head (rest.drop 1) == '=' then assigning .power
    else splatOr .splatPower .power mode blankBefore (rest.drop 1)
  else if head rest == '=' then assigning .star
  else splatOr .splatStar .star mode blankBefore rest

def bang (mode : Mode) (rest : Bytes) : OperatorReading :=
  if mode.namesMethod then
    if head rest == '@' then { kind := .method "!", length := 2, mode := .argument }
    else plain .bang 1 .argument
  else
    match head rest with
    | '=' => plain .notEqual 2 .begin
    | '~' => plain .notMatch 2 .begin
    | _ => plain .bang 1 .begin

def equals (mode : Mode) (rest : Bytes) : OperatorReading :=
  match head rest with
  | '=' =>
      if head (rest.drop 1) == '=' then plain .caseEqual 3 mode.afterOperator
      else plain .equal 2 mode.afterOperator
  | '~' => plain .matchOp 2 mode.afterOperator
  | '>' => plain .fatArrow 2 mode.afterOperator
  | _ => plain .assign 1 mode.afterOperator

def less (mode : Mode) (rest : Bytes) : OperatorReading :=
  match head rest with
  | '=' =>
      if head (rest.drop 1) == '>' then plain .compare 3 mode.afterOperator
      else plain .lessEqual 2 mode.afterOperator
  | '<' =>
      if head (rest.drop 1) == '=' then assigning .shiftLeft
      else plain .shiftLeft 2 mode.afterOperator
  | _ => plain .less 1 mode.afterOperator

def greater (mode : Mode) (rest : Bytes) : OperatorReading :=
  match head rest with
  | '=' => plain .greaterEqual 2 mode.afterOperator
  | '>' =>
      if head (rest.drop 1) == '=' then assigning .shiftRight
      else plain .shiftRight 2 mode.afterOperator
  | _ => plain .greater 1 mode.afterOperator

def ampersand (mode : Mode) (blankBefore : Bool) (rest : Bytes) : OperatorReading :=
  match head rest with
  | '&' =>
      if head (rest.drop 1) == '=' then assigning .logicalAnd
      else plain .logicalAnd 2 .begin
  | '=' => assigning .ampersand
  | '.' => plain .safeDot 2 .dot
  | _ => splatOr .blockAmpersand .ampersand mode blankBefore rest

/-- `|`, `||` and their assignments. Where block parameters can start, `||` is
two marks. -/
def bar (mode : Mode) (rest : Bytes) : OperatorReading :=
  match head rest with
  | '|' =>
      if mode == .begin then plain .bar 1 .begin
      else if head (rest.drop 1) == '=' then assigning .logicalOr
      else plain .logicalOr 2 .begin
  | '=' => assigning .bar
  | _ => plain .bar 1 mode.afterOperator

/-- A sign: a method name with `@`, an assignment, or an operator before or
between operands. The warning covers the sign alone. -/
def sign (unary binary : Punct) (method : String) (mode : Mode) (blankBefore : Bool)
    (rest : Bytes) : OperatorReading :=
  if mode.namesMethod then
    if head rest == '@' then { kind := .method method, length := 2, mode := .argument }
    else plain binary 1 .argument
  else if head rest == '=' then assigning binary
  else if mode.prefersUnary blankBefore (rest.headD 0).isSpace then
    { kind := .mark unary
      length := 1
      mode := .begin
      warning :=
        if mode.isAmbiguous blankBefore false then some (.ambiguousArgument, 1)
        else none }
  else plain binary 1 .begin

def plus (mode : Mode) (blankBefore : Bool) (rest : Bytes) : OperatorReading :=
  sign .unaryPlus .plus "+@" mode blankBefore rest

/-- `-` and its readings, among them `->`. Right before a digit the unary sign
belongs to the number. -/
def minus (mode : Mode) (blankBefore : Bool) (rest : Bytes) : OperatorReading :=
  if !mode.namesMethod && head rest == '>' then plain .arrow 2 .nameEnd
  else
    let unary := if (rest.headD 0).isDigit then .numberMinus else .unaryMinus
    sign unary .minus "-@" mode blankBefore rest

def dot (rest : Bytes) : OperatorReading :=
  if head rest == '.' then
    if head (rest.drop 1) == '.' then plain .dotDotDot 3 .begin
    else plain .dotDot 2 .begin
  else plain .dot 1 .dot

def simple (mark : Punct) (mode : Mode) (rest : Bytes) : OperatorReading :=
  if head rest == '=' then assigning mark else plain mark 1 mode.afterOperator

def tilde (mode : Mode) (rest : Bytes) : OperatorReading :=
  if mode.namesMethod then plain .tilde (if head rest == '@' then 2 else 1) .argument
  else plain .tilde 1 .begin

def colonColon (mode : Mode) (blankBefore : Bool) : OperatorReading :=
  if mode.isBegin || (mode.isArgument && blankBefore) then plain .topColonColon 2 .begin
  else plain .colonColon 2 .dot

end OperatorReading

end RubySyntax
