/-
Operands: what has been read of an expression before it is known how it goes
on.

A name may still become a variable, a call with arguments or a call with a
block, so nodes are made as late as possible.
-/

import RubySyntax.Tree.Arena

namespace RubySyntax

inductive CommandRule where
  | accepted
  /-- It is read, and reported as an error. -/
  | reported
deriving DecidableEq, Repr, Inhabited

inductive ConstantOwner where
  | lexical
  | top
  | under (owner : NodeId)
deriving DecidableEq, Repr, Inhabited

inductive Callee where
  | function (name : Symbol)
  /-- `safe` marks `receiver&.name`. -/
  | method (receiver : NodeId) (name : Symbol) (safe : Bool)
  | superMethod
  | yielded
deriving DecidableEq, Repr, Inhabited

structure Arguments where
  items : List NodeId := []
  block : Option NodeId := none
  span : Span := Span.dummy
deriving DecidableEq, Repr, Inhabited

inductive Operand where
  | node (id : NodeId)
  /-- A name, and whether it was a local variable when it was read. -/
  | identifier (span : Span) (known : Bool) (name : Symbol)
  | constant (span : Span) (owner : ConstantOwner) (name : Symbol)
  | bareCall (span : Span) (callee : Callee)
  /-- A call with arguments in parentheses that has no block yet. -/
  | fullCall (span : Span) (callee : Callee) (arguments : Arguments)
deriving DecidableEq, Repr, Inhabited

namespace Operand

def takesArguments : Operand → Bool
  | .identifier .. => true
  | .constant .. => true
  | .bareCall .. => true
  | _ => false

def takesBlock : Operand → Bool
  | .node _ => false
  | .identifier .. => true
  | .constant .. => true
  | .bareCall _ callee => callee != .yielded
  | .fullCall _ callee _ => callee != .yielded

end Operand

end RubySyntax
