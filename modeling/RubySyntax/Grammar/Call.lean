/-
From operands to nodes: variables, constants and calls.
-/

import RubySyntax.Grammar.Basic

namespace RubySyntax

namespace Scan

def operandSpan : Operand → Scan Span
  | .node id => spanOf id
  | .identifier span .. => pure span
  | .constant span .. => pure span
  | .bareCall span _ => pure span
  | .fullCall span .. => pure span

/-- Stores a call. Without arguments, `super` passes on those of the method
around it. -/
def buildCall (callee : Callee) (arguments? : Option Arguments) (span : Span) :
    Scan NodeId := do
  let arguments := arguments?.getD {}
  match callee with
  | .function name => alloc (.functionCall name arguments.items arguments.block) span
  | .method receiver name safe =>
      alloc (.call safe receiver name arguments.items arguments.block) span
  | .superMethod =>
      if arguments?.isSome then alloc (.superCall arguments.items arguments.block) span
      else alloc (.bareSuper none) span
  | .yielded =>
      refuseBlock arguments.block
      alloc (.list .yield arguments.items) span

def constantShape (owner : ConstantOwner) (name : Symbol) : Shape NodeId :=
  match owner with
  | .lexical => .named .constant name
  | .top => .named .topConstant name
  | .under owner => .scopedConstant owner name

def nodeOf : Operand → Scan NodeId
  | .node id => pure id
  | .identifier span known name =>
      alloc (if known then .named .localVariable name else .functionCall name [] none) span
  | .constant span owner name => alloc (constantShape owner name) span
  | .bareCall span callee => buildCall callee none span
  | .fullCall span callee arguments => buildCall callee (some arguments) span

def calleeOf : Operand → Scan Callee
  | .identifier _ _ name => pure (.function name)
  | .constant _ (.under owner) name => pure (.method owner name false)
  | .constant _ _ name => pure (.function name)
  | .bareCall _ callee => pure callee
  | .fullCall _ callee _ => pure callee
  | .node id => do
      report (← spanOf id) .missingDot
      return .method id (← intern (ascii "call")) false

def callWith (operand : Operand) (arguments : Arguments) : Scan NodeId := do
  let span := (← operandSpan operand).hull arguments.span
  match operand with
  | .fullCall _ callee given =>
      buildCall callee
        (some { given with
          items := given.items ++ arguments.items
          block := given.block.or arguments.block })
        span
  | operand => buildCall (← calleeOf operand) (some arguments) span

def callOf (operand : Operand) : Scan NodeId :=
  match operand with
  | .identifier .. => callWith operand {}
  | .constant .. => callWith operand {}
  | operand => nodeOf operand

/-- The block of a call, present or absent; nothing if the node is no call
that takes a block. -/
def blockOf? : Shape NodeId → Option (Option NodeId)
  | .call _ _ _ _ block => some block
  | .functionCall _ _ block => some block
  | .superCall _ block => some block
  | .bareSuper block => some block
  | _ => none

def withBlock (block : NodeId) : Shape NodeId → Shape NodeId
  | .call safe receiver name arguments _ => .call safe receiver name arguments (some block)
  | .functionCall name arguments _ => .functionCall name arguments (some block)
  | .superCall arguments _ => .superCall arguments (some block)
  | .bareSuper _ => .bareSuper (some block)
  | shape => shape

def giveBlock (call block : NodeId) : Scan Unit := do
  let span ← spanOf block
  let shape ← shapeOf call
  match blockOf? shape with
  | some none => setShape call (withBlock block shape)
  | some (some _) => report span .twoBlocks
  | none => report span .blockForYield
  widen call span

def unaryCall (operand : NodeId) (name : String) (mark : Span) : Scan NodeId := do
  let name ← intern (ascii name)
  alloc (.call false operand name [] none) (mark.hull (← spanOf operand))

def binaryCall (left right : NodeId) (name : Symbol) (span : Span) : Scan NodeId :=
  alloc (.call false left name [right] none) span

/-- Makes a node a condition: a range becomes a flip-flop, a regexp is matched
against the line read last, and both also under `and` and `or`. -/
def conditionFrom : Nat → NodeId → Scan NodeId
  | 0, _ => throw .starved
  | depth + 1, id => do
      match ← shapeOf id with
      | .binary .range left right =>
          setShape id (.binary .flipFlop left right)
          return id
      | .binary .openRange left right =>
          setShape id (.binary .openFlipFlop left right)
          return id
      | .binary .and left right =>
          let left ← conditionFrom depth left
          let right ← conditionFrom depth right
          setShape id (.binary .and left right)
          return id
      | .binary .or left right =>
          let left ← conditionFrom depth left
          let right ← conditionFrom depth right
          setShape id (.binary .or left right)
          return id
      | .regexp .. | .dynamicRegexp .. => alloc (.unary .lineMatch id) (← spanOf id)
      | _ => return id

/-- Makes a node a condition. No tree is deeper than the arena has slots. -/
def condition (id : NodeId) : Scan NodeId := do
  conditionFrom ((← get).arena.slotCount + 1) id

end Scan

end RubySyntax
