/-
The kinds of syntax nodes.

A shape is one node with its children left abstract: children are slot numbers
in an arena, texts while a tree is written out, or whatever else a walk over
the tree produces. Kinds with the same children and payload share one
constructor and are told apart by a form.

Main definitions: `Shape`, its `tag`, its `children` in written order, and
`Shape.mapM`, which replaces the children in that order.
-/

import RubySyntax.Number.Binary64
import RubySyntax.Symbol

namespace RubySyntax

inductive LeafForm where
  | redo
  | retry
  | nilValue
  | trueValue
  | falseValue
  | selfValue
  /-- The placeholder left where an error was reported. -/
  | error
deriving DecidableEq, Repr, Inhabited

inductive NameForm where
  | localVariable
  | instanceVariable
  | globalVariable
  | classVariable
  | constant
  | topConstant
  | symbol
  | parameter
  | blockParameter
deriving DecidableEq, Repr, Inhabited

inductive RestForm where
  | positional
  | keyword
deriving DecidableEq, Repr, Inhabited

inductive ListForm where
  | statements
  | yield
  | array
  | string
  | shell
  | symbol
  | words
  | symbols
deriving DecidableEq, Repr, Inhabited

inductive OptionalForm where
  /-- `begin ... end` and `( ... )` without handlers. -/
  | group
  | returnJump
  | breakJump
  | nextJump
  | splat
deriving DecidableEq, Repr, Inhabited

inductive UnaryForm where
  | negation
  | defined
  | lineMatch
  | doubleSplat
  | blockPass
  | atStart
  | atExit
deriving DecidableEq, Repr, Inhabited

inductive BinaryForm where
  | and
  | or
  | range
  | openRange
  | flipFlop
  | openFlipFlop
  | multipleAssign
  | assign
deriving DecidableEq, Repr, Inhabited

inductive TextForm where
  | string
  | shell
deriving DecidableEq, Repr, Inhabited

inductive LoopForm where
  | whileTrue
  | untilTrue
deriving DecidableEq, Repr, Inhabited

inductive ClosureForm where
  | block
  | lambda
deriving DecidableEq, Repr, Inhabited

inductive OpeningForm where
  | singletonClass
  | module
deriving DecidableEq, Repr, Inhabited

inductive AliasForm where
  | method
  | globalVariable
deriving DecidableEq, Repr, Inhabited

inductive HashEntry (α : Type) where
  | pair (key value : α)
  | doubleSplat (value : α)
deriving DecidableEq, Repr

structure Parameters (α : Type) where
  required : List α := []
  optional : List α := []
  rest : Option α := none
  post : List α := []
  keywords : List α := []
  keywordRest : Option α := none
  block : Option α := none
deriving DecidableEq, Repr

/-- One syntax node over children of type `α`. -/
inductive Shape (α : Type) where
  /-- A scope of local variables: the program, or the body of a definition, a
  block or a lambda. -/
  | scope (locals : List Symbol) (body : Option α)
  | list (form : ListForm) (items : List α)
  | optional (form : OptionalForm) (item : Option α)
  | rescue (body : Option α) (clauses : List α) (otherwise : Option α)
  | rescueClause (exceptions : List α) (target : Option α) (body : Option α)
  | ensure (body cleanup : Option α)
  /-- `if`, `unless` with its branches swapped, `?:` and the modifiers. -/
  | conditional (condition : α) (whenTrue whenFalse : Option α)
  /-- `bodyFirst` marks `begin ... end while`. -/
  | loop (form : LoopForm) (condition : α) (body : Option α) (bodyFirst : Bool)
  | forLoop (target iterated : α) (body : Option α)
  | caseOf (subject : Option α) (clauses : List α) (otherwise : Option α)
  | whenClause (conditions : List α) (body : Option α)
  | unary (form : UnaryForm) (operand : α)
  | binary (form : BinaryForm) (left right : α)
  /-- The targets of a multiple assignment, split at the splat. -/
  | targets (before : List α) (rest : Option α) (after : List α)
  | operatorAssign (target : α) (operator : Symbol) (value : α)
  /-- `safe` marks `receiver&.name`. -/
  | call (safe : Bool) (receiver : α) (name : Symbol) (arguments : List α)
      (block : Option α)
  | functionCall (name : Symbol) (arguments : List α) (block : Option α)
  | superCall (arguments : List α) (block : Option α)
  /-- `super` without arguments and parentheses. -/
  | bareSuper (block : Option α)
  | hash (entries : List (HashEntry α))
  | named (form : NameForm) (name : Symbol)
  | restParameter (form : RestForm) (name : Option Symbol)
  | scopedConstant (owner : α) (name : Symbol)
  | numberedReference (number : Nat)
  | backReference (byte : Byte)
  | leaf (form : LeafForm)
  | integer (value : Int)
  | float (value : Binary64)
  | text (form : TextForm) (bytes : Bytes)
  | regexp (source : Bytes) (flags : String)
  | dynamicRegexp (parts : List α) (flags : String)
  | formals (list : Parameters α)
  | optionalParameter (name : Symbol) (default : α)
  | keywordParameter (name : Symbol) (default : Option α)
  | closure (form : ClosureForm) (parameters : Option α) (body : α)
  | method (name : Symbol) (parameters : Option α) (body : α)
  | singletonMethod (receiver : α) (name : Symbol) (parameters : Option α) (body : α)
  | classDefinition (path : α) (superclass : Option α) (body : α)
  | opening (form : OpeningForm) (target body : α)
  | alias (form : AliasForm) (newName oldName : Symbol)
  | undef (names : List Symbol)
deriving DecidableEq, Repr

instance {α : Type} : Inhabited (Shape α) := ⟨.leaf .error⟩

def LeafForm.tag : LeafForm → String
  | .redo => "redo"
  | .retry => "retry"
  | .nilValue => "nil"
  | .trueValue => "true"
  | .falseValue => "false"
  | .selfValue => "self"
  | .error => "error"

def NameForm.tag : NameForm → String
  | .localVariable => "lvar"
  | .instanceVariable => "ivar"
  | .globalVariable => "gvar"
  | .classVariable => "cvar"
  | .constant => "const"
  | .topConstant => "colon3"
  | .symbol => "sym"
  | .parameter => "arg"
  | .blockParameter => "blockarg"

def RestForm.tag : RestForm → String
  | .positional => "restarg"
  | .keyword => "kwrest"

def ListForm.tag : ListForm → String
  | .statements => "stmts"
  | .yield => "yield"
  | .array => "array"
  | .string => "dstr"
  | .shell => "dxstr"
  | .symbol => "dsym"
  | .words => "words"
  | .symbols => "symbols"

def OptionalForm.tag : OptionalForm → String
  | .group => "begin"
  | .returnJump => "return"
  | .breakJump => "break"
  | .nextJump => "next"
  | .splat => "splat"

def UnaryForm.tag : UnaryForm → String
  | .negation => "not"
  | .defined => "defined"
  | .lineMatch => "match"
  | .doubleSplat => "dsplat"
  | .blockPass => "block-pass"
  | .atStart => "preexe"
  | .atExit => "postexe"

def BinaryForm.tag : BinaryForm → String
  | .and => "and"
  | .or => "or"
  | .range => "dot2"
  | .openRange => "dot3"
  | .flipFlop => "flip2"
  | .openFlipFlop => "flip3"
  | .multipleAssign => "masgn"
  | .assign => "asgn"

def TextForm.tag : TextForm → String
  | .string => "str"
  | .shell => "xstr"

def LoopForm.tag : LoopForm → String
  | .whileTrue => "while"
  | .untilTrue => "until"

def ClosureForm.tag : ClosureForm → String
  | .block => "iter"
  | .lambda => "lambda"

def OpeningForm.tag : OpeningForm → String
  | .singletonClass => "sclass"
  | .module => "module"

def AliasForm.tag : AliasForm → String
  | .method => "alias"
  | .globalVariable => "galias"

namespace HashEntry

def children {α : Type} : HashEntry α → List α
  | .pair key value => [key, value]
  | .doubleSplat value => [value]

def mapM {m : Type → Type} [Monad m] {α β : Type} (f : α → m β) :
    HashEntry α → m (HashEntry β)
  | .pair key value => do
      let key ← f key
      let value ← f value
      return .pair key value
  | .doubleSplat value => return .doubleSplat (← f value)

end HashEntry

namespace Parameters

def isEmpty {α : Type} (list : Parameters α) : Bool :=
  list.required.isEmpty && list.optional.isEmpty && list.rest.isNone &&
    list.post.isEmpty && list.keywords.isEmpty && list.keywordRest.isNone &&
    list.block.isNone

def children {α : Type} (list : Parameters α) : List α :=
  list.required ++ list.optional ++ list.rest.toList ++ list.post ++
    list.keywords ++ list.keywordRest.toList ++ list.block.toList

def mapM {m : Type → Type} [Monad m] {α β : Type} (f : α → m β)
    (list : Parameters α) : m (Parameters β) := do
  let required ← list.required.mapM f
  let optional ← list.optional.mapM f
  let rest ← list.rest.mapM f
  let post ← list.post.mapM f
  let keywords ← list.keywords.mapM f
  let keywordRest ← list.keywordRest.mapM f
  let block ← list.block.mapM f
  return { required, optional, rest, post, keywords, keywordRest, block }

end Parameters

namespace Shape

def tag {α : Type} : Shape α → String
  | .scope .. => "scope"
  | .list form _ => form.tag
  | .optional form _ => form.tag
  | .rescue .. => "rescue"
  | .rescueClause .. => "resbody"
  | .ensure .. => "ensure"
  | .conditional .. => "if"
  | .loop form .. => form.tag
  | .forLoop .. => "for"
  | .caseOf .. => "case"
  | .whenClause .. => "when"
  | .unary form _ => form.tag
  | .binary form .. => form.tag
  | .targets .. => "mlhs"
  | .operatorAssign .. => "op-asgn"
  | .call safe .. => if safe then "csend" else "call"
  | .functionCall .. => "fcall"
  | .superCall .. => "super"
  | .bareSuper _ => "zsuper"
  | .hash _ => "hash"
  | .named form _ => form.tag
  | .restParameter form _ => form.tag
  | .scopedConstant .. => "colon2"
  | .numberedReference _ => "nth-ref"
  | .backReference _ => "back-ref"
  | .leaf form => form.tag
  | .integer _ => "int"
  | .float _ => "float"
  | .text form _ => form.tag
  | .regexp .. => "regx"
  | .dynamicRegexp .. => "dregx"
  | .formals _ => "args"
  | .optionalParameter .. => "optarg"
  | .keywordParameter .. => "kwarg"
  | .closure form .. => form.tag
  | .method .. => "def"
  | .singletonMethod .. => "sdef"
  | .classDefinition .. => "class"
  | .opening form .. => form.tag
  | .alias form .. => form.tag
  | .undef _ => "undef"

def isVoid {α : Type} : Shape α → Bool
  | .optional .returnJump _ => true
  | .optional .breakJump _ => true
  | .optional .nextJump _ => true
  | .leaf .redo => true
  | .leaf .retry => true
  | _ => false

def children {α : Type} : Shape α → List α
  | .scope _ body => body.toList
  | .list _ items => items
  | .optional _ item => item.toList
  | .rescue body clauses otherwise => body.toList ++ clauses ++ otherwise.toList
  | .rescueClause exceptions target body =>
      exceptions ++ target.toList ++ body.toList
  | .ensure body cleanup => body.toList ++ cleanup.toList
  | .conditional condition whenTrue whenFalse =>
      condition :: whenTrue.toList ++ whenFalse.toList
  | .loop _ condition body _ => condition :: body.toList
  | .forLoop target iterated body => target :: iterated :: body.toList
  | .caseOf subject clauses otherwise =>
      subject.toList ++ clauses ++ otherwise.toList
  | .whenClause conditions body => conditions ++ body.toList
  | .unary _ operand => [operand]
  | .binary _ left right => [left, right]
  | .targets before rest after => before ++ rest.toList ++ after
  | .operatorAssign target _ value => [target, value]
  | .call _ receiver _ arguments block => receiver :: arguments ++ block.toList
  | .functionCall _ arguments block => arguments ++ block.toList
  | .superCall arguments block => arguments ++ block.toList
  | .bareSuper block => block.toList
  | .hash entries => entries.flatMap HashEntry.children
  | .named .. => []
  | .restParameter .. => []
  | .scopedConstant owner _ => [owner]
  | .numberedReference _ => []
  | .backReference _ => []
  | .leaf _ => []
  | .integer _ => []
  | .float _ => []
  | .text .. => []
  | .regexp .. => []
  | .dynamicRegexp parts _ => parts
  | .formals group => group.children
  | .optionalParameter _ default => [default]
  | .keywordParameter _ default => default.toList
  | .closure _ parameters body => parameters.toList ++ [body]
  | .method _ parameters body => parameters.toList ++ [body]
  | .singletonMethod receiver _ parameters body =>
      receiver :: parameters.toList ++ [body]
  | .classDefinition path superclass body => path :: superclass.toList ++ [body]
  | .opening _ target body => [target, body]
  | .alias .. => []
  | .undef _ => []

/-- Replaces the children, running the effects in the order of `children`. -/
def mapM {m : Type → Type} [Monad m] {α β : Type} (f : α → m β) :
    Shape α → m (Shape β)
  | .scope locals body => return .scope locals (← body.mapM f)
  | .list form items => return .list form (← items.mapM f)
  | .optional form item => return .optional form (← item.mapM f)
  | .rescue body clauses otherwise => do
      let body ← body.mapM f
      let clauses ← clauses.mapM f
      return .rescue body clauses (← otherwise.mapM f)
  | .rescueClause exceptions target body => do
      let exceptions ← exceptions.mapM f
      let target ← target.mapM f
      return .rescueClause exceptions target (← body.mapM f)
  | .ensure body cleanup => do
      let body ← body.mapM f
      return .ensure body (← cleanup.mapM f)
  | .conditional condition whenTrue whenFalse => do
      let condition ← f condition
      let whenTrue ← whenTrue.mapM f
      return .conditional condition whenTrue (← whenFalse.mapM f)
  | .loop form condition body bodyFirst => do
      let condition ← f condition
      return .loop form condition (← body.mapM f) bodyFirst
  | .forLoop target iterated body => do
      let target ← f target
      let iterated ← f iterated
      return .forLoop target iterated (← body.mapM f)
  | .caseOf subject clauses otherwise => do
      let subject ← subject.mapM f
      let clauses ← clauses.mapM f
      return .caseOf subject clauses (← otherwise.mapM f)
  | .whenClause conditions body => do
      let conditions ← conditions.mapM f
      return .whenClause conditions (← body.mapM f)
  | .unary form operand => return .unary form (← f operand)
  | .binary form left right => do
      let left ← f left
      return .binary form left (← f right)
  | .targets before rest after => do
      let before ← before.mapM f
      let rest ← rest.mapM f
      return .targets before rest (← after.mapM f)
  | .operatorAssign target operator value => do
      let target ← f target
      return .operatorAssign target operator (← f value)
  | .call safe receiver name arguments block => do
      let receiver ← f receiver
      let arguments ← arguments.mapM f
      return .call safe receiver name arguments (← block.mapM f)
  | .functionCall name arguments block => do
      let arguments ← arguments.mapM f
      return .functionCall name arguments (← block.mapM f)
  | .superCall arguments block => do
      let arguments ← arguments.mapM f
      return .superCall arguments (← block.mapM f)
  | .bareSuper block => return .bareSuper (← block.mapM f)
  | .hash entries => return .hash (← entries.mapM (HashEntry.mapM f))
  | .named form name => return .named form name
  | .restParameter form name => return .restParameter form name
  | .scopedConstant owner name => return .scopedConstant (← f owner) name
  | .numberedReference number => return .numberedReference number
  | .backReference byte => return .backReference byte
  | .leaf form => return .leaf form
  | .integer value => return .integer value
  | .float value => return .float value
  | .text form bytes => return .text form bytes
  | .regexp source flags => return .regexp source flags
  | .dynamicRegexp parts flags => return .dynamicRegexp (← parts.mapM f) flags
  | .formals group => return .formals (← group.mapM f)
  | .optionalParameter name default => return .optionalParameter name (← f default)
  | .keywordParameter name default =>
      return .keywordParameter name (← default.mapM f)
  | .closure form parameters body => do
      let parameters ← parameters.mapM f
      return .closure form parameters (← f body)
  | .method name parameters body => do
      let parameters ← parameters.mapM f
      return .method name parameters (← f body)
  | .singletonMethod receiver name parameters body => do
      let receiver ← f receiver
      let parameters ← parameters.mapM f
      return .singletonMethod receiver name parameters (← f body)
  | .classDefinition path superclass body => do
      let path ← f path
      let superclass ← superclass.mapM f
      return .classDefinition path superclass (← f body)
  | .opening form target body => do
      let target ← f target
      return .opening form target (← f body)
  | .alias form newName oldName => return .alias form newName oldName
  | .undef names => return .undef names

end Shape

end RubySyntax
