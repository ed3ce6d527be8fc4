/-
Formal parameters of methods, blocks and lambdas.
-/

import RubySyntax.Grammar.Argument

namespace RubySyntax

inductive ParametersEnd where
  | parenthesis
  /-- The bar of a block, or the semicolon before its own variables. -/
  | bar
  /-- The end of the line of a method without parentheses. -/
  | line
  | lambdaBody
deriving DecidableEq, Repr, Inhabited

namespace ParametersEnd

def isAt (stop : ParametersEnd) (kind : TokenKind) : Bool :=
  kind == .endOfInput ||
    match stop with
    | .parenthesis => kind == .punct .rightParen
    | .bar => kind == .punct .bar || kind == .semicolon
    | .line => kind.isTerminator
    | .lambdaBody => kind.isLeftBrace || kind.isDo

end ParametersEnd

inductive ParameterStage where
  | required
  | optional
  | rest
  | post
  | keyword
  | keywordRest
  | block
deriving DecidableEq, Repr, Inhabited

namespace ParameterStage

def rank : ParameterStage → Nat
  | .required => 0
  | .optional => 1
  | .rest => 2
  | .post => 3
  | .keyword => 4
  | .keywordRest => 5
  | .block => 6

def later (left right : ParameterStage) : ParameterStage :=
  if left.rank < right.rank then right else left

def mayFollow (next reached : ParameterStage) : Bool :=
  match next with
  | .required => reached == .required
  | .post => reached == .optional || reached == .rest || reached == .post
  | .optional => reached.rank ≤ next.rank
  | .keyword => reached.rank ≤ next.rank
  | .rest => reached.rank < next.rank
  | .keywordRest => reached.rank < next.rank
  | .block => reached.rank < next.rank

def plain (reached : ParameterStage) : ParameterStage :=
  if reached == .required then .required else .post

end ParameterStage

namespace Parameters

def add {α : Type} (list : Parameters α) (stage : ParameterStage) (item : α) :
    Parameters α :=
  match stage with
  | .required => { list with required := list.required ++ [item] }
  | .optional => { list with optional := list.optional ++ [item] }
  | .rest => { list with rest := some item }
  | .post => { list with post := list.post ++ [item] }
  | .keyword => { list with keywords := list.keywords ++ [item] }
  | .keywordRest => { list with keywordRest := some item }
  | .block => { list with block := some item }

end Parameters

namespace Parse

/-- Declares a parameter. A name may come twice only if it starts with an
underscore. -/
def declareParameter (name : Symbol) (span : Span) : Parse Unit := do
  if (← get).scopes.locals.contains name then
    if ((← Scan.nameOf name).head?.map Byte.char) != some '_' then
      Scan.report span .duplicateParameter
  Scan.declare name

def parameterName? : Parse (Option Symbol) := do
  let token ← peekToken
  match token.kind with
  | .identifier name =>
      skip
      declareParameter name token.span
      return some name
  | _ => return none

def restParameter (form : RestForm) : Parse NodeId := do
  let mark ← take
  let name ← parameterName?
  Scan.alloc (.restParameter form name) (← spanSince mark.span.start)

/-- The default of a parameter. Between bars it holds no operators, because a
bar would be one. -/
def defaultValue (stop : ParametersEnd) : Parse NodeId := do
  if stop = .bar then Scan.nodeOf (← descend .chain) else argumentValue

def namedParameter (stop : ParametersEnd) (reached : ParameterStage) (name : Symbol) :
    Parse (NodeId × ParameterStage) := do
  let token ← take
  declareParameter name token.span
  if ← accept (.punct .assign) then
    let default ← defaultValue stop
    let span := token.span.hull (← Scan.spanOf default)
    return (← Scan.alloc (.optionalParameter name default) span, .optional)
  else return (← Scan.alloc (.named .parameter name) token.span, reached.plain)

def keywordParameter (stop : ParametersEnd) (name : Symbol) : Parse NodeId := do
  let label ← take
  declareParameter name label.span
  let kind ← peekKind
  let default ←
    if kind = .punct .comma || stop.isAt kind then pure none
    else pure (some (← defaultValue stop))
  Scan.alloc (.keywordParameter name default) (← spanSince label.span.start)

def blockParameter : Parse NodeId := do
  let mark ← take
  let name ←
    match ← parameterName? with
    | some name => pure name
    | none =>
        Scan.unexpected (← peekToken) (some "block argument name")
        Scan.intern (ascii "&")
  Scan.alloc (.named .blockParameter name) (← spanSince mark.span.start)

structure PatternList where
  before : List NodeId := []
  rest : Option NodeId := none
  after : List NodeId := []

/-- One part of a parameter that is taken apart, and whether more can follow.
Of several splats the last one stays. -/
def patternItem (list : PatternList) : Parse (PatternList × Bool) := do
  let token ← peekToken
  let push (item : NodeId) : PatternList × Bool :=
    (if list.rest.isSome then { list with after := list.after ++ [item] }
      else { list with before := list.before ++ [item] }, true)
  match token.kind with
  | .identifier name =>
      skip
      declareParameter name token.span
      return push (← Scan.alloc (.named .parameter name) token.span)
  | .punct .leftParen | .punct .argumentParen | .punct .callParen =>
      return push (← deeper token.span.start (descend .pattern))
  | .punct .star | .punct .splatStar =>
      let splat ← restParameter .positional
      if list.rest.isSome then Scan.unexpected token none
      return ({ list with rest := some splat }, true)
  | _ =>
      Scan.unexpected token (some "parameter")
      return (list, false)

def patternTurn (list : PatternList) : Parse (Turn PatternList PatternList) := do
  let (list, more) ← patternItem list
  if !more then return .done list
  if ← accept (.punct .comma) then return .again list else return .done list

def pattern : Parse NodeId := do
  let opening ← take
  let list ← repeatUntil {} patternTurn
  let close ← expect (.punct .rightParen)
  Scan.alloc (.targets list.before list.rest list.after) (opening.span.hull close)

def parameter? (stop : ParametersEnd) (reached : ParameterStage) :
    Parse (Option (NodeId × ParameterStage)) := do
  match ← peekKind with
  | .identifier name => return some (← namedParameter stop reached name)
  | .label name => return some (← keywordParameter stop name, .keyword)
  | .punct .star | .punct .splatStar =>
      return some (← restParameter .positional, .rest)
  | .punct .power | .punct .splatPower =>
      return some (← restParameter .keyword, .keywordRest)
  | .punct .ampersand | .punct .blockAmpersand => return some (← blockParameter, .block)
  | .punct .leftParen | .punct .argumentParen | .punct .callParen =>
      return some (← pattern, reached.plain)
  | _ => return none

structure ParameterProgress where
  list : Parameters NodeId := {}
  reached : ParameterStage := .required

def addParameter (progress : ParameterProgress) (node : NodeId) (stage : ParameterStage) :
    Parse ParameterProgress := do
  if !stage.mayFollow progress.reached then
    Scan.report (← Scan.spanOf node) .unexpectedParameterOrder
  return { list := progress.list.add stage node, reached := progress.reached.later stage }

/-- What follows a parameter: the end of the list, or a comma. After a comma
the bar of a block stands for a rest without a name. -/
def afterParameter (stop : ParametersEnd) (progress : ParameterProgress) :
    Parse (Turn ParameterProgress (Parameters NodeId)) := do
  if !(← accept (.punct .comma)) then return .done progress.list
  if stop = .bar then
    if (← peekKind) = .punct .bar && progress.list.rest.isNone then
      let rest ← Scan.alloc (.restParameter .positional none) (Span.point (← get).previousStop)
      return .done { progress.list with rest := some rest }
  return .again progress

def parameterTurn (stop : ParametersEnd) (progress : ParameterProgress) :
    Parse (Turn ParameterProgress (Parameters NodeId)) := do
  if stop = .parenthesis then skipNewlines
  let token ← peekToken
  if stop.isAt token.kind then return .done progress.list
  match ← parameter? stop progress.reached with
  | none =>
      Scan.unexpected token none
      skip
      return .done progress.list
  | some (node, stage) => afterParameter stop (← addParameter progress node stage)

def parameters (stop : ParametersEnd) : Parse (Option NodeId) := do
  let start := (← peekToken).span.start
  let list ← repeatUntil {} (parameterTurn stop)
  if stop = .parenthesis then skipNewlines
  if list.isEmpty then return none
  else return some (← Scan.alloc (.formals list) (← spanSince start))

def parenthesizedParameters : Parse (Option NodeId) := do
  skip
  let list ← parameters .parenthesis
  let _ ← expect (.punct .rightParen)
  return list

def blockLocalTurn : Parse (Turn Unit Unit) := do
  let token ← peekToken
  match token.kind with
  | .identifier name =>
      skip
      declareParameter name token.span
      if ← accept (.punct .comma) then return .again () else return .done ()
  | _ =>
      Scan.unexpected token (some "local variable name")
      return .done ()

def blockLocals : Parse Unit :=
  repeatUntil () fun _ => blockLocalTurn

def blockParameters : Parse (Option NodeId) := do
  match ← peekKind with
  | .punct .logicalOr =>
      skip
      return none
  | .punct .bar =>
      skip
      let list ← parameters .bar
      if ← accept .semicolon then blockLocals
      let _ ← expect (.punct .bar)
      return list
  | _ => return none

end Parse

end RubySyntax
