/-
Literals between delimiters, word lists and the bodies of heredocs.

A literal whose text is known becomes a plain node; one with interpolations
becomes a list of texts and code. Plain strings next to each other are joined.
-/

import RubySyntax.Grammar.Call

namespace RubySyntax

inductive Part where
  /-- `lineHead` marks text that starts a line of a heredoc. -/
  | text (bytes : Bytes) (span : Span) (lineHead : Bool)
  | code (node : NodeId)
deriving DecidableEq, Repr, Inhabited

namespace Part

/-- Adds a piece to pieces in reverse order: empty texts are dropped, and a
text after a text is joined to it. -/
def join (joined : List Part) (part : Part) : List Part :=
  match part, joined with
  | .text [] _ _, joined => joined
  | .text more moreSpan _, .text bytes span lineHead :: rest =>
      .text (bytes ++ more) (span.hull moreSpan) lineHead :: rest
  | part, joined => part :: joined

def joinAll (parts : List Part) : List Part :=
  (parts.foldl join []).reverse

def indent? : Part → Option Nat
  | .text bytes _ true => Heredoc.indent? bytes
  | _ => none

def strip (width : Nat) : Part → Part
  | .text bytes span true => .text (Heredoc.strip width bytes) span true
  | part => part

/-- The pieces without the indentation that all their lines share. Blank lines
do not count. -/
def dedent (parts : List Part) : List Part :=
  match (parts.filterMap indent?).min? with
  | none => parts
  | some width => parts.map (strip width)

end Part

namespace Scan

def textShape (kind : LiteralKind) (bytes : Bytes) (flags : String) :
    Scan (Shape NodeId) :=
  match kind with
  | .string | .words => pure (.text .string bytes)
  | .shell => pure (.text .shell bytes)
  | .regexp => pure (.regexp bytes flags)
  | .symbol | .symbols => return .named .symbol (← intern bytes)

def partsShape (kind : LiteralKind) (parts : List NodeId) (flags : String) :
    Shape NodeId :=
  match kind with
  | .string | .words => .list .string parts
  | .shell => .list .shell parts
  | .regexp => .dynamicRegexp parts flags
  | .symbol | .symbols => .list .symbol parts

def partNode : Part → Scan NodeId
  | .text bytes span _ => alloc (.text .string bytes) span
  | .code node => pure node

def literalShape (kind : LiteralKind) (parts : List Part) (flags : String) :
    Scan (Shape NodeId) := do
  match Part.joinAll parts with
  | [] => textShape kind [] flags
  | [.text bytes _ _] => textShape kind bytes flags
  | parts => return partsShape kind (← parts.mapM partNode) flags

def stringParts (id : NodeId) : Scan (List NodeId) := do
  match ← shapeOf id with
  | .list .string parts =>
      recycle id
      return parts
  | _ => return [id]

def joinString (joined : List NodeId) (part : NodeId) : Scan (List NodeId) := do
  match joined with
  | [] => return [part]
  | last :: rest =>
      match ← shapeOf last, ← shapeOf part with
      | .text .string bytes, .text .string more =>
          let span ← spanOf part
          recycle part
          setShape last (.text .string (bytes ++ more))
          widen last span
          return last :: rest
      | _, _ => return part :: last :: rest

def joinStrings (left right : NodeId) : Scan NodeId := do
  let span ← spanOfBoth left right
  let leftParts ← stringParts left
  let rightParts ← stringParts right
  let joined ← (leftParts ++ rightParts).foldlM joinString []
  let dynamic : Scan NodeId := alloc (.list .string joined.reverse) span
  match joined with
  | [only] =>
      match ← shapeOf only with
      | .text .string _ =>
          modifyNode only fun node => { node with span }
          return only
      | _ => dynamic
  | _ => dynamic

end Scan

namespace Parse

def wordShape? (word : Keyword) (span : Span) : Parse (Option (Shape NodeId)) := do
  match word with
  | .nilWord => return some (.leaf .nilValue)
  | .trueWord => return some (.leaf .trueValue)
  | .falseWord => return some (.leaf .falseValue)
  | .selfWord => return some (.leaf .selfValue)
  | .redoWord => return some (.leaf .redo)
  | .retryWord => return some (.leaf .retry)
  | .fileWord =>
      let map := (← get).report.map
      let name := map.fileName (map.locate span.start).file
      return some (.text .string (Utf8.ofText name))
  | .lineWord => return some (.integer ((← get).report.map.lineOf span.start))
  | .encodingWord =>
      return some (.functionCall (← Scan.intern (ascii "__ENCODING__")) [] none)
  | _ => return none

def atomShape? (token : Token) : Parse (Option (Shape NodeId)) := do
  match token.kind with
  | .integer value => return some (.integer value)
  | .float value => return some (.float value)
  | .character bytes => return some (.text .string bytes)
  | .symbol name => return some (.named .symbol name)
  | .instanceVariable name => return some (.named .instanceVariable name)
  | .classVariable name => return some (.named .classVariable name)
  | .globalVariable name => return some (.named .globalVariable name)
  | .numberedReference number => return some (.numberedReference number)
  | .backReference byte => return some (.backReference byte)
  | .keyword word => wordShape? word token.span
  | _ => return none

def variableNode : Parse NodeId := do
  let token ← peekToken
  match ← atomShape? token with
  | some shape =>
      skip
      Scan.alloc shape token.span
  | none => throw (.fault .noVariable)

def interpolatedCode : Parse NodeId := do
  let opening ← take
  let body ← descend .statements
  let close ← expect .interpolationEnd
  Scan.alloc (.optional .group body) (opening.span.hull close)

def partTurn (parts : Array Part) : Parse (Turn (Array Part) (Array Part)) := do
  let token ← peekToken
  match token.kind with
  | .content bytes lineHead =>
      skip
      return .again (parts.push (.text bytes token.span lineHead))
  | .interpolationBegin => return .again (parts.push (.code (← interpolatedCode)))
  | .variableInterpolation =>
      skip
      return .again (parts.push (.code (← variableNode)))
  | _ => return .done parts

def literalParts : Parse (List Part) := do
  return (← repeatUntil #[] partTurn).toList

/-- A literal whose opener has been taken. With a colon after its closing
quote it is a label, whose key waits to be taken. -/
def quoted (opening : Span) (kind : LiteralKind) : Parse NodeId := do
  let parts ← literalParts
  let token ← peekToken
  let span := opening.hull token.span
  match token.kind with
  | .literalEnd flags =>
      skip
      Scan.alloc (← Scan.literalShape kind parts (Utf8.read flags)) span
  | .labelEnd =>
      skip
      let key ← Scan.alloc (← Scan.literalShape .symbol parts "") span
      modify fun state => { state with quotedKey := some key }
      return key
  | _ =>
      Scan.unexpected token (some "string end")
      Scan.alloc (← Scan.literalShape kind parts "") span

def wordTurn (element : LiteralKind) (items : Array NodeId) :
    Parse (Turn (Array NodeId) (Array NodeId × Span)) := do
  let token ← peekToken
  match token.kind with
  | .wordSeparator =>
      skip
      return .again items
  | .literalEnd _ =>
      skip
      return .done (items, token.span)
  | .content .. | .interpolationBegin | .variableInterpolation =>
      let shape ← Scan.literalShape element (← literalParts) ""
      return .again (items.push (← Scan.alloc shape (← spanSince token.span.start)))
  | _ =>
      Scan.unexpected token (some "string end")
      return .done (items, token.span)

def words (element : LiteralKind) : Parse (List NodeId × Span) := do
  let (items, close) ← repeatUntil #[] (wordTurn element)
  return (items.toList, close)

def stringTurn (node : NodeId) : Parse (Turn NodeId NodeId) := do
  if (← get).quotedKey.isSome then return .done node
  let token ← peekToken
  if token.kind != .literalBegin .string then return .done node
  skip
  let next ← quoted token.span .string
  match ← Scan.takeQuotedKey? with
  | some label =>
      Scan.report (← Scan.spanOf label) .unexpectedLabel
      return .again node
  | none => return .again (← Scan.joinStrings node next)

def moreStrings (first : NodeId) : Parse NodeId :=
  repeatUntil first stringTurn

def literal (kind : LiteralKind) : Parse NodeId := do
  let opening := (← take).span
  match kind with
  | .words =>
      let (items, close) ← words .string
      Scan.alloc (.list .words items) (opening.hull close)
  | .symbols =>
      let (items, close) ← words .symbol
      Scan.alloc (.list .symbols items) (opening.hull close)
  | .string => moreStrings (← quoted opening .string)
  | kind => quoted opening kind

def heredoc : Parse NodeId := do
  let opening ← take
  let node ← Scan.alloc (.text .string []) opening.span
  Scan.awaitBody node
  return node

def heredocBody (pending : PendingHeredoc) : Parse Unit := do
  let read ← literalParts
  let isEnd : TokenKind → Bool
    | .literalEnd _ => true
    | _ => false
  let _ ← expectWhere isEnd "heredoc terminator"
  let parts := if pending.heredoc.dedented then Part.dedent read else read
  match pending.node with
  | some node => Scan.setShape node (← Scan.literalShape pending.heredoc.kind parts "")
  | none => pure ()

def heredocTurn : Parse (Turn Unit Unit) := do
  match ← Scan.nextHeredoc? with
  | none => return .done ()
  | some pending =>
      heredocBody pending
      return .again ()

/-- The bodies of the heredocs that were opened on the line just read. They
leave no trace in the tokens around them. -/
def heredocBodies : Parse Unit := do
  Scan.beginHeredocBodies
  let previousStop := (← get).previousStop
  let quotedKey ← Scan.takeQuotedKey?
  repeatUntil () fun _ => heredocTurn
  modify fun state => { state with previousStop, quotedKey }

end Parse

end RubySyntax
