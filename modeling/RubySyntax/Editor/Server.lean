/-
A language server: it keeps the texts that an editor has open, reports their
problems, and tells what stands at a place. What names a document is up to the
editor; names are only compared.
-/

import RubySyntax.Editor.LineIndex
import RubySyntax.Program

namespace RubySyntax

structure TextRange where
  start : TextPosition
  stop : TextPosition
deriving DecidableEq, Repr, Inhabited

structure TextChange where
  text : String
  range : Option TextRange := none
deriving DecidableEq, Repr, Inhabited

inductive EditorMessage (Name : Type) where
  | opened (name : Name) (text : String)
  | changed (name : Name) (changes : List TextChange)
  | closed (name : Name)
  | hover (name : Name) (position : TextPosition)
  | shutdown
  /-- A message that the server does not know or cannot read. -/
  | unknown
deriving DecidableEq, Repr, Inhabited

structure Notice where
  range : TextRange
  severity : Severity
  message : String
deriving DecidableEq, Repr, Inhabited

structure Hover where
  contents : String
  range : TextRange
deriving DecidableEq, Repr, Inhabited

inductive EditorReply (Name : Type) where
  | notices (name : Name) (list : List Notice)
  | hover (found : Option Hover)
  /-- The answer to `shutdown`, after which the server stops. -/
  | stopping
deriving DecidableEq, Repr, Inhabited

def parseDocument (text : String) : Parsed :=
  parse (Utf8.ofText text) { mode := .capture 100 100 } {}

def Notice.ofDiagnostic (index : LineIndex) (diagnostic : Diagnostic) : Notice :=
  let span := diagnostic.span
  { range :=
      { start := index.position span.start
        stop := index.position (max span.stop span.start) }
    severity := diagnostic.problem.severity
    message := diagnostic.problem.message }

def noticesOf (text : String) : List Notice :=
  (parseDocument text).report.captured.toList.map (Notice.ofDiagnostic (.ofText text))

def nodeUnder? (text : String) (position : TextPosition) : Option (NodeId × Node) := do
  let parsed := parseDocument text
  let offset ← (LineIndex.ofText text).offset? position
  let id ← parsed.nodeAt? offset
  let node ← parsed.arena.get? id
  return (id, node)

def hoverAt (text : String) (position : TextPosition) : Except DumpError (Option Hover) :=
  match nodeUnder? text position with
  | none => .ok none
  | some (id, node) => do
      let index := LineIndex.ofText text
      let contents ← (parseDocument text).dumpAt id
      return some
        { contents
          range :=
            { start := index.position node.span.start
              stop := index.position node.span.stop } }

structure Server (Name : Type) where
  documents : List (Name × String) := []
deriving DecidableEq, Repr, Inhabited

namespace Server

variable {Name : Type} [DecidableEq Name]

def get? (server : Server Name) (name : Name) : Option String :=
  server.documents.lookup name

def close (server : Server Name) (name : Name) : Server Name :=
  { server with documents := server.documents.filter fun entry => entry.1 != name }

def put (server : Server Name) (name : Name) (text : String) : Server Name :=
  { server with documents := (name, text) :: (server.close name).documents }

def hover (server : Server Name) (name : Name) (position : TextPosition) :
    Except DumpError (Option Hover) :=
  match server.get? name with
  | none => .ok none
  | some text => hoverAt text position

/-- Takes a message and replies to it. Of several changes the last one counts,
and only if it replaces the whole text. The server is lost over a node that
cannot be written out. -/
def handle (server : Server Name) :
    EditorMessage Name → Except DumpError (Server Name × List (EditorReply Name))
  | .opened name text => .ok (server.put name text, [.notices name (noticesOf text)])
  | .changed name changes =>
      match changes.getLast? with
      | some { text, range := none } =>
          .ok (server.put name text, [.notices name (noticesOf text)])
      | _ => .ok (server, [])
  | .closed name => .ok (server.close name, [])
  | .hover name position => do
      let found ← server.hover name position
      return (server, [.hover found])
  | .shutdown => .ok (server, [.stopping])
  | .unknown => .ok (server, [])

/-- The replies to a sequence of messages, one list for each message up to the
one that stops the server or over which it is lost. -/
def replies (server : Server Name) :
    List (EditorMessage Name) → List (Except DumpError (List (EditorReply Name)))
  | [] => []
  | message :: messages =>
      match server.handle message with
      | .error error => [.error error]
      | .ok (next, answers) =>
          if message = .shutdown then [.ok answers] else .ok answers :: next.replies messages

end Server

end RubySyntax
