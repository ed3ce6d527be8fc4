/-
Trees written as one-line expressions in brackets.

Each node is its tag followed by its parts. A child that is absent is written
as an underscore where its place must stay visible, and left out otherwise.
-/

import RubySyntax.Number.Shortest
import RubySyntax.Text.Quoted
import RubySyntax.Tree.Arena

namespace RubySyntax

inductive DumpError where
  | dangling (id : NodeId)
  /-- A path from the root is longer than the number of slots. -/
  | cyclic
deriving DecidableEq, Repr

namespace DumpError

def message : DumpError → String
  | .dangling id => "dangling node id NodeId(" ++ toString id.slot ++ ")"
  | .cyclic => "cyclic node"

end DumpError

namespace Shape

def spaced (parts : List String) : String :=
  String.join (parts.map fun part => " " ++ part)

def placed (part : Option String) : String :=
  " " ++ part.getD "_"

def bracketed (parts : List String) : String :=
  "[" ++ " ".intercalate parts ++ "]"

def quoted (bytes : Bytes) : String :=
  String.ofList (Quoted.encode bytes)

def flagText (flags : String) : String :=
  if flags.isEmpty then "" else " " ++ flags

def entryText : HashEntry String → String
  | .pair key value => " (pair " ++ key ++ " " ++ value ++ ")"
  | .doubleSplat value => " (dsplat " ++ value ++ ")"

def parts (names : Symbol → String) : Shape String → String
  | .scope locals body => " " ++ bracketed (locals.map names) ++ spaced body.toList
  | .list _ items => spaced items
  | .optional _ item => spaced item.toList
  | .rescue body clauses otherwise =>
      placed body ++ spaced clauses ++ placed otherwise
  | .rescueClause exceptions target body =>
      " " ++ bracketed exceptions ++ placed target ++ placed body
  | .ensure body cleanup => placed body ++ placed cleanup
  | .conditional condition whenTrue whenFalse =>
      spaced [condition] ++ placed whenTrue ++ placed whenFalse
  | .loop _ condition body bodyFirst =>
      (if bodyFirst then "-post" else "") ++ spaced [condition] ++ placed body
  | .forLoop target iterated body => spaced [target, iterated] ++ placed body
  | .caseOf subject clauses otherwise =>
      placed subject ++ spaced clauses ++ placed otherwise
  | .whenClause conditions body => spaced conditions ++ placed body
  | .unary _ operand => spaced [operand]
  | .binary _ left right => spaced [left, right]
  | .targets before rest after => spaced (before ++ rest.toList ++ after)
  | .operatorAssign target operator value => spaced [target, names operator, value]
  | .call _ receiver name arguments block =>
      spaced (receiver :: names name :: arguments ++ block.toList)
  | .functionCall name arguments block =>
      spaced (names name :: arguments ++ block.toList)
  | .superCall arguments block => spaced (arguments ++ block.toList)
  | .bareSuper block => spaced block.toList
  | .hash entries => String.join (entries.map entryText)
  | .named _ name => spaced [names name]
  | .restParameter _ name => spaced (name.toList.map names)
  | .scopedConstant owner name => spaced [owner, names name]
  | .numberedReference number => spaced [toString number]
  | .backReference byte => spaced [String.singleton byte.char]
  | .leaf _ => ""
  | .integer value => spaced [toString value]
  | .float value => spaced [Shortest.text value]
  | .text _ bytes => spaced [quoted bytes]
  | .regexp source flags => spaced [quoted source] ++ flagText flags
  | .dynamicRegexp items flags => flagText flags ++ spaced items
  | .formals group => spaced group.children
  | .optionalParameter name default => spaced [names name, default]
  | .keywordParameter name default => spaced (names name :: default.toList)
  | .closure _ parameters body => placed parameters ++ spaced [body]
  | .method name parameters body =>
      spaced [names name] ++ placed parameters ++ spaced [body]
  | .singletonMethod receiver name parameters body =>
      spaced [receiver, names name] ++ placed parameters ++ spaced [body]
  | .classDefinition path superclass body =>
      spaced [path] ++ placed superclass ++ spaced [body]
  | .opening _ target body => spaced [target, body]
  | .alias _ newName oldName => spaced [names newName, names oldName]
  | .undef undefined => spaced (undefined.map names)

def render (names : Symbol → String) (shape : Shape String) : String :=
  "(" ++ shape.tag ++ shape.parts names ++ ")"

end Shape

namespace Arena

def dumpWithin (arena : Arena) (names : Symbol → String) :
    Nat → NodeId → Except DumpError String
  | 0, _ => .error .cyclic
  | depth + 1, id =>
      match arena.get? id with
      | none => .error (.dangling id)
      | some node => do
          let written ← node.shape.mapM (arena.dumpWithin names depth)
          return written.render names

/-- Writes the tree below a node. A path without a repetition visits each slot
at most once, so the number of slots bounds the depth of every finite tree. -/
def dump (arena : Arena) (symbols : SymbolTable) (id : NodeId) :
    Except DumpError String :=
  arena.dumpWithin symbols.text (arena.slotCount + 1) id

end Arena

end RubySyntax
