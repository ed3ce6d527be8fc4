/-
Reserved words.

Five of them have a second reading as modifiers, written after the statement
that they modify, and `do` has two further readings that say what its block
belongs to. The readings are words of their own here.
-/

import RubySyntax.Text.Byte

namespace RubySyntax

inductive Keyword where
  | encodingWord
  | lineWord
  | fileWord
  | capitalBegin
  | capitalEnd
  | aliasWord
  | andWord
  | beginWord
  | breakWord
  | caseWord
  | classWord
  | defWord
  | definedWord
  | doWord
  | doLoop
  | doBlock
  | elseWord
  | elsifWord
  | endWord
  | ensureWord
  | falseWord
  | forWord
  | ifWord
  | ifModifier
  | inWord
  | moduleWord
  | nextWord
  | nilWord
  | notWord
  | orWord
  | redoWord
  | rescueWord
  | rescueModifier
  | retryWord
  | returnWord
  | selfWord
  | superWord
  | thenWord
  | trueWord
  | undefWord
  | unlessWord
  | unlessModifier
  | untilWord
  | untilModifier
  | whenWord
  | whileWord
  | whileModifier
  | yieldWord
deriving DecidableEq, Repr, Inhabited

namespace Keyword

def spelling : Keyword → String
  | .encodingWord => "__ENCODING__"
  | .lineWord => "__LINE__"
  | .fileWord => "__FILE__"
  | .capitalBegin => "BEGIN"
  | .capitalEnd => "END"
  | .aliasWord => "alias"
  | .andWord => "and"
  | .beginWord => "begin"
  | .breakWord => "break"
  | .caseWord => "case"
  | .classWord => "class"
  | .defWord => "def"
  | .definedWord => "defined?"
  | .doWord => "do"
  | .doLoop => "do"
  | .doBlock => "do"
  | .elseWord => "else"
  | .elsifWord => "elsif"
  | .endWord => "end"
  | .ensureWord => "ensure"
  | .falseWord => "false"
  | .forWord => "for"
  | .ifWord => "if"
  | .ifModifier => "if"
  | .inWord => "in"
  | .moduleWord => "module"
  | .nextWord => "next"
  | .nilWord => "nil"
  | .notWord => "not"
  | .orWord => "or"
  | .redoWord => "redo"
  | .rescueWord => "rescue"
  | .rescueModifier => "rescue"
  | .retryWord => "retry"
  | .returnWord => "return"
  | .selfWord => "self"
  | .superWord => "super"
  | .thenWord => "then"
  | .trueWord => "true"
  | .undefWord => "undef"
  | .unlessWord => "unless"
  | .unlessModifier => "unless"
  | .untilWord => "until"
  | .untilModifier => "until"
  | .whenWord => "when"
  | .whileWord => "while"
  | .whileModifier => "while"
  | .yieldWord => "yield"

def all : List Keyword :=
  [.encodingWord, .lineWord, .fileWord, .capitalBegin, .capitalEnd, .aliasWord,
    .andWord, .beginWord, .breakWord, .caseWord, .classWord, .defWord,
    .definedWord, .doWord, .elseWord, .elsifWord, .endWord, .ensureWord,
    .falseWord, .forWord, .ifWord, .inWord, .moduleWord, .nextWord, .nilWord,
    .notWord, .orWord, .redoWord, .rescueWord, .retryWord, .returnWord,
    .selfWord, .superWord, .thenWord, .trueWord, .undefWord, .unlessWord,
    .untilWord, .whenWord, .whileWord, .yieldWord]

def ofName? (name : Bytes) : Option Keyword :=
  all.find? fun word => ascii word.spelling == name

/-- The reading after the statement that the word modifies; words without one
keep their reading. -/
def modifier : Keyword → Keyword
  | .ifWord => .ifModifier
  | .unlessWord => .unlessModifier
  | .untilWord => .untilModifier
  | .whileWord => .whileModifier
  | .rescueWord => .rescueModifier
  | word => word

def endMarker : Bytes := ascii "__END__"

end Keyword

end RubySyntax
