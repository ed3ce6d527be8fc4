/-
The tokens of a program.

A token is its kind, with the value it carries, and its byte range. Brackets,
operators and `do` come in several kinds that the lexical rules tell apart by
what stands before them, so that the grammar never looks at blanks.
-/

import RubySyntax.Number.Binary64
import RubySyntax.Span
import RubySyntax.Symbol
import RubySyntax.Token.Keyword

namespace RubySyntax

inductive Punct where
  | bang
  | notEqual
  | notMatch
  | percent
  | ampersand
  /-- `&` before a block argument. -/
  | blockAmpersand
  | logicalAnd
  | safeDot
  /-- `(` at the start of an expression. -/
  | leftParen
  /-- `(` right after a method name. -/
  | callParen
  /-- `(` after a method name and a blank. -/
  | argumentParen
  | rightParen
  | star
  /-- `*` before an argument. -/
  | splatStar
  | power
  /-- `**` before an argument. -/
  | splatPower
  | plus
  | unaryPlus
  | comma
  | minus
  | unaryMinus
  /-- `-` right before a numeric literal. -/
  | numberMinus
  | arrow
  | dot
  | dotDot
  | dotDotDot
  | slash
  | colon
  | colonColon
  /-- `::` before a constant of the top level. -/
  | topColonColon
  | less
  | shiftLeft
  | lessEqual
  | compare
  | assign
  | equal
  | caseEqual
  | fatArrow
  | matchOp
  | greater
  | greaterEqual
  | shiftRight
  | question
  /-- `[` after a receiver. -/
  | leftBracket
  /-- `[` of an array literal. -/
  | arrayBracket
  /-- `[]` as a method name. -/
  | elementRead
  /-- `[]=` as a method name. -/
  | elementWrite
  | rightBracket
  | caret
  /-- `{` of a block for the nearest call. -/
  | leftBrace
  /-- `{` of a block for a command call. -/
  | commandBrace
  /-- `{` of a hash literal. -/
  | hashBrace
  | bar
  | logicalOr
  | rightBrace
  | tilde
deriving DecidableEq, Repr, Inhabited

namespace Punct

def spelling : Punct → String
  | .bang => "!"
  | .notEqual => "!="
  | .notMatch => "!~"
  | .percent => "%"
  | .ampersand => "&"
  | .blockAmpersand => "&"
  | .logicalAnd => "&&"
  | .safeDot => "&."
  | .leftParen => "("
  | .callParen => "("
  | .argumentParen => "("
  | .rightParen => ")"
  | .star => "*"
  | .splatStar => "*"
  | .power => "**"
  | .splatPower => "**"
  | .plus => "+"
  | .unaryPlus => "+"
  | .comma => ","
  | .minus => "-"
  | .unaryMinus => "-"
  | .numberMinus => "-"
  | .arrow => "->"
  | .dot => "."
  | .dotDot => ".."
  | .dotDotDot => "..."
  | .slash => "/"
  | .colon => ":"
  | .colonColon => "::"
  | .topColonColon => "::"
  | .less => "<"
  | .shiftLeft => "<<"
  | .lessEqual => "<="
  | .compare => "<=>"
  | .assign => "="
  | .equal => "=="
  | .caseEqual => "==="
  | .fatArrow => "=>"
  | .matchOp => "=~"
  | .greater => ">"
  | .greaterEqual => ">="
  | .shiftRight => ">>"
  | .question => "?"
  | .leftBracket => "["
  | .arrayBracket => "["
  | .elementRead => "[]"
  | .elementWrite => "[]="
  | .rightBracket => "]"
  | .caret => "^"
  | .leftBrace => "\x7b"
  | .commandBrace => "\x7b"
  | .hashBrace => "\x7b"
  | .bar => "|"
  | .logicalOr => "||"
  | .rightBrace => "\x7d"
  | .tilde => "~"

/-- The marks that name a method, as in `def +(other)` and `a.+(b)`. -/
def isMethodName : Punct → Bool
  | .bang | .notEqual | .notMatch | .percent | .ampersand | .blockAmpersand
  | .star | .splatStar | .power | .splatPower | .plus | .unaryPlus | .minus
  | .unaryMinus | .slash | .less | .shiftLeft | .lessEqual | .compare | .equal
  | .caseEqual | .matchOp | .greater | .greaterEqual | .shiftRight
  | .elementRead | .elementWrite | .caret | .bar | .tilde => true
  | _ => false

end Punct

inductive LiteralKind where
  | string
  | shell
  | regexp
  | symbol
  | words
  | symbols
deriving DecidableEq, Repr, Inhabited

namespace LiteralKind

def isList : LiteralKind → Bool
  | .words => true
  | .symbols => true
  | _ => false

end LiteralKind

inductive TokenKind where
  | keyword (word : Keyword)
  | punct (mark : Punct)
  | identifier (name : Symbol)
  | constant (name : Symbol)
  /-- `foo!`, `foo?`, and `foo=` or `+@` where a method is named. -/
  | methodName (name : Symbol)
  /-- `foo:` -/
  | label (name : Symbol)
  | symbol (name : Symbol)
  | instanceVariable (name : Symbol)
  | classVariable (name : Symbol)
  | globalVariable (name : Symbol)
  | numberedReference (number : Nat)
  | backReference (byte : Byte)
  | integer (value : Int)
  | float (value : Binary64)
  | character (bytes : Bytes)
  /-- `+=` and its like, with the operator. -/
  | operatorAssign (operator : Symbol)
  | literalBegin (kind : LiteralKind)
  | heredocBegin
  /-- The closing delimiter, with the flags of a regexp. -/
  | literalEnd (flags : Bytes)
  /-- A closing quote and a colon. -/
  | labelEnd
  /-- Decoded text. `lineHead` marks text that starts a line of a heredoc. -/
  | content (bytes : Bytes) (lineHead : Bool)
  | interpolationBegin
  | interpolationEnd
  /-- The `#` before an interpolated variable. -/
  | variableInterpolation
  | wordSeparator
  /-- Stands after a line that opens heredocs, before their bodies. -/
  | heredocBodies
  | newline
  | semicolon
  | endOfInput
deriving DecidableEq, Repr, Inhabited

namespace TokenKind

def describe : TokenKind → String
  | .keyword word => "'" ++ word.spelling ++ "'"
  | .punct mark => "'" ++ mark.spelling ++ "'"
  | .identifier _ => "local variable or method"
  | .constant _ => "constant"
  | .methodName _ => "method name"
  | .label _ => "label"
  | .symbol _ => "symbol literal"
  | .instanceVariable _ => "instance variable"
  | .classVariable _ => "class variable"
  | .globalVariable _ => "global variable"
  | .numberedReference _ => "numbered reference"
  | .backReference _ => "back reference"
  | .integer _ => "integer literal"
  | .float _ => "float literal"
  | .character _ => "character literal"
  | .operatorAssign _ => "operator-assignment"
  | .literalBegin .string => "string literal"
  | .literalBegin .shell => "backtick literal"
  | .literalBegin .regexp => "regexp literal"
  | .literalBegin .symbol => "symbol literal"
  | .literalBegin .words => "word list"
  | .literalBegin .symbols => "word list"
  | .heredocBegin => "string literal"
  | .literalEnd _ => "string end"
  | .labelEnd => "string end"
  | .content .. => "string content"
  | .interpolationBegin => "'#\x7b'"
  | .interpolationEnd => "'\x7d'"
  | .variableInterpolation => "string interpolation"
  | .wordSeparator => "word separator"
  | .heredocBodies => "here document"
  | .newline => "end of line"
  | .semicolon => "';'"
  | .endOfInput => "end of file"

/-- Whether a statement list stops here. The construct around it decides
whether the token is the one that it wanted. -/
def endsStatements : TokenKind → Bool
  | .endOfInput => true
  | .keyword .endWord => true
  | .keyword .elseWord => true
  | .keyword .elsifWord => true
  | .keyword .whenWord => true
  | .keyword .ensureWord => true
  | .keyword .rescueWord => true
  | .keyword .thenWord => true
  | .punct .rightParen => true
  | .punct .rightBracket => true
  | .punct .rightBrace => true
  | .interpolationEnd => true
  | _ => false

def isTerminator : TokenKind → Bool
  | .newline => true
  | .semicolon => true
  | _ => false

def argumentWord : Keyword → Bool
  | .encodingWord | .lineWord | .fileWord | .beginWord | .breakWord | .caseWord
  | .classWord | .defWord | .definedWord | .falseWord | .forWord | .ifWord
  | .moduleWord | .nextWord | .nilWord | .notWord | .redoWord | .retryWord
  | .returnWord | .selfWord | .superWord | .trueWord | .unlessWord | .untilWord
  | .whileWord | .yieldWord => true
  | _ => false

def argumentPunct : Punct → Bool
  | .argumentParen | .arrayBracket | .topColonColon | .arrow | .bang | .tilde
  | .unaryPlus | .unaryMinus | .numberMinus | .splatStar | .splatPower
  | .blockAmpersand => true
  | _ => false

def beginsArgument : TokenKind → Bool
  | .keyword word => argumentWord word
  | .punct mark => argumentPunct mark
  | .identifier _ | .constant _ | .methodName _ | .label _ | .symbol _
  | .instanceVariable _ | .classVariable _ | .globalVariable _
  | .numberedReference _ | .backReference _ | .integer _ | .float _
  | .character _ | .literalBegin _ | .heredocBegin => true
  | _ => false

def isLeftParen : TokenKind → Bool
  | .punct .leftParen => true
  | .punct .callParen => true
  | .punct .argumentParen => true
  | _ => false

def isLeftBrace : TokenKind → Bool
  | .punct .leftBrace => true
  | .punct .commandBrace => true
  | .punct .hashBrace => true
  | _ => false

def isDo : TokenKind → Bool
  | .keyword .doWord => true
  | .keyword .doBlock => true
  | .keyword .doLoop => true
  | _ => false

end TokenKind

structure Token where
  kind : TokenKind
  span : Span
deriving DecidableEq, Repr, Inhabited

end RubySyntax
