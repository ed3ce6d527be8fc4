/-
What can be wrong with a program, and the words for it.

A problem is an error or a warning by its nature. Fatal errors end a parse;
every other problem is reported and the parse goes on.
-/

import RubySyntax.Text.Utf8
import RubySyntax.Token.Basic

namespace RubySyntax

inductive Severity where
  | error
  | warning
deriving DecidableEq, Repr, Inhabited

inductive Unclosed where
  | string
  /-- A literal opened with `%`. -/
  | quoted
  | regexp
  | embeddedDocument
  | heredoc (delimiter : Bytes)
deriving DecidableEq, Repr, Inhabited

namespace Unclosed

def message : Unclosed → String
  | .string => "unterminated string meets end of file"
  | .quoted => "unterminated quoted string meets end of file"
  | .regexp => "unterminated regexp meets end of file"
  | .embeddedDocument => "embedded document meets end of file"
  | .heredoc delimiter =>
      "can't find heredoc delimiter \"" ++ Utf8.read delimiter ++
        "\" anywhere before EOF"

end Unclosed

inductive Fatal where
  | arenaExhausted (limit : Nat)
  | nestingTooDeep (limit position : Nat)
  | unterminated (what : Unclosed) (position : Nat)
deriving DecidableEq, Repr, Inhabited

namespace Fatal

def message : Fatal → String
  | .arenaExhausted limit => "node arena exhausted (" ++ toString limit ++ " nodes)"
  | .nestingTooDeep limit _ => "nesting too deep (limit " ++ toString limit ++ ")"
  | .unterminated what _ => what.message

def position? : Fatal → Option Nat
  | .arenaExhausted _ => none
  | .nestingTooDeep _ position => some position
  | .unterminated _ position => some position

end Fatal

inductive AtVariable where
  | ofInstance
  | ofClass
deriving DecidableEq, Repr, Inhabited

namespace AtVariable

def phrase : AtVariable → String
  | .ofInstance => "an instance variable"
  | .ofClass => "a class variable"

end AtVariable

inductive Truncated where
  | identifier
  | symbol
  | string
deriving DecidableEq, Repr, Inhabited

namespace Truncated

def word : Truncated → String
  | .identifier => "identifier"
  | .symbol => "symbol"
  | .string => "string"

end Truncated

inductive Problem where
  | unexpected (found : TokenKind) (expecting : Option String)
  | unexpectedLabel
  | unexpectedParameterOrder
  | invalidMultibyte
  | invalidByte (byte : Byte)
  | trailingUnderscore
  | missingDigits
  | invalidOctalDigit
  | leadingDot
  | floatOutOfRange (text : Bytes)
  | bareDollar
  | digitVariable (text : Bytes) (kind : AtVariable)
  | bareVariable (text : Bytes) (kind : AtVariable)
  | referenceTooBig (digits : Bytes)
  | truncated (what : Truncated)
  | argumentMark (mark : Punct)
  | ambiguousArgument
  | spacedParameterList
  | heredocIdentifier
  | unknownPercentType
  | unknownRegexpOptions (letters : Bytes)
  | invalidEscape
  | invalidHexEscape
  | invalidUnicodeEscape
  | invalidCodePoint
  | uselessElse
  | assignReference (text : Bytes)
  | assignSelf
  | assignLiteral (word : String)
  | assignTo (tag : String)
  | dynamicConstant
  | misplacedCommand
  | chainedOperators
  | misplacedBlockArgument
  | twoBlocks
  | blockForYield
  | voidValue
  | positionalAfterKeywords
  | missingDot
  | dynamicSymbol
  | aliasNumbered
  | misplacedBegin
  | endInMethod
  | classInMethod
  | moduleInMethod
  | pathNotConstant
  | duplicateParameter
  | fatal (error : Fatal)
deriving DecidableEq, Repr, Inhabited

namespace Problem

def severity : Problem → Severity
  | .floatOutOfRange _ => .warning
  | .referenceTooBig _ => .warning
  | .truncated _ => .warning
  | .argumentMark _ => .warning
  | .ambiguousArgument => .warning
  | .spacedParameterList => .warning
  | .uselessElse => .warning
  | .endInMethod => .warning
  | _ => .error

def message : Problem → String
  | .unexpected found none => "syntax error, unexpected " ++ found.describe
  | .unexpected found (some expecting) =>
      "syntax error, unexpected " ++ found.describe ++ ", expecting " ++ expecting
  | .unexpectedLabel => "syntax error, unexpected label"
  | .unexpectedParameterOrder => "syntax error, unexpected parameter order"
  | .invalidMultibyte => "invalid multibyte char (UTF-8)"
  | .invalidByte byte => "Invalid char '\\x" ++ byte.hex ++ "' in expression"
  | .trailingUnderscore => "trailing '_' in number"
  | .missingDigits => "numeric literal without digits"
  | .invalidOctalDigit => "Invalid octal digit"
  | .leadingDot => "no .<digit> floating literal anymore; put 0 before dot"
  | .floatOutOfRange text => "float " ++ Utf8.read text ++ " out of range"
  | .bareDollar => "'$' without identifiers is not allowed as a global variable name"
  | .digitVariable text kind =>
      "'" ++ Utf8.read text ++ "' is not allowed as " ++ kind.phrase ++ " name"
  | .bareVariable text kind =>
      "'" ++ Utf8.read text ++ "' without identifiers is not allowed as " ++
        kind.phrase ++ " name"
  | .referenceTooBig digits =>
      "'$" ++ Utf8.read digits ++ "' is too big for a number variable, always nil"
  | .truncated what => what.word ++ " too long (truncated)"
  | .argumentMark mark => "'" ++ mark.spelling ++ "' interpreted as argument prefix"
  | .ambiguousArgument => "ambiguous first argument; put parentheses or even spaces"
  | .spacedParameterList =>
      "parentheses after method name is interpreted as an argument list, " ++
        "not a decomposed argument"
  | .heredocIdentifier => "unterminated here document identifier"
  | .unknownPercentType => "unknown type of %string"
  | .unknownRegexpOptions letters =>
      "unknown regexp option" ++ (if letters.length > 1 then "s" else "") ++ " - " ++
        Utf8.read letters
  | .invalidEscape => "Invalid escape character syntax"
  | .invalidHexEscape => "invalid hex escape"
  | .invalidUnicodeEscape => "invalid Unicode escape"
  | .invalidCodePoint => "invalid Unicode code point"
  | .uselessElse => "else without rescue is useless"
  | .assignReference text => "Can't set variable " ++ Utf8.read text
  | .assignSelf => "Can't change the value of self"
  | .assignLiteral word => "Can't assign to " ++ word
  | .assignTo tag => "can't assign to " ++ tag
  | .dynamicConstant => "dynamic constant assignment"
  | .misplacedCommand => "non-parenthesized calls are not allowed in this context"
  | .chainedOperators => "these operators cannot be chained"
  | .misplacedBlockArgument => "block argument should not be given"
  | .twoBlocks => "both block arg and actual block given"
  | .blockForYield => "block given to yield"
  | .voidValue => "void value expression"
  | .positionalAfterKeywords => "positional argument after keyword arguments"
  | .missingDot => "Need a dot to call an expression"
  | .dynamicSymbol => "dynamic symbol is not allowed here"
  | .aliasNumbered => "can't make alias for the number variables"
  | .misplacedBegin => "BEGIN is permitted only at toplevel"
  | .endInMethod => "END in method; use at_exit"
  | .classInMethod => "class definition in method body"
  | .moduleInMethod => "module definition in method body"
  | .pathNotConstant => "class/module name must be CONSTANT"
  | .duplicateParameter => "duplicated argument name"
  | .fatal error => error.message

end Problem

end RubySyntax
