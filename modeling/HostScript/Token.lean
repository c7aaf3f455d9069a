import HostScript.Span
import HostScript.Decimal.Notation

/-!
# Tokens

The words of a script: keywords, symbols, literals and names, each with its text and its span. The
end of the input is no token; a token list carries the span of its end beside it.
-/

namespace HostScript

/-- The reserved words. `do` is reserved without being used. -/
inductive Keyword where
  | and
  | class_
  | do_
  | else_
  | false
  | func
  | for_
  | if_
  | null
  | or
  | print
  | return_
  | super
  | this
  | true
  | undefined
  | var
  | while_
deriving DecidableEq, Repr

namespace Keyword

def all : List Keyword :=
  [.and, .class_, .do_, .else_, .false, .func, .for_, .if_, .null, .or, .print, .return_, .super,
    .this, .true, .undefined, .var, .while_]

def text : Keyword → String
  | .and => "and"
  | .class_ => "class"
  | .do_ => "do"
  | .else_ => "else"
  | .false => "false"
  | .func => "func"
  | .for_ => "for"
  | .if_ => "if"
  | .null => "null"
  | .or => "or"
  | .print => "print"
  | .return_ => "return"
  | .super => "super"
  | .this => "this"
  | .true => "true"
  | .undefined => "undefined"
  | .var => "var"
  | .while_ => "while"

/-- The keyword with a given text. -/
def ofText? (s : String) : Option Keyword :=
  all.find? (·.text == s)

/-- Whether the keyword opens a statement or declaration. -/
def startsStatement : Keyword → Bool
  | .class_ | .func | .var | .for_ | .if_ | .while_ | .print | .return_ => Bool.true
  | _ => Bool.false

end Keyword

/-- Operators and punctuation. -/
inductive Symbol where
  | plus
  | plusPlus
  | minus
  | star
  | slash
  | percent
  | amp
  | pipe
  | caret
  | tilde
  | bang
  | bangEq
  | eq
  | eqEq
  | less
  | lessEq
  | lessLess
  | greater
  | greaterEq
  | greaterGreater
  | lparen
  | rparen
  | lbrace
  | rbrace
  | comma
  | dot
  | semicolon
deriving DecidableEq, Repr

def Symbol.text : Symbol → String
  | .plus => "+"
  | .plusPlus => "++"
  | .minus => "-"
  | .star => "*"
  | .slash => "/"
  | .percent => "%"
  | .amp => "&"
  | .pipe => "|"
  | .caret => "^"
  | .tilde => "~"
  | .bang => "!"
  | .bangEq => "!="
  | .eq => "="
  | .eqEq => "=="
  | .less => "<"
  | .lessEq => "<="
  | .lessLess => "<<"
  | .greater => ">"
  | .greaterEq => ">="
  | .greaterGreater => ">>"
  | .lparen => "("
  | .rparen => ")"
  | .lbrace => "\x7b"
  | .rbrace => "\x7d"
  | .comma => ","
  | .dot => "."
  | .semicolon => ";"

inductive TokenKind where
  | keyword (k : Keyword)
  | symbol (s : Symbol)
  | int (n : Int32)
  | float (x : Float32)
  | string (s : String)
  | name (s : String)
deriving DecidableEq

namespace TokenKind

def isKeyword : TokenKind → Bool
  | .keyword _ => true
  | _ => false

def startsStatement : TokenKind → Bool
  | .keyword k => k.startsStatement
  | _ => false

/-- A token kind as it is shown to a reader. -/
def text : TokenKind → String
  | .keyword k => k.text
  | .symbol s => s.text
  | .int n => String.ofList (Decimal.ofInt n.toInt)
  | .float x => String.ofList (Decimal.plain x)
  | .string s => "\"" ++ s ++ "\""
  | .name s => s

end TokenKind

structure Token where
  kind : TokenKind
  /-- The exact source text. -/
  lexeme : String
  span : Span
deriving DecidableEq

end HostScript
