import Reckon.Decimal.Text
import Reckon.Source
import Reckon.Text.Quoted

/-
Tokens: numbers, names, the ten symbols and the end of the input.
-/

namespace Reckon

inductive Symbol
  | plus
  | minus
  | star
  | slash
  | percent
  | caret
  | bang
  | leftParen
  | rightParen
  | comma
deriving DecidableEq, Repr

namespace Symbol

def char : Symbol → Char
  | .plus => '+'
  | .minus => '-'
  | .star => '*'
  | .slash => '/'
  | .percent => '%'
  | .caret => '^'
  | .bang => '!'
  | .leftParen => '('
  | .rightParen => ')'
  | .comma => ','

def all : List Symbol :=
  [.plus, .minus, .star, .slash, .percent, .caret, .bang, .leftParen, .rightParen, .comma]

def ofChar? (c : Char) : Option Symbol := all.find? fun symbol => symbol.char == c

def label : Symbol → String
  | .plus => "PLUS"
  | .minus => "MINUS"
  | .star => "STAR"
  | .slash => "SLASH"
  | .percent => "PERCENT"
  | .caret => "CARET"
  | .bang => "BANG"
  | .leftParen => "LPAREN"
  | .rightParen => "RPAREN"
  | .comma => "COMMA"

theorem ofChar?_char (symbol : Symbol) : ofChar? symbol.char = some symbol := by
  cases symbol <;> decide

theorem char_of_ofChar? {c : Char} {symbol : Symbol} (hsymbol : ofChar? c = some symbol) :
    symbol.char = c := by
  have hfound := List.find?_some hsymbol
  simpa using hfound

end Symbol

inductive Token.Kind
  | number (value : Float)
  | name (text : String)
  | symbol (mark : Symbol)
  | eof
deriving DecidableEq

/-- A token with its text in the source; the end of the input has none. -/
structure Token where
  kind : Token.Kind
  lexeme : String
  span : Span
deriving DecidableEq

namespace Token

def Kind.label : Kind → String
  | .number _ => "NUMBER"
  | .name _ => "IDENTIFIER"
  | .symbol mark => mark.label
  | .eof => "EOF"

/-- The kind, with the value of a number and the quoted text of a name. -/
def text (token : Token) : String :=
  match token.kind with
  | .number value => "NUMBER(" ++ writeShortest value ++ ")"
  | .name name => "IDENTIFIER(" ++ quoted name ++ ")"
  | kind => kind.label

/-- How error messages speak of the token. -/
def describe (token : Token) : String :=
  if token.kind = .eof then "end of input" else "'" ++ token.lexeme ++ "'"

def isEof (token : Token) : Bool := decide (token.kind = .eof)

end Token

end Reckon
