import Reckon.Proofs.Expr.Tree
import Reckon.Token.Basic

/-
The grammar of expressions, over tokens:

    expr       :=  term (('+' | '-') term)*
    term       :=  signed (('*' | '/' | '%') signed)*
    signed     :=  ('-' | '+') signed  |  power
    power      :=  factorial ('^' signed)?
    factorial  :=  primary '!'*
    primary    :=  NUMBER  |  NAME  |  NAME '(' ')'  |  NAME '(' args ')'  |  '(' expr ')'
    args       :=  expr (',' expr)*

A repetition groups to the left: all but its last round is again a phrase of the same kind.  The
tree of a derivation has no parentheses.
-/

namespace Reckon

inductive Phrase
  | expr
  | term
  | signed
  | power
  | factorial
  | primary
deriving DecidableEq, Repr

def additive : List (Symbol × Operator) := [(.plus, .add), (.minus, .sub)]

def multiplicative : List (Symbol × Operator) := [(.star, .mul), (.slash, .div), (.percent, .rem)]

def signs : List (Symbol × Operator) := [(.minus, .neg), (.plus, .pos)]

mutual

/-- A phrase of this kind is spelled by these tokens and has this tree. -/
inductive Derives : Phrase → List Token → Tree → Prop
  | term {word : List Token} {tree : Tree} (hterm : Derives .term word tree) :
      Derives .expr word tree
  | sum {first second : List Token} {left right : Tree} {mark : Token} {symbol : Symbol}
      {operator : Operator} (hfirst : Derives .expr first left)
      (hmark : mark.kind = .symbol symbol) (hoperator : (symbol, operator) ∈ additive)
      (hsecond : Derives .term second right) :
      Derives .expr (first ++ mark :: second) (.binary operator left right)
  | signed {word : List Token} {tree : Tree} (hsigned : Derives .signed word tree) :
      Derives .term word tree
  | product {first second : List Token} {left right : Tree} {mark : Token} {symbol : Symbol}
      {operator : Operator} (hfirst : Derives .term first left)
      (hmark : mark.kind = .symbol symbol) (hoperator : (symbol, operator) ∈ multiplicative)
      (hsecond : Derives .signed second right) :
      Derives .term (first ++ mark :: second) (.binary operator left right)
  | sign {word : List Token} {operand : Tree} {mark : Token} {symbol : Symbol}
      {operator : Operator} (hmark : mark.kind = .symbol symbol)
      (hoperator : (symbol, operator) ∈ signs) (hoperand : Derives .signed word operand) :
      Derives .signed (mark :: word) (.unary operator operand)
  | power {word : List Token} {tree : Tree} (hpower : Derives .power word tree) :
      Derives .signed word tree
  | factorial {word : List Token} {tree : Tree} (hfactorial : Derives .factorial word tree) :
      Derives .power word tree
  | raise {first second : List Token} {base exponent : Tree} {mark : Token}
      (hbase : Derives .factorial first base) (hmark : mark.kind = .symbol .caret)
      (hexponent : Derives .signed second exponent) :
      Derives .power (first ++ mark :: second) (.binary .pow base exponent)
  | primary {word : List Token} {tree : Tree} (hprimary : Derives .primary word tree) :
      Derives .factorial word tree
  | bang {word : List Token} {operand : Tree} {mark : Token}
      (hoperand : Derives .factorial word operand) (hmark : mark.kind = .symbol .bang) :
      Derives .factorial (word ++ [mark]) (.unary .fact operand)
  | number {token : Token} {value : Float} (hkind : token.kind = .number value) :
      Derives .primary [token] (.literal value)
  | name {token : Token} {name : String} (hkind : token.kind = .name name) :
      Derives .primary [token] (.var name)
  | emptyCall {token opening closing : Token} {name : String} (hkind : token.kind = .name name)
      (hopening : opening.kind = .symbol .leftParen)
      (hclosing : closing.kind = .symbol .rightParen) :
      Derives .primary [token, opening, closing] (.call name [])
  | call {token opening closing : Token} {name : String} {word : List Token} {args : List Tree}
      (hkind : token.kind = .name name) (hopening : opening.kind = .symbol .leftParen)
      (hargs : DerivesArgs word args) (hclosing : closing.kind = .symbol .rightParen) :
      Derives .primary (token :: opening :: word ++ [closing]) (.call name args)
  | group {opening closing : Token} {word : List Token} {tree : Tree}
      (hopening : opening.kind = .symbol .leftParen) (hexpr : Derives .expr word tree)
      (hclosing : closing.kind = .symbol .rightParen) :
      Derives .primary (opening :: word ++ [closing]) tree

/-- The tokens spell the arguments of a call with these trees. -/
inductive DerivesArgs : List Token → List Tree → Prop
  | single {word : List Token} {tree : Tree} (hexpr : Derives .expr word tree) :
      DerivesArgs word [tree]
  | more {first second : List Token} {args : List Tree} {tree : Tree} {comma : Token}
      (hargs : DerivesArgs first args) (hcomma : comma.kind = .symbol .comma)
      (hexpr : Derives .expr second tree) :
      DerivesArgs (first ++ comma :: second) (args ++ [tree])

end

namespace Operator

/-- What stands to the left of an operator between two operands. -/
def leftPhrase : Operator → Phrase
  | .add => .expr
  | .sub => .expr
  | .pow => .factorial
  | _ => .term

theorem binaryOf?_of_additive {symbol : Symbol} {operator : Operator}
    (hoperator : (symbol, operator) ∈ additive) :
    binaryOf? symbol = some operator ∧ operator.precedence = 1 := by
  revert hoperator
  cases symbol <;> cases operator <;> decide

theorem binaryOf?_of_multiplicative {symbol : Symbol} {operator : Operator}
    (hoperator : (symbol, operator) ∈ multiplicative) :
    binaryOf? symbol = some operator ∧ operator.precedence = 2 := by
  revert hoperator
  cases symbol <;> cases operator <;> decide

theorem leadingOf?_of_sign {symbol : Symbol} {operator : Operator}
    (hoperator : (symbol, operator) ∈ signs) : leadingOf? symbol = some operator := by
  revert hoperator
  cases symbol <;> cases operator <;> decide

theorem sign_of_leadingOf? {symbol : Symbol} {operator : Operator}
    (hoperator : leadingOf? symbol = some operator) : (symbol, operator) ∈ signs := by
  revert hoperator
  cases symbol <;> cases operator <;> decide

/-- The operators between two operands are those of the grammar. -/
theorem mem_of_binaryOf? {symbol : Symbol} {operator : Operator}
    (hoperator : binaryOf? symbol = some operator) :
    (symbol, operator) ∈ additive ∨ (symbol, operator) ∈ multiplicative ∨
      symbol = .caret ∧ operator = .pow := by
  revert hoperator
  cases symbol <;> cases operator <;> decide

end Operator

end Reckon
