import XmlMacros.Expr.Lexeme
import XmlMacros.Expr.Value

/-!
# Tokens of expressions

What is left of the lexemes once white space is gone and names are replaced by their values: an
operand carries its value and the text it is shown with.
-/

namespace XmlMacros.Expr

/-- An operand, an operator or a parenthesis. -/
inductive Token
  | operand (value : Value) (text : String)
  | operator (op : Operator)
  | leftParen
  | rightParen
deriving Repr

/-- The text of a token in messages. -/
def Token.text : Token → String
  | .operand _ text => text
  | .operator op => String.ofList op.chars
  | .leftParen => "("
  | .rightParen => ")"

/-- The token of a numeral. -/
def Token.ofNumeral (negative : Bool) (n : Decimal.Numeral) (text : String) : Except Cause Token :=
  (numberOfNumeral negative n).map fun x => .operand (.number x) text

/-- The token that stands for a name whose value is a text: a number if the text is one. -/
def Token.ofText (s : String) : Except Cause Token :=
  match Decimal.signedNumeral? s with
  | some (negative, n) => Token.ofNumeral negative n s
  | none => .ok (.operand (.text s) s)

end XmlMacros.Expr
