import XmlMacros.Expr.Tree

/-!
# Computing the value of an expression

The reader goes through the tokens once and computes while it reads, so the first failure from
the left is reported, be it a misplaced token or an operand of the wrong sort. Parentheses and
signs may be nested only so deeply; chains of operators may be of any length.
-/

namespace XmlMacros.Expr

/-- Reads a value from the start of a token list, and gives back the rest. -/
abbrev Reader := List Token → Except Cause (Value × List Token)

/-- Goes on with a chain of operators of one level, whose value up to here is `a`. The first
argument bounds the number of operators; there are never more than tokens. -/
def chainRest (ops : List Operator) (next : Reader) : Nat → Value → Reader
  | 0, a, tokens => .ok (a, tokens)
  | fuel + 1, a, tokens =>
    match tokens with
    | .operator op :: rest =>
      if op ∈ ops then do
        let left ← op.leftOperand a
        let (b, rest) ← next rest
        chainRest ops next fuel (← op.apply left b) rest
      else .ok (a, tokens)
    | _ => .ok (a, tokens)

/-- Reads a chain of operands with operators of one level between them. -/
def chain (ops : List Operator) (next : Reader) : Reader := fun tokens => do
  let (a, rest) ← next tokens
  chainRest ops next rest.length a rest

/-- Reads an expression, where `factor` reads the operands of the tightest operators. -/
def expression (factor : Reader) : Reader :=
  levels.foldr chain factor

/-- Reads an operand: a literal, an expression in parentheses, or an operand with a sign. The
first argument bounds how deeply parentheses and signs are nested. -/
def factor : Nat → Reader
  | 0, _ => .error (.arithmetic .nestingTooDeep)
  | depth + 1, tokens =>
    match tokens with
    | [] => .error .endOfExpression
    | .operand value _ :: rest => .ok (value, rest)
    | .operator .minus :: rest => do
      let (a, rest) ← factor depth rest
      return (← Sign.minus.apply a, rest)
    | .operator .plus :: rest => do
      let (a, rest) ← factor depth rest
      return (← Sign.plus.apply a, rest)
    | .leftParen :: rest => do
      let (a, rest) ← expression (factor depth) rest
      match rest with
      | [] => .error .endOfExpression
      | .rightParen :: rest => return (a, rest)
      | _ => .error .unmatchedParenthesis
    | token :: _ => .error (.misplaced token.text)

/-- The value of a list of tokens that is one expression. -/
def evalTokens (depth : Nat) (tokens : List Token) : Except Cause Value := do
  let (a, rest) ← expression (factor depth) tokens
  match rest with
  | [] => return a
  | token :: _ => .error (.unexpected token.text)

/-- The text that a list of tokens evaluates to. A lone number keeps its spelling. -/
def evalToText (depth : Nat) (tokens : List Token) : Except Cause String :=
  match tokens with
  | [.operand (.number _) text] => .ok text
  | _ => do (← evalTokens depth tokens).write

end XmlMacros.Expr
