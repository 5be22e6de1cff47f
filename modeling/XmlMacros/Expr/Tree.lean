import XmlMacros.Expr.Token

/-!
# Syntax trees of expressions

The meaning of an expression, told on its tree: `Tree.eval` computes the value, from the left to
the right, and stops at the first failure. How tightly operators bind is `Operator.level`; all
binary operators of one level associate to the left. The token reader computes the same value
without building the tree.
-/

namespace XmlMacros.Expr

/-- The binary operators by level, the loosest level first. -/
def levels : List (List Operator) :=
  [[.bitOr], [.bitAnd], [.equal], [.plus, .minus], [.times, .divide, .remainder]]

/-- The level of a binary operator. -/
def Operator.level : Operator → Nat
  | .bitOr => 0
  | .bitAnd => 1
  | .equal => 2
  | .plus | .minus => 3
  | .times | .divide | .remainder => 4

/-- An operator is listed at its level and at no other. -/
theorem mem_levels_iff (op : Operator) (k : Nat) (h : k < levels.length) :
    op ∈ levels[k] ↔ op.level = k := by
  match k with
  | 0 | 1 | 2 | 3 | 4 => cases op <;> simp [levels, Operator.level]
  | k + 5 =>
    have : levels.length = 5 := rfl
    omega

/-- What an operator asks of its left operand before the right one is looked at: a number for
products, an integer for bits, nothing otherwise. -/
def Operator.leftOperand (op : Operator) (a : Value) : Except Cause Value :=
  match op with
  | .times | .divide | .remainder => a.toNumber.map .number
  | .bitAnd | .bitOr => do return .number (.int (← (← a.toNumber).toInt))
  | .plus | .minus | .equal => .ok a

/-- Applies a binary operator to two values. -/
def Operator.apply (op : Operator) (a b : Value) : Except Cause Value :=
  match op with
  | .plus => a.add b
  | .minus => do
    let x ← a.toNumber
    let y ← b.toNumber
    return .number (← x.combine (· - ·) (· - ·) y)
  | .times => do
    let x ← a.toNumber
    let y ← b.toNumber
    return .number (← x.combine (· * ·) (· * ·) y)
  | .divide => do
    let x ← a.toNumber
    let y ← b.toNumber
    return .number (← x.divide y)
  | .remainder => do
    let x ← a.toNumber
    let y ← b.toNumber
    return .number (← x.remainder y)
  | .bitAnd => do
    let m ← (← a.toNumber).toInt
    let n ← (← b.toNumber).toInt
    return .number (.int (Expr.bitAnd m n))
  | .bitOr => do
    let m ← (← a.toNumber).toInt
    let n ← (← b.toNumber).toInt
    return .number (.int (Expr.bitOr m n))
  | .equal => do return .bool (← a.equals b)

/-- A sign in front of an operand. -/
inductive Sign
  | plus
  | minus
deriving DecidableEq, Repr

/-- The operator that a sign is written with. -/
def Sign.operator : Sign → Operator
  | .plus => .plus
  | .minus => .minus

/-- Applies a sign to a value. -/
def Sign.apply (sign : Sign) (a : Value) : Except Cause Value := do
  let x ← a.toNumber
  match sign with
  | .plus => return .number x
  | .minus => return .number x.negate

/-- The syntax tree of an expression with operands of one type. Parentheses are kept. -/
inductive Tree (α : Type)
  | operand (a : α)
  | paren (inner : Tree α)
  | signed (sign : Sign) (inner : Tree α)
  | binary (op : Operator) (left right : Tree α)
deriving Repr

/-- How the parts of expressions are written. -/
structure Spelling (α β : Type) where
  operand : α → β
  operator : Operator → β
  leftParen : β
  rightParen : β

namespace Tree

variable {α β : Type}

/-- The value of an expression, given those of its operands. -/
def eval (value : α → Except Cause Value) : Tree α → Except Cause Value
  | .operand a => value a
  | .paren inner => inner.eval value
  | .signed sign inner => do sign.apply (← inner.eval value)
  | .binary op left right => do
    let a ← op.leftOperand (← left.eval value)
    op.apply a (← right.eval value)

/-- How deeply parentheses and signs are nested. -/
def nesting : Tree α → Nat
  | .operand _ => 0
  | .paren inner => inner.nesting + 1
  | .signed _ inner => inner.nesting + 1
  | .binary _ left right => max left.nesting right.nesting

/-- The parts of a tree, in reading order. -/
def spell (w : Spelling α β) : Tree α → List β
  | .operand a => [w.operand a]
  | .paren inner => w.leftParen :: inner.spell w ++ [w.rightParen]
  | .signed sign inner => w.operator sign.operator :: inner.spell w
  | .binary op left right => left.spell w ++ w.operator op :: right.spell w

/-- Whether a tree may stand where an operand of level `k` is read: a binary operator binds at
least as tightly, its left operand fits its own level, and its right operand the next one. Signs
apply to operands that bind tighter than every operator. -/
def Fits : Tree α → Nat → Prop
  | .operand _, _ => True
  | .paren inner, _ => inner.Fits 0
  | .signed _ inner, _ => inner.Fits levels.length
  | .binary op left right, k => k ≤ op.level ∧ left.Fits op.level ∧ right.Fits (op.level + 1)

end Tree

/-- The tokens of trees whose operands are values with the texts they are shown with. -/
def tokenSpelling : Spelling (Value × String) Token where
  operand a := .operand a.1 a.2
  operator := .operator
  leftParen := .leftParen
  rightParen := .rightParen

/-- The tokens of a tree, in reading order. -/
def Tree.tokens (t : Tree (Value × String)) : List Token :=
  t.spell tokenSpelling

end XmlMacros.Expr
