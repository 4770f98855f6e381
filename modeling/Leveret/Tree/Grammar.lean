import Leveret.Tree.Operator

/-!
# The grammar's tables

What a token can begin or join, and how tightly it binds the operands on its two sides.
-/

namespace Leveret

/-- How tightly an operator binds, from loosest to tightest. -/
inductive Power where
  | lowest | logicalOr | logicalAnd | equality | relational | additive | multiplicative | unary
  | primary
deriving DecidableEq, Inhabited

namespace Power

def rank : Power → Nat
  | lowest => 0
  | logicalOr => 1
  | logicalAnd => 2
  | equality => 3
  | relational => 4
  | additive => 5
  | multiplicative => 6
  | unary => 7
  | primary => 8

instance : LT Power := ⟨fun a b => a.rank < b.rank⟩

instance (a b : Power) : Decidable (a < b) := inferInstanceAs (Decidable (a.rank < b.rank))

end Power

namespace Kind

/-- The power of a token between two operands; the lowest if it cannot stand there. -/
def power : Kind → Power
  | or => .logicalOr
  | and => .logicalAnd
  | equals | notEquals => .equality
  | less | lessEquals | greater | greaterEquals => .relational
  | plus | dash => .additive
  | star | slash => .multiplicative
  | _ => .lowest

def isInfix (k : Kind) : Bool := .lowest < k.power

def startsOperand : Kind → Bool
  | integer | float | trueWord | falseWord | identifier | dash | plus | openParen | openCurly =>
    true
  | _ => false

def startsStatement : Kind → Bool
  | varWord | constWord | printWord | ifWord | whileWord | breakWord | continueWord => true
  | _ => false

end Kind

end Leveret
