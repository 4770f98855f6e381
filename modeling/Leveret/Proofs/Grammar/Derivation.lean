import Leveret.Proofs.Parsing.Reading

/-!
# The grammar

The derivations of the grammar, one type for each of its symbols. Operators between two operands
come in six tiers, and an expression of a tier is a chain of operands of the next one; a chain is
grouped from the left. Every derivation has the tokens that it derives and the tree it stands for.
-/

namespace Leveret.Grammar

/-! ## Symbols -/

/-- The tiers of operators between two operands, from loosest to tightest. -/
inductive Tier where
  | or | and | equality | relational | additive | multiplicative
deriving DecidableEq

inductive Level where
  | tier (tier : Tier)
  | unary
  | primary
deriving DecidableEq

namespace Tier

def operators : Tier → List (Kind × BinaryOp)
  | or => [(.or, .or)]
  | and => [(.and, .and)]
  | equality => [(.equals, .equals), (.notEquals, .notEquals)]
  | relational =>
    [(.less, .less), (.lessEquals, .lessEquals), (.greater, .greater),
     (.greaterEquals, .greaterEquals)]
  | additive => [(.plus, .add), (.dash, .subtract)]
  | multiplicative => [(.star, .multiply), (.slash, .divide)]

def operands : Tier → Level
  | or => .tier and
  | and => .tier equality
  | equality => .tier relational
  | relational => .tier additive
  | additive => .tier multiplicative
  | multiplicative => .unary

end Tier

def signs : List (Kind × UnaryOp) := [(.plus, .plus), (.dash, .minus)]

abbrev Level.any : Level := .tier .or

/-! ## Words -/

@[ext]
structure Word (kind : Kind) where
  token : Token
  kind_eq : token.kind = kind

@[ext]
structure Operator (tier : Tier) where
  token : Token
  op : BinaryOp
  listed : (token.kind, op) ∈ tier.operators

@[ext]
structure Sign where
  token : Token
  op : UnaryOp
  listed : (token.kind, op) ∈ signs

@[ext]
structure Constant where
  token : Token
  value : Value
  spells : token.literal? = some value

@[ext]
structure TypeWord where
  token : Token
  ty : Ty
  kind_eq : token.kind = .typeName
  names : Ty.ofName? token.text = some ty

/-! ## Derivations -/

mutual

inductive Phrase : Level → Type where
  | chain {tier : Tier} (first : Phrase tier.operands) (more : Chain tier) : Phrase (.tier tier)
  | signed (sign : Sign) (operand : Phrase .unary) : Phrase .unary
  | unsigned (operand : Phrase .primary) : Phrase .unary
  | constant (constant : Constant) : Phrase .primary
  | name (name : Word .identifier) : Phrase .primary
  | group (opening : Word .openParen) (inner : Phrase .any) (closing : Word .closeParen) :
      Phrase .primary
  | compound (body : Braces) : Phrase .primary

/-- The operators of a tier that follow its first operand, each with its right operand. -/
inductive Chain : Tier → Type where
  | nil {tier : Tier} : Chain tier
  | cons {tier : Tier} (operator : Operator tier) (operand : Phrase tier.operands)
      (more : Chain tier) : Chain tier

inductive Braces where
  | mk (opening : Word .openCurly) (inside : Sentences) (closing : Word .closeCurly)

inductive Conditional where
  | only (word : Word .ifWord) (test : Phrase .any) (consequence : Braces)
  | otherwise (word : Word .ifWord) (test : Phrase .any) (consequence : Braces)
      (word' : Word .elseWord) (alternative : Braces)
  | elseIf (word : Word .ifWord) (test : Phrase .any) (consequence : Braces)
      (word' : Word .elseWord) (alternative : Conditional)

inductive Sentence where
  | varZero (word : Word .varWord) (name : Word .identifier) (ty : TypeWord)
      (semicolon : Word .semicolon)
  | varInit (word : Word .varWord) (name : Word .identifier) (ty : Option TypeWord)
      (equals : Word .assignment) (init : Phrase .any) (semicolon : Word .semicolon)
  | const (word : Word .constWord) (name : Word .identifier) (ty : Option TypeWord)
      (equals : Word .assignment) (init : Phrase .any) (semicolon : Word .semicolon)
  | assign (name : Word .identifier) (equals : Word .assignment) (value : Phrase .any)
      (semicolon : Word .semicolon)
  | print (word : Word .printWord) (value : Phrase .any) (semicolon : Word .semicolon)
  | conditional (conditional : Conditional)
  | whileLoop (word : Word .whileWord) (test : Phrase .any) (body : Braces)
  | breakLoop (word : Word .breakWord) (semicolon : Word .semicolon)
  | continueLoop (word : Word .continueWord) (semicolon : Word .semicolon)
  | expr (value : Phrase .any) (semicolon : Word .semicolon)

inductive Sentences where
  | nil
  | cons (sentence : Sentence) (rest : Sentences)

end

/-! ## What is derived -/

def typeTokens (ty : Option TypeWord) : List Token := ty.toList.map (·.token)

mutual

def Phrase.tokens {level : Level} : Phrase level → List Token
  | .chain first more => first.tokens ++ more.tokens
  | .signed sign operand => sign.token :: operand.tokens
  | .unsigned operand => operand.tokens
  | .constant constant => [constant.token]
  | .name name => [name.token]
  | .group opening inner closing => opening.token :: inner.tokens ++ [closing.token]
  | .compound body => body.tokens

def Chain.tokens {tier : Tier} : Chain tier → List Token
  | .nil => []
  | .cons operator operand more => operator.token :: operand.tokens ++ more.tokens

def Braces.tokens : Braces → List Token
  | .mk opening inside closing => opening.token :: inside.tokens ++ [closing.token]

def Conditional.tokens : Conditional → List Token
  | .only word test consequence => word.token :: test.tokens ++ consequence.tokens
  | .otherwise word test consequence word' alternative =>
    word.token :: test.tokens ++ consequence.tokens ++ word'.token :: alternative.tokens
  | .elseIf word test consequence word' alternative =>
    word.token :: test.tokens ++ consequence.tokens ++ word'.token :: alternative.tokens

def Sentence.tokens : Sentence → List Token
  | .varZero word name ty semicolon => [word.token, name.token, ty.token, semicolon.token]
  | .varInit word name ty equals init semicolon
  | .const word name ty equals init semicolon =>
    word.token :: name.token :: typeTokens ty ++ equals.token :: init.tokens ++ [semicolon.token]
  | .assign name equals value semicolon =>
    name.token :: equals.token :: value.tokens ++ [semicolon.token]
  | .print word value semicolon => word.token :: value.tokens ++ [semicolon.token]
  | .conditional conditional => conditional.tokens
  | .whileLoop word test body => word.token :: test.tokens ++ body.tokens
  | .breakLoop word semicolon | .continueLoop word semicolon => [word.token, semicolon.token]
  | .expr value semicolon => value.tokens ++ [semicolon.token]

def Sentences.tokens : Sentences → List Token
  | .nil => []
  | .cons sentence rest => sentence.tokens ++ rest.tokens

end

/-! ## What it stands for -/

mutual

/-- Parentheses leave no trace. -/
def Phrase.tree {level : Level} : Phrase level → Expr
  | .chain first more => more.tree first.tree
  | .signed sign operand => .unary default sign.op operand.tree
  | .unsigned operand => operand.tree
  | .constant constant => .literal default constant.value
  | .name name => .load default name.token.text
  | .group _ inner _ => inner.tree
  | .compound body => .compound default body.tree

/-- Groups the operators from the left, after the operand `left`. -/
def Chain.tree {tier : Tier} : Chain tier → (left : Expr) → Expr
  | .nil, left => left
  | .cons operator operand more, left => more.tree (.binary default operator.op left operand.tree)

def Braces.tree : Braces → Block
  | .mk _ inside _ => ⟨default, inside.tree⟩

/-- After `else`, another conditional stands for a block of its own. -/
def Conditional.tree : Conditional → Stmt
  | .only _ test consequence => .ifElse default test.tree consequence.tree none
  | .otherwise _ test consequence _ alternative =>
    .ifElse default test.tree consequence.tree (some alternative.tree)
  | .elseIf _ test consequence _ alternative =>
    .ifElse default test.tree consequence.tree (some ⟨default, [alternative.tree]⟩)

def Sentence.tree : Sentence → Stmt
  | .varZero _ name ty _ => .declareVar default name.token.text (some ty.ty) none
  | .varInit _ name ty _ init _ =>
    .declareVar default name.token.text (ty.map (·.ty)) (some init.tree)
  | .const _ name ty _ init _ => .declareConst default name.token.text (ty.map (·.ty)) init.tree
  | .assign name _ value _ => .assign default name.token.text value.tree
  | .print _ value _ => .print default value.tree
  | .conditional conditional => conditional.tree
  | .whileLoop _ test body => .whileLoop default test.tree body.tree
  | .breakLoop .. => .breakLoop default
  | .continueLoop .. => .continueLoop default
  | .expr value _ => .expr default value.tree

def Sentences.tree : Sentences → List Stmt
  | .nil => []
  | .cons sentence rest => sentence.tree :: rest.tree

end

end Leveret.Grammar
