import Leveret.Source.Position

/-!
# Tokens

The words and marks a program is written with, and what each is spelled as.
-/

namespace Leveret

/-- What a token is, apart from its text. -/
inductive Kind where
  | endOfFile | integer | float | identifier | typeName
  | openCurly | closeCurly | openParen | closeParen
  | assignment | equals | notEquals | less | lessEquals | greater | greaterEquals
  | or | and | semicolon | plus | dash | slash | star
  | varWord | constWord | printWord | ifWord | elseWord | whileWord
  | breakWord | continueWord | trueWord | falseWord
deriving DecidableEq, Inhabited

namespace Kind

def all : List Kind :=
  [endOfFile, integer, float, identifier, typeName, openCurly, closeCurly, openParen, closeParen,
   assignment, equals, notEquals, less, lessEquals, greater, greaterEquals, or, and, semicolon,
   plus, dash, slash, star, varWord, constWord, printWord, ifWord, elseWord, whileWord, breakWord,
   continueWord, trueWord, falseWord]

def name : Kind → String
  | endOfFile => "EOF"
  | integer => "Integer"
  | float => "Float"
  | identifier => "Identifier"
  | typeName => "TypeName"
  | openCurly => "OpenCurly"
  | closeCurly => "CloseCurly"
  | openParen => "OpenParen"
  | closeParen => "CloseParen"
  | assignment => "Assignment"
  | equals => "Equals"
  | notEquals => "NotEquals"
  | less => "Less"
  | lessEquals => "LessEquals"
  | greater => "Greater"
  | greaterEquals => "GreaterEquals"
  | or => "Or"
  | and => "And"
  | semicolon => "Semicolon"
  | plus => "Plus"
  | dash => "Dash"
  | slash => "Slash"
  | star => "Star"
  | varWord => "Var"
  | constWord => "Const"
  | printWord => "Print"
  | ifWord => "If"
  | elseWord => "Else"
  | whileWord => "While"
  | breakWord => "Break"
  | continueWord => "Continue"
  | trueWord => "True"
  | falseWord => "False"

def ofName? (name : String) : Option Kind := all.find? (·.name = name)

def reserved : List (String × Kind) :=
  [("var", varWord), ("const", constWord), ("print", printWord), ("if", ifWord),
   ("else", elseWord), ("while", whileWord), ("break", breakWord), ("continue", continueWord),
   ("true", trueWord), ("false", falseWord), ("int", typeName), ("float", typeName),
   ("bool", typeName)]

def ofWord? (word : String) : Option Kind := reserved.lookup word

def isInfixOnly : Kind → Bool
  | equals | notEquals | less | lessEquals | greater | greaterEquals | or | and | slash | star =>
    true
  | _ => false

end Kind

structure Token where
  kind : Kind
  text : String
  span : Span
deriving DecidableEq, Inhabited

namespace Token

/-- The token that ends a source, of no width. -/
def endOfFile (position : Position) : Token := ⟨.endOfFile, "EOF", ⟨position, position⟩⟩

def describe (t : Token) : String :=
  s!"{t.kind.name} `{t.text}` at {t.span.start.offset}"

end Token

end Leveret
