import Leveret.Proofs.Printing.Lexing
import Leveret.Tree.Postorder
import Leveret.Tree.Printer

/-!
# The words of a tree

The words that a tree is printed as, parentheses included, and how the printed text is cut into
them again.
-/

namespace Leveret

open Text Pattern

/-! ## Words -/

def UnaryOp.kind : UnaryOp → Kind
  | plus => .plus
  | minus => .dash

def BinaryOp.kind : BinaryOp → Kind
  | add => .plus
  | subtract => .dash
  | multiply => .star
  | divide => .slash
  | less => .less
  | greater => .greater
  | lessEquals => .lessEquals
  | greaterEquals => .greaterEquals
  | equals => .equals
  | notEquals => .notEquals
  | and => .and
  | or => .or

def Value.kind : Value → Kind
  | int _ => .integer
  | float _ => .float
  | bool true => .trueWord
  | bool false => .falseWord

def wrapped (wrap : Bool) (words : List Lexeme) : List Lexeme :=
  if wrap then (.openParen, "(") :: words ++ [(.closeParen, ")")] else words

def typeWords : Option Ty → List Lexeme
  | none => []
  | some ty => [(.typeName, ty.name)]

mutual

def Expr.words : Expr → List Lexeme
  | .literal _ value => [(value.kind, value.text)]
  | .unary _ op operand =>
    (op.kind, op.symbol) :: wrapped (operand.wraps fun _ => true) operand.words
  | .binary _ op left right =>
    wrapped (left.wraps (· < op.precedence)) left.words ++
      (op.kind, op.symbol) :: wrapped (right.wraps (· ≤ op.precedence)) right.words
  | .load _ name => [(.identifier, name)]
  | .compound _ body => body.words

def Block.words : Block → List Lexeme
  | ⟨_, statements⟩ => (.openCurly, "\x7b") :: wordsAll statements ++ [(.closeCurly, "\x7d")]

def Stmt.words : Stmt → List Lexeme
  | .declareVar _ name ty none =>
    (.varWord, "var") :: (.identifier, name) :: typeWords ty ++ [(.semicolon, ";")]
  | .declareVar _ name ty (some init) =>
    (.varWord, "var") :: (.identifier, name) :: typeWords ty ++
      (.assignment, "=") :: init.words ++ [(.semicolon, ";")]
  | .declareConst _ name ty init =>
    (.constWord, "const") :: (.identifier, name) :: typeWords ty ++
      (.assignment, "=") :: init.words ++ [(.semicolon, ";")]
  | .assign _ name value =>
    (.identifier, name) :: (.assignment, "=") :: value.words ++ [(.semicolon, ";")]
  | .print _ value => (.printWord, "print") :: value.words ++ [(.semicolon, ";")]
  | .ifElse _ condition consequence none =>
    (.ifWord, "if") :: condition.words ++ consequence.words
  | .ifElse _ condition consequence (some alternative) =>
    (.ifWord, "if") :: condition.words ++ consequence.words ++
      (.elseWord, "else") :: alternative.words
  | .whileLoop _ condition body => (.whileWord, "while") :: condition.words ++ body.words
  | .breakLoop _ => [(.breakWord, "break"), (.semicolon, ";")]
  | .continueLoop _ => [(.continueWord, "continue"), (.semicolon, ";")]
  | .expr _ value => value.words ++ [(.semicolon, ";")]

def wordsAll : List Stmt → List Lexeme
  | [] => []
  | s :: rest => s.words ++ wordsAll rest

end

/-! ## What can be spelled -/

def Value.Spellable : Value → Prop
  | int n => 0 ≤ n.toInt
  | float x => x.isFinite = true ∧ x.isNegative = false
  | bool _ => True

/-- A node whose own words can be spelled, its name or its type or, if it `fits`, its constant. -/
def Part.Formed (fits : Value → Prop) : Part → Prop
  | .expr (.literal _ value) => fits value
  | .expr (.load _ name) | .stmt (.declareConst _ name _ _) | .stmt (.assign _ name _) =>
    Identifier name
  | .stmt (.declareVar _ name ty init) => Identifier name ∧ ¬ (ty = none ∧ init = none)
  | _ => True

def Part.Spellable : Part → Prop := Part.Formed Value.Spellable

/-! ## Pieces of text -/

/-- Whatever follows the text, it is cut into these words. -/
def Cuts (text : String) (words : List Lexeme) : Prop :=
  ∀ rest more, Lexes rest more → Lexes (text.toList ++ rest) (words ++ more)

/-- Nothing of the text can be a part of the word before it. -/
def Apart (text : List Char) : Prop := ∀ c ∈ text.head?, c = ' ' ∨ c = ')' ∨ c = ';'

/-- The text is cut into these words if what follows it is apart. -/
def Spells (text : String) (words : List Lexeme) : Prop :=
  ∀ rest more, Apart rest → Lexes rest more → Lexes (text.toList ++ rest) (words ++ more)

section Pieces

variable {a b : String} {words words' : List Lexeme}

theorem Cuts.spells (h : Cuts a words) : Spells a words :=
  fun rest more _ hrest => h rest more hrest

theorem Cuts.append (h : Cuts a words) (h' : Cuts b words') : Cuts (a ++ b) (words ++ words') := by
  intro rest more hrest
  rw [String.toList_append, List.append_assoc, List.append_assoc]
  exact h _ _ (h' rest more hrest)

theorem Cuts.before (h : Cuts a words) (h' : Spells b words') :
    Spells (a ++ b) (words ++ words') := by
  intro rest more hapart hrest
  rw [String.toList_append, List.append_assoc, List.append_assoc]
  exact h _ _ (h' rest more hapart hrest)

theorem Spells.before (h : Spells a words) (h' : Cuts b words')
    (hb : ∀ rest, Apart (b.toList ++ rest)) : Cuts (a ++ b) (words ++ words') := by
  intro rest more hrest
  rw [String.toList_append, List.append_assoc, List.append_assoc]
  exact h _ _ (hb rest) (h' rest more hrest)

theorem Spells.append (h : Spells a words) (h' : Spells b words')
    (hb : ∀ rest, Apart rest → Apart (b.toList ++ rest)) : Spells (a ++ b) (words ++ words') := by
  intro rest more hapart hrest
  rw [String.toList_append, List.append_assoc, List.append_assoc]
  exact h _ _ (hb rest hapart) (h' rest more hapart hrest)

theorem Apart.isWordPart {text : List Char} (h : Apart text) :
    ∀ c ∈ text.head?, isWordPart c = false := by
  intro c hc
  rcases h c hc with rfl | rfl | rfl <;> decide

theorem Apart.isDigit {text : List Char} (h : Apart text) :
    ∀ c ∈ text.head?, c.isDigit = false ∧ c ≠ '.' := by
  intro c hc
  rcases h c hc with rfl | rfl | rfl <;> decide

theorem apart_cons {c : Char} (h : c = ' ' ∨ c = ')' ∨ c = ';') (rest : List Char) :
    Apart (c :: rest) := by
  intro c' hc'
  rwa [← Option.some.inj hc']

end Pieces

/-! ## Blanks, words and marks -/

theorem cuts_blank {text : String} (h : text.toList.all isBlank = true) : Cuts text [] :=
  fun _ _ hrest => hrest.blanks (List.all_eq_true.1 h)

theorem cuts_indent (depth : Nat) : Cuts (indent depth) [] := by
  refine cuts_blank (List.all_eq_true.2 fun c hc => ?_)
  rw [indent, String.toList_ofList] at hc
  rw [List.eq_of_mem_replicate hc]
  decide

theorem cuts_reserved {text word : String} {kind : Kind} (htext : text = word ++ " ")
    (hk : Kind.ofWord? word = some kind) : Cuts text [(kind, word)] := by
  intro rest more hrest
  rw [htext, String.toList_append, List.append_assoc]
  exact (hrest.blank (by decide)).reserved hk (by simp; decide)

theorem cuts_semicolon : Cuts ";\n" [(.semicolon, ";")] :=
  fun _ _ hrest => (hrest.blank (c := '\n') (by decide)).mark (t := ";") rfl

theorem cuts_equals : Cuts " = " [(.assignment, "=")] :=
  fun _ _ hrest => ((hrest.blank (c := ' ') (by decide)).mark (t := "=") rfl).blank (by decide)

theorem cuts_opening : Cuts "\x7b\n" [(.openCurly, "\x7b")] :=
  fun _ _ hrest => (hrest.blank (c := '\n') (by decide)).mark (t := "\x7b") rfl

theorem cuts_closing : Cuts "\x7d" [(.closeCurly, "\x7d")] :=
  fun _ _ hrest => hrest.mark rfl

theorem cuts_sign (op : UnaryOp) : Cuts op.symbol [(op.kind, op.symbol)] := by
  intro rest more hrest
  cases op <;> exact hrest.mark rfl

theorem cuts_operator (op : BinaryOp) : Cuts (" " ++ op.symbol ++ " ") [(op.kind, op.symbol)] := by
  intro rest more hrest
  have hspace := hrest.blank (c := ' ') (by decide)
  rw [String.toList_append, String.toList_append, List.append_assoc, List.append_assoc]
  refine Lexes.blank (by decide) ?_
  cases op <;> exact hspace.mark rfl

theorem apart_operator (op : BinaryOp) (rest : List Char) :
    Apart ((" " ++ op.symbol ++ " ").toList ++ rest) := by
  rw [String.toList_append, String.toList_append]
  exact apart_cons (.inl rfl) _

theorem spells_name {name : String} (h : Identifier name) : Spells name [(.identifier, name)] :=
  fun _ _ hapart hrest => h.lexes hapart.isWordPart hrest

theorem spells_reserved {word : String} {kind : Kind} (hk : Kind.ofWord? word = some kind) :
    Spells word [(kind, word)] :=
  fun _ _ hapart hrest => hrest.reserved hk hapart.isWordPart

theorem spells_value {v : Value} (hv : v.Spellable) : Spells v.text [(v.kind, v.text)] := by
  intro rest more hapart hrest
  cases v with
  | int n =>
    have hdigits := digits_writeNatural n.toInt.toNat
    rw [← writeInteger_nonneg hv] at hdigits
    rw [Value.text, String.toList_ofList]
    exact hrest.integer hdigits hapart.isDigit
  | float x =>
    obtain ⟨d, hd, -⟩ := Double.format_pointed hv.1 hv.2
    rw [Value.text, String.toList_ofList]
    exact hrest.float hd fun c hc => (hapart.isDigit c hc).1
  | bool b => cases b <;> exact hrest.reserved rfl hapart.isWordPart

theorem spells_type (ty : Option Ty) : Spells (typePart ty) (typeWords ty) := by
  cases ty with
  | none => exact fun _ _ _ hrest => hrest
  | some ty =>
    refine Cuts.before (cuts_blank rfl) ?_
    cases ty <;> exact spells_reserved rfl

theorem apart_type (ty : Option Ty) (rest : List Char) (h : Apart rest) :
    Apart ((typePart ty).toList ++ rest) := by
  cases ty with
  | none => exact h
  | some ty =>
    rw [typePart, String.toList_append]
    exact apart_cons (.inl rfl) _

theorem spells_parenthesised {text : String} {words : List Lexeme} (wrap : Bool)
    (h : Spells text words) : Spells (parenthesised wrap text) (wrapped wrap words) := by
  cases wrap with
  | false => exact h
  | true =>
    have hopen : Cuts "(" [(.openParen, "(")] := fun _ _ hrest => hrest.mark rfl
    have hclose : Cuts ")" [(.closeParen, ")")] := fun _ _ hrest => hrest.mark rfl
    exact ((hopen.before h).before hclose fun rest => apart_cons (.inr (.inl rfl)) rest).spells

/-! ## Trees -/

theorem apart_semicolon (rest : List Char) : Apart (";\n".toList ++ rest) :=
  apart_cons (.inr (.inr rfl)) _

theorem cuts_initial {text : String} {words : List Lexeme} (ty : Option Ty)
    (h : Spells text words) : ∀ {before : String} {words' : List Lexeme}, Spells before words' →
    Cuts (before ++ typePart ty ++ " = " ++ text ++ ";\n")
      (words' ++ typeWords ty ++ [(.assignment, "=")] ++ words ++ [(.semicolon, ";")]) := by
  intro before words' hbefore
  have htype := hbefore.append (spells_type ty) (apart_type ty)
  have hequals := htype.before cuts_equals fun rest => apart_cons (.inl rfl) _
  exact (hequals.before h).before cuts_semicolon apart_semicolon

theorem cuts_newline : Cuts "\n" [] := cuts_blank rfl

theorem cuts_else : Cuts " else " [(.elseWord, "else")] := by
  have hword : Kind.ofWord? "else" = some .elseWord := rfl
  intro rest more hrest
  have hspace := hrest.blank (c := ' ') (by decide)
  exact (hspace.reserved hword (by simp; decide)).blank (by decide)

theorem cuts_guarded (depth : Nat) {word test body : String} {words words' words'' : List Lexeme}
    (hword : Cuts word words) (htest : Spells test words') (hbody : Cuts body words'') :
    Cuts (indent depth ++ word ++ test ++ " " ++ body) (words ++ words' ++ words'') := by
  have hspace : Cuts " " [] := cuts_blank rfl
  have hall := ((((cuts_indent depth).append hword).before htest).before hspace
    fun rest => apart_cons (.inl rfl) _).append hbody
  simpa only [List.nil_append, List.append_nil] using hall

mutual

theorem Expr.spells (depth : Nat) : (e : Expr) → (∀ part ∈ e.parts, part.Spellable) →
    Spells (e.text depth) e.words
  | .literal node value, h => by
    have hvalue : value.Spellable := h (.expr (.literal node value)) (by simp [Expr.parts])
    rw [Expr.text, Expr.words]
    exact spells_value hvalue
  | .unary _ op operand, h => by
    rw [Expr.parts] at h
    rw [Expr.text, Expr.words]
    have hoperand := operand.spells depth (List.forall_mem_append.1 h).1
    exact (cuts_sign op).before (spells_parenthesised _ hoperand)
  | .binary _ op left right, h => by
    rw [Expr.parts] at h
    obtain ⟨hleft, hright⟩ := List.forall_mem_append.1 (List.forall_mem_append.1 h).1
    have hl := spells_parenthesised (left.wraps (· < op.precedence)) (left.spells depth hleft)
    have hr := spells_parenthesised (right.wraps (· ≤ op.precedence)) (right.spells depth hright)
    have hall := (hl.before (cuts_operator op) (apart_operator op)).before hr
    rw [Expr.text, Expr.words]
    simpa only [String.append_assoc, List.append_assoc, List.singleton_append] using hall
  | .load node name, h => by
    have hname : Identifier name := h (.expr (.load node name)) (by simp [Expr.parts])
    rw [Expr.text, Expr.words]
    exact spells_name hname
  | .compound _ body, h => by
    rw [Expr.parts] at h
    rw [Expr.text, Expr.words]
    exact (body.cuts depth (List.forall_mem_append.1 h).1).spells

theorem Block.cuts (depth : Nat) : (b : Block) → (∀ part ∈ b.parts, part.Spellable) →
    Cuts (b.text depth) b.words
  | ⟨_, statements⟩, h => by
    rw [Block.parts] at h
    have hall := ((cuts_opening.append (cutsAll (depth + 1) statements h)).append
      (cuts_indent depth)).append cuts_closing
    rw [Block.text, Block.words]
    simpa only [List.append_nil, List.singleton_append] using hall

theorem Stmt.cuts (depth : Nat) : (s : Stmt) → (∀ part ∈ s.parts, part.Spellable) →
    Cuts (s.text depth) s.words
  | .declareVar node name ty none, h => by
    have hpart := h (.stmt (.declareVar node name ty none)) (by simp [Stmt.parts])
    have hvar : Cuts "var " [(.varWord, "var")] := cuts_reserved rfl rfl
    have hname := ((cuts_indent depth).append hvar).before (spells_name hpart.1)
    have hall := (hname.append (spells_type ty) (apart_type ty)).before cuts_semicolon
      apart_semicolon
    rw [Stmt.text, Stmt.words]
    simpa only [List.nil_append, List.append_assoc, List.cons_append] using hall
  | .declareVar node name ty (some init), h => by
    have hpart := h (.stmt (.declareVar node name ty (some init))) (by simp [Stmt.parts])
    rw [Stmt.parts] at h
    have hinit := init.spells depth (List.forall_mem_append.1 h).1
    have hvar : Cuts "var " [(.varWord, "var")] := cuts_reserved rfl rfl
    have hall := cuts_initial ty hinit (((cuts_indent depth).append hvar).before
      (spells_name hpart.1))
    rw [Stmt.text, Stmt.words]
    simpa only [List.nil_append, List.append_assoc, List.cons_append] using hall
  | .declareConst node name ty init, h => by
    have hname : Identifier name :=
      h (.stmt (.declareConst node name ty init)) (by simp [Stmt.parts])
    rw [Stmt.parts] at h
    have hinit := init.spells depth (List.forall_mem_append.1 h).1
    have hconst : Cuts "const " [(.constWord, "const")] := cuts_reserved rfl rfl
    have hall := cuts_initial ty hinit (((cuts_indent depth).append hconst).before
      (spells_name hname))
    rw [Stmt.text, Stmt.words]
    simpa only [List.nil_append, List.append_assoc, List.cons_append] using hall
  | .assign node name value, h => by
    have hname : Identifier name := h (.stmt (.assign node name value)) (by simp [Stmt.parts])
    rw [Stmt.parts] at h
    have hvalue := value.spells depth (List.forall_mem_append.1 h).1
    have hequals := ((cuts_indent depth).before (spells_name hname)).before cuts_equals
      fun rest => apart_cons (.inl rfl) _
    have hall := (hequals.before hvalue).before cuts_semicolon apart_semicolon
    rw [Stmt.text, Stmt.words]
    simpa only [List.nil_append, List.append_assoc, List.cons_append] using hall
  | .print _ value, h => by
    rw [Stmt.parts] at h
    have hvalue := value.spells depth (List.forall_mem_append.1 h).1
    have hprint : Cuts "print " [(.printWord, "print")] := cuts_reserved rfl rfl
    have hall := (((cuts_indent depth).append hprint).before hvalue).before cuts_semicolon
      apart_semicolon
    rw [Stmt.text, Stmt.words]
    simpa only [List.nil_append, List.append_assoc, List.cons_append] using hall
  | .ifElse _ condition consequence none, h => by
    rw [Stmt.parts] at h
    obtain ⟨hcondition, hconsequence⟩ := List.forall_mem_append.1 (List.forall_mem_append.1 h).1
    have hif : Cuts "if " [(.ifWord, "if")] := cuts_reserved rfl rfl
    have hall := (cuts_guarded depth hif (condition.spells depth hcondition)
      (consequence.cuts depth hconsequence)).append cuts_newline
    rw [Stmt.text, Stmt.words]
    simpa only [List.nil_append, List.append_assoc, List.cons_append, List.append_nil] using hall
  | .ifElse _ condition consequence (some alternative), h => by
    rw [Stmt.parts] at h
    obtain ⟨hblocks, halternative⟩ := List.forall_mem_append.1 (List.forall_mem_append.1 h).1
    obtain ⟨hcondition, hconsequence⟩ := List.forall_mem_append.1 hblocks
    have hif : Cuts "if " [(.ifWord, "if")] := cuts_reserved rfl rfl
    have hall := (((cuts_guarded depth hif (condition.spells depth hcondition)
      (consequence.cuts depth hconsequence)).append cuts_else).append
      (alternative.cuts depth halternative)).append cuts_newline
    rw [Stmt.text, Stmt.words]
    simpa only [List.nil_append, List.append_assoc, List.cons_append, List.append_nil] using hall
  | .whileLoop _ condition body, h => by
    rw [Stmt.parts] at h
    obtain ⟨hcondition, hbody⟩ := List.forall_mem_append.1 (List.forall_mem_append.1 h).1
    have hwhile : Cuts "while " [(.whileWord, "while")] := cuts_reserved rfl rfl
    have hall := (cuts_guarded depth hwhile (condition.spells depth hcondition)
      (body.cuts depth hbody)).append cuts_newline
    rw [Stmt.text, Stmt.words]
    simpa only [List.nil_append, List.append_assoc, List.cons_append, List.append_nil] using hall
  | .breakLoop _, h => by
    have hbreak : Spells "break" [(.breakWord, "break")] := spells_reserved rfl
    have htext : "break;\n" = "break" ++ ";\n" := rfl
    rw [Stmt.text, Stmt.words, htext]
    exact (cuts_indent depth).append (hbreak.before cuts_semicolon apart_semicolon)
  | .continueLoop _, h => by
    have hcontinue : Spells "continue" [(.continueWord, "continue")] := spells_reserved rfl
    have htext : "continue;\n" = "continue" ++ ";\n" := rfl
    rw [Stmt.text, Stmt.words, htext]
    exact (cuts_indent depth).append (hcontinue.before cuts_semicolon apart_semicolon)
  | .expr _ value, h => by
    rw [Stmt.parts] at h
    have hvalue := value.spells depth (List.forall_mem_append.1 h).1
    have hall := ((cuts_indent depth).before hvalue).before cuts_semicolon apart_semicolon
    rw [Stmt.text, Stmt.words]
    simpa only [List.nil_append] using hall

theorem cutsAll (depth : Nat) : (list : List Stmt) → (∀ part ∈ partsAll list, part.Spellable) →
    Cuts (textAll depth list) (wordsAll list)
  | [], h => fun _ _ hrest => hrest
  | s :: rest, h => by
    rw [partsAll] at h
    obtain ⟨hs, hrest⟩ := List.forall_mem_append.1 h
    rw [textAll, wordsAll]
    exact (s.cuts depth hs).append (cutsAll depth rest hrest)

end

theorem Program.lexes {p : Program} (h : ∀ part ∈ p.parts, part.Spellable) :
    Lexes p.text.toList (wordsAll p.statements) := by
  have hcuts := cutsAll 0 p.statements h [] [] .nil
  rwa [List.append_nil, List.append_nil] at hcuts

end Leveret
