import Leveret.Proofs.Grammar.Uniqueness
import Leveret.Proofs.Parsing.Runs

/-!
# The parser is exact

The parser accepts the tokens of a program just if the grammar derives them. The derivation is
then the only one, and the tree is the one it stands for.
-/

namespace Leveret

open Grammar Leveret.Parser

namespace Cursor

theorem ofTokens_append (tokens : List Token) {eof : Token} (h : eof.kind = .endOfFile)
    (file : String) : (ofTokens (tokens ++ [eof]) file).pending = tokens := by
  simp [ofTokens, h]

theorem pending_eq_nil {d : Cursor} (hd : d.Closed) (hend : d.kind = .endOfFile)
    (hno : ∀ t ∈ d.pending, t.kind ≠ .endOfFile) : d.pending = [] := by
  rw [kind_eq_headKind hd] at hend
  cases hp : d.pending with
  | nil => rfl
  | cons t rest =>
    rw [hp] at hend hno
    exact absurd hend (hno t List.mem_cons_self)

end Cursor

section Whole

variable {tokens : List Token} {eof : Token} {file : String}

theorem Parser.Reads.pending_eq_nil {list : List Stmt} {d : Cursor}
    (h : Parser.Reads .program (.ofTokens (tokens ++ [eof]) file) (.stmts list) d)
    (heof : eof.kind = .endOfFile) (hno : ∀ t ∈ tokens, t.kind ≠ .endOfFile) :
    d.pending = [] := by
  obtain ⟨hend, q, hq, -⟩ := reads_follows h
  rw [Cursor.ofTokens_append tokens heof] at hq
  refine Cursor.pending_eq_nil (h.closed (Cursor.ofTokens_closed _ _)) hend fun t ht => ?_
  exact hno t (hq ▸ List.mem_append_right _ ht)

end Whole

namespace Program

variable {tokens : List Token} {eof : Token} {file : String}

theorem exists_derivation {p : Program} (heof : eof.kind = .endOfFile)
    (hno : ∀ t ∈ tokens, t.kind ≠ .endOfFile)
    (h : ofTokens (tokens ++ [eof]) file = .ok p) :
    ∃ d : Sentences, d.tokens = tokens ∧ d.tree = p.outline := by
  obtain ⟨d, hreads, -⟩ := ofTokens_eq_ok.1 h
  obtain ⟨-, q, hq, htree⟩ := reads_follows hreads
  have hnil := hreads.pending_eq_nil heof hno
  rw [Cursor.ofTokens_append tokens heof, hnil, List.append_nil] at hq
  exact ⟨q, hq.symm, htree⟩

theorem exists_ofTokens (heof : eof.kind = .endOfFile) {d : Sentences}
    (hd : d.tokens = tokens) : ∃ p, ofTokens (tokens ++ [eof]) file = .ok p ∧ p.outline = d.tree := by
  have hp : (Cursor.ofTokens (tokens ++ [eof]) file).pending = d.tokens := by
    rw [Cursor.ofTokens_append tokens heof, hd]
  obtain ⟨list, c, hreads, htree, -⟩ := d.accepts_program (Cursor.ofTokens_closed _ _) hp
  exact ⟨⟨list, ⟨0, file⟩, c.position⟩, ofTokens_eq_ok.2 ⟨c, hreads, rfl⟩, htree⟩

theorem derivation_unique {d d' : Sentences} (hd : d.tokens = tokens) (hd' : d'.tokens = tokens) :
    d = d' := by
  have hcloses : Closes [] := .inr rfl
  have h : d.tokens ++ [] = d'.tokens ++ [] := by rw [hd, hd']
  exact (d.unique d' hcloses hcloses h).1

/-- The parser accepts just what the grammar derives, and makes the tree of the derivation, of
which there is only one. -/
theorem ofTokens_iff_derives (heof : eof.kind = .endOfFile)
    (hno : ∀ t ∈ tokens, t.kind ≠ .endOfFile) (file : String) :
    ((∃ p, ofTokens (tokens ++ [eof]) file = .ok p) ↔ ∃ d : Sentences, d.tokens = tokens) ∧
    (∀ p (d : Sentences), ofTokens (tokens ++ [eof]) file = .ok p → d.tokens = tokens →
      p.outline = d.tree) ∧
    ∀ d d' : Sentences, d.tokens = tokens → d'.tokens = tokens → d = d' := by
  refine ⟨⟨?_, ?_⟩, ?_, fun d d' => derivation_unique⟩
  · rintro ⟨p, hp⟩
    obtain ⟨d, hd, -⟩ := exists_derivation heof hno hp
    exact ⟨d, hd⟩
  · rintro ⟨d, hd⟩
    obtain ⟨p, hp, -⟩ := exists_ofTokens heof hd
    exact ⟨p, hp⟩
  · intro p d hp hd
    obtain ⟨d', hd', htree⟩ := exists_derivation heof hno hp
    rw [derivation_unique hd hd', htree]

def twoDashes : List Token :=
  [⟨.identifier, "x", default⟩, ⟨.dash, "-", default⟩, ⟨.identifier, "y", default⟩,
   ⟨.dash, "-", default⟩, ⟨.integer, "1", default⟩, ⟨.semicolon, ";", default⟩]

theorem exists_ofTokens_iff_derives :
    ∃ p, ∃ d : Sentences, ofTokens (twoDashes ++ [.endOfFile default]) "dashes" = .ok p ∧
      d.tokens = twoDashes ∧ p.outline = d.tree ∧
      ∀ d' : Sentences, d'.tokens = twoDashes → d' = d := by
  obtain ⟨hiff, htree, hunique⟩ :=
    @ofTokens_iff_derives twoDashes (.endOfFile default) rfl (by decide) "dashes"
  have hok : (ofTokens (twoDashes ++ [.endOfFile default]) "dashes").toOption.isSome = true := by
    decide +kernel
  obtain ⟨p, hp⟩ := Option.isSome_iff_exists.1 hok
  have hp := toOption_eq_some.1 hp
  obtain ⟨d, hd⟩ := hiff.1 ⟨p, hp⟩
  exact ⟨p, d, hp, hd, htree p d hp hd, fun d' hd' => hunique d' d hd' hd⟩

end Program

end Leveret
