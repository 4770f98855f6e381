import Leveret.Pipeline
import Leveret.Proofs.Grammar.Exactness
import Leveret.Proofs.Parsing.Numbering
import Leveret.Proofs.Printing.Deriving

/-!
# Printing and parsing are inverse

A program that was read from a text can be spelled again: its names and constants come from tokens.
So its printed text has the words of the tree, these derive the tree, and the parser finds it.
-/

namespace Leveret

/-! ## What is read can be spelled -/

/-- A value that some token of a text spells. -/
def Value.Read (v : Value) : Prop := ∃ t : Token, t.Found ∧ t.literal? = some v

/-- The parts come from the tokens of a text. -/
def Written (parts : List Part) : Prop := ∀ part ∈ parts, part.Formed Value.Read

theorem written_nil : Written [] := List.forall_mem_nil _

theorem Written.append {l l' : List Part} (h : Written l) (h' : Written l') : Written (l ++ l') :=
  List.forall_mem_append.2 ⟨h, h'⟩

theorem Written.snoc {l : List Part} {part : Part} (h : Written l)
    (hpart : part.Formed Value.Read) : Written (l ++ [part]) :=
  h.append (List.forall_mem_singleton.2 hpart)

namespace Cursor

def Sourced (c : Cursor) : Prop := ∀ t ∈ c.pending, t.Found

variable {c d : Cursor} {t : Token}

@[grind →]
theorem Next.suffix (h : c.Next t d) : d.pending <:+ c.pending := ⟨[t], h.1.symm⟩

theorem Next.found (h : c.Next t d) (hc : c.Sourced) : t.Found :=
  hc t (h.1 ▸ List.mem_cons_self)

theorem Sourced.later (hc : c.Sourced) (h : d.pending <:+ c.pending) : d.Sourced :=
  fun t ht => hc t (h.subset ht)

end Cursor

namespace Parser

variable {c d : Cursor}

@[grind →]
theorem ReadsType.suffix {ty : Option Ty} (h : ReadsType c ty d) : d.pending <:+ c.pending := by
  cases h with
  | missing => exact List.suffix_rfl
  | stated hn => exact hn.suffix

theorem Reads.suffix {g : Goal} {p : Piece} (h : Reads g c p d) : d.pending <:+ c.pending := by
  induction h <;> grind [List.IsSuffix.trans]

theorem Reads.written {g : Goal} {p : Piece} (h : Reads g c p d) (hc : c.Sourced)
    (hg : Written g.given) : Written p.parts := by
  induction h with
  | literal hn hv => exact written_nil.snoc ⟨_, hn.found hc, hv⟩
  | name hn hk => exact written_nil.snoc ((hn.found hc).identifier hk)
  | signed hn _ _ ih => exact (ih (hc.later hn.suffix) hg).snoc trivial
  | group hn _ _ _ _ ih => exact ih (hc.later hn.suffix) hg
  | compound _ _ ih => exact (ih hc hg).snoc trivial
  | expr h _ ih ih' => exact ih' (hc.later h.suffix) (ih hc written_nil)
  | stop => exact hg
  | join _ hn _ h _ ih ih' =>
    have hd := hc.later hn.suffix
    exact ih' (hd.later h.suffix) ((hg.append (ih hd written_nil)).snoc trivial)
  | block hn _ _ _ _ ih => exact ih (hc.later hn.suffix) hg
  | bodyEnd | programEnd => exact written_nil
  | bodyNext _ _ h _ ih ih' | programNext _ h _ ih ih' =>
    exact (ih hc hg).append (ih' (hc.later h.suffix) hg)
  | ifOnly hn _ h _ _ ih ih' | whileLoop hn _ h _ ih ih' =>
    have hd := hc.later hn.suffix
    exact ((ih hd hg).append (ih' (hd.later h.suffix) hg)).snoc trivial
  | ifElse hn _ h h' hn' _ _ _ ih ih' ih'' =>
    have h₁ := hc.later hn.suffix
    have h₂ := h₁.later h.suffix
    have h₃ := h₂.later (hn'.suffix.trans h'.suffix)
    exact (((ih h₁ hg).append (ih' h₂ hg)).append (ih'' h₃ hg)).snoc trivial
  | ifChain hn _ h h' hn' _ _ _ ih ih' ih'' =>
    have h₁ := hc.later hn.suffix
    have h₂ := h₁.later h.suffix
    have h₃ := h₂.later (hn'.suffix.trans h'.suffix)
    have hnested := (ih'' h₃ hg).append written_nil
    exact (((ih h₁ hg).append (ih' h₂ hg)).append hnested).snoc trivial
  | varZero hn _ hname hid _ _ _ =>
    have hidentifier := (hname.found (hc.later hn.suffix)).identifier hid
    exact written_nil.snoc ⟨hidentifier, by simp⟩
  | varInit hn _ hname hid hty heq _ _ _ _ ih =>
    have h₁ := hc.later hn.suffix
    have h₂ := h₁.later (heq.suffix.trans (hty.suffix.trans hname.suffix))
    exact (ih h₂ hg).snoc ⟨(hname.found h₁).identifier hid, by simp⟩
  | const hn _ hname hid hty heq _ _ _ _ ih =>
    have h₁ := hc.later hn.suffix
    have h₂ := h₁.later (heq.suffix.trans (hty.suffix.trans hname.suffix))
    exact (ih h₂ hg).snoc ((hname.found h₁).identifier hid)
  | assign hn hk heq _ _ _ _ ih =>
    have h₁ := hc.later (heq.suffix.trans hn.suffix)
    exact (ih h₁ hg).snoc ((hn.found hc).identifier hk)
  | print hn _ _ _ _ ih => exact (ih (hc.later hn.suffix) hg).snoc trivial
  | conditional _ _ ih => exact ih hc hg
  | breakLoop | continueLoop => exact written_nil.snoc trivial
  | exprStatement _ _ _ _ _ ih => exact (ih hc hg).snoc trivial

end Parser

theorem Part.Formed.imp {fits fits' : Value → Prop} {part : Part} (h : part.Formed fits)
    (himp : ∀ node value, part = .expr (.literal node value) → fits value → fits' value) :
    part.Formed fits' := by
  cases part with
  | expr e =>
    cases e with
    | literal node value => exact himp node value rfl h
    | load => exact h
    | unary | binary | compound => trivial
  | stmt s =>
    cases s with
    | declareVar | declareConst | assign => exact h
    | print | ifElse | whileLoop | breakLoop | continueLoop | expr => trivial

def Part.isInfinite : Part → Bool
  | .expr (.literal _ (.float x)) => x.magnitude = Double.infinityMagnitude
  | _ => false

theorem Value.Read.spellable {v : Value} (h : v.Read)
    (hfinite : ∀ x, v = .float x → x.magnitude ≠ Double.infinityMagnitude) : v.Spellable := by
  obtain ⟨t, hfound, hv⟩ := h
  unfold Token.literal? at hv
  split at hv
  · rename_i hkind
    obtain ⟨n, hn, rfl⟩ := Option.map_eq_some_iff.1 hv
    exact nonneg_of_readInt32? (hfound.integer hkind) hn
  · rename_i hkind
    obtain ⟨x, hx, rfl⟩ := Option.map_eq_some_iff.1 hv
    obtain ⟨d, hd⟩ := hfound.float hkind
    rw [Double.read?_pointed hd] at hx
    cases hx
    obtain ⟨hsign, hle⟩ := Double.ofDecimal_nonneg d
    exact ⟨decide_eq_true (Nat.lt_of_le_of_ne hle (hfinite _ rfl)), hsign⟩
  · cases hv
    trivial
  · cases hv
    trivial
  · cases hv

theorem Value.Spellable.same_self {v : Value} (h : v.Spellable) : v.same v = true := by
  cases v with
  | int n => exact beq_self_eq_true n
  | float x =>
    have hlt : x.magnitude < Double.infinityMagnitude := of_decide_eq_true h.1
    have hnan : x.isNaN = false := decide_eq_false (Nat.lt_asymm hlt)
    simp [Value.same, Double.equal, Double.ordered, hnan]
  | bool b => exact beq_self_eq_true b

theorem Part.Spellable.steady {part : Part} (h : part.Spellable) : part.Steady := by
  cases part with
  | expr e =>
    cases e with
    | literal node value => exact Value.Spellable.same_self h
    | unary | binary | load | compound => trivial
  | stmt s => trivial

theorem Cursor.mem_of_mem_pending {tokens : List Token} {file : String} {t : Token}
    (h : t ∈ (ofTokens tokens file).pending) : t ∈ tokens := by
  unfold ofTokens at h
  dsimp only at h
  split at h
  · cases h
  · split at h
    · exact (List.dropLast_sublist tokens).subset h
    · exact h

namespace Program

variable {source file : String} {p : Program}

theorem spellable_ofSource (h : ofSource source file = .ok p)
    (hfinite : ∀ part ∈ p.parts, part.isInfinite = false) :
    ∀ part ∈ p.parts, part.Spellable := by
  obtain ⟨tokens, htokens, hp⟩ := bind_eq_ok.1 h
  obtain ⟨d, hreads, -⟩ := ofTokens_eq_ok.1 hp
  have hsourced : (Cursor.ofTokens tokens file).Sourced :=
    fun t ht => Token.found_of_scan htokens t (Cursor.mem_of_mem_pending ht)
  intro part hpart
  refine (hreads.written hsourced written_nil part hpart).imp fun node value heq hread => ?_
  apply hread.spellable
  rintro x rfl
  subst heq
  exact of_decide_eq_false (hfinite _ hpart)

/-- The text of a program that was read, and has no infinite constant, is read as the same
program, and so it prints as the same text. -/
theorem ofSource_text (h : ofSource source file = .ok p)
    (hfinite : ∀ part ∈ p.parts, part.isInfinite = false) (file' : String) :
    ∃ q, ofSource p.text file' = .ok q ∧ p.same q = true ∧ q.text = p.text := by
  have hspell := spellable_ofSource h hfinite
  obtain ⟨tokens, eof, hscan, heof, hwords⟩ := Token.scan_of_lexes (lexes hspell) 0
  obtain ⟨d, hd, htree⟩ := derivesAll p.statements hspell hwords
  obtain ⟨q, hq, houtline⟩ := exists_ofTokens heof hd
  have hsame : p.outline = q.outline := (houtline.trans htree).symm
  refine ⟨q, bind_eq_ok.2 ⟨_, hscan, hq⟩, ?_, (text_of_outline hsame).symm⟩
  exact same_of_outline (fun part hpart => (hspell part hpart).steady) hsame

theorem exists_ofSource_text :
    ∃ p q, ofSource "print --(a-(b-.5))*2;" "typed" = .ok p ∧
      p.text = "print --(a - (b - 0.5)) * 2;\n" ∧
      ofSource p.text "printed" = .ok q ∧ p.same q = true ∧ q.text = p.text := by
  have hparse : (ofSource "print --(a-(b-.5))*2;" "typed").toOption.map
      (fun p => (p.text, p.parts.any Part.isInfinite)) =
        some ("print --(a - (b - 0.5)) * 2;\n", false) := by
    decide +kernel
  obtain ⟨p, hp, hparts⟩ := Option.map_eq_some_iff.1 hparse
  obtain ⟨htext, hany⟩ := Prod.mk.inj hparts
  have hp := toOption_eq_some.1 hp
  have hfinite : ∀ part ∈ p.parts, part.isInfinite = false := by
    intro part hpart
    exact Bool.eq_false_iff.2 (List.any_eq_false.1 hany part hpart)
  obtain ⟨q, hq, hsame, htext'⟩ := ofSource_text hp hfinite "printed"
  exact ⟨p, q, hp, htext, hq, hsame, htext'⟩

end Program

end Leveret
