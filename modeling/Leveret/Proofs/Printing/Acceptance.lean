import Leveret.Proofs.Layout.Meaning

/-!
# Printing accepted programs

The text of a program that was accepted is accepted again, with the same types, as long as none of
its constants is infinite. A decimal that is too large is read as infinity, which is printed as a
word, and the word is read as a name.
-/

namespace Leveret

/-- A program that was accepted and has no infinite constant has a text that is accepted as the
same program with the same types. -/
theorem checkSource_text {source file : String} {p : CheckedProgram}
    (h : checkSource source file = .ok p)
    (hfinite : ∀ part ∈ p.program.parts, part.isInfinite = false) (file' : String) :
    ∃ q, checkSource p.program.text file' = .ok q ∧ p.program.same q.program = true ∧
      q.annotations = p.annotations := by
  obtain ⟨hp, hclean, htable⟩ := checkSource_eq_ok h
  -- the text is lexed and parsed back to a tree of the same outline
  have hspell := Program.spellable_ofSource hp hfinite
  obtain ⟨tokens, eof, hscan, heof, hwords⟩ := Token.scan_of_lexes (Program.lexes hspell) 0
  obtain ⟨d, hd, htree⟩ := derivesAll p.program.statements hspell hwords
  obtain ⟨q, hq, houtline⟩ := Program.exists_ofTokens heof hd
  have hsource : Program.ofSource p.program.text file' = .ok q := bind_eq_ok.2 ⟨_, hscan, hq⟩
  have hsame : p.program.same q = true :=
    Program.same_of_outline (fun part hpart => (hspell part hpart).steady)
      (houtline.trans htree).symm
  -- which the checker cannot tell from the first one
  obtain ⟨hannotations, hcauses⟩ :=
    Program.check_of_alike (Program.alike_of_same hp hsource hsame)
  have hclean' : q.check.errors = [] := by
    rw [hclean, List.map_nil] at hcauses
    exact List.map_eq_nil_iff.1 hcauses.symm
  exact ⟨_, checkSource_of_clean hsource hclean', hsame, hannotations.symm.trans htable.symm⟩

theorem exists_checkSource_text :
    ∃ p q, checkSource "const a=.5; print(a+(a-2.));" "typed" = .ok p ∧
      p.program.text = "const a = 0.5;\nprint a + (a - 2.0);\n" ∧
      checkSource p.program.text "printed" = .ok q ∧ p.program.same q.program = true ∧
      q.annotations = p.annotations := by
  have hcheck : (checkSource "const a=.5; print(a+(a-2.));" "typed").toOption.map
      (fun p => (p.program.text, p.program.parts.any Part.isInfinite)) =
        some ("const a = 0.5;\nprint a + (a - 2.0);\n", false) := by
    decide +kernel
  obtain ⟨p, hp, hparts⟩ := Option.map_eq_some_iff.1 hcheck
  obtain ⟨htext, hany⟩ := Prod.mk.inj hparts
  have hp := toOption_eq_some.1 hp
  have hfinite : ∀ part ∈ p.program.parts, part.isInfinite = false := by
    intro part hpart
    exact Bool.eq_false_iff.2 (List.any_eq_false.1 hany part hpart)
  obtain ⟨q, hq, hsame, htypes⟩ := checkSource_text hp hfinite "printed"
  exact ⟨p, q, hp, htext, hq, hsame, htypes⟩

/-! ## Infinity -/

open Leveret.Parser in
theorem Program.ofTokens_print {text file : String} {x : Double}
    (h : Double.read? text.toList = some x) (s₁ s₂ s₃ : Span) (finish : Position) :
    ofTokens [⟨.printWord, "print", s₁⟩, ⟨.float, text, s₂⟩, ⟨.semicolon, ";", s₃⟩,
        .endOfFile finish] file =
      .ok ⟨[.print ⟨1, s₁.start, s₃.stop⟩ (.literal ⟨0, s₂⟩ (.float x))],
        ⟨⟨0, file⟩, finish⟩⟩ := by
  let c : Cursor := ⟨file, [⟨.printWord, "print", s₁⟩, ⟨.float, text, s₂⟩, ⟨.semicolon, ";", s₃⟩],
    .endOfFile finish, ⟨0, file⟩, 0⟩
  have hword : c.Next ⟨.printWord, "print", s₁⟩ c.advance := ⟨rfl, rfl⟩
  have hnumber : c.advance.Next ⟨.float, text, s₂⟩ c.advance.advance := ⟨rfl, rfl⟩
  have hsemicolon : c.advance.advance.tick.Next ⟨.semicolon, ";", s₃⟩
    c.advance.advance.tick.advance := ⟨rfl, rfl⟩
  have hliteral : Token.literal? ⟨.float, text, s₂⟩ = some (.float x) := by
    simp [Token.literal?, h]
  have hkind : c.kind ≠ .endOfFile := by simp [hword.kind]
  have hstop : ¬ Power.lowest < Kind.semicolon.power := by decide
  refine ofTokens_eq_ok.2 ⟨c.advance.advance.tick.advance.tick, ?_, rfl⟩
  exact .programNext hkind (.print hword rfl (.expr (.literal hnumber hliteral) (.stop hstop))
    hsemicolon rfl) (.programEnd rfl)

def largeDecimal : List Char := '1' :: List.replicate 309 '0' ++ ['.', '0']

def overlarge : String := "print " ++ String.ofList largeDecimal ++ ";"

/-- The program is accepted, and printed as one that is not. -/
theorem overlarge_text_rejected :
    ∃ p, checkSource overlarge "large" = .ok p ∧ p.program.text = "print inf;\n" ∧
      checkSource p.program.text "printed" =
        .error [⟨.undefinedName "inf", ⟨6, "printed"⟩⟩] := by
  have hchars : overlarge.toList = "print ".toList ++ largeDecimal ++ [';'] := by
    simp [overlarge]
  have htokens : Token.scan "large" 0 0 ("print ".toList ++ largeDecimal ++ [';']) =
      .ok [⟨.printWord, "print", .ofIndex 0 5 "large"⟩,
        ⟨.float, String.ofList largeDecimal, .ofIndex 6 312 "large"⟩,
        ⟨.semicolon, ";", .ofIndex 318 1 "large"⟩, .endOfFile (.ofIndex 319 "large")] := by
    decide +kernel
  have hread : Double.read? (String.ofList largeDecimal).toList = some (.infinity false) := by
    rw [String.toList_ofList]
    decide +kernel
  have hsource : Program.ofSource overlarge "large" = .ok
      ⟨[.print ⟨1, ⟨0, "large"⟩, ⟨319, "large"⟩⟩
        (.literal ⟨0, .ofIndex 6 312 "large"⟩ (.float (.infinity false)))],
        ⟨⟨0, "large"⟩, ⟨319, "large"⟩⟩⟩ :=
    bind_eq_ok.2 ⟨_, by rw [Token.ofSource, hchars, htokens], Program.ofTokens_print hread _ _ _ _⟩
  have hcheck : (checkSource "print inf;\n" "printed").map (fun _ => ()) =
      .error [⟨.undefinedName "inf", ⟨6, "printed"⟩⟩] := by
    decide +kernel
  exact ⟨_, checkSource_of_clean hsource rfl, by decide +kernel, map_eq_error.1 hcheck⟩

end Leveret
