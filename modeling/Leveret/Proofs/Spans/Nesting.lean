import Leveret.Proofs.Grammar.FirstFault
import Leveret.Proofs.Spans.Stretches
import Leveret.Proofs.Tokens.Lossless

/-!
# Spans nest

Tokens stand in their source one after another. So the span of a node lies within the span of the
node above it, and the spans of nodes side by side are apart and in order.
-/

namespace Leveret

/-! ## Tokens in order -/

def Span.Within (inner outer : Span) : Prop :=
  outer.start.offset ≤ inner.start.offset ∧ inner.stop.offset ≤ outer.stop.offset

def Span.Before (span span' : Span) : Prop := span.stop.offset ≤ span'.start.offset

structure InOrder (tokens : List Token) : Prop where
  forwards : ∀ t ∈ tokens, t.span.start.offset ≤ t.span.stop.offset
  pairwise : tokens.Pairwise fun t u => t.span.Before u.span

section InOrder

variable {tokens own own' more : List Token} {span span' : Span} {t first last : Token}

theorem InOrder.part (h : InOrder tokens) (hi : own <:+: tokens) : InOrder own where
  forwards t ht := h.forwards t (hi.subset ht)
  pairwise := h.pairwise.sublist hi.sublist

theorem InOrder.first_le (h : InOrder tokens) (hfirst : tokens.head? = some first)
    (ht : t ∈ tokens) : first.span.start.offset ≤ t.span.start.offset := by
  obtain ⟨rest, rfl⟩ := List.head?_eq_some_iff.1 hfirst
  rcases List.mem_cons.1 ht with rfl | ht
  · exact Nat.le_refl _
  · have hforwards := h.forwards first List.mem_cons_self
    have hbefore := (List.pairwise_cons.1 h.pairwise).1 t ht
    unfold Span.Before at hbefore
    omega

theorem InOrder.le_last (h : InOrder tokens) (hlast : tokens.getLast? = some last)
    (ht : t ∈ tokens) : t.span.stop.offset ≤ last.span.stop.offset := by
  obtain ⟨before, rfl⟩ := List.getLast?_eq_some_iff.1 hlast
  rcases List.mem_append.1 ht with ht | ht
  · have hforwards := h.forwards last (by simp)
    have hbefore := (List.pairwise_append.1 h.pairwise).2.2 t ht last (by simp)
    unfold Span.Before at hbefore
    omega
  · obtain rfl := List.mem_singleton.1 ht
    exact Nat.le_refl _

theorem Span.Encloses.within (h : InOrder tokens) (hs : span.Encloses tokens)
    (hs' : span'.Encloses own) (hi : own <:+: tokens) : span'.Within span := by
  obtain ⟨first, last, hfirst, hlast, rfl⟩ := hs
  obtain ⟨first', last', hfirst', hlast', rfl⟩ := hs'
  have hmem := hi.subset (List.mem_of_head? hfirst')
  have hmem' := hi.subset (List.mem_of_getLast? hlast')
  exact ⟨h.first_le hfirst hmem, h.le_last hlast hmem'⟩

theorem Span.Encloses.before (h : InOrder (own ++ more)) (hs : span.Encloses own)
    (hs' : span'.Encloses own') (hi : own' <:+: more) : span.Before span' := by
  obtain ⟨first, last, hfirst, hlast, rfl⟩ := hs
  obtain ⟨first', last', hfirst', hlast', rfl⟩ := hs'
  have hmem := List.mem_of_getLast? hlast
  have hmem' := hi.subset (List.mem_of_head? hfirst')
  exact (List.pairwise_append.1 h.pairwise).2.2 _ hmem _ hmem'

end InOrder

/-! ## Children -/

section Children

variable {site child : Site} {sites : List Site} {own : List Token}

theorem MadeAll.of_mem (h : MadeAll sites own) (hc : child ∈ sites) :
    ∃ part, part <:+: own ∧ Made child part := by
  induction sites generalizing own with
  | nil => cases hc
  | cons site rest ih =>
    cases h with
    | @cons _ _ part more gap hsite hrest =>
      rcases List.mem_cons.1 hc with rfl | hc
      · exact ⟨part, ⟨gap, more, rfl⟩, hsite⟩
      · obtain ⟨part', hi, hmade⟩ := ih hrest hc
        exact ⟨part', hi.trans (List.suffix_append (gap ++ part) more).isInfix, hmade⟩

theorem Made.within (h : Made site own) (ho : InOrder own) (hc : child ∈ site.children) :
    child.span.Within site.span := by
  obtain ⟨part, hi, hchild⟩ := h.children.of_mem hc
  exact h.encloses.within ho hchild.encloses hi

theorem MadeAll.pairwise (h : MadeAll sites own) (ho : InOrder own) :
    sites.Pairwise fun a b => a.span.Before b.span := by
  induction sites generalizing own with
  | nil => exact .nil
  | cons site rest ih =>
    cases h with
    | @cons _ _ part more gap hsite hrest =>
      have hmore : more <:+: gap ++ part ++ more := (List.suffix_append _ _).isInfix
      refine .cons (fun child hc => ?_) (ih hrest (ho.part hmore))
      obtain ⟨part', hi, hchild⟩ := hrest.of_mem hc
      have hbehind : part ++ more <:+: gap ++ part ++ more := ⟨gap, [], by simp⟩
      exact hsite.encloses.before (ho.part hbehind) hchild.encloses hi

end Children

/-! ## Whole programs -/

/-- The statements of a program and everything below them. -/
inductive Program.Has (p : Program) : Site → Prop
  | statement {s} : s ∈ p.statements → p.Has (.stmt s)
  | child {site child} : p.Has site → child ∈ site.children → p.Has child

namespace Program

variable {source file : String} {p : Program} {words : List Token}

theorem Has.made {site : Site} (h : p.Has site) (hp : MadeAll (p.statements.map .stmt) words) :
    ∃ own, own <:+: words ∧ Made site own := by
  induction h with
  | statement hs => exact hp.of_mem (List.mem_map_of_mem hs)
  | child _ hc ih =>
    obtain ⟨own, hi, hmade⟩ := ih
    obtain ⟨part, hi', hchild⟩ := hmade.children.of_mem hc
    exact ⟨part, hi'.trans hi, hchild⟩

theorem inOrder_ofSource {tokens : List Token} (hsize : source.utf8ByteSize < 2 ^ 32)
    (h : Token.ofSource source file = .ok tokens) : ∃ words,
      tokens = words ++ [.endOfFile ⟨source.utf8ByteSize, file⟩] ∧ InOrder words ∧
      ∀ t ∈ words, t.span.stop.offset ≤ source.utf8ByteSize := by
  obtain ⟨words, rfl, hlaid⟩ := Token.laid_of_ofSource hsize h
  refine ⟨words, rfl, ⟨fun t ht => ?_, hlaid.pairwise⟩, fun t ht => ?_⟩
  · obtain ⟨before, behind, -, hspan⟩ := (hlaid.cutFrom ht).slice
    rw [hspan, String.utf8ByteSize_append]
    exact Nat.le_add_right ..
  · obtain ⟨before, behind, hsource, hspan⟩ := (hlaid.cutFrom ht).slice
    rw [hspan, hsource, @String.utf8ByteSize_append (before ++ t.text)]
    exact Nat.le_add_right ..

theorem madeAll_ofTokens {eof : Token} (heof : eof.kind = .endOfFile)
    (hno : ∀ t ∈ words, t.kind ≠ .endOfFile) (h : ofTokens (words ++ [eof]) file = .ok p) :
    MadeAll (p.statements.map .stmt) words ∧ p.span = ⟨⟨0, file⟩, eof.span.start⟩ := by
  obtain ⟨d, hreads, hspan⟩ := ofTokens_eq_ok.1 h
  have hnil := hreads.pending_eq_nil heof hno
  obtain ⟨read, hread, hall⟩ := hreads.stands
  rw [Cursor.ofTokens_append words heof, hnil, List.append_nil] at hread
  subst hread
  have hfinal : (Cursor.ofTokens (words ++ [eof]) file).final = eof := by
    simp [Cursor.ofTokens, heof]
  refine ⟨hall, ?_⟩
  rw [hspan, Cursor.position, Cursor.current, hnil, List.headD_nil, hreads.final, hfinal]

/-- The spans of the program: each of its nodes and blocks is made of some of its tokens, lies
within the node above it and within the whole, and its children follow one another. -/
theorem ofSource_spans (hsize : source.utf8ByteSize < 2 ^ 32) (h : ofSource source file = .ok p) :
    p.span = ⟨⟨0, file⟩, ⟨source.utf8ByteSize, file⟩⟩ ∧
    (p.statements.map Site.stmt).Pairwise (fun a b => a.span.Before b.span) ∧
    ∃ words, Token.ofSource source file = .ok (words ++ [.endOfFile ⟨source.utf8ByteSize, file⟩]) ∧
      ∀ site, p.Has site →
        (∃ own, own <:+: words ∧ site.span.Encloses own ∧ site.Whole own) ∧
        site.span.Within p.span ∧ (∀ child ∈ site.children, child.span.Within site.span) ∧
        site.children.Pairwise fun a b => a.span.Before b.span := by
  obtain ⟨tokens, htokens, hp⟩ := bind_eq_ok.1 h
  obtain ⟨words, rfl, hwords, hbound⟩ := inOrder_ofSource hsize htokens
  have hno : ∀ t ∈ words, t.kind ≠ .endOfFile := by
    obtain ⟨words', eof, hsame, -, hplain⟩ := Token.plain_of_scan htokens
    obtain ⟨rfl, -⟩ := List.append_inj' hsame rfl
    exact fun t ht => (hplain t ht).kind_ne
  obtain ⟨hall, hspan⟩ := madeAll_ofTokens rfl hno hp
  refine ⟨hspan, hall.pairwise hwords, words, htokens, fun site hsite => ?_⟩
  obtain ⟨own, hi, hmade⟩ := hsite.made hall
  have hown := hwords.part hi
  refine ⟨⟨own, hi, hmade.encloses, hmade.whole⟩, ?_, fun child => hmade.within hown,
    hmade.children.pairwise hown⟩
  obtain ⟨first, last, -, hlast, hsite⟩ := hmade.encloses
  rw [hspan, hsite]
  exact ⟨Nat.zero_le _, hbound last (hi.subset (List.mem_of_getLast? hlast))⟩

/-- The test begins within parentheses, and a whole conditional stands for the last block. -/
theorem exists_ofSource_spans : ∃ p words,
    ofSource "if (1) < 2 \x7b\x7d else if true \x7b\x7d" "demo" = .ok p ∧
    (p.statements.map fun s => (Site.stmt s).children.map Site.span) =
      [[⟨⟨4, "demo"⟩, ⟨10, "demo"⟩⟩, ⟨⟨11, "demo"⟩, ⟨13, "demo"⟩⟩,
        ⟨⟨19, "demo"⟩, ⟨29, "demo"⟩⟩]] ∧
    p.span = ⟨⟨0, "demo"⟩, ⟨29, "demo"⟩⟩ ∧
    Token.ofSource "if (1) < 2 \x7b\x7d else if true \x7b\x7d" "demo" =
      .ok (words ++ [.endOfFile ⟨29, "demo"⟩]) ∧
    ∀ site, p.Has site → (∃ own, own <:+: words ∧ site.span.Encloses own ∧ site.Whole own) ∧
      site.span.Within p.span ∧ (∀ child ∈ site.children, child.span.Within site.span) ∧
      site.children.Pairwise fun a b => a.span.Before b.span := by
  have hparse : (ofSource "if (1) < 2 \x7b\x7d else if true \x7b\x7d" "demo").toOption.map
      (fun p => p.statements.map fun s => (Site.stmt s).children.map Site.span) =
        some [[⟨⟨4, "demo"⟩, ⟨10, "demo"⟩⟩, ⟨⟨11, "demo"⟩, ⟨13, "demo"⟩⟩,
          ⟨⟨19, "demo"⟩, ⟨29, "demo"⟩⟩]] := by
    decide +kernel
  obtain ⟨p, hp, hspans⟩ := Option.map_eq_some_iff.1 hparse
  have hp := toOption_eq_some.1 hp
  obtain ⟨hspan, -, words, hwords, hall⟩ := ofSource_spans (by decide) hp
  exact ⟨p, words, hp, hspans, hspan, hwords, hall⟩

end Program

end Leveret
