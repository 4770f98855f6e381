import Leveret.Proofs.Tokens.Matching

/-!
# Nothing of a source is lost

A source falls into the texts of its tokens and the blanks and comments around them. Each token
stands where it was cut from and is the longest text that could be cut off there, and where the
lexer gives up nothing could be.
-/

namespace Leveret

open Text Pattern

/-- A piece of text that makes no token, with what follows it: all the blanks that stand together,
a comment up to the end of its line, or one up to the first `*/`. -/
inductive Skipped : List Char → List Char → Prop
  | blanks {piece rest} : piece ≠ [] → (∀ c ∈ piece, isBlank c = true) →
      (∀ c ∈ rest.head?, isBlank c = false) → Skipped piece rest
  | lineComment {body rest} : '\n' ∉ body → (∀ c ∈ rest.head?, c = '\n') →
      Skipped ('/' :: '/' :: body) rest
  | blockComment {body rest} : ¬ ['*', '/'] <:+: body ++ ['*'] →
      Skipped ('/' :: '*' :: (body ++ ['*', '/'])) rest

/-- The text, which starts at `offset` and is followed by `rest`, is made up of the tokens and of
what is skipped around them. -/
inductive Laid (file : String) (rest : List Char) : Nat → List Char → List Token → Prop
  | done {offset} : Laid file rest offset [] []
  | skip {offset piece text tokens} : Skipped piece (text ++ rest) →
      Laid file rest (offset + byteSize piece) text tokens →
      Laid file rest offset (piece ++ text) tokens
  | token {offset} {pattern : Pattern} {word kind text tokens} :
      pattern.Takes word (text ++ rest) → pattern.kind? word = some kind →
      Laid file rest (offset + byteSize word) text tokens →
      Laid file rest offset (word ++ text)
        (⟨kind, String.ofList word, ⟨offset, file⟩, ⟨offset + byteSize word, file⟩⟩ :: tokens)

theorem Position.ofIndex_of_lt {index : Nat} {file : String} (h : index < 2 ^ 32) :
    Position.ofIndex index file = ⟨index, file⟩ :=
  congrArg (Position.mk · file) (Nat.mod_eq_of_lt h)

namespace Token

/-! ## What is skipped -/

theorem head_of_takeWhile_append {p : Char → Bool} {text rest : List Char}
    (h : (text ++ rest).takeWhile p = text) : ∀ c ∈ rest.head?, p c = false := by
  intro c hc
  obtain ⟨rest, rfl⟩ := List.head?_eq_some_iff.1 hc
  have hall : ∀ c ∈ text, p c = true := by
    rw [← h]
    exact List.all_eq_true.1 List.all_takeWhile
  rw [List.takeWhile_append_of_pos hall, List.append_right_eq_self] at h
  rw [Bool.eq_false_iff]
  intro htrue
  rw [List.takeWhile_cons_of_pos htrue] at h
  cases h

theorem skipped_of_first? {p : Pattern} {text rest : List Char}
    (h : first? (text ++ rest) = some (p, text)) (hkind : p.kind? text = none) :
    Skipped text rest := by
  obtain ⟨-, hfound⟩ := of_first? h
  cases p with
  | blanks =>
    have hrun : (text ++ rest).takeWhile isBlank = text := by
      simp only [lexeme?, run?] at hfound
      split at hfound
      · cases hfound
      · exact Option.some.inj hfound
    exact .blanks (run?_ne_nil hfound) (all_of_run? hfound) (head_of_takeWhile_append hrun)
  | lineComment =>
    simp only [lexeme?, lineComment?] at hfound
    split at hfound
    · rename_i input hinput
      obtain rfl := Option.some.inj hfound
      have hbody : input = input.takeWhile (· ≠ '\n') ++ rest := by simpa using hinput.symm
      refine .lineComment ne_newline_of_mem_takeWhile fun c hc => ?_
      have hstop := head_of_takeWhile_append (p := (· ≠ '\n'))
        (congrArg (List.takeWhile (· ≠ '\n')) hbody.symm) c hc
      simpa using hstop
    · cases hfound
  | blockComment =>
    simp only [lexeme?, blockComment?] at hfound
    split at hfound
    · obtain ⟨tail, htail, rfl⟩ := Option.map_eq_some_iff.1 hfound
      obtain ⟨body, rfl, hbody⟩ := throughClose?_eq_some htail
      exact .blockComment hbody
    · cases hfound
  | word | decimal | digits | mark => cases hkind

/-! ## The run of the lexer -/

/-- What the lexer answers when it has cut off `words` and stands at `offset`: the words, with the
end of the source behind them, or the character that no pattern can begin with there. -/
inductive Ends (file : String) (offset : Nat) :
    List Char → List Token → Except Diagnostic (List Token) → Prop
  | whole {words} : Ends file offset [] words (.ok (words ++ [.endOfFile ⟨offset, file⟩]))
  | stuck {c rest words} : (∀ p ∈ Pattern.all, ¬ p.Applies (c :: rest)) →
      Ends file offset (c :: rest) words
        (.error ⟨.unrecognisedToken (String.singleton c), ⟨offset, file⟩⟩)

theorem Ends.cons {file : String} {offset : Nat} {rest : List Char} {words : List Token}
    {answer : Except Diagnostic (List Token)} (h : Ends file offset rest words answer)
    (t : Token) : Ends file offset rest (t :: words) (answer.map (t :: ·)) := by
  cases h with
  | whole => exact .whole
  | stuck hnone => exact .stuck hnone

theorem scan_laid (file : String) (text : List Char) (offset : Nat)
    (hsize : offset + byteSize text < 2 ^ 32) :
    ∃ before after words, text = before ++ after ∧ Laid file after offset before words ∧
      Ends file (offset + byteSize before) after words (scan file 0 offset text) := by
  induction hlength : text.length using Nat.strongRecOn generalizing text offset with
  | ind n ih =>
    cases hfirst : first? text with
    | none =>
      refine ⟨[], text, [], rfl, .done, ?_⟩
      have hoffset : Position.ofIndex offset file = ⟨offset, file⟩ :=
        Position.ofIndex_of_lt (by omega)
      cases text with
      | nil =>
        rw [scan, hoffset]
        exact .whole
      | cons c rest =>
        rw [scan, hfirst, hoffset]
        refine .stuck fun p hp => ?_
        have hnone := List.findSome?_eq_none_iff.1 hfirst p hp
        exact lexeme?_eq_none.1 (Option.map_eq_none_iff.1 hnone)
    | some found =>
      obtain ⟨p, word⟩ := found
      obtain ⟨hp, hlexeme⟩ := of_first? hfirst
      obtain ⟨text, rfl⟩ := lexeme?_isPrefix hlexeme
      rw [byteSize_append] at hsize
      have hshorter : text.length < n := by
        have := List.length_pos_iff.2 (lexeme?_ne_nil hp hlexeme)
        rw [List.length_append] at hlength
        omega
      obtain ⟨before, after, words, rfl, hlaid, hends⟩ :=
        ih text.length hshorter text (offset + byteSize word) (by omega) rfl
      have hsplit : word ++ (before ++ after) = word ++ before ++ after := by simp
      rw [Nat.add_assoc, ← byteSize_append] at hends
      rw [scan_of_first? hfirst]
      cases hkind : p.kind? word with
      | none =>
        exact ⟨word ++ before, after, words, hsplit,
          .skip (skipped_of_first? hfirst hkind) hlaid, hends⟩
      | some kind =>
        have hspan : Span.ofIndex offset (byteSize word) file =
            ⟨⟨offset, file⟩, ⟨offset + byteSize word, file⟩⟩ := by
          rw [Span.ofIndex, Position.ofIndex_of_lt (by omega), Position.ofIndex_of_lt (by omega)]
        dsimp only
        rw [hspan]
        exact ⟨word ++ before, after, _, hsplit,
          .token (takes_of_first? hfirst hkind) hkind hlaid, hends.cons _⟩

/-! ## Where tokens stand and what they are -/

/-- The token stands in the source where its span says, between whole characters. -/
structure CutFrom (source file : String) (t : Token) : Prop where
  nonempty : t.text ≠ ""
  slice : ∃ before behind, source = before ++ t.text ++ behind ∧
    t.span = ⟨⟨before.utf8ByteSize, file⟩, ⟨(before ++ t.text).utf8ByteSize, file⟩⟩

/-- A word is reserved if the whole of it is in the table, and a name if not. -/
structure Named (t : Token) : Prop where
  reserved : ∀ kind ∈ Kind.reserved.map Prod.snd,
    t.kind = kind ↔ (t.text, kind) ∈ Kind.reserved
  identifier : t.kind = .identifier ↔
    isWord t.text.toList = true ∧ t.text ∉ Kind.reserved.map Prod.fst

end Token

section Laid

variable {file : String} {rest text : List Char} {offset : Nat} {tokens : List Token}

theorem Laid.slice (h : Laid file rest offset text tokens) {t : Token} (ht : t ∈ tokens) :
    t.text ≠ "" ∧ ∃ before behind, text = before ++ t.text.toList ++ behind ∧
      t.span = ⟨⟨offset + byteSize before, file⟩,
        ⟨offset + byteSize (before ++ t.text.toList), file⟩⟩ := by
  induction h with
  | done => cases ht
  | @skip offset piece text tokens _ _ ih =>
    obtain ⟨hne, before, behind, rfl, hspan⟩ := ih ht
    refine ⟨hne, piece ++ before, behind, by simp, ?_⟩
    simpa [byteSize_append, Nat.add_assoc] using hspan
  | @token offset pattern word kind text tokens htakes hkind _ ih =>
    rcases List.mem_cons.1 ht with rfl | ht
    · obtain ⟨before, behind, hall, -⟩ := htakes.first
      have hne := htakes.belongs.ne_nil (by simp [hall])
      refine ⟨by simpa using hne, [], text, by simp, ?_⟩
      simp
    · obtain ⟨hne, before, behind, rfl, hspan⟩ := ih ht
      refine ⟨hne, word ++ before, behind, by simp, ?_⟩
      simpa [byteSize_append, Nat.add_assoc] using hspan

theorem Laid.pairwise (h : Laid file rest offset text tokens) :
    tokens.Pairwise fun t u => t.span.stop.offset ≤ u.span.start.offset := by
  induction h with
  | done => exact .nil
  | skip _ _ ih => exact ih
  | token _ _ hlaid ih =>
    refine .cons (fun u hu => ?_) ih
    obtain ⟨-, before, behind, -, hspan⟩ := hlaid.slice hu
    rw [hspan]
    exact Nat.le_add_right _ _

end Laid

namespace Pattern

theorem Matches.isWord_eq_false {p : Pattern} {text : List Char} {kind : Kind}
    (h : p.Matches text) (hp : p ∈ all) (hkind : p.kind? text = some kind) (hword : p ≠ .word) :
    isWord text = false := by
  have hall : ∀ p ∈ all, p.kind? [] ≠ none → p ≠ .word → Pattern.word.outranks p = true := by
    decide
  have hsome : p.kind? [] ≠ none := by
    cases p with
    | blanks | lineComment | blockComment => cases hkind
    | word => exact absurd rfl hword
    | decimal | digits | mark => nofun
  obtain ⟨c, text, rfl⟩ := List.exists_cons_of_ne_nil (h.ne_nil hp)
  rw [isWord, Bool.and_eq_false_iff]
  left
  have hname : Pattern.word.kind? [] = some .identifier := by decide
  rcases outranks_cases (hall p hp hsome hword) hname with
    hapart | ⟨hne, -⟩ | ⟨_, _, _, _, hne, -⟩
  · rw [Bool.eq_false_iff]
    intro hstart
    have hbegins := hapart c hstart
    rw [h.begins] at hbegins
    cases hbegins
  · cases hne
  · cases hne

theorem kind?_not_reserved {p : Pattern} {text : List Char} {kind : Kind} (hp : p ∈ all)
    (hkind : p.kind? text = some kind) (hword : p ≠ .word) :
    kind ∉ Kind.reserved.map Prod.snd ∧ kind ≠ .identifier := by
  have hall : ∀ p ∈ all, p ≠ .word → ∀ kind ∈ p.kind? [],
      kind ∉ Kind.reserved.map Prod.snd ∧ kind ≠ .identifier := by decide
  refine hall p hp hword kind ?_
  cases p with
  | blanks | lineComment | blockComment => cases hkind
  | word => exact absurd rfl hword
  | decimal | digits | mark => exact hkind

theorem ofWord?_eq_some {word : String} {kind : Kind} :
    Kind.ofWord? word = some kind ↔ (word, kind) ∈ Kind.reserved := by
  have hall : ∀ entry ∈ Kind.reserved, Kind.ofWord? entry.1 = some entry.2 := by decide
  exact ⟨mem_reserved, hall (word, kind)⟩

theorem ofWord?_eq_none {word : String} :
    Kind.ofWord? word = none ↔ word ∉ Kind.reserved.map Prod.fst := by
  rw [Option.eq_none_iff_forall_ne_some, List.mem_map, not_exists]
  constructor
  · rintro h ⟨_, kind⟩ ⟨hmem, rfl⟩
    exact h kind (ofWord?_eq_some.2 hmem)
  · intro h kind hkind
    exact h (word, kind) ⟨ofWord?_eq_some.1 hkind, rfl⟩

theorem Matches.named {p : Pattern} {text : List Char} {kind : Kind} (span : Span)
    (h : p.Matches text) (hp : p ∈ all) (hkind : p.kind? text = some kind) :
    Token.Named ⟨kind, String.ofList text, span⟩ := by
  have hall : ∀ entry ∈ Kind.reserved, isWord entry.1.toList = true ∧ entry.2 ≠ .identifier := by
    decide
  by_cases hword : p = .word
  · subst hword
    have hisWord : isWord (String.ofList text).toList = true := by
      rw [String.toList_ofList]
      cases h with
      | word hstart hpart =>
        rw [isWord, hstart, List.all_eq_true.2 hpart]
        rfl
    have hkind : (Kind.ofWord? (String.ofList text)).getD .identifier = kind :=
      Option.some.inj hkind
    refine ⟨fun kind' hkind' => ?_, ?_⟩
    · rw [← ofWord?_eq_some, ← hkind]
      obtain ⟨entry, hentry, rfl⟩ := List.mem_map.1 hkind'
      cases hfound : Kind.ofWord? (String.ofList text) with
      | none => simpa using (hall entry hentry).2.symm
      | some found => simp
    · rw [← ofWord?_eq_none, ← hkind]
      cases hfound : Kind.ofWord? (String.ofList text) with
      | none => exact ⟨fun _ => ⟨hisWord, rfl⟩, fun _ => rfl⟩
      | some found => simpa using (hall _ (ofWord?_eq_some.1 hfound)).2
  · obtain ⟨hnot, hname⟩ := kind?_not_reserved hp hkind hword
    have hisWord : isWord (String.ofList text).toList = false := by
      rw [String.toList_ofList]
      exact h.isWord_eq_false hp hkind hword
    refine ⟨fun kind' hkind' => ⟨?_, fun hmem => ?_⟩, fun heq => absurd heq hname, fun hboth => ?_⟩
    · rintro rfl
      exact absurd hkind' hnot
    · have hlooks := (hall _ hmem).1
      rw [hisWord] at hlooks
      cases hlooks
    · rw [hisWord] at hboth
      cases hboth.1

end Pattern

theorem Laid.named {file : String} {rest text : List Char} {offset : Nat} {tokens : List Token}
    (h : Laid file rest offset text tokens) : ∀ t ∈ tokens, t.Named := by
  induction h with
  | done => nofun
  | skip _ _ ih => exact ih
  | token htakes hkind _ ih =>
    obtain ⟨before, behind, hall, -⟩ := htakes.first
    refine List.forall_mem_cons.2 ⟨?_, ih⟩
    exact htakes.belongs.named _ (by simp [hall]) hkind

/-! ## Whole sources -/

section Whole

variable {source file : String} {tokens words : List Token}

/-- The tokens of a source that is not too long, up to the one that ends it, are laid out in the
whole of it. -/
theorem Token.laid_of_ofSource (hsize : source.utf8ByteSize < 2 ^ 32)
    (h : Token.ofSource source file = .ok tokens) : ∃ words,
      tokens = words ++ [.endOfFile ⟨source.utf8ByteSize, file⟩] ∧
      Laid file [] 0 source.toList words := by
  obtain ⟨before, after, words, hsplit, hlaid, hends⟩ :=
    scan_laid file source.toList 0 (by rwa [Nat.zero_add, byteSize_toList])
  have hscan : scan file 0 0 source.toList = .ok tokens := h
  rw [hscan, Nat.zero_add] at hends
  cases hends with
  | whole =>
    rw [List.append_nil] at hsplit
    subst hsplit
    exact ⟨words, by rw [byteSize_toList], hlaid⟩

theorem Laid.cutFrom (h : Laid file [] 0 source.toList words) {t : Token} (ht : t ∈ words) :
    t.CutFrom source file := by
  obtain ⟨hne, before, behind, hsource, hspan⟩ := h.slice ht
  refine ⟨hne, String.ofList before, String.ofList behind, ?_, ?_⟩
  · exact String.toList_inj.1 (by simp [hsource])
  · rw [hspan, ← byteSize_toList, ← byteSize_toList, String.toList_append,
      String.toList_ofList, Nat.zero_add, Nat.zero_add]

end Whole

/-- A source that is not too long for its places to be counted falls into tokens and what stands
between them, or up to the first character that nothing can begin with. -/
theorem Token.ofSource_lossless (source file : String) (hsize : source.utf8ByteSize < 2 ^ 32) :
    (∀ tokens, Token.ofSource source file = .ok tokens → ∃ words,
      tokens = words ++ [.endOfFile ⟨source.utf8ByteSize, file⟩] ∧
      Laid file [] 0 source.toList words ∧ (∀ t ∈ words, t.CutFrom source file ∧ t.Named) ∧
      words.Pairwise fun t u => t.span.stop.offset ≤ u.span.start.offset) ∧
    ∀ d, Token.ofSource source file = .error d → ∃ before c after words,
      source = before ++ String.singleton c ++ after ∧
      Laid file (c :: after.toList) 0 before.toList words ∧
      (∀ p ∈ Pattern.all, ¬ p.Applies (c :: after.toList)) ∧
      d = ⟨.unrecognisedToken (String.singleton c), ⟨before.utf8ByteSize, file⟩⟩ := by
  rw [← byteSize_toList] at hsize
  obtain ⟨before, after, words, hsplit, hlaid, hends⟩ :=
    scan_laid file source.toList 0 (by omega)
  rw [Nat.zero_add] at hends
  refine ⟨fun tokens hok => ?_, fun d herror => ?_⟩
  · rw [Token.ofSource] at hok
    rw [hok] at hends
    cases hends with
    | whole =>
      rw [List.append_nil] at hsplit
      subst hsplit
      refine ⟨words, by rw [byteSize_toList], hlaid, fun t ht => ⟨?_, hlaid.named t ht⟩,
        hlaid.pairwise⟩
      obtain ⟨hne, before, behind, hsource, hspan⟩ := hlaid.slice ht
      refine ⟨hne, String.ofList before, String.ofList behind, ?_, ?_⟩
      · exact String.toList_inj.1 (by simp [hsource])
      · rw [hspan, ← byteSize_toList, ← byteSize_toList, String.toList_append,
          String.toList_ofList, Nat.zero_add, Nat.zero_add]
  · rw [Token.ofSource] at herror
    rw [herror] at hends
    cases hends with
    | @stuck c rest _ hnone =>
      refine ⟨String.ofList before, c, String.ofList rest, words, ?_, by simpa using hlaid,
        by simpa using hnone, ?_⟩
      · exact String.toList_inj.1 (by simp [hsplit])
      · rw [← byteSize_toList, String.toList_ofList]

/-- A name that begins like a reserved word, between comments, and a character that begins
nothing. -/
theorem Token.exists_ofSource_lossless :
    (∃ words, Token.ofSource "/* é */ ifs<=.5// end" "demo" =
        .ok (words ++ [.endOfFile ⟨22, "demo"⟩]) ∧
      words.map Token.lexeme = [(.identifier, "ifs"), (.lessEquals, "<="), (.float, ".5")] ∧
      Laid "demo" [] 0 "/* é */ ifs<=.5// end".toList words ∧
      (∀ t ∈ words, t.CutFrom "/* é */ ifs<=.5// end" "demo" ∧ t.Named) ∧
      words.Pairwise fun t u => t.span.stop.offset ≤ u.span.start.offset) ∧
    ∃ before c after words, Token.ofSource "if é" "demo" =
        .error ⟨.unrecognisedToken (String.singleton c), ⟨before.utf8ByteSize, "demo"⟩⟩ ∧
      "if é" = before ++ String.singleton c ++ after ∧ String.singleton c = "é" ∧
      Laid "demo" (c :: after.toList) 0 before.toList words ∧
      ∀ p ∈ Pattern.all, ¬ p.Applies (c :: after.toList) := by
  have hok : Token.ofSource "/* é */ ifs<=.5// end" "demo" =
      .ok [⟨.identifier, "ifs", ⟨⟨9, "demo"⟩, ⟨12, "demo"⟩⟩⟩,
        ⟨.lessEquals, "<=", ⟨⟨12, "demo"⟩, ⟨14, "demo"⟩⟩⟩,
        ⟨.float, ".5", ⟨⟨14, "demo"⟩, ⟨16, "demo"⟩⟩⟩, .endOfFile ⟨22, "demo"⟩] := by
    decide +kernel
  have herror : Token.ofSource "if é" "demo" =
      .error ⟨.unrecognisedToken "é", ⟨3, "demo"⟩⟩ := by
    decide +kernel
  obtain ⟨words, hwords, hlaid⟩ :=
    (Token.ofSource_lossless "/* é */ ifs<=.5// end" "demo" (by decide)).1 _ hok
  obtain ⟨before, c, after, words', hsource, hlaid', hnone, hd⟩ :=
    (Token.ofSource_lossless "if é" "demo" (by decide)).2 _ herror
  refine ⟨⟨words, hok.trans (congrArg _ hwords), ?_, hlaid⟩, before, c, after, words',
    herror.trans (congrArg _ hd), hsource, ?_, hlaid', hnone⟩
  · have hmap := congrArg (List.map Token.lexeme) (congrArg List.dropLast hwords)
    simp only [List.dropLast_concat] at hmap
    exact hmap.symm
  · simpa using congrArg Diagnostic.cause hd.symm

end Leveret
