import Leveret.Source.Line
import Mathlib.Data.List.Basic

/-!
# Finding lines

The lines of a text are its segments that end with a newline, and a last one that may end without.
The walk down them finds the line that holds an offset. It never measures an offset from a start
behind it, since every line that it has passed ends at or before the offset.
-/

namespace Leveret

namespace Text

def takeBytes : Nat → List Char → List Char
  | 0, _ => []
  | _ + 1, [] => []
  | n + 1, c :: rest => c :: takeBytes (n + 1 - c.utf8Size) rest

section Cutting

variable {a b text : List Char} {n : Nat}

theorem takeBytes_append_dropBytes (n : Nat) (text : List Char) :
    takeBytes n text ++ dropBytes n text = text := by
  fun_induction takeBytes n text with
  | case1 text => rw [dropBytes, List.nil_append]
  | case2 n => rfl
  | case3 n c rest ih => rw [dropBytes, List.cons_append, ih]

theorem takeBytes_past (a b : List Char) (n : Nat) :
    takeBytes (byteSize a + n) (a ++ b) = a ++ takeBytes n b := by
  induction a with
  | nil => simp
  | cons c rest ih =>
    have hpos := c.utf8Size_pos
    obtain ⟨m, hm⟩ : ∃ m, byteSize (c :: rest) + n = m + 1 := ⟨byteSize (c :: rest) + n - 1, by
      rw [byteSize_cons]
      omega⟩
    have hrest : m + 1 - c.utf8Size = byteSize rest + n := by
      rw [byteSize_cons] at hm
      omega
    rw [hm, List.cons_append, takeBytes, hrest, ih, List.cons_append]

theorem takeBytes_within (h : n ≤ byteSize a) (b : List Char) :
    takeBytes n (a ++ b) = takeBytes n a := by
  fun_induction takeBytes n a with
  | case1 a => rw [takeBytes]
  | case2 n =>
    rw [byteSize_nil] at h
    omega
  | case3 n c rest ih =>
    rw [byteSize_cons] at h
    rw [List.cons_append, takeBytes, ih (by omega)]

theorem mem_of_mem_takeBytes {c : Char} (h : c ∈ takeBytes n text) : c ∈ text := by
  rw [← takeBytes_append_dropBytes n text]
  exact List.mem_append_left _ h

end Cutting

end Text

open Text

namespace Line

/-! ## The lines of a text -/

/-- Lines as a text is split into them: all end with a newline but the last, which may be open. -/
inductive Lined : List (List Char) → Prop
  | nil : Lined []
  | last {line} : line ≠ [] → '\n' ∉ line → Lined [line]
  | cons {start more} : '\n' ∉ start → Lined more → Lined ((start ++ ['\n']) :: more)

theorem lined_split (text : List Char) : Lined (split text) := by
  induction text with
  | nil => exact .nil
  | cons c rest ih =>
    rw [split]
    split
    · rename_i hc
      subst hc
      exact @Lined.cons [] _ (by simp) ih
    · rename_i hc
      have hc' : ∀ {start : List Char}, '\n' ∉ start → '\n' ∉ c :: start := fun h => by
        rw [List.mem_cons, not_or]
        exact ⟨fun e => hc e.symm, h⟩
      split
      · exact .last (List.cons_ne_nil _ _) (hc' (by simp))
      · rename_i hsplit
        rw [hsplit] at ih
        cases ih with
        | last _ hline => exact .last (List.cons_ne_nil _ _) (hc' hline)
        | cons hstart hmore => exact .cons (hc' hstart) hmore

/-- A line of a text with what is around it: it begins at the start or behind a newline, goes on
for as long as there is none, and takes the newline that ends it. -/
structure Segment (text before line behind : List Char) : Prop where
  whole : text = before ++ line ++ behind
  begins : ∀ c ∈ before.getLast?, c = '\n'
  inner : '\n' ∉ line.dropLast
  ends : line.getLast? = some '\n' ∨ behind = []
  nonempty : line ≠ []

variable {text line : List Char} {lines above below more : List (List Char)}

theorem Lined.segment (h : Lined (above ++ line :: below)) :
    Segment (above ++ line :: below).flatten above.flatten line below.flatten := by
  generalize hlines : above ++ line :: below = lines at h
  induction h generalizing above with
  | nil => simp at hlines
  | @last only hne honly =>
    obtain ⟨rfl, hline⟩ : above = [] ∧ line :: below = [only] := by
      cases above with
      | nil => exact ⟨rfl, hlines⟩
      | cons => simp at hlines
    obtain ⟨rfl, rfl⟩ := List.cons.inj hline
    exact ⟨by simp, by simp, fun hmem => honly (List.dropLast_subset _ hmem), .inr rfl, hne⟩
  | @cons start more hstart hmore ih =>
    cases above with
    | nil =>
      obtain ⟨rfl, rfl⟩ := List.cons.inj hlines
      exact ⟨by simp, by simp, by simpa using hstart, .inl (by simp), by simp⟩
    | cons first above =>
      obtain ⟨rfl, rfl⟩ := List.cons.inj hlines
      obtain ⟨-, hbegins, hinner, hends, hne⟩ := ih rfl
      refine ⟨by simp, fun c hc => ?_, hinner, hends, hne⟩
      -- with no line in between, what is in front ends with the newline of the first one
      rw [List.flatten_cons, List.getLast?_append] at hc
      cases hlast : above.flatten.getLast? with
      | none =>
        rw [hlast] at hc
        simpa using hc.symm
      | some d =>
        rw [hlast] at hc
        exact hbegins c (by simpa [hlast] using hc)

theorem split_segment (h : split text = above ++ line :: below) :
    Segment text above.flatten line below.flatten := by
  have hlined := lined_split text
  rw [h] at hlined
  have hsegment := hlined.segment
  rwa [← h, flatten_split] at hsegment

/-- In front of an offset on a line are as many newlines as there are lines above. -/
theorem Lined.count_newlines (h : Lined (above ++ line :: below)) {column : Nat}
    (hcolumn : column < byteSize line) :
    (takeBytes (byteSize above.flatten + column) (above ++ line :: below).flatten).count '\n' =
      above.length := by
  induction above with
  | nil =>
    rw [List.flatten_nil, byteSize_nil, Nat.zero_add, List.nil_append, List.flatten_cons,
      List.length_nil, List.count_eq_zero]
    generalize hlines : [] ++ line :: below = lines at h
    intro hmem
    cases h with
    | nil => simp at hlines
    | last _ hline =>
      obtain ⟨rfl, rfl⟩ := List.cons.inj hlines
      rw [takeBytes_within (Nat.le_of_lt hcolumn)] at hmem
      exact hline (mem_of_mem_takeBytes hmem)
    | @cons start _ hstart =>
      obtain ⟨rfl, rfl⟩ := List.cons.inj hlines
      have hsize : byteSize (start ++ ['\n']) = byteSize start + 1 := by
        rw [byteSize_append]
        rfl
      rw [List.append_assoc, takeBytes_within (by omega)] at hmem
      exact hstart (mem_of_mem_takeBytes hmem)
  | cons first above ih =>
    rw [List.cons_append] at h ⊢
    rw [List.flatten_cons, List.flatten_cons, byteSize_append, Nat.add_assoc, takeBytes_past,
      List.count_append]
    generalize hlines : above ++ line :: below = lines at *
    cases h with
    | last => simp at hlines
    | cons hstart hmore =>
      rw [ih hmore, List.count_append, List.count_eq_zero.2 hstart, List.length_cons]
      simp [Nat.add_comm]

theorem exists_inside {offset : Nat} (h : offset < byteSize lines.flatten) :
    ∃ above line below, lines = above ++ line :: below ∧
      ∃ column < byteSize line, offset = byteSize above.flatten + column := by
  induction lines generalizing offset with
  | nil => simp at h
  | cons line more ih =>
    rw [List.flatten_cons, byteSize_append] at h
    by_cases hline : offset < byteSize line
    · exact ⟨[], line, more, rfl, offset, hline, by simp⟩
    · obtain ⟨above, found, below, rfl, column, hcolumn, hoffset⟩ :=
        @ih (offset - byteSize line) (by omega)
      refine ⟨line :: above, found, below, rfl, column, hcolumn, ?_⟩
      rw [List.flatten_cons, byteSize_append]
      omega

/-! ## The walk -/

section Walk

variable {size offset start number : Nat} {last : Option Line}

theorem distance_eq_ok (h : start ≤ offset) : distance offset start = .ok (offset - start) := by
  rw [distance, if_pos h]

theorem walk_here (hstart : start ≤ offset) (hstop : offset < start + byteSize line) :
    walk size offset (line :: more) start number last =
      .ok (some ⟨number, line, offset - start⟩) := by
  rw [walk, distance_eq_ok hstart]
  dsimp only
  rw [if_pos ⟨hstart, hstop⟩]

theorem walk_later (h : start + byteSize line ≤ offset) :
    walk size offset (line :: more) start number last =
      walk size offset more (start + byteSize line) (number + 1)
        (some ⟨number, line, offset - start⟩) := by
  rw [walk, distance_eq_ok (by omega)]
  dsimp only
  rw [if_neg (by omega)]

/-- Lines that end at or before the offset are passed, and then the start is behind them. -/
theorem walk_past (h : start + byteSize above.flatten ≤ offset) : ∃ last',
    walk size offset (above ++ more) start number last =
      walk size offset more (start + byteSize above.flatten) (number + above.length) last' := by
  induction above generalizing start number last with
  | nil => exact ⟨last, by simp⟩
  | cons line above ih =>
    rw [List.flatten_cons, byteSize_append, ← Nat.add_assoc] at h
    obtain ⟨last', hlast⟩ := @ih (start + byteSize line) (number + 1)
      (some ⟨number, line, offset - start⟩) h
    refine ⟨last', ?_⟩
    rw [List.cons_append, walk_later (by omega), hlast, List.flatten_cons, byteSize_append,
      List.length_cons, Nat.add_assoc start, Nat.add_assoc number, Nat.add_comm 1]

end Walk

/-! ## The search -/

theorem search_inside (h : split text = above ++ line :: below) {column : Nat}
    (hcolumn : column < byteSize line) :
    search text (byteSize above.flatten + column) =
      .ok (some ⟨above.length + 1, line, column⟩) := by
  have hsize : byteSize text = byteSize above.flatten + byteSize line + byteSize below.flatten := by
    rw [(split_segment h).whole, byteSize_append, byteSize_append]
  obtain ⟨last, hwalk⟩ := @walk_past above (line :: below) (byteSize text)
    (byteSize above.flatten + column) 0 1 none (by omega)
  rw [search, if_neg (by omega), h, hwalk, walk_here (by omega) (by omega), Nat.add_comm 1]
  congr 4
  omega

theorem search_end (h : split text = above ++ [line]) :
    search text (byteSize text) = .ok (some ⟨above.length + 1, line, byteSize line⟩) := by
  have hsize : byteSize text = byteSize above.flatten + byteSize line := by
    rw [(split_segment h).whole, byteSize_append, byteSize_append]
    rfl
  obtain ⟨last, hwalk⟩ := @walk_past above [line] (byteSize text) (byteSize text) 0 1 none
    (by omega)
  -- the last line is passed like the others, and is then at hand for the end
  rw [search, if_neg (Nat.lt_irrefl _), h, hwalk, walk_later (by omega), walk, if_pos (by omega),
    Option.some_or, Nat.add_comm 1]
  congr 4
  omega

theorem search_past {offset : Nat} (h : byteSize text < offset) :
    search text offset = .ok none := by
  rw [search, if_pos h]

/-- Every offset in a text, its end included, has a line, and to find it nothing is measured from
a start behind it. -/
theorem exists_search {offset : Nat} (h : offset ≤ byteSize text) :
    ∃ line, search text offset = .ok (some line) := by
  rcases Nat.lt_or_eq_of_le h with hlt | rfl
  · rw [← flatten_split text] at hlt
    obtain ⟨above, line, below, hlines, column, hcolumn, rfl⟩ := exists_inside hlt
    exact ⟨_, search_inside hlines hcolumn⟩
  · rcases List.eq_nil_or_concat (split text) with hnil | ⟨above, line, hlines⟩
    · rw [search, if_neg (Nat.lt_irrefl _), hnil, walk]
      have hempty := flatten_split text
      rw [hnil] at hempty
      subst hempty
      exact ⟨_, rfl⟩
    · rw [List.concat_eq_append] at hlines
      exact ⟨_, search_end hlines⟩

theorem at?_of_search {offset : Nat} {found : Option Line} (h : search text offset = .ok found) :
    at? text offset = found := by
  rw [at?, h]

theorem exists_at? {offset : Nat} (h : offset ≤ byteSize text) :
    ∃ line, at? text offset = some line := by
  obtain ⟨line, hline⟩ := exists_search h
  exact ⟨line, at?_of_search hline⟩

theorem at?_inside (h : split text = above ++ line :: below) {column : Nat}
    (hcolumn : column < byteSize line) :
    at? text (byteSize above.flatten + column) = some ⟨above.length + 1, line, column⟩ :=
  at?_of_search (search_inside h hcolumn)

theorem search_eq_ok (text : List Char) (offset : Nat) :
    search text offset = .ok (at? text offset) := by
  rcases Nat.lt_or_ge (byteSize text) offset with h | h
  · rw [at?_of_search (search_past h), search_past h]
  · obtain ⟨line, hline⟩ := exists_search h
    rw [at?_of_search hline, hline]

theorem at?_eq_none_iff {offset : Nat} : at? text offset = none ↔ byteSize text < offset := by
  constructor
  · intro hnone
    by_contra h
    obtain ⟨line, hline⟩ := exists_at? (Nat.le_of_not_lt h)
    rw [hline] at hnone
    cases hnone
  · intro h
    exact at?_of_search (search_past h)

/-- The line of an offset is the segment of the text that holds the byte there, numbered by the
newlines in front of it; the end of the text is on the last line; and past the end there is none.
No offset is measured from a start behind it. -/
theorem at?_exact (text : List Char) (offset : Nat) :
    (at? text offset = none ↔ byteSize text < offset) ∧
    (offset < byteSize text → ∃ above line below column,
      split text = above ++ line :: below ∧ Segment text above.flatten line below.flatten ∧
      at? text offset = some ⟨above.length + 1, line, column⟩ ∧
      above.length = (takeBytes offset text).count '\n' ∧
      column < byteSize line ∧ byteSize above.flatten + column = offset) ∧
    (text ≠ [] → offset = byteSize text → ∃ above line column,
      split text = above ++ [line] ∧ Segment text above.flatten line [] ∧
      at? text offset = some ⟨above.length + 1, line, column⟩ ∧
      byteSize above.flatten + column = offset) ∧
    search text offset = .ok (at? text offset) := by
  refine ⟨at?_eq_none_iff, fun hin => ?_, fun hne hend => ?_, search_eq_ok text offset⟩
  · rw [← flatten_split text] at hin
    obtain ⟨above, line, below, hlines, column, hcolumn, rfl⟩ := exists_inside hin
    have hlined := lined_split text
    rw [hlines] at hlined
    have hcount := hlined.count_newlines hcolumn
    rw [← hlines, flatten_split] at hcount
    exact ⟨above, line, below, column, hlines, split_segment hlines, at?_inside hlines hcolumn,
      hcount.symm, hcolumn, rfl⟩
  · subst hend
    rcases List.eq_nil_or_concat (split text) with hnil | ⟨above, line, hlines⟩
    · have hempty := flatten_split text
      rw [hnil] at hempty
      exact absurd hempty.symm hne
    · rw [List.concat_eq_append] at hlines
      have hsegment := split_segment hlines
      refine ⟨above, line, byteSize line, hlines, hsegment, at?_of_search (search_end hlines), ?_⟩
      rw [hsegment.whole]
      simp [byteSize_append]

/-- The third line of a text, asked for at its first byte and at the end of the text. -/
theorem exists_at?_exact :
    (∃ above line below column, split "é\n\nb".toList = above ++ line :: below ∧
      Segment "é\n\nb".toList above.flatten line below.flatten ∧
      at? "é\n\nb".toList 4 = some ⟨3, line, column⟩ ∧
      column < byteSize line ∧ byteSize above.flatten + column = 4) ∧
    (∃ above line column, split "é\n\nb".toList = above ++ [line] ∧
      at? "é\n\nb".toList 5 = some ⟨above.length + 1, line, column⟩ ∧
      byteSize above.flatten + column = 5) ∧
    at? "é\n\nb".toList 6 = none := by
  have hcount : (takeBytes 4 "é\n\nb".toList).count '\n' = 2 := by decide
  obtain ⟨above, line, below, column, hlines, hsegment, hat, hnumber, hcolumn, hoffset⟩ :=
    (at?_exact "é\n\nb".toList 4).2.1 (by decide)
  obtain ⟨above', line', column', hlines', -, hat', hoffset'⟩ :=
    (at?_exact "é\n\nb".toList 5).2.2.1 (by decide) (by decide)
  rw [hnumber, hcount] at hat
  exact ⟨⟨above, line, below, column, hlines, hsegment, hat, hcolumn, hoffset⟩,
    ⟨above', line', column', hlines', hat', hoffset'⟩, (at?_exact _ 6).1.2 (by decide)⟩

end Line

end Leveret
