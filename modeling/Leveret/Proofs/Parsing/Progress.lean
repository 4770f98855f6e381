import Leveret.Proofs.Parsing.Courses
import Leveret.Proofs.Parsing.Runs

/-!
# Progress

A parse comes to an end, whatever the tokens are. Unrolled as often as the budget says, the
recursion of the grammar is not asked any further, since every way round it reads a token. On the
way the cursor only goes forward and stays within the list of tokens, and at no place have more
node numbers been handed out than tokens were read.
-/

namespace Leveret

namespace Parser

/-! ## The recursion of the grammar -/

structure Family (m : Type → Type) where
  expr : Power → m Expr
  extend : Power → Expr → m Expr
  block : m Block
  body : m (List Stmt)
  conditional : m Stmt
  stmt : m Stmt
  statements : m (List Stmt)

namespace Family

section Unrolling

variable {m : Type → Type} [Parsing m]

/-- The parsers of the grammar, where `F` reads what is read by recursion. -/
def around (F : Family m) : Family m where
  expr power := do
    let left ← operand F.expr F.block
    F.extend power left
  extend power left := do
    let kind := (← get).kind
    if power < kind.power then
      let more ← binary F.expr left kind.power
      F.extend power more
    else return left
  block := braced F.body
  body := do
    match (← get).kind with
    | .closeCurly => return []
    | .endOfFile => failHere "expected `\x7d` before end of file"
    | _ =>
      let s ← F.stmt
      let rest ← F.body
      return s :: rest
  conditional := ifElse (F.expr .lowest) F.block F.conditional
  stmt := statement (F.expr .lowest) F.block F.conditional
  statements := do
    let c ← get
    if c.atEnd then return []
    else
      let s ← F.stmt
      let rest ← F.statements
      return s :: rest

/-- The recursion unrolled `depth` times, with `bottom` below. -/
def unroll (bottom : Family m) : (depth : Nat) → Family m
  | 0 => bottom
  | depth + 1 => (bottom.unroll depth).around

def ofFuel (fuel : Nat) : Family m :=
  ⟨Parser.expr fuel, Parser.extend fuel, Parser.block fuel, blockStatements fuel,
    Parser.conditional fuel, Parser.stmt fuel, Parser.statements fuel⟩

def program (F : Family m) : m Program := do
  let c ← get
  let inside ← F.statements
  return ⟨inside, ⟨⟨0, c.file⟩, (← get).position⟩⟩

/-- A budget is a recursion that is unrolled so many times. -/
theorem ofFuel_eq_unroll (fuel : Nat) : (ofFuel fuel : Family m) = (ofFuel 0).unroll fuel := by
  induction fuel with
  | zero => rfl
  | succ fuel ih =>
    rw [unroll, ← ih]
    rfl

theorem unroll_add (bottom : Family m) (k n : Nat) :
    bottom.unroll (k + n) = (bottom.unroll k).unroll n := by
  induction n with
  | zero => rfl
  | succ n ih => rw [← Nat.add_assoc, unroll, unroll, ih]

end Unrolling

theorem ofFuel_program_run (c : Cursor) :
    (ofFuel c.budget).program.run c = Parser.program.run c := by
  rw [program, Parser.program, run_get_bind, run_get_bind]
  rfl

/-- All parsers of two families keep pace wherever few enough tokens are left. Four parsers may ask
one another, from the statements of a block to a block, before one of them reads a token. -/
structure Paced (total depth : Nat) (F : Family Traced) (G : Family Parser) : Prop where
  expr (power : Power) (n : Nat) : 4 * n ≤ depth + 2 →
    Paces total n 1 0 (F.expr power) (G.expr power)
  extend (power : Power) (left : Expr) (n : Nat) : 4 * n ≤ depth + 2 →
    Paces total n 0 0 (F.extend power left) (G.extend power left)
  block (n : Nat) : 4 * n ≤ depth + 3 → Paces total n 1 1 F.block G.block
  body (n : Nat) : 4 * n ≤ depth → Paces total n 0 0 F.body G.body
  conditional (n : Nat) : 4 * n ≤ depth + 2 → PacesAtIf total n F.conditional G.conditional
  stmt (n : Nat) : 4 * n ≤ depth + 1 → Paces total n 1 0 F.stmt G.stmt
  statements (n : Nat) : 4 * n ≤ depth → Paces total n 0 0 F.statements G.statements

theorem paced_zero (total : Nat) (F : Family Traced) (G : Family Parser) : Paced total 0 F G where
  expr _ _ hn _ hc := absurd hc.short (by omega)
  extend _ _ _ hn _ hc := absurd hc.short (by omega)
  block _ hn _ hc := absurd hc.short (by omega)
  body _ hn _ hc := absurd hc.short (by omega)
  conditional _ hn _ hc := absurd hc.short (by omega)
  stmt _ hn _ hc := absurd hc.short (by omega)
  statements _ hn _ hc := absurd hc.short (by omega)

section Around

variable {total depth n : Nat} {F : Family Traced} {G : Family Parser} {c : Cursor}
  (h : Paced total depth F G)
include h

theorem Paced.around_expr (power : Power) (hn : 4 * n ≤ depth + 3) :
    Paces total n 1 0 (F.around.expr power) (G.around.expr power) := by
  intro c hc
  have hexpr := fun power => h.expr power (n - 1) (by omega)
  refine .bind (paced_operand hexpr (h.block n hn) hc) fun left d hd => ?_
  exact (h.extend power left (n - 1) (by omega)).after hc hd (by omega)

theorem Paced.around_extend (power : Power) (left : Expr) (hn : 4 * n ≤ depth + 3) :
    Paces total n 0 0 (F.around.extend power left) (G.around.extend power left) := by
  intro c hc
  refine .look ?_
  dsimp only
  split
  · rename_i hpower
    -- the end binds least, so a token is stepped over
    have hk : c.kind ≠ .endOfFile := by
      intro hk
      rw [hk] at hpower
      exact absurd hpower (by cases power <;> decide)
    have hexpr := fun power => h.expr power (n - 1) (by omega)
    refine .bind (paced_binary hexpr hc hk _ _) fun more d hd => ?_
    refine ((h.extend power more (n - 1) (by omega)).after hc hd (by omega)).mono fun _ _ he => ?_
    exact he.mono (by omega) (by omega)
  · exact .pure hc.ahead

theorem Paced.around_body (hn : 4 * n ≤ depth + 1) :
    Paces total n 0 0 F.around.body G.around.body := by
  intro c hc
  refine .look ?_
  split
  · exact .pure hc.ahead
  · exact paced_failHere
  · refine .bind ((h.stmt n hn).after hc hc.ahead (by omega)) fun _ _ hd => ?_
    refine .bind ((h.body (n - 1) (by omega)).after hc hd (by omega)) fun _ _ he => ?_
    exact .pure (he.mono (by omega) (by omega))

theorem Paced.around_statements (hn : 4 * n ≤ depth + 1) :
    Paces total n 0 0 F.around.statements G.around.statements := by
  intro c hc
  refine .look ?_
  split
  · exact .pure hc.ahead
  · refine .bind ((h.stmt n hn).after hc hc.ahead (by omega)) fun _ _ hd => ?_
    refine .bind ((h.statements (n - 1) (by omega)).after hc hd (by omega)) fun _ _ he => ?_
    exact .pure (he.mono (by omega) (by omega))

theorem Paced.around : Paced total (depth + 1) F.around G.around where
  expr power n hn := h.around_expr power (by omega)
  extend power left n hn := h.around_extend power left (by omega)
  block n hn c hc := paced_braced (h.body (n - 1) (by omega)) hc
  body n hn := h.around_body hn
  conditional n hn c hc hk :=
    paced_ifElse (fun power => h.expr power (n - 1) (by omega)) (h.block (n - 1) (by omega))
      (h.conditional (n - 1) (by omega)) hc (by simp [hk])
  stmt n hn c hc :=
    paced_statement (fun power => h.expr power n (by omega)) (h.block (n - 1) (by omega))
      (h.conditional n (by omega)) hc
  statements n hn := h.around_statements hn

end Around

/-- What is below a recursion that is unrolled often enough does not matter. -/
theorem paced_unroll (total depth : Nat) (F : Family Traced) (G : Family Parser) :
    Paced total depth (F.unroll depth) (G.unroll depth) := by
  induction depth with
  | zero => exact paced_zero total F G
  | succ depth ih => exact ih.around

end Family

theorem paced_program {total depth : Nat} {c : Cursor} (hc : c.Ready total (c.pending.length + 1))
    (bottom : Family Parser) (hdepth : c.budget ≤ depth) :
    Paced total program (bottom.unroll depth).program c fun _ _ => True := by
  obtain ⟨below, rfl⟩ := Nat.exists_eq_add_of_le' hdepth
  have hpaces := (Family.paced_unroll total c.budget (.ofFuel 0) (bottom.unroll below)).statements
    (c.pending.length + 1) (by
      rw [Cursor.budget]
      omega)
  -- the levels below those of the budget are one more bottom
  rw [← Family.ofFuel_eq_unroll, ← Family.unroll_add] at hpaces
  exact .look (.bind (hpaces c hc) fun _ _ _ => .look (.pure trivial))

end Parser

/-! ## Within the list of tokens -/

namespace Cursor

/-- The cursor stands in the list `all` behind the tokens `read`, and what can be asked for there
is at its place in the list. -/
structure Stands (all : List Token) (file : String) (read : List Token) (c : Cursor) : Prop where
  whole : all = read ++ (c.pending ++ [c.final])
  current : all[read.length]? = some c.current
  next : all[min (read.length + 1) (all.length - 1)]?.map Token.kind = some c.nextKind
  previous : c.previousEnd = (read.getLast?.map (·.span.stop)).getD ⟨0, file⟩

variable {all read : List Token} {file : String} {c d : Cursor}

theorem stands_of (hwhole : all = read ++ (c.pending ++ [c.final]))
    (hprevious : c.previousEnd = (read.getLast?.map (·.span.stop)).getD ⟨0, file⟩) :
    c.Stands all file read := by
  refine ⟨hwhole, ?_, ?_, hprevious⟩
  · rw [hwhole, List.getElem?_append_right (Nat.le_refl _), Nat.sub_self, current]
    cases c.pending <;> rfl
  · rw [hwhole, List.getElem?_append_right (by simp), nextKind]
    rcases c.pending with _ | ⟨t, _ | ⟨t', rest⟩⟩
    · simp
    · simp
    · have hmin : min (read.length + 1) ((read ++ (t :: t' :: rest ++ [c.final])).length - 1) =
          read.length + 1 := by
        simp
      rw [hmin, Nat.add_sub_cancel_left]
      rfl

theorem Stands.advance (h : c.Stands all file read) : ∃ read', c.advance.Stands all file read' := by
  unfold Cursor.advance
  split
  · exact ⟨read, h⟩
  · rename_i t rest hp
    refine ⟨read ++ [t], stands_of ?_ (by simp)⟩
    rw [h.whole, hp]
    simp

theorem Trail.stands {path : List Cursor} (h : c.Trail path d) (hc : c.Stands all file read) :
    ∀ e ∈ path, ∃ read', e.Stands all file read' := by
  induction h generalizing read with
  | nil => simp
  | advance _ ih =>
    obtain ⟨read', hd⟩ := hc.advance
    rw [List.forall_mem_cons]
    exact ⟨⟨read', hd⟩, ih hd⟩
  | @tick c _ _ _ ih =>
    have hd : c.tick.Stands all file read := stands_of hc.whole hc.previous
    rw [List.forall_mem_cons]
    exact ⟨⟨read, hd⟩, ih hd⟩

theorem Stands.nextId (h : c.Stands all file read) (hload : c.load + 1 ≤ all.length) :
    c.nextId ≤ read.length := by
  have hlength := congrArg List.length h.whole
  simp only [List.length_append, List.length_singleton] at hlength
  unfold load at hload
  omega

theorem ofTokens_stands (tokens : List Token) (file : String) :
    (ofTokens tokens file).Stands
      ((ofTokens tokens file).pending ++ [(ofTokens tokens file).final]) file [] := by
  exact stands_of rfl (ofTokens_start tokens file).1

theorem tokens_prefix_ofTokens (tokens : List Token) (file : String) :
    tokens <+: (ofTokens tokens file).pending ++ [(ofTokens tokens file).final] ∧
      (ofTokens tokens file).pending.length ≤ tokens.length := by
  unfold ofTokens
  dsimp only
  split
  · rename_i hnil
    rw [List.getLast?_eq_none_iff.1 hnil]
    simp
  · rename_i last hlast
    split
    · obtain ⟨tokens, rfl⟩ := List.getLast?_eq_some_iff.1 hlast
      simp
    · exact ⟨List.prefix_append _ _, Nat.le_refl _⟩

theorem ofTokens_ready (tokens : List Token) (file : String) :
    (ofTokens tokens file).Ready (ofTokens tokens file).pending.length
      ((ofTokens tokens file).pending.length + 1) := by
  refine ⟨ofTokens_closed tokens file, Nat.lt_succ_self _, Nat.le_of_eq ?_⟩
  unfold load
  rw [(ofTokens_start tokens file).2, Nat.zero_add]

end Cursor

/-! ## Whole programs -/

namespace Parser

theorem Reaches.further {α : Type} {g : Goal} {piece : α → Piece} {p : Parser α}
    (h : Reaches g piece p) (hforward : Forward p) (hg : 0 < g.least) {c d : Cursor} {a : α}
    (hc : c.Closed) (hp : p.run c = .ok a d) :
    c.Onward d ∧ d.pending.length < c.pending.length := by
  have honward := hforward c
  unfold Outcome at honward
  rw [hp] at honward
  have hlength := (h c a d hc hp).length
  exact ⟨honward, by omega⟩

theorem paced_ofTokens (tokens : List Token) (file : String) :
    Paced (Cursor.ofTokens tokens file).pending.length program program
      (.ofTokens tokens file) fun _ _ => True := by
  have hpaced := paced_program (Cursor.ofTokens_ready tokens file) (.ofFuel 0) (Nat.le_refl _)
  rw [← Family.ofFuel_eq_unroll] at hpaced
  refine ⟨hpaced.trail, hpaced.load, ?_, hpaced.post⟩
  rw [← Family.ofFuel_program_run, hpaced.result]

/-- What holds at each place of a parse. -/
theorem traced_places (tokens : List Token) (file : String) :
    ∀ c ∈ Cursor.ofTokens tokens file :: ((program : Traced Program).run (.ofTokens tokens file)).1,
      c.load ≤ (Cursor.ofTokens tokens file).pending.length ∧
      ∃ read, c.Stands ((Cursor.ofTokens tokens file).pending ++
        [(Cursor.ofTokens tokens file).final]) file read := by
  have hready := Cursor.ofTokens_ready tokens file
  have hstands := Cursor.ofTokens_stands tokens file
  have hpaced := paced_ofTokens tokens file
  intro c hc
  rcases List.mem_cons.1 hc with rfl | hc
  · exact ⟨hready.load, _, hstands⟩
  · exact ⟨hpaced.load c hc, hpaced.trail.stands hstands c hc⟩

end Parser

/-- Every list of tokens is parsed to an end: however the recursion would go on below the budget,
the result is the same. The places that the parser tells are a row of single steps that only lead
forward. At each of them, in a failing run as well, the cursor stands in the list of tokens and
asks for none outside it, and no more node numbers were handed out than tokens read, so that 32 bits
hold them if they hold the number of tokens. An expression, a statement or a block that was read
leaves the cursor further on. -/
theorem Program.ofTokens_progress (tokens : List Token) (file : String) :
    let start := Cursor.ofTokens tokens file
    let all := start.pending ++ [start.final]
    (tokens <+: all ∧ all.length ≤ tokens.length + 1 ∧ start.Closed) ∧
    (∀ (bottom : Parser.Family Parser) (depth : Nat), start.budget ≤ depth →
      (bottom.unroll depth).program.run start = Parser.program.run start) ∧
    (∃ path, (Parser.program : Parser.Traced Program).run start =
        (path, Parser.program.run start) ∧
      start.Trail path (Parser.finish (Parser.program.run start)) ∧
      (start :: path).Pairwise Cursor.Onward ∧
      ∀ c ∈ start :: path, ∃ read, c.Stands all file read ∧ c.nextId ≤ read.length ∧
        (tokens.length < UInt32.size → c.nextId < UInt32.size)) ∧
    ∀ (fuel : Nat) (c d : Cursor), c.Closed →
      (∀ power e, (Parser.expr fuel power).run c = .ok e d →
        c.Onward d ∧ d.pending.length < c.pending.length) ∧
      (∀ s, (Parser.stmt fuel).run c = .ok s d →
        c.Onward d ∧ d.pending.length < c.pending.length) ∧
      ∀ b, (Parser.block fuel).run c = .ok b d →
        c.Onward d ∧ d.pending.length < c.pending.length := by
  intro start all
  obtain ⟨htokens, hpending⟩ := Cursor.tokens_prefix_ofTokens tokens file
  have hready := Cursor.ofTokens_ready tokens file
  have hall : all.length = start.pending.length + 1 := List.length_append
  refine ⟨⟨htokens, ?_, hready.closed⟩, fun bottom depth hdepth => ?_, ?_,
    fun fuel c d hc => ⟨fun power e => ?_, fun s => ?_, fun b => ?_⟩⟩
  · rw [hall]
    exact Nat.succ_le_succ hpending
  · rw [(Parser.paced_program hready bottom hdepth).result,
      (Parser.paced_ofTokens tokens file).result]
  · have hpaced := Parser.paced_ofTokens tokens file
    have htrail := hpaced.trail
    rw [← hpaced.result] at htrail
    refine ⟨_, Prod.ext rfl hpaced.result.symm, htrail, htrail.pairwise, fun c hc => ?_⟩
    obtain ⟨hload, read, hread⟩ := Parser.traced_places tokens file c hc
    have hid : c.nextId ≤ tokens.length :=
      Nat.le_trans (Nat.le_add_right _ _) (Nat.le_trans hload hpending)
    exact ⟨read, hread, hread.nextId (hall ▸ Nat.succ_le_succ hload), Nat.lt_of_le_of_lt hid⟩
  · exact ((Parser.allReach fuel).expr power).further ((Parser.allForward fuel).expr power)
      Nat.one_pos hc
  · exact (Parser.allReach fuel).stmt.further (Parser.allForward fuel).stmt Nat.one_pos hc
  · exact (Parser.allReach fuel).block.further (Parser.allForward fuel).block Nat.two_pos hc

/-- A name with no semicolon behind it: the expression is read, and the parse fails at the end that
was added. -/
theorem Program.exists_ofTokens_progress :
    let start := Cursor.ofTokens [⟨.identifier, "x", ⟨⟨0, "demo"⟩, ⟨1, "demo"⟩⟩⟩] "demo"
    (∀ bottom : Parser.Family Parser,
      (bottom.unroll 16).program.run start = Parser.program.run start) ∧
    (∃ path, (Parser.program : Parser.Traced Program).run start =
        (path, Parser.program.run start) ∧
      path = [start.advance, start.advance.tick] ∧ ∀ c ∈ path, c.nextId < UInt32.size) ∧
    ∃ e d, (Parser.expr 2 .lowest).run start = .ok e d ∧
      d.pending.length < start.pending.length := by
  intro start
  obtain ⟨-, hunroll, ⟨path, hpath, -, -, hplaces⟩, hfurther⟩ :=
    ofTokens_progress [⟨.identifier, "x", ⟨⟨0, "demo"⟩, ⟨1, "demo"⟩⟩⟩] "demo"
  have hexpr : (Parser.expr 2 .lowest).run start =
      .ok (.load ⟨0, ⟨⟨0, "demo"⟩, ⟨1, "demo"⟩⟩⟩ "x") start.advance.tick := rfl
  refine ⟨fun bottom => hunroll bottom 16 (by decide), ⟨path, hpath, ?_, fun c hc => ?_⟩,
    _, _, hexpr, ?_⟩
  · exact (congrArg Prod.fst hpath).symm
  · obtain ⟨read, -, -, hsmall⟩ := hplaces c (List.mem_cons_of_mem _ hc)
    exact hsmall (by decide)
  · exact ((hfurther 2 start _ rfl).1 .lowest _ hexpr).2

end Leveret
