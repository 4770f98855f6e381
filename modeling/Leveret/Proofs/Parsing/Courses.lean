import Leveret.Proofs.Parsing.Outcomes

/-!
# The course of a run

The parser is written over anything that keeps a cursor, and so it can be read in a way that tells
every place the cursor is moved to. The places are a row of single steps: a token is stepped over,
or a node number is handed out. No construct hands out a number before it has stepped over a token
of its own, so at no place, however the run ends, are there more numbers than tokens read.
-/

namespace Leveret

namespace Cursor

/-! ## Places and what they are worth -/

/-- The node numbers handed out and the tokens still to be read. Stepping over a token pays for one
number. -/
def load (c : Cursor) : Nat := c.nextId + c.pending.length

/-- `d` is at least `used` tokens further on than `c`, of which `spare` pay for no number yet. -/
structure Ahead (c : Cursor) (used spare : Nat) (d : Cursor) : Prop where
  closed : d.Closed
  used : d.pending.length + used ≤ c.pending.length
  spare : d.load + spare ≤ c.load

/-- Fewer than `n` tokens are still to be read, and `total` tokens pay for all numbers. -/
structure Ready (total n : Nat) (c : Cursor) : Prop where
  closed : c.Closed
  short : c.pending.length < n
  load : c.load ≤ total

section Ahead

variable {c d e : Cursor} {used spare used' spare' total n n' : Nat}

theorem Ready.ahead (h : c.Ready total n) : c.Ahead 0 0 c :=
  ⟨h.closed, Nat.le_refl _, Nat.le_refl _⟩

theorem Ahead.mono (h : c.Ahead used spare d) (hused : used' ≤ used) (hspare : spare' ≤ spare) :
    c.Ahead used' spare' d := by
  obtain ⟨hc, hu, hs⟩ := h
  exact ⟨hc, by omega, by omega⟩

theorem Ahead.trans (h : c.Ahead used spare d) (h' : d.Ahead used' spare' e) :
    c.Ahead (used + used') (spare + spare') e := by
  have hu := h.used
  have hs := h.spare
  have hu' := h'.used
  have hs' := h'.spare
  exact ⟨h'.closed, by omega, by omega⟩

theorem Ahead.ready (h : c.Ahead used spare d) (hc : c.Ready total n) (hn : n ≤ n' + used) :
    d.Ready total n' := by
  have hu := h.used
  have hs := h.spare
  have hshort := hc.short
  have hload := hc.load
  exact ⟨h.closed, by omega, by omega⟩

theorem Ahead.advance (h : c.Ahead used spare d) (hk : d.kind ≠ .endOfFile) :
    c.Ahead (used + 1) (spare + 1) d.advance := by
  have hnext := next_of_kind h.closed hk
  have hlength := hnext.length
  have hid := hnext.nextId
  have hload : d.load = d.advance.load + 1 := by
    unfold load
    omega
  refine h.trans ⟨hnext.closed h.closed, ?_, ?_⟩
  · omega
  · omega

theorem Ahead.tick (h : c.Ahead used (spare + 1) d) : c.Ahead used spare d.tick := by
  have hs := h.spare
  have hload : d.tick.load = d.load + 1 := by
    unfold load
    rw [tick_nextId, tick_pending, Nat.add_right_comm]
  exact ⟨h.closed, h.used, by omega⟩

end Ahead

inductive Trail : Cursor → List Cursor → Cursor → Prop
  | nil {c} : Trail c [] c
  | advance {c path d} : Trail c.advance path d → Trail c (c.advance :: path) d
  | tick {c path d} : Trail c.tick path d → Trail c (c.tick :: path) d

section Trail

variable {c d e : Cursor} {path rest : List Cursor}

theorem Trail.append (h : c.Trail path d) (h' : d.Trail rest e) : c.Trail (path ++ rest) e := by
  induction h with
  | nil => exact h'
  | advance _ ih => exact .advance (ih h')
  | tick _ ih => exact .tick (ih h')

theorem Trail.onward (h : c.Trail path d) : ∀ e ∈ path, c.Onward e := by
  induction h with
  | nil => simp
  | advance _ ih =>
    rw [List.forall_mem_cons]
    exact ⟨.advance, fun e he => Onward.advance.trans (ih e he)⟩
  | tick _ ih =>
    rw [List.forall_mem_cons]
    exact ⟨.tick, fun e he => Onward.tick.trans (ih e he)⟩

theorem Trail.pairwise (h : c.Trail path d) : (c :: path).Pairwise Onward := by
  induction h with
  | nil => simp
  | advance h ih => exact List.pairwise_cons.2 ⟨(Trail.advance h).onward, ih⟩
  | tick h ih => exact List.pairwise_cons.2 ⟨(Trail.tick h).onward, ih⟩

end Trail

end Cursor

namespace Parser

/-! ## Parsers that tell their places -/

/-- A parser that also tells the places that the cursor is moved to, one after the other. -/
structure Traced (α : Type) where
  run : Cursor → List Cursor × EStateM.Result Diagnostic Cursor α

namespace Traced

def andThen {α β : Type} (x : Traced α) (f : α → Traced β) (c : Cursor) :
    List Cursor × EStateM.Result Diagnostic Cursor β :=
  match x.run c with
  | (path, .ok a d) => ((f a).run d).map (path ++ ·) id
  | (path, .error e d) => (path, .error e d)

instance : Monad Traced where
  pure a := ⟨fun c => ([], .ok a c)⟩
  bind x f := ⟨x.andThen f⟩

instance : MonadStateOf Cursor Traced where
  get := ⟨fun c => ([], .ok c c)⟩
  set d := ⟨fun _ => ([d], .ok () d)⟩
  modifyGet f := ⟨fun c => ([(f c).2], .ok (f c).1 (f c).2)⟩

instance : MonadExceptOf Diagnostic Traced where
  throw e := ⟨fun c => ([], .error e c)⟩
  tryCatch x handle := ⟨fun c =>
    match x.run c with
    | (path, .ok a d) => (path, .ok a d)
    | (path, .error e d) => ((handle e).run d).map (path ++ ·) id⟩

instance : Parsing Traced where

section Run

variable {α β : Type} {x : Traced α} {f : α → Traced β} {c d : Cursor} {path : List Cursor}

theorem run_bind_of_ok {a : α} (h : x.run c = (path, .ok a d)) :
    (x >>= f).run c = (path ++ ((f a).run d).1, ((f a).run d).2) := by
  change x.andThen f c = _
  rw [andThen, h]
  rfl

theorem run_bind_of_error {e : Diagnostic} (h : x.run c = (path, .error e d)) :
    (x >>= f).run c = (path, .error e d) := by
  change x.andThen f c = _
  rw [andThen, h]

theorem run_advance (c : Cursor) :
    (advance : Traced Token).run c = ([c.advance], .ok c.current c.advance) := rfl

theorem run_freshId (c : Cursor) :
    (freshId : Traced Nat).run c = ([c.tick], .ok c.nextId c.tick) := rfl

end Run

end Traced

def finish {α : Type} : EStateM.Result Diagnostic Cursor α → Cursor
  | .ok _ d => d
  | .error _ d => d

/-! ## Keeping pace -/

/-- From `c`, `p` goes single steps, and at each place `total` tokens pay for all node numbers. It
ends as `q` does, and if that is a success, as `post` says. -/
structure Paced {α : Type} (total : Nat) (p : Traced α) (q : Parser α) (c : Cursor)
    (post : α → Cursor → Prop) : Prop where
  trail : c.Trail (p.run c).1 (finish (p.run c).2)
  load : ∀ d ∈ (p.run c).1, d.load ≤ total
  result : q.run c = (p.run c).2
  post : ∀ a d, (p.run c).2 = .ok a d → post a d

section Paced

variable {α β : Type} {total : Nat} {p : Traced α} {q : Parser α} {c : Cursor}
  {post : α → Cursor → Prop}

theorem Paced.pure {a : α} (h : post a c) : Paced total (pure a) (pure a) c post := by
  refine ⟨.nil, nofun, rfl, ?_⟩
  rintro _ _ ⟨⟩
  exact h

theorem Paced.throw {e : Diagnostic} : Paced total (throw e) (throw e) c post :=
  ⟨.nil, nofun, rfl, nofun⟩

theorem Paced.bind {f : α → Traced β} {g : α → Parser β} {post' : β → Cursor → Prop}
    (h : Paced total p q c post) (hf : ∀ a d, post a d → Paced total (f a) (g a) d post') :
    Paced total (p >>= f) (q >>= g) c post' := by
  obtain ⟨htrail, hload, hresult, hpost⟩ := h
  rcases hp : p.run c with ⟨path, ⟨a, d⟩ | ⟨e, d⟩⟩
  · rw [hp] at htrail hload hresult hpost
    have hnext := hf a d (hpost a d rfl)
    have hrun := Traced.run_bind_of_ok (f := f) hp
    refine ⟨?_, ?_, ?_, ?_⟩
    · rw [hrun]
      exact htrail.append hnext.trail
    · rw [hrun]
      exact List.forall_mem_append.2 ⟨hload, hnext.load⟩
    · rw [hrun, run_bind_of_ok hresult, hnext.result]
    · rw [hrun]
      exact hnext.post
  · rw [hp] at htrail hload hresult
    have hrun := Traced.run_bind_of_error (f := f) hp
    refine ⟨?_, ?_, ?_, ?_⟩
    · rw [hrun]
      exact htrail
    · rw [hrun]
      exact hload
    · rw [hrun, run_bind_of_error hresult]
    · rw [hrun]
      exact nofun

theorem Paced.look {f : Cursor → Traced α} {g : Cursor → Parser α}
    (h : Paced total (f c) (g c) c post) : Paced total (get >>= f) (get >>= g) c post := by
  have hlook : Paced total (get : Traced Cursor) get c fun a d => a = c ∧ d = c := by
    refine ⟨.nil, nofun, rfl, ?_⟩
    rintro _ _ ⟨⟩
    exact ⟨rfl, rfl⟩
  refine hlook.bind ?_
  rintro _ _ ⟨rfl, rfl⟩
  exact h

theorem Paced.pure_bind {f : α → Traced β} {g : α → Parser β} {a : α} {post' : β → Cursor → Prop}
    (h : Paced total (f a) (g a) c post') :
    Paced total (Pure.pure a >>= f) (Pure.pure a >>= g) c post' := by
  have hpure : Paced total (Pure.pure a : Traced α) (Pure.pure a) c fun b d => b = a ∧ d = c :=
    .pure ⟨rfl, rfl⟩
  refine hpure.bind ?_
  rintro _ _ ⟨rfl, rfl⟩
  exact h

theorem Paced.mono {post' : α → Cursor → Prop} (h : Paced total p q c post)
    (hpost : ∀ a d, post a d → post' a d) : Paced total p q c post' :=
  ⟨h.trail, h.load, h.result, fun a d hr => hpost a d (h.post a d hr)⟩

theorem paced_unexpected : Paced total (unexpected : Traced α) unexpected c post := .look .throw

theorem paced_failHere {message : String} :
    Paced total (failHere message : Traced α) (failHere message) c post :=
  .look .throw

end Paced

/-- From every place with fewer than `n` tokens behind it, `p` and `q` keep pace. -/
def Paces {α : Type} (total n used spare : Nat) (p : Traced α) (q : Parser α) : Prop :=
  ∀ c, c.Ready total n → Paced total p q c fun _ d => c.Ahead used spare d

theorem Paces.mono {α : Type} {total n n' used spare : Nat} {p : Traced α} {q : Parser α}
    (h : Paces total n used spare p q) (hn : n' ≤ n) : Paces total n' used spare p q :=
  fun c hc => h c ⟨hc.closed, Nat.lt_of_lt_of_le hc.short hn, hc.load⟩

section Steps

variable {start c : Cursor} {total n used spare : Nat} (hs : start.Ready total n)
include hs

theorem Paces.after {α : Type} {p : Traced α} {q : Parser α} {n' used' spare' : Nat}
    (h : Paces total n' used' spare' p q) (hc : start.Ahead used spare c) (hn : n ≤ n' + used) :
    Paced total p q c fun _ d => start.Ahead (used + used') (spare + spare') d :=
  (h c (hc.ready hs hn)).mono fun _ _ hd => hc.trans hd

theorem paced_advance (hc : start.Ahead used spare c) (hk : c.kind ≠ .endOfFile) :
    Paced total advance advance c fun _ d => start.Ahead (used + 1) (spare + 1) d := by
  have hd := hc.advance hk
  have hload := hs.load
  have hspare := hd.spare
  refine ⟨.advance .nil, ?_, rfl, ?_⟩
  · rw [Traced.run_advance, List.forall_mem_singleton]
    omega
  · rintro _ _ ⟨⟩
    exact hd

theorem paced_freshNode (hc : start.Ahead used (spare + 1) c) (span : Span) :
    Paced total (freshNode span) (freshNode span) c fun _ d => start.Ahead used spare d := by
  have hd := hc.tick
  have hload := hs.load
  have hspare := hd.spare
  have hfresh : Paced total freshId freshId c fun _ d => start.Ahead used spare d := by
    refine ⟨.tick .nil, ?_, rfl, ?_⟩
    · rw [Traced.run_freshId, List.forall_mem_singleton]
      omega
    · rintro _ _ ⟨⟩
      exact hd
  exact hfresh.bind fun _ _ hd => .pure hd

theorem paced_closeNode (hc : start.Ahead used (spare + 1) c) (position : Position) :
    Paced total (closeNode position) (closeNode position) c fun _ d => start.Ahead used spare d :=
  .look (paced_freshNode hs hc _)

theorem paced_expect (hc : start.Ahead used spare c) {kind : Kind} (hk : kind ≠ .endOfFile) :
    Paced total (expect kind) (expect kind) c fun _ d =>
      start.Ahead (used + 1) (spare + 1) d := by
  refine .look ?_
  split
  · rename_i hkind
    exact paced_advance hs hc (hkind ▸ hk)
  · exact paced_unexpected

theorem paced_expectDetailed (hc : start.Ahead used spare c) {kind : Kind} {message : String}
    (hk : kind ≠ .endOfFile) :
    Paced total (expectDetailed kind message) (expectDetailed kind message) c fun _ d =>
      start.Ahead (used + 1) (spare + 1) d := by
  refine .look ?_
  split
  · rename_i hkind
    exact paced_advance hs hc (hkind ▸ hk)
  · exact paced_failHere

theorem paced_closing (hc : start.Ahead used spare c) (position : Position)
    (make : Node → Stmt) :
    Paced total (do let _ ← expect .semicolon; return make (← closeNode position))
      (do let _ ← expect .semicolon; return make (← closeNode position)) c fun _ d =>
        start.Ahead used spare d := by
  refine .bind (paced_expect hs hc nofun) fun _ _ hd => ?_
  refine .bind (paced_closeNode hs hd _) fun _ _ he => ?_
  exact .pure (he.mono (Nat.le_succ _) (Nat.le_refl _))

end Steps

/-! ### Expressions -/

section Constructs

variable {expr : Power → Traced Expr} {expr' : Power → Parser Expr} {block : Traced Block}
  {block' : Parser Block} {conditional : Traced Stmt} {conditional' : Parser Stmt} {c : Cursor}
  {total n : Nat}

theorem paced_leaf (hc : c.Ready total n) (hk : c.kind ≠ .endOfFile) (make : Node → Expr) :
    Paced total (leaf make) (leaf make) c fun _ d => c.Ahead 1 0 d :=
  .bind (paced_advance hc hc.ahead hk) fun _ _ hd =>
    .bind (paced_freshNode hc hd _) fun _ _ he => .pure he

theorem paced_number (hc : c.Ready total n) (hk : c.kind ≠ .endOfFile) (token : Token)
    (value : Option Value) :
    Paced total (number token value) (number token value) c fun _ d => c.Ahead 1 0 d := by
  cases value with
  | none => exact .throw
  | some value => exact paced_leaf hc hk _

theorem paced_primary (hc : c.Ready total n) (hk : c.kind ≠ .endOfFile) :
    Paced total primary primary c fun _ d => c.Ahead 1 0 d := by
  refine .look ?_
  dsimp only
  split
  case h_1 | h_2 => exact paced_number hc hk _ _
  case h_3 | h_4 | h_5 => exact paced_leaf hc hk _
  case h_6 => exact paced_unexpected

theorem paced_signed (hexpr : ∀ power, Paces total (n - 1) 1 0 (expr power) (expr' power))
    (hc : c.Ready total n) (hk : c.kind ≠ .endOfFile) :
    Paced total (signed expr) (signed expr') c fun _ d => c.Ahead 1 0 d := by
  refine .bind (paced_advance hc hc.ahead hk) fun t d hd => ?_
  split
  · exact .throw
  · refine .bind ((hexpr _).after hc hd (by omega)) fun _ _ he => ?_
    refine .bind (paced_freshNode hc he _) fun _ _ hf => ?_
    exact .pure (hf.mono (by omega) (by omega))

theorem paced_grouping (hexpr : ∀ power, Paces total (n - 1) 1 0 (expr power) (expr' power))
    (hc : c.Ready total n) :
    Paced total (grouping expr) (grouping expr') c fun _ d => c.Ahead 1 0 d := by
  refine .bind (paced_expect hc hc.ahead nofun) fun _ _ hd => ?_
  refine .bind ((hexpr _).after hc hd (by omega)) fun _ _ he => ?_
  refine .bind (paced_expect hc he nofun) fun _ _ hf => ?_
  exact .pure (hf.mono (by omega) (by omega))

theorem paced_compound (hblock : Paces total n 1 1 block block') (hc : c.Ready total n) :
    Paced total (compound block) (compound block') c fun _ d => c.Ahead 1 0 d := by
  refine .bind (hblock.after hc hc.ahead (by omega)) fun _ _ hd => ?_
  exact .bind (paced_freshNode hc hd _) fun _ _ he => .pure (he.mono (by omega) (by omega))

theorem paced_operand (hexpr : ∀ power, Paces total (n - 1) 1 0 (expr power) (expr' power))
    (hblock : Paces total n 1 1 block block') (hc : c.Ready total n) :
    Paced total (operand expr block) (operand expr' block') c fun _ d => c.Ahead 1 0 d := by
  refine .look ?_
  split
  case h_1 hk | h_2 hk | h_3 hk | h_4 hk | h_5 hk => exact paced_primary hc (by simp [hk])
  case h_6 hk | h_7 hk => exact paced_signed hexpr hc (by simp [hk])
  case h_8 => exact paced_grouping hexpr hc
  case h_9 => exact paced_compound hblock hc
  case h_10 =>
    split
    · exact paced_failHere
    · exact paced_unexpected

theorem paced_binary (hexpr : ∀ power, Paces total (n - 1) 1 0 (expr power) (expr' power))
    (hc : c.Ready total n) (hk : c.kind ≠ .endOfFile) (left : Expr) (power : Power) :
    Paced total (binary expr left power) (binary expr' left power) c fun _ d => c.Ahead 1 0 d := by
  refine .bind (paced_advance hc hc.ahead hk) fun t d hd => ?_
  split
  · exact .throw
  · refine .bind ((hexpr _).after hc hd (by omega)) fun _ _ he => ?_
    refine .bind (paced_freshNode hc he _) fun _ _ hf => ?_
    exact .pure (hf.mono (by omega) (by omega))

/-! ### Statements -/

section Declarations

variable {start : Cursor} {used spare : Nat} (hs : start.Ready total n)
include hs

theorem paced_typeName? (hc : start.Ahead used spare c) :
    Paced total typeName? typeName? c fun _ d => start.Ahead used spare d := by
  refine .look ?_
  split
  · rename_i hk
    refine .bind (paced_advance hs hc (by simp [hk])) fun t d hd => ?_
    split
    · exact .pure (hd.mono (by omega) (by omega))
    · exact .throw
  · exact .pure hc

theorem paced_initializer? (hexpr : ∀ power, Paces total (n - 1) 1 0 (expr power) (expr' power))
    (hc : start.Ahead used spare c) :
    Paced total (initializer? (expr .lowest)) (initializer? (expr' .lowest)) c fun _ d =>
      start.Ahead used spare d := by
  refine .look ?_
  split
  · rename_i hk
    refine .bind (paced_advance hs hc (by simp [hk])) fun _ _ hd => ?_
    refine .bind ((hexpr _).after hs hd (by omega)) fun _ _ he => ?_
    exact .pure (he.mono (by omega) (by omega))
  · exact .pure hc

end Declarations

theorem paced_varDeclaration
    (hexpr : ∀ power, Paces total (n - 1) 1 0 (expr power) (expr' power)) (hc : c.Ready total n)
    (hk : c.kind ≠ .endOfFile) :
    Paced total (varDeclaration (expr .lowest)) (varDeclaration (expr' .lowest)) c fun _ d =>
      c.Ahead 1 0 d := by
  refine .bind (paced_advance hc hc.ahead hk) fun _ _ hd => ?_
  refine .bind (paced_expectDetailed hc hd nofun) fun _ _ he => ?_
  refine .bind (paced_typeName? hc he) fun _ _ hf => ?_
  refine .bind (paced_initializer? hc hexpr hf) fun _ _ hg => ?_
  dsimp only
  split
  · refine .bind (paced_failHere : Paced total _ _ _ fun _ _ => False) fun _ _ h => h.elim
  · exact (paced_closing hc hg _ _).mono fun _ _ hd => hd.mono (by omega) (by omega)

theorem paced_constDeclaration
    (hexpr : ∀ power, Paces total (n - 1) 1 0 (expr power) (expr' power)) (hc : c.Ready total n)
    (hk : c.kind ≠ .endOfFile) :
    Paced total (constDeclaration (expr .lowest)) (constDeclaration (expr' .lowest)) c fun _ d =>
      c.Ahead 1 0 d := by
  refine .bind (paced_advance hc hc.ahead hk) fun _ _ hd => ?_
  refine .bind (paced_expectDetailed hc hd nofun) fun _ _ he => ?_
  refine .bind (paced_typeName? hc he) fun _ _ hf => ?_
  refine .bind (paced_initializer? hc hexpr hf) fun init _ hg => ?_
  cases init with
  | none => exact paced_failHere
  | some init => exact (paced_closing hc hg _ _).mono fun _ _ hd => hd.mono (by omega) (by omega)

theorem paced_assignment (hexpr : ∀ power, Paces total (n - 1) 1 0 (expr power) (expr' power))
    (hc : c.Ready total n) :
    Paced total (assignment (expr .lowest)) (assignment (expr' .lowest)) c fun _ d =>
      c.Ahead 1 0 d := by
  refine .bind (paced_expect hc hc.ahead nofun) fun _ _ hd => ?_
  refine .bind (paced_expect hc hd nofun) fun _ _ he => ?_
  refine .bind ((hexpr _).after hc he (by omega)) fun _ _ hf => ?_
  exact (paced_closing hc hf _ _).mono fun _ _ hd => hd.mono (by omega) (by omega)

theorem paced_printing (hexpr : ∀ power, Paces total (n - 1) 1 0 (expr power) (expr' power))
    (hc : c.Ready total n) (hk : c.kind ≠ .endOfFile) :
    Paced total (printing (expr .lowest)) (printing (expr' .lowest)) c fun _ d =>
      c.Ahead 1 0 d := by
  refine .bind (paced_advance hc hc.ahead hk) fun _ _ hd => ?_
  refine .bind ((hexpr _).after hc hd (by omega)) fun _ _ he => ?_
  exact (paced_closing hc he _ _).mono fun _ _ hd => hd.mono (by omega) (by omega)

theorem paced_loopControl (hc : c.Ready total n) (hk : c.kind ≠ .endOfFile) :
    Paced total loopControl loopControl c fun _ d => c.Ahead 1 0 d := by
  refine .bind (paced_advance hc hc.ahead hk) fun _ _ hd => ?_
  refine .bind (paced_expect hc hd nofun) fun _ _ he => ?_
  refine .bind (paced_closeNode hc he _) fun _ _ hf => ?_
  exact .pure (hf.mono (by omega) (by omega))

theorem paced_exprStatement (hexpr : ∀ power, Paces total n 1 0 (expr power) (expr' power))
    (hc : c.Ready total n) :
    Paced total (exprStatement (expr .lowest)) (exprStatement (expr' .lowest)) c fun _ d =>
      c.Ahead 1 0 d := by
  refine .look (.bind ((hexpr _).after hc hc.ahead (by omega)) fun _ _ hd => ?_)
  exact (paced_closing hc hd _ _).mono fun _ _ hd => hd.mono (by omega) (by omega)

theorem paced_whileLoop (hexpr : ∀ power, Paces total (n - 1) 1 0 (expr power) (expr' power))
    (hblock : Paces total (n - 1) 1 1 block block') (hc : c.Ready total n)
    (hk : c.kind ≠ .endOfFile) :
    Paced total (whileLoop (expr .lowest) block) (whileLoop (expr' .lowest) block') c fun _ d =>
      c.Ahead 1 0 d := by
  refine .bind (paced_advance hc hc.ahead hk) fun _ _ hd => ?_
  refine .bind ((hexpr _).after hc hd (by omega)) fun _ _ he => ?_
  refine .bind (hblock.after hc he (by omega)) fun _ _ hf => ?_
  refine .bind (paced_closeNode hc hf _) fun _ _ hg => ?_
  exact .pure (hg.mono (by omega) (by omega))

def PacesAtIf (total n : Nat) (p : Traced Stmt) (q : Parser Stmt) : Prop :=
  ∀ c, c.Ready total n → c.kind = .ifWord → Paced total p q c fun _ d => c.Ahead 1 0 d

theorem paces_otherwise (hblock : Paces total n 1 1 block block')
    (hcond : PacesAtIf total n conditional conditional') :
    Paces total n 1 0 (otherwise block conditional) (otherwise block' conditional') := by
  refine fun c hc => .look ?_
  split
  · rename_i hk
    exact .bind (hcond c hc hk) fun _ _ hd => .pure hd
  · exact (hblock c hc).mono fun _ _ hd => hd.mono (by omega) (by omega)

theorem paced_ifElse (hexpr : ∀ power, Paces total (n - 1) 1 0 (expr power) (expr' power))
    (hblock : Paces total (n - 1) 1 1 block block')
    (hcond : PacesAtIf total (n - 1) conditional conditional') (hc : c.Ready total n)
    (hk : c.kind ≠ .endOfFile) :
    Paced total (ifElse (expr .lowest) block conditional)
      (ifElse (expr' .lowest) block' conditional') c fun _ d => c.Ahead 1 0 d := by
  refine .bind (paced_advance hc hc.ahead hk) fun _ _ hd => ?_
  refine .bind ((hexpr _).after hc hd (by omega)) fun _ _ he => ?_
  refine .bind (hblock.after hc he (by omega)) fun _ _ hf => ?_
  refine .look ?_
  split
  · rename_i hk
    refine .bind (paced_advance hc hf (by simp [hk])) fun _ _ hg => ?_
    refine .bind ((paces_otherwise hblock hcond).after hc hg (by omega)) fun _ _ hh => ?_
    refine .pure_bind (.bind (paced_closeNode hc hh _) fun _ _ hi => ?_)
    exact .pure (hi.mono (by omega) (by omega))
  · refine .pure_bind (.bind (paced_closeNode hc hf _) fun _ _ hg => ?_)
    exact .pure (hg.mono (by omega) (by omega))

theorem paced_statement (hexpr : ∀ power, Paces total n 1 0 (expr power) (expr' power))
    (hblock : Paces total (n - 1) 1 1 block block')
    (hcond : PacesAtIf total n conditional conditional') (hc : c.Ready total n) :
    Paced total (statement (expr .lowest) block conditional)
      (statement (expr' .lowest) block' conditional') c fun _ d => c.Ahead 1 0 d := by
  -- only an expression statement asks for an expression before it has read a token
  have hafter : ∀ power, Paces total (n - 1) 1 0 (expr power) (expr' power) :=
    fun power => (hexpr power).mono (Nat.sub_le n 1)
  refine .look ?_
  split
  case h_1 hk => exact paced_varDeclaration hafter hc (by simp [hk])
  case h_2 hk => exact paced_constDeclaration hafter hc (by simp [hk])
  case h_3 hk => exact paced_printing hafter hc (by simp [hk])
  case h_4 hk => exact hcond c hc hk
  case h_5 hk => exact paced_whileLoop hafter hblock hc (by simp [hk])
  case h_6 hk | h_7 hk => exact paced_loopControl hc (by simp [hk])
  case h_8 =>
    split
    · exact paced_assignment hafter hc
    · exact paced_exprStatement hexpr hc
  case h_9 => exact paced_exprStatement hexpr hc

theorem paced_braced {body : Traced (List Stmt)} {body' : Parser (List Stmt)}
    (hbody : Paces total (n - 1) 0 0 body body') (hc : c.Ready total n) :
    Paced total (braced body) (braced body') c fun _ d => c.Ahead 1 1 d := by
  refine .bind (paced_expect hc hc.ahead nofun) fun _ _ hd => ?_
  refine .bind (hbody.after hc hd (by omega)) fun _ _ he => ?_
  refine .bind (paced_expect hc he nofun) fun _ _ hf => ?_
  exact .look (.pure (hf.mono (by omega) (by omega)))

end Constructs

end Parser

end Leveret
