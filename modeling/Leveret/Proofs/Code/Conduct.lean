import Leveret.Proofs.Code.Control
import Leveret.Proofs.Code.Development
import Leveret.Proofs.Code.Script

/-!
# How lowering conducts itself

Every edit of a script is allowed in the state that it is made in, whether the script succeeds or
fails later. Where it succeeds, the code has developed in keeping with a law.
-/

namespace Leveret.Code

open Lowering

/-! ## Edits that are allowed -/

/-- An edit leads only to what is there, and it writes only to a block that is open. -/
def Edit.Allowed (s : State) : Edit → Prop
  | goTo block => block < s.builder.blocks.size
  | emit _ | terminate _ => s.builder.isTerminated = false
  | enterLoop targets =>
    targets.header < s.builder.blocks.size ∧ targets.exit < s.builder.blocks.size
  | declare _ slot => slot < s.builder.slots.size
  | _ => True

def Orderly : State → List Edit → Prop
  | _, [] => True
  | s, e :: es => e.Allowed s ∧ Orderly (e.apply s) es

theorem Orderly.append {s : State} {es es' : List Edit} (h : Orderly s es)
    (h' : Orderly (replay s es) es') : Orderly s (es ++ es') := by
  induction es generalizing s with
  | nil => exact h'
  | cons e es ih => exact ⟨h.1, ih h.2 h'⟩

theorem isTerminated_of_ready {b : Builder} (h : b.Ready) : b.isTerminated = false := by
  obtain ⟨block, hb, ht⟩ := h
  rw [Builder.isTerminated, hb, Option.bind_some, ht]
  rfl

/-! ## Scripts that go well -/

namespace Script

/-- From `s` the script makes only edits that are allowed, and what it comes to satisfies `post`
unless it fails. -/
def Goes {α : Type} (x : Script α) (s : State) (post : α → State → Prop) : Prop :=
  Orderly s (x.run s).1 ∧ ∀ a, (x.run s).2 = .ok a → post a (replay s (x.run s).1)

section Goes

variable {α β : Type} {s : State} {post : α → State → Prop}

theorem Goes.pure {a : α} (h : post a s) : Goes (pure a) s post := by
  refine ⟨trivial, fun a' ha => ?_⟩
  cases ha
  exact h

theorem Goes.fail {position : Position} {message : String} : Goes (fail position message) s post :=
  ⟨trivial, nofun⟩

theorem Goes.look {f : State → α} (h : post (f s) s) : Goes (look f) s post := by
  refine ⟨trivial, fun a ha => ?_⟩
  cases ha
  exact h

theorem Goes.edit {e : Edit} {post : Unit → State → Prop} (ha : e.Allowed s)
    (h : post () (e.apply s)) : Goes (edit e) s post := ⟨⟨ha, trivial⟩, fun _ _ => h⟩

theorem Goes.bind {x : Script α} {f : α → Script β} {post : β → State → Prop}
    (h : Goes x s fun a s' => Goes (f a) s' post) : Goes (x >>= f) s post := by
  have hbind : (x >>= f).run s = x.andThen f s := rfl
  obtain ⟨hx, hf⟩ := h
  rw [Goes, hbind, andThen]
  rcases hrun : x.run s with ⟨edits, d | a⟩
  · rw [hrun] at hx
    exact ⟨hx, fun b hb => by cases hb⟩
  · rw [hrun] at hx hf
    obtain ⟨hedits, hpost⟩ := hf a rfl
    refine ⟨hx.append hedits, fun b hb => ?_⟩
    have h := hpost b hb
    rwa [← replay_append] at h

theorem Goes.mono {x : Script α} {post' : α → State → Prop} (h : Goes x s post)
    (hp : ∀ a s', post a s' → post' a s') : Goes x s post' :=
  ⟨h.1, fun a ha => hp _ _ (h.2 a ha)⟩

theorem Goes.ending {x : Script α} {e : Edit} (h : Goes x s fun a s' => post a (e.apply s'))
    (he : ∀ s, e.Allowed s) : Goes (ending x e) s post := by
  refine ⟨h.1.append ⟨he _, trivial⟩, fun a ha => ?_⟩
  have hpost := h.2 a ha
  change post a (replay s ((x.run s).1 ++ [e]))
  rwa [replay_append]

/-! ## Steps -/

theorem liftScope_goes {position : Position} {x : Except ScopeError α}
    (h : ∀ a, x = .ok a → post a s) : Goes (liftScope position x) s post := by
  cases x with
  | ok a => exact .pure (h a rfl)
  | error e => exact .fail

theorem typeOf_goes {types : Annotations} {id : Nat} {position : Position}
    {post : Ty → State → Prop} (h : ∀ ty, types.Notes id ty → post ty s) :
    Goes (typeOf types id position) s post := by
  unfold typeOf
  unfold Annotations.Notes at h
  cases hty : types[id]? with
  | none => exact .fail
  | some ty => exact .pure (h ty hty)

theorem require_goes {position : Position} {r : Option Operand} {post : Operand → State → Prop}
    (h : ∀ o ∈ r, post o s) : Goes (require position r) s post := by
  cases r with
  | none => exact .fail
  | some o => exact .pure (h o rfl)

theorem resolve_goes {position : Position} {name : String} {post : Nat × Ty → State → Prop}
    (h : ∀ slot, s.scopes.find? name = some slot →
      post (slot, (s.builder.slotType? slot).getD default) s) :
    Goes (resolve position name) s post := by
  unfold resolve
  refine .bind (.look (.bind (liftScope_goes fun slot hslot => .bind (.look (.pure (h slot ?_))))))
  unfold Chain.resolve at hslot
  cases hf : s.scopes.find? name with
  | none =>
    rw [hf] at hslot
    cases hslot
  | some found =>
    rw [hf] at hslot
    cases hslot
    rfl

theorem inFrame_goes {x : Script α} (h : Goes x { s with scopes := s.scopes.push } fun a s' =>
    post a { s' with scopes := s'.scopes.pop }) : Goes (inFrame x) s post := by
  unfold inFrame
  exact .bind (.edit trivial (h.ending fun _ => trivial))

theorem createBlock_goes {name : String} {post : Nat → State → Prop}
    (h : post s.builder.blocks.size { s with builder := (s.builder.createBlock name).2 }) :
    Goes (createBlock name) s post := .bind (.look (.bind (.edit trivial (.pure h))))

theorem freshRegister_goes {post : Nat → State → Prop}
    (h : post s.builder.nextRegister { s with builder := s.builder.freshRegister.2 }) :
    Goes freshRegister s post := .bind (.look (.bind (.edit trivial (.pure h))))

theorem allocateSlot_goes {name : String} {ty : Ty} {post : Nat → State → Prop}
    (h : post s.builder.slots.size { s with builder := (s.builder.allocateSlot name ty).2 }) :
    Goes (allocateSlot name ty) s post := .bind (.look (.bind (.edit trivial (.pure h))))

/-! ## Instructions -/

variable (hs : s.builder.Ready)
include hs

theorem unary_goes {op : UnaryOp} {ty : Ty} {o : Operand} {post : Operand → State → Prop}
    (hplus : op = .plus → post o s)
    (hminus : op = .minus → post (.register s.builder.nextRegister) { s with
      builder := s.builder.freshRegister.2.emit (.neg s.builder.nextRegister ty o) }) :
    Goes (unary op ty o) s post := by
  cases op with
  | plus => exact .pure (hplus rfl)
  | minus =>
    unfold unary
    refine .bind (freshRegister_goes ?_)
    exact .bind (.edit (isTerminated_of_ready hs) (.pure (hminus rfl)))

theorem binary_goes {position : Position} {op : BinaryOp} {ty : Ty} {x y : Operand}
    {post : Operand → State → Prop}
    (h : ∀ i, Lowering.binaryInstruction? op ty s.builder.nextRegister x y = some i →
      post (.register s.builder.nextRegister) { s with
        builder := s.builder.freshRegister.2.emit i }) :
    Goes (binary position op ty x y) s post := by
  unfold binary
  refine .bind (freshRegister_goes ?_)
  cases hi : Lowering.binaryInstruction? op ty s.builder.nextRegister x y with
  | none => exact .fail
  | some i => exact .bind (.edit (isTerminated_of_ready hs) (.pure (h i hi)))

theorem load_goes {position : Position} {name : String} {post : Operand → State → Prop}
    (h : ∀ slot, s.scopes.find? name = some slot →
      post (.register s.builder.nextRegister) { s with
        builder := s.builder.freshRegister.2.emit (.load s.builder.nextRegister slot
          ((s.builder.slotType? slot).getD default)) }) :
    Goes (load position name) s post := by
  unfold load
  refine .bind (resolve_goes fun slot hslot => .bind (freshRegister_goes ?_))
  exact .bind (.edit (isTerminated_of_ready hs) (.pure (h slot hslot)))

theorem declare_goes {position : Position} {name : String} {ty : Ty} {o : Operand}
    {post : Unit → State → Prop}
    (h : ∀ scopes, s.scopes.Adds name s.builder.slots.size scopes → post ()
      ⟨(s.builder.allocateSlot name ty).2.emit (.store s.builder.slots.size ty o), scopes⟩) :
    Goes (declare position name ty o) s post := by
  unfold declare
  refine .bind (allocateSlot_goes ?_)
  refine .bind (.edit (isTerminated_of_ready hs) (.bind (.look ?_)))
  refine .bind (liftScope_goes fun scopes hscopes => .edit ?_ ?_)
  · change s.builder.slots.size < (s.builder.slots.push ⟨name, ty⟩).size
    rw [Array.size_push]
    exact Nat.lt_succ_self _
  · rw [Edit.apply_declare hscopes]
    exact h scopes (Chain.declare_eq_ok.1 hscopes)

theorem assign_goes {position : Position} {name : String} {o : Operand}
    {post : Unit → State → Prop}
    (h : ∀ slot, s.scopes.find? name = some slot → post () { s with
      builder := s.builder.emit (.store slot ((s.builder.slotType? slot).getD default) o) }) :
    Goes (assign position name o) s post := by
  unfold assign
  refine .bind (resolve_goes fun slot hslot => ?_)
  exact .edit (isTerminated_of_ready hs) (h slot hslot)

theorem jump_goes {position : Position} {target : LoopTargets → Nat} {post : Unit → State → Prop}
    (h : ∀ targets rest, s.builder.loops = targets :: rest → post () { s with
      builder := s.builder.jump (.br (target targets)) }) :
    Goes (jump position target) s post := by
  unfold jump
  refine .bind (.look ?_)
  cases hl : s.builder.loops with
  | nil => exact .fail
  | cons targets rest =>
    refine .bind (.edit (isTerminated_of_ready hs) (.bind (createBlock_goes ?_)))
    refine .edit ?_ (h targets rest hl)
    exact (Builder.createBlock_fresh _).lt

end Goes

/-! ## Branches and loops -/

section Fork

variable {α : Type} {s : State}

theorem fork_goes {x y z : String} {rest : Nat → Nat → Nat → Script α} {post : α → State → Prop}
    (h : Goes (rest s.builder.blocks.size (s.builder.blocks.size + 1) (s.builder.blocks.size + 2))
      { s with builder := s.builder.fork x y z } post) :
    Goes (do
      let i ← createBlock x
      let j ← createBlock y
      let k ← createBlock z
      rest i j k) s post := by
  have hy := Builder.createBlock_size (b := s.builder) x
  have hz := Builder.createBlock_size (b := (s.builder.createBlock x).2) y
  rw [hy] at hz
  rw [← hy, ← hz] at h
  exact .bind (createBlock_goes (.bind (createBlock_goes (.bind (createBlock_goes h)))))

theorem fill_goes {x : Script α} {block next : Nat} {post : Unit → State → Prop}
    (hb : block < s.builder.blocks.size)
    (h : Goes x { s with builder := s.builder.goTo block } fun _ s' => s'.builder.Ready ∧
      post () { s' with builder := s'.builder.terminate (.br next) }) :
    Goes (fill block next x) s post := by
  unfold fill
  refine .bind (.edit hb (.bind (h.mono fun _ s' hp => ?_)))
  exact .edit (isTerminated_of_ready hp.1) hp.2

theorem inLoop_goes {x : Script α} {targets : LoopTargets} {post : α → State → Prop}
    (ht : targets.header < s.builder.blocks.size ∧ targets.exit < s.builder.blocks.size)
    (h : Goes x { s with builder := { s.builder with loops := targets :: s.builder.loops } }
      fun a s' =>
        post a { s' with builder := { s'.builder with loops := s'.builder.loops.tail } }) :
    Goes (inLoop targets x) s post := by
  unfold inLoop
  exact .bind (.edit ht (h.ending fun _ => trivial))

end Fork

end Script

/-! ## Where scripts lead -/

/-- From `s` to `s'` code develops and the names in scope stay as they are. -/
structure Leads (law : Law) (s : State) (known : List Fact) (s' : State) (known' : List Fact) :
    Prop where
  develops : Develops law s.builder known s'.builder known'
  scopes : s'.scopes = s.scopes

/-- From `s` to `s'` code develops and names may be added to the innermost frame. -/
structure Proceeds (law : Law) (s : State) (known : List Fact) (s' : State) (known' : List Fact) :
    Prop where
  develops : Develops law s.builder known s'.builder known'
  outer : s'.scopes.pop = s.scopes.pop

section Leads

variable {law : Law} {s s' s'' : State} {known known' known'' : List Fact}

theorem Leads.refl : Leads law s known s known := ⟨.refl, rfl⟩

theorem Leads.trans (h : Leads law s known s' known') (h' : Leads law s' known' s'' known'') :
    Leads law s known s'' known'' :=
  ⟨h.develops.trans h'.develops, h'.scopes.trans h.scopes⟩

theorem Leads.compute {i : Instruction} {ty : Ty}
    (hi : i.gives = [.register s.builder.nextRegister ty])
    (hl : law.instruction s.builder.slots known i) :
    Leads law s known { s with builder := s.builder.freshRegister.2.emit i }
      (.register s.builder.nextRegister ty :: known) := ⟨.compute hi hl, rfl⟩

theorem Leads.perform {i : Instruction} (hi : ∀ n ty, .register n ty ∉ i.gives)
    (hl : law.instruction s.builder.slots known i) :
    Leads law s known { s with builder := s.builder.emit i } known := ⟨.perform hi hl, rfl⟩

theorem Leads.proceeds (h : Leads law s known s' known') : Proceeds law s known s' known' :=
  ⟨h.develops, congrArg Chain.pop h.scopes⟩

theorem Proceeds.trans (h : Proceeds law s known s' known')
    (h' : Proceeds law s' known' s'' known'') : Proceeds law s known s'' known'' :=
  ⟨h.develops.trans h'.develops, h'.outer.trans h.outer⟩

theorem Proceeds.declare {name : String} {ty : Ty} {o : Operand} {scopes : Chain Nat}
    (ha : s.scopes.Adds name s.builder.slots.size scopes)
    (hl : law.instruction (s.builder.slots.push ⟨name, ty⟩) known
      (.store s.builder.slots.size ty o)) :
    Proceeds law s known
      ⟨(s.builder.allocateSlot name ty).2.emit (.store s.builder.slots.size ty o), scopes⟩
      (.slot s.builder.slots.size :: known) := ⟨.declare hl, ha.pop⟩

theorem Proceeds.jump {targets : LoopTargets} {rest : List LoopTargets}
    {target : LoopTargets → Nat} (hl : s.builder.loops = targets :: rest)
    (ht : target targets = targets.header ∨ target targets = targets.exit) :
    Proceeds law s known { s with builder := s.builder.jump (.br (target targets)) } known :=
  ⟨.jump hl ht, rfl⟩

theorem Proceeds.inFrame (h : Proceeds law { s with scopes := s.scopes.push } known s' known') :
    Leads law s known { s' with scopes := s'.scopes.pop } known' := ⟨h.develops, h.outer⟩

end Leads

namespace Script

theorem discard_goes {law : Law} {s : State} {known : List Fact} {x : Script (Option Operand)}
    {good : Option Operand → List Fact → Prop}
    (h : Goes x s fun r s' => ∃ known', Leads law s known s' known' ∧ good r known') :
    Goes (discard x) s fun _ s' => ∃ known', Leads law s known s' known' := by
  refine .bind (h.mono fun r s' hp => .pure ?_)
  obtain ⟨known', hl, -⟩ := hp
  exact ⟨known', hl⟩

section Control

variable (law : Law) (known : List Fact) {s : State}

def Later (s : State) (b : Builder) : Prop :=
  s.builder.Within s.builder.blocks.size s.builder.current b ∧ b.Ready

theorem ifElse_goes {x y : Script Unit} {o : Operand} (hs : s.builder.Ready)
    (ho : law.test known o)
    (hx : ∀ b, Later s b → Goes x { s with builder := b } fun _ s' =>
      ∃ known', Leads law { s with builder := b } known s' known')
    (hy : ∀ b, Later s b → Goes y { s with builder := b } fun _ s' =>
      ∃ known', Leads law { s with builder := b } known s' known') :
    Goes (ifElse o x y) s fun _ s' => Leads law s known s' known := by
  let n := s.builder.blocks.size
  let b₀ := s.builder.forkFirst "then" "else" "merge" (.condBr o n (n + 1))
  have hsize₀ : n + 2 < b₀.blocks.size := by
    rw [Builder.forkFirst_size]
    exact Nat.lt_succ_self _
  unfold ifElse
  refine fork_goes (.bind (.edit (isTerminated_of_ready (Builder.fork_ready hs)) ?_))
  refine .bind (fill_goes (Nat.lt_of_succ_lt (Nat.lt_of_succ_lt hsize₀)) ?_)
  refine (hx b₀ ⟨Builder.forkFirst_within hs, Builder.forkFirst_ready hs⟩).mono ?_
  rintro _ s₁ ⟨known₁, h₁⟩
  have hg₁ := h₁.develops.grown (Builder.forkFirst_ready hs)
  refine ⟨hg₁.ready, ?_⟩
  let b₁ := s.builder.forkSecond s₁.builder (.br (n + 2)) s.builder.loops
  have hsize₁ : n + 2 < (s₁.builder.terminate (.br (n + 2))).blocks.size := by
    rw [Builder.terminate_size]
    exact Nat.lt_of_lt_of_le hsize₀ hg₁.within.blocks.size
  -- the first part has left the scopes and the loops as they were
  have hstate₁ : { s₁ with builder := (s₁.builder.terminate (.br (n + 2))).goTo (n + 1) } =
      { s with builder := b₁ } := by
    have hb₁ : b₁ = (s₁.builder.terminate (.br (n + 2))).goTo (n + 1) :=
      Builder.forkSecond_eq hg₁.loops
    rw [hb₁, h₁.scopes]
  refine .bind (fill_goes (Nat.lt_of_succ_lt hsize₁) ?_)
  change Goes y { s₁ with builder := (s₁.builder.terminate (.br (n + 2))).goTo (n + 1) } _
  rw [hstate₁]
  have hready₁ : b₁.Ready := Builder.forkSecond_ready hs hg₁
  refine (hy b₁ ⟨Builder.forkSecond_within hs hg₁, hready₁⟩).mono ?_
  rintro _ s₂ ⟨known₂, h₂⟩
  have hg₂ := h₂.develops.grown hready₁
  refine ⟨hg₂.ready, .edit ?_ ?_⟩
  · change n + 2 < (s₂.builder.terminate _).blocks.size
    rw [Builder.terminate_size]
    exact Nat.lt_of_lt_of_le hsize₁ hg₂.within.blocks.size
  · have hb₂ : s.builder.forkLast s₂.builder (.br (n + 2)) =
        (s₂.builder.terminate (.br (n + 2))).goTo (n + 2) := Builder.forkLast_eq hg₂.loops
    refine ⟨?_, h₂.scopes⟩
    change Develops law s.builder known ((s₂.builder.terminate (.br (n + 2))).goTo (n + 2)) known
    rw [← hb₂]
    exact .branch ho h₁.develops h₂.develops

theorem whileLoop_goes {x : Script Operand} {y : Script Unit} (hs : s.builder.Ready)
    (hx : ∀ b, Later s b → Goes x { s with builder := b } fun o s' =>
      ∃ known', Leads law { s with builder := b } known s' known' ∧ law.test known' o)
    (hy : ∀ b, Later s b → Goes y { s with builder := b } fun _ s' =>
      ∃ known', Leads law { s with builder := b } known s' known') :
    Goes (whileLoop x y) s fun _ s' => Leads law s known s' known := by
  let n := s.builder.blocks.size
  let b₀ := s.builder.forkFirst "header" "body" "exit" (.br n)
  have hsize₀ : n + 2 < b₀.blocks.size := by
    rw [Builder.forkFirst_size]
    exact Nat.lt_succ_self _
  unfold whileLoop
  refine fork_goes (.bind (.edit (isTerminated_of_ready (Builder.fork_ready hs)) ?_))
  refine .bind (.edit (Nat.lt_of_succ_lt (Nat.lt_of_succ_lt hsize₀)) (.bind ?_))
  refine (hx b₀ ⟨Builder.forkFirst_within hs, Builder.forkFirst_ready hs⟩).mono ?_
  rintro o s₁ ⟨known₁, h₁, ho⟩
  have hg₁ := h₁.develops.grown (Builder.forkFirst_ready hs)
  let t₁ : Terminator := .condBr o (n + 1) (n + 2)
  let targets : LoopTargets := ⟨n, n + 2⟩
  let b₁ := s.builder.forkSecond s₁.builder t₁ (targets :: s.builder.loops)
  have hsize₁ : n + 2 < (s₁.builder.terminate t₁).blocks.size := by
    rw [Builder.terminate_size]
    exact Nat.lt_of_lt_of_le hsize₀ hg₁.within.blocks.size
  have hstate₁ : { s₁ with builder := { (s₁.builder.terminate t₁).goTo (n + 1) with
      loops := targets :: s₁.builder.loops } } = { s with builder := b₁ } := by
    rw [hg₁.loops, h₁.scopes]
    rfl
  refine .bind (.edit (isTerminated_of_ready hg₁.ready) (.bind (fill_goes ?_ (inLoop_goes ?_ ?_))))
  · exact Nat.lt_of_succ_lt hsize₁
  · exact ⟨Nat.lt_of_succ_lt (Nat.lt_of_succ_lt hsize₁), hsize₁⟩
  change Goes y { s₁ with builder := { (s₁.builder.terminate t₁).goTo (n + 1) with
      loops := targets :: s₁.builder.loops } } _
  rw [hstate₁]
  have hready₁ : b₁.Ready := Builder.forkSecond_ready hs hg₁
  refine (hy b₁ ⟨Builder.forkSecond_within hs hg₁, hready₁⟩).mono ?_
  rintro _ s₂ ⟨known₂, h₂⟩
  have hg₂ := h₂.develops.grown hready₁
  have hloops : s₂.builder.loops.tail = s.builder.loops := congrArg List.tail hg₂.loops
  refine ⟨hg₂.ready, .edit ?_ ?_⟩
  · change n + 2 < (Builder.terminate _ _).blocks.size
    rw [Builder.terminate_size]
    exact Nat.lt_of_lt_of_le hsize₁ hg₂.within.blocks.size
  · refine ⟨?_, h₂.scopes⟩
    change Develops law s.builder known (({ s₂.builder with
      loops := s₂.builder.loops.tail }.terminate (.br n)).goTo (n + 2)) known
    rw [hloops]
    exact .loop h₁.develops ho h₂.develops

end Control

end Script

end Leveret.Code
