import Leveret.Proofs.Code.Ledger
import Leveret.Proofs.Guards

/-!
# Frames that are restored

What may become of a chain while something is done: nothing, or one name is added to the innermost
frame. A step that may fail restores the chain if this is all it does, however it ends. What a block
does in its frame is confined to that frame, which makes the block as a whole restore the chain.
-/

namespace Leveret

variable {ε σ ρ κ α β : Type} {own : Option String}

/-! ## Chains before and after -/

theorem Frame.names_map_unit (l : List String) : Frame.names (l.map (·, ())) = l := by
  simp [Frame.names, Function.comp_def]

theorem Frame.lookup_eq_none_iff {f : Frame α} {name : String} :
    f.lookup name = none ↔ name ∉ f.names := by
  rw [← holds_eq_false, holds_eq_decide, decide_eq_false_iff_not]

namespace Chain

variable {c c' c'' : Chain α} {name : String} {record : α}

def names (c : Chain α) : List (List String) := c.frames.map Frame.names

/-- There are as many frames as before, and each has the names it had. Only the name `own` may be
new, and only to the innermost frame. -/
structure Preserved (own : Option String) (c c' : Chain α) : Prop where
  depth : c'.depth = c.depth
  names : c'.names = c.names ∨ ∃ name frame outer, own = some name ∧ name ∉ frame ∧
    c.names = frame :: outer ∧ c'.names = (name :: frame) :: outer

/-- What a frame records of a name that it had before is what it recorded then. -/
def SameRecords (c c' : Chain α) : Prop :=
  ∀ (i : Nat) (f : Frame α), c.frames[i]? = some f →
    ∃ f', c'.frames[i]? = some f' ∧ ∀ name ∈ f.names, f'.lookup name = f.lookup name

/-- Nothing is changed, or `own` is added to the innermost frame. -/
def Grows (own : Option String) (c c' : Chain α) : Prop :=
  c' = c ∨ ∃ name record, own = some name ∧ c.Adds name record c'

theorem Grows.refl : c.Grows own c := .inl rfl

theorem Grows.trans (h : c.Grows none c') (h' : c'.Grows own c'') : c.Grows own c'' := by
  rcases h with rfl | ⟨_, _, hnone, -⟩
  · exact h'
  · cases hnone

theorem Grows.pop (h : c.Grows own c') : c'.pop = c.pop := by
  rcases h with rfl | ⟨_, _, -, ha⟩
  · rfl
  · exact ha.pop

theorem Grows.declare (h : c.declare name record = .ok c') : c.Grows (some name) c' :=
  .inr ⟨name, record, rfl, declare_eq_ok.1 h⟩

theorem Grows.preserved (h : c.Grows own c') : c.Preserved own c' := by
  rcases h with rfl | ⟨name, record, hown, frame, outer, hc, hn, rfl⟩
  · exact ⟨rfl, .inl rfl⟩
  · refine ⟨?_, .inr ⟨name, frame.names, outer.map Frame.names, hown, ?_, ?_, rfl⟩⟩
    · rw [depth, depth, hc]
      rfl
    · exact Frame.lookup_eq_none_iff.1 hn
    · rw [names, hc, List.map_cons]

theorem Grows.sameRecords (h : c.Grows own c') : c.SameRecords c' := by
  rcases h with rfl | ⟨name, record, -, frame, outer, hc, hn, rfl⟩
  · exact fun i f hf => ⟨f, hf, fun _ _ => rfl⟩
  · intro i f hf
    rw [hc] at hf
    cases i with
    | zero =>
      cases hf
      refine ⟨(name, record) :: frame, rfl, fun other hother => Frame.lookup_cons_of_ne ?_⟩
      rintro rfl
      exact Frame.lookup_eq_none_iff.1 hn hother
    | succ i => exact ⟨f, hf, fun _ _ => rfl⟩

/-! ### Without the records -/

def bare (c : Chain α) : Chain Unit := ⟨c.names.map (·.map (·, ()))⟩

theorem names_bare (c : Chain α) : c.bare.names = c.names := by
  rw [names, bare, List.map_map]
  exact (List.map_congr_left fun l _ => Frame.names_map_unit l).trans (List.map_id _)

theorem depth_bare (c : Chain α) : c.bare.depth = c.depth := by
  rw [depth, bare, List.length_map, names, List.length_map, depth]

theorem bare_pop (c : Chain α) : c.pop.bare = c.bare.pop := by
  obtain ⟨frames⟩ := c
  cases frames <;> rfl

theorem bare_of_names (h : c'.names = c.names) : c'.bare = c.bare := by
  rw [bare, h, bare]

theorem bare_assign (h : c.assign name record = .ok c') : c'.bare = c.bare := by
  rw [assign_eq] at h
  split at h
  · cases h
    exact bare_of_names (map_names_assignIn name record c.frames)
  · cases h

theorem Grows.bare_declare (h : c.declare name record = .ok c') :
    c.bare.Grows (some name) c'.bare := by
  obtain ⟨frame, outer, hc, hn, rfl⟩ := declare_eq_ok.1 h
  refine .inr ⟨name, (), rfl, frame.names.map (·, ()), _, by rw [bare, names, hc]; rfl, ?_, rfl⟩
  rwa [Frame.lookup_eq_none_iff, Frame.names_map_unit, ← Frame.lookup_eq_none_iff]

theorem Preserved.of_bare (h : c.bare.Grows own c'.bare) : c.Preserved own c' := by
  obtain ⟨hdepth, hnames⟩ := h.preserved
  rw [depth_bare, depth_bare] at hdepth
  rw [names_bare, names_bare] at hnames
  exact ⟨hdepth, hnames⟩

end Chain

/-! ## Steps that may fail -/

section Restoring

variable {view : σ → Chain ρ × κ} {x : EStateM ε σ α} {f : α → EStateM ε σ β}

/-- However the step ends, nothing but the name `own` is new in the chain that `view` shows of the
state, and what it shows beside the chain is the same as before. -/
def Restoring (view : σ → Chain ρ × κ) (own : Option String) (x : EStateM ε σ α) : Prop :=
  ∀ s, (view s).1.Grows own (view (stateAfter x s)).1 ∧ (view (stateAfter x s)).2 = (view s).2

def Confined (view : σ → Chain ρ × κ) (x : EStateM ε σ α) : Prop :=
  ∀ s, (view (stateAfter x s)).1.pop = (view s).1.pop ∧ (view (stateAfter x s)).2 = (view s).2

theorem Restoring.still (h : ∀ s, view (stateAfter x s) = view s) : Restoring view own x :=
  fun s => ⟨.inl (congrArg Prod.fst (h s)), congrArg Prod.snd (h s)⟩

theorem Restoring.pure (a : α) : Restoring view own (pure a : EStateM ε σ α) := .still fun _ => rfl

theorem Restoring.throw (e : ε) : Restoring view own (throw e : EStateM ε σ α) :=
  .still fun _ => rfl

theorem Restoring.bind (hx : Restoring view none x) (hf : ∀ a, Restoring view own (f a)) :
    Restoring view own (x >>= f) := by
  intro s
  obtain ⟨hgrows, hloops⟩ := hx s
  rcases stateAfter_bind x f s with h | ⟨a, h⟩
  · rw [h]
    exact ⟨hgrows.trans .refl, hloops⟩
  · rw [h]
    obtain ⟨hgrows', hloops'⟩ := hf a (stateAfter x s)
    exact ⟨hgrows.trans hgrows', hloops'.trans hloops⟩

theorem Restoring.last (hx : Restoring view own x) {b : β} :
    Restoring view own (do let _ ← x; return b) := by
  intro s
  rcases stateAfter_bind x (fun _ => Pure.pure b) s with h | ⟨a, h⟩
  · rw [h]
    exact hx s
  · rw [h]
    exact hx s

theorem Restoring.get {g : σ → EStateM ε σ β} (hg : ∀ s, Restoring view own (g s)) :
    Restoring view own (get >>= g) := fun s => hg s s

theorem Restoring.confined (hx : Restoring view own x) : Confined view x :=
  fun s => ⟨(hx s).1.pop, (hx s).2⟩

theorem Confined.pure (a : α) : Confined view (pure a : EStateM ε σ α) := fun _ => ⟨rfl, rfl⟩

theorem Confined.bind (hx : Confined view x) (hf : ∀ a, Confined view (f a)) :
    Confined view (x >>= f) := by
  intro s
  obtain ⟨hpop, hloops⟩ := hx s
  rcases stateAfter_bind x f s with h | ⟨a, h⟩
  · rw [h]
    exact ⟨hpop, hloops⟩
  · rw [h]
    obtain ⟨hpop', hloops'⟩ := hf a (stateAfter x s)
    exact ⟨hpop'.trans hpop, hloops'.trans hloops⟩

end Restoring

end Leveret
