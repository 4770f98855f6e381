import Leveret.Proofs.Code.Growth
import Leveret.Proofs.Code.Stepping

/-!
# Variables and slots

The places where the evaluator and the machine keep the same values: every variable in scope has a
slot of its own, and the results of operands are in registers that later code leaves alone.
-/

namespace Leveret.Code

open Lowering (State)

/-! ## What is known while code is made -/

def SlotFor (b : Builder) (d : Declaration) (slot : Nat) : Prop :=
  slot < b.slots.size ∧ b.slotType? slot = d.ty

/-- The names in scope have slots of their types, no two of them the same. -/
structure Fits (Γ : Chain Declaration) (s : State) : Prop where
  ready : s.builder.Ready
  scopes : Γ.Match (SlotFor s.builder) s.scopes
  distinct : s.scopes.records.Nodup

def Operand.Below (n : Nat) : Operand → Prop
  | .register number => number < n
  | .constant _ => True

section Fits

variable {Γ Γ' : Chain Declaration} {s : State} {b b' : Builder} {name : String}

theorem SlotFor.later {d : Declaration} {slot : Nat} (h : SlotFor b d slot)
    (hp : b.slots.toList <+: b'.slots.toList) : SlotFor b' d slot := by
  obtain ⟨hlt, hty⟩ := h
  refine ⟨Nat.lt_of_lt_of_le hlt hp.length_le, hty ▸ ?_⟩
  obtain ⟨rest, hrest⟩ := hp
  rw [Builder.slotType?, Builder.slotType?, ← Array.getElem?_toList, ← Array.getElem?_toList,
    ← hrest, List.getElem?_append_left (by simpa using hlt)]

theorem Fits.within {n c : Nat} (h : Fits Γ s) (hw : s.builder.Within n c b) (hr : b.Ready) :
    Fits Γ { s with builder := b } :=
  ⟨hr, h.scopes.mono fun _ _ _ hs => hs.later hw.slots, h.distinct⟩

theorem Fits.grown (h : Fits Γ s) (hg : s.builder.Grown b) : Fits Γ { s with builder := b } :=
  h.within hg.within hg.ready

theorem Fits.push (h : Fits Γ s) : Fits Γ.push { s with scopes := s.scopes.push } :=
  ⟨h.ready, h.scopes.push, h.distinct⟩

theorem Fits.bounded (h : Fits Γ s) {slot : Nat} (hs : slot ∈ s.scopes.records) :
    slot < s.builder.slots.size := by
  obtain ⟨d, hd, -⟩ := h.scopes.right hs
  exact hd

theorem Fits.adds {isConst : Bool} {ty : Ty} (h : Fits Γ s)
    (hg : (s.builder.allocateSlot name ty).2.Grown b)
    (ha : Γ.Adds name ⟨isConst, some ty⟩ Γ') :
    ∃ scopes, s.scopes.Adds name s.builder.slots.size scopes ∧ Fits Γ' ⟨b, scopes⟩ := by
  have hnew : SlotFor b ⟨isConst, some ty⟩ s.builder.slots.size := by
    refine SlotFor.later ?_ hg.within.slots
    simp [SlotFor, Builder.allocateSlot, Builder.slotType?]
  have hg := (Builder.allocateSlot_grown h.ready).trans hg
  obtain ⟨scopes, hs, hm⟩ := (h.grown hg).scopes.adds ha hnew
  refine ⟨scopes, hs, hg.ready, hm, ?_⟩
  rw [hs.records, List.nodup_cons]
  exact ⟨fun hmem => Nat.lt_irrefl _ (h.bounded hmem), h.distinct⟩

end Fits

/-! ## What is known while it runs -/

/-- The slots of the machine hold the values of the variables, and the same has been printed. -/
structure Corresponds (scopes : Chain Nat) (σ : Eval.State) (m : Machine) : Prop where
  values : scopes.Match (fun slot v => m.slots[slot]? = some v) σ.scopes
  output : m.output = σ.output

def Keeps (n : Nat) (m m' : Machine) : Prop := ∀ k < n, m'.registers[k]? = m.registers[k]?

/-- The operand stands for the value, if there is one. -/
def Yields (m : Machine) : Option Operand → Option Value → Prop
  | some o, some v => m.value o = .ok v
  | none, none => True
  | _, _ => False

section Running

variable {scopes : Chain Nat} {σ : Eval.State} {m m' m'' : Machine} {n n' : Nat}

theorem getElem?_insert_of_ne {map : Std.TreeMap Nat Value} {i j : Nat} {v : Value} (h : i ≠ j) :
    (map.insert i v)[j]? = map[j]? := by
  rw [Std.TreeMap.getElem?_insert, if_neg]
  rwa [Nat.compare_eq_eq]

theorem Keeps.refl : Keeps n m m := fun _ _ => rfl

theorem Keeps.trans (h : Keeps n m m') (h' : Keeps n m' m'') : Keeps n m m'' :=
  fun k hk => (h' k hk).trans (h k hk)

theorem Keeps.mono (h : Keeps n m m') (hn : n' ≤ n) : Keeps n' m m' :=
  fun k hk => h k (Nat.lt_of_lt_of_le hk hn)

theorem Keeps.value {o : Operand} {v : Value} (h : Keeps n m m') (ho : o.Below n)
    (hv : m.value o = .ok v) : m'.value o = .ok v := by
  cases o with
  | constant value => exact hv
  | register number =>
    rw [Machine.value] at hv ⊢
    rw [h number ho]
    exact hv

theorem Keeps.assign {v : Value} {dest : Nat} (hn : n ≤ dest) : Keeps n m (m.assign dest v) := by
  intro k hk
  exact getElem?_insert_of_ne (by omega)

theorem value_assign {v : Value} {dest : Nat} :
    (m.assign dest v).value (.register dest) = .ok v := by
  unfold Machine.value Machine.assign
  dsimp only
  rw [Std.TreeMap.getElem?_insert_self]

theorem Corresponds.assignRegister {v : Value} {dest : Nat} (h : Corresponds scopes σ m) :
    Corresponds scopes σ (m.assign dest v) := ⟨h.values, h.output⟩

/-- An assignment to a variable is a store in its slot, which no other name in scope has. -/
theorem Corresponds.assign {name : String} {slot : Nat} (index : Nat) (v : Value)
    (h : Corresponds scopes σ m) (hd : scopes.records.Nodup) (hf : scopes.find? name = some slot) :
    ∃ values, σ.scopes.assign name v = .ok values ∧ Corresponds scopes { σ with scopes := values }
      { m with slots := m.slots.insert slot v, index } := by
  obtain ⟨others, values, hp, ha, hm⟩ := h.values.assign hf v
  refine ⟨values, ha, hm _ Std.TreeMap.getElem?_insert_self fun slot' hs b hb => ?_, h.output⟩
  have hd := hp.nodup_iff.1 hd
  refine (getElem?_insert_of_ne ?_).trans hb
  rintro rfl
  exact (List.nodup_cons.1 hd).1 hs

theorem Corresponds.adds {name : String} {slot : Nat} {scopes' : Chain Nat} (index : Nat)
    (v : Value) (h : Corresponds scopes σ m) (hs : ∀ old ∈ scopes.records, old < slot)
    (ha : scopes.Adds name slot scopes') :
    ∃ values, σ.scopes.declare name v = .ok values ∧
      Corresponds scopes' { σ with scopes := values }
        { m with slots := m.slots.insert slot v, index } := by
  have hold : scopes.Match (fun old b => (m.slots.insert slot v)[old]? = some b) σ.scopes := by
    refine h.values.mono fun old hmem b hb => (getElem?_insert_of_ne ?_).trans hb
    exact Nat.ne_of_gt (hs old hmem)
  obtain ⟨values, hd, hm⟩ := hold.adds ha Std.TreeMap.getElem?_insert_self
  exact ⟨values, Chain.declare_eq_ok.2 hd, hm, h.output⟩

end Running

end Leveret.Code
