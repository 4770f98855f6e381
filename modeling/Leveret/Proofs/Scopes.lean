import Mathlib.Data.List.Forall2
import Leveret.Scope
import Leveret.Proofs.Steps

/-!
# Scopes in step

The checker, the evaluator and the code generator keep different records of the same names. Two
chains match when they hold the same names in the same places and their records are related. All
three passes change their chains alike, so chains that match stay matched.
-/

namespace Leveret

variable {α β : Type}

/-! ## Frames -/

namespace Frame

theorem holds_eq_false {f : Frame α} {name : String} :
    f.holds name = false ↔ f.lookup name = none := by
  rw [holds, Option.isSome_eq_false_iff, Option.isNone_iff_eq_none]

inductive Match (R : α → β → Prop) : Frame α → Frame β → Prop where
  | nil : Match R [] []
  | cons {name a b f g} : f.lookup name = none → R a b → Match R f g →
      Match R ((name, a) :: f) ((name, b) :: g)

variable {R R' : α → β → Prop} {f : Frame α} {g : Frame β} {name : String}

theorem Match.lookup (h : Match R f g) (name : String) :
    Option.Rel R (f.lookup name) (g.lookup name) := by
  induction h with
  | nil => exact .none
  | cons _ hab _ ih =>
    rw [List.lookup_cons, List.lookup_cons]
    split
    · exact .some hab
    · exact ih

theorem Match.lookup_eq_none (h : Match R f g) : f.lookup name = none ↔ g.lookup name = none := by
  have h := h.lookup name
  generalize f.lookup name = x at h
  generalize g.lookup name = y at h
  cases h <;> simp

theorem Match.right (h : Match R f g) {b : β} (hb : b ∈ g.map Prod.snd) : ∃ a, R a b := by
  induction h with
  | nil => cases hb
  | cons _ hab _ ih =>
    rw [List.map_cons, List.mem_cons] at hb
    rcases hb with rfl | hb
    · exact ⟨_, hab⟩
    · exact ih hb

theorem Match.mono (h : Match R f g) (hR : ∀ a ∈ f.map Prod.snd, ∀ b, R a b → R' a b) :
    Match R' f g := by
  induction h with
  | nil => exact .nil
  | cons hn hab _ ih =>
    refine .cons hn (hR _ (by simp) _ hab) (ih fun a ha b => hR a ?_ b)
    exact List.mem_cons_of_mem _ ha

theorem Match.comp {γ : Type} {S : α → γ → Prop} {k : Frame γ} (h : Match R f g)
    (h' : Match S f k) : Match (fun b x => ∃ a, R a b ∧ S a x) g k := by
  induction h generalizing k with
  | nil =>
    cases h'
    exact .nil
  | cons hn hab hfg ih =>
    cases h' with
    | cons _ hax h' => exact .cons (hfg.lookup_eq_none.1 hn) ⟨_, hab, hax⟩ (ih h')

theorem update_of_lookup_eq_none (h : g.lookup name = none) (b : β) : g.update name b = g := by
  have h : g.map (fun entry => if entry.1 = name then (entry.1, b) else entry) = g.map id := by
    refine List.map_congr_left fun entry he => if_neg ?_
    rintro rfl
    simpa using List.lookup_eq_none_iff.1 h entry he
  rwa [List.map_id] at h

theorem Match.update {xs ys : Frame α} {a₀ : α} {b₀ : β}
    (h : Match R (xs ++ (name, a₀) :: ys) g) (h₀ : R' a₀ b₀)
    (hR : ∀ a ∈ (xs ++ ys).map Prod.snd, ∀ b, R a b → R' a b) :
    Match R' (xs ++ (name, a₀) :: ys) (g.update name b₀) := by
  induction xs generalizing g with
  | nil =>
    cases h with
    | cons hn hab h =>
      have hg := update_of_lookup_eq_none (h.lookup_eq_none.1 hn) b₀
      rw [Frame.update] at hg ⊢
      rw [List.map_cons, if_pos rfl, hg]
      exact .cons hn h₀ (h.mono hR)
  | cons x xs ih =>
    cases h with
    | @cons n a b f g hn hab h =>
      have hne : n ≠ name := by
        rintro rfl
        simpa using List.lookup_eq_none_iff.1 hn (n, a₀) (by simp)
      rw [Frame.update, List.map_cons, if_neg hne]
      refine .cons hn (hR _ (by simp) _ hab) (ih h fun a ha => hR a ?_)
      exact List.mem_cons_of_mem _ ha

end Frame

/-! ## Operations on chains -/

namespace Operation

theorem declare_run (c : Chain α) (name : String) (record : α) :
    (declare name record).run c = match c.frames with
      | [] => .error (.undefinedName name) c
      | frame :: outer =>
        if frame.holds name then .error (.duplicateDeclaration name) c
        else .ok () ⟨((name, record) :: frame) :: outer⟩ := by
  rw [declare, run_get_bind]
  obtain ⟨_ | ⟨frame, outer⟩⟩ := c
  · rfl
  · dsimp only
    cases frame.holds name <;> rfl

theorem resolve_run (c : Chain α) (name : String) :
    (resolve name).run c = match c.find? name with
      | some record => .ok record c
      | none => .error (.undefinedName name) c := by
  rw [resolve, run_get_bind, Chain.resolve]
  cases c.find? name <;> rfl

theorem assign_run (c : Chain α) (name : String) (record : α) :
    (assign name record).run c = match c.find? name with
      | some _ => .ok () ⟨Chain.assignIn name record c.frames⟩
      | none => .error (.undefinedName name) c := by
  have hresolve := resolve_run c name
  unfold assign
  cases h : c.find? name with
  | none =>
    rw [h] at hresolve
    exact run_bind_of_error (run_bind_of_error hresolve)
  | some found =>
    rw [h] at hresolve
    exact run_bind_of_ok (run_map_eq_ok.2 ⟨found, hresolve, rfl⟩)

end Operation

/-! ## Chains -/

namespace Chain

/-- The chain `c'` is `c` with one more name in its innermost frame. -/
def Adds (c : Chain α) (name : String) (record : α) (c' : Chain α) : Prop :=
  ∃ frame outer, c.frames = frame :: outer ∧ frame.lookup name = none ∧
    c' = ⟨((name, record) :: frame) :: outer⟩

theorem declare_eq (c : Chain α) (name : String) (record : α) :
    c.declare name record = match c.frames with
      | [] => .error (.undefinedName name)
      | frame :: outer =>
        if frame.holds name then .error (.duplicateDeclaration name)
        else .ok ⟨((name, record) :: frame) :: outer⟩ := by
  rw [declare, Operation.result, Operation.declare_run]
  obtain ⟨_ | ⟨frame, outer⟩⟩ := c
  · rfl
  · dsimp only
    cases frame.holds name <;> rfl

theorem assign_eq (c : Chain α) (name : String) (record : α) :
    c.assign name record = match c.find? name with
      | some _ => .ok ⟨assignIn name record c.frames⟩
      | none => .error (.undefinedName name) := by
  rw [assign, Operation.result, Operation.assign_run]
  cases c.find? name <;> rfl

theorem declare_eq_ok {c c' : Chain α} {name : String} {record : α} :
    c.declare name record = .ok c' ↔ c.Adds name record c' := by
  rw [declare_eq]
  unfold Adds
  constructor
  · intro h
    split at h
    · cases h
    · rename_i frame outer hc
      split at h
      · cases h
      · rename_i hn
        cases h
        exact ⟨frame, outer, hc, Frame.holds_eq_false.1 (by simpa using hn), rfl⟩
  · rintro ⟨frame, outer, hc, hn, rfl⟩
    simp [hc, Frame.holds_eq_false.2 hn]

theorem Adds.pop {c c' : Chain α} {name : String} {record : α} (h : c.Adds name record c') :
    c'.pop = c.pop := by
  obtain ⟨frame, outer, hc, -, rfl⟩ := h
  rw [Chain.pop, Chain.pop, hc]
  rfl

def records (c : Chain α) : List α := c.frames.flatMap (·.map Prod.snd)

theorem Adds.records {c c' : Chain α} {name : String} {record : α} (h : c.Adds name record c') :
    c'.records = record :: c.records := by
  obtain ⟨frame, outer, hc, -, rfl⟩ := h
  rw [Chain.records, Chain.records, hc]
  rfl

theorem find?_eq_some {c : Chain α} {name : String} {a : α} (h : c.find? name = some a) :
    ∃ inner xs ys outer, c.frames = inner ++ (xs ++ (name, a) :: ys) :: outer ∧
      ∀ f ∈ inner, f.lookup name = none := by
  obtain ⟨inner, f, outer, hc, hf, hi⟩ := List.findSome?_eq_some_iff.1 h
  obtain ⟨xs, ys, rfl, -⟩ := List.lookup_eq_some_iff.1 hf
  exact ⟨inner, xs, ys, outer, hc, hi⟩

theorem mem_records_of_find? {c : Chain α} {name : String} {a : α} (h : c.find? name = some a) :
    a ∈ c.records := by
  obtain ⟨inner, xs, ys, outer, hc, -⟩ := find?_eq_some h
  simp [records, hc]

def Match (R : α → β → Prop) (c : Chain α) (d : Chain β) : Prop :=
  List.Forall₂ (Frame.Match R) c.frames d.frames

variable {R R' : α → β → Prop} {c c' : Chain α} {d : Chain β} {name : String} {a : α} {b : β}

theorem Match.initial : Match R (.initial : Chain α) (.initial : Chain β) := .cons .nil .nil

theorem Match.push (h : Match R c d) : Match R c.push d.push := .cons .nil h

theorem Match.pop (h : Match R c d) : Match R c.pop d.pop := by
  obtain ⟨cs⟩ := c
  obtain ⟨ds⟩ := d
  change List.Forall₂ (Frame.Match R) cs ds at h
  cases h with
  | nil => exact .nil
  | cons _ h => exact h

theorem Match.find? (h : Match R c d) (name : String) :
    Option.Rel R (c.find? name) (d.find? name) := by
  obtain ⟨cs⟩ := c
  obtain ⟨ds⟩ := d
  change List.Forall₂ (Frame.Match R) cs ds at h
  rw [Chain.find?, Chain.find?]
  induction h with
  | nil => exact .none
  | cons hf _ ih =>
    have hl := hf.lookup name
    rw [List.findSome?_cons, List.findSome?_cons]
    revert hl
    generalize List.lookup name _ = x
    generalize List.lookup name _ = y
    intro hl
    cases hl with
    | none => exact ih
    | some hab => exact .some hab

theorem Match.resolve (h : Match R c d) (ha : c.find? name = some a) :
    ∃ b, d.find? name = some b ∧ R a b := by
  have h := h.find? name
  rw [ha] at h
  generalize d.find? name = y at h
  cases h with
  | some hab => exact ⟨_, rfl, hab⟩

theorem Match.adds (h : Match R c d) (ha : c.Adds name a c') (hab : R a b) :
    ∃ d', d.Adds name b d' ∧ Match R c' d' := by
  obtain ⟨frame, outer, hc, hn, rfl⟩ := ha
  obtain ⟨ds⟩ := d
  unfold Match at h
  rw [hc] at h
  cases h with
  | cons hf ho =>
    exact ⟨_, ⟨_, _, rfl, hf.lookup_eq_none.1 hn, rfl⟩, .cons (.cons hn hab hf) ho⟩

theorem Match.mono (h : Match R c d) (hR : ∀ a ∈ c.records, ∀ b, R a b → R' a b) :
    Match R' c d := by
  obtain ⟨cs⟩ := c
  obtain ⟨ds⟩ := d
  change List.Forall₂ (Frame.Match R) cs ds at h
  change List.Forall₂ (Frame.Match R') cs ds
  rw [records] at hR
  induction h with
  | nil => exact .nil
  | cons hf _ ih =>
    rw [List.flatMap_cons] at hR
    exact .cons (hf.mono fun a ha => hR a (List.mem_append_left _ ha))
      (ih fun a ha => hR a (List.mem_append_right _ ha))

theorem Match.right (h : Match R c d) {b : β} (hb : b ∈ d.records) : ∃ a, R a b := by
  obtain ⟨cs⟩ := c
  obtain ⟨ds⟩ := d
  change List.Forall₂ (Frame.Match R) cs ds at h
  rw [records] at hb
  induction h with
  | nil => cases hb
  | cons hf _ ih =>
    rw [List.flatMap_cons, List.mem_append] at hb
    rcases hb with hb | hb
    · exact hf.right hb
    · exact ih hb

theorem Match.comp {γ : Type} {S : α → γ → Prop} {e : Chain γ} (h : Match R c d)
    (h' : Match S c e) : Match (fun b x => ∃ a, R a b ∧ S a x) d e := by
  obtain ⟨cs⟩ := c
  obtain ⟨ds⟩ := d
  obtain ⟨es⟩ := e
  change List.Forall₂ (Frame.Match R) cs ds at h
  change List.Forall₂ (Frame.Match S) cs es at h'
  change List.Forall₂ (Frame.Match _) ds es
  induction h generalizing es with
  | nil =>
    cases h'
    exact .nil
  | cons hf _ ih =>
    cases h' with
    | cons hf' h' => exact .cons (hf.comp hf') (ih _ h')

/-- An assignment takes the place of what matched the record `a` that the name has in `c`, the
`others` of which are not concerned. -/
theorem Match.assign (h : Match R c d) (ha : c.find? name = some a) (b : β) :
    ∃ others d', c.records.Perm (a :: others) ∧ d.assign name b = .ok d' ∧
      ∀ R' : α → β → Prop, R' a b → (∀ a' ∈ others, ∀ b', R a' b' → R' a' b') →
        Match R' c d' := by
  obtain ⟨b₀, hb, -⟩ := h.resolve ha
  obtain ⟨inner, xs, ys, outer, hc, hi⟩ := find?_eq_some ha
  refine ⟨(inner ++ (xs ++ ys) :: outer).flatMap (·.map Prod.snd), ⟨assignIn name b d.frames⟩,
    ?_, by rw [assign_eq, hb], ?_⟩
  · simp only [records, hc, List.flatMap_append, List.flatMap_cons, List.map_append, List.map_cons]
    rw [List.append_assoc, List.append_assoc]
    refine (List.Perm.append_left _ ?_).trans List.perm_middle
    exact List.perm_middle
  · intro R' h₀ hR
    obtain ⟨cs⟩ := c
    obtain ⟨ds⟩ := d
    change List.Forall₂ (Frame.Match R) cs ds at h
    change List.Forall₂ (Frame.Match R') cs (assignIn name b ds)
    obtain rfl : cs = _ := hc
    clear ha hb
    induction inner generalizing ds with
    | nil =>
      cases h with
      | @cons _ g _ gs hf ho =>
        have hholds : g.holds name = true := by
          rw [← Bool.not_eq_false, Frame.holds_eq_false, ← hf.lookup_eq_none]
          intro hn
          simpa using List.lookup_eq_none_iff.1 hn (name, a) (by simp)
        rw [assignIn, if_pos hholds]
        refine .cons (hf.update h₀ fun a ha => hR a ?_)
          (Match.mono (c := ⟨outer⟩) (d := ⟨gs⟩) ho fun a ha => hR a ?_)
        · exact List.mem_append_left _ ha
        · exact List.mem_append_right _ ha
    | cons f inner ih =>
      cases h with
      | @cons _ g _ gs hf ho =>
        have hholds : g.holds name = false :=
          Frame.holds_eq_false.2 (hf.lookup_eq_none.1 (hi f (by simp)))
        rw [assignIn, if_neg (by simp [hholds])]
        refine .cons (hf.mono fun a ha => hR a ?_)
          (ih (fun f hf => hi f (by simp [hf])) (fun a ha => hR a ?_) gs ho)
        · exact List.mem_append_left _ ha
        · exact List.mem_append_right _ ha

end Chain

end Leveret
