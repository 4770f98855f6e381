import Leveret.Proofs.Scopes

/-!
# Frames under a guard

A guard pushes a frame and drops it at the end of what is done under it. Whatever is declared,
assigned, pushed and dropped meanwhile, the frames from before keep their names, and of their
records only those change that an assignment reached through all frames pushed since.
-/

namespace Leveret

variable {α : Type}

/-! ## Frames and their names -/

namespace Frame

def names (f : Frame α) : List String := f.map Prod.fst

variable {f : Frame α} {name : String}

theorem lookup_cons_of_ne {entry : String × α} (h : name ≠ entry.1) :
    List.lookup name (entry :: f) = f.lookup name := by
  rw [List.lookup_cons, beq_eq_false_iff_ne.2 h]

theorem holds_eq_decide (f : Frame α) (name : String) : f.holds name = decide (name ∈ f.names) := by
  unfold holds names
  induction f with
  | nil => simp
  | cons entry f ih =>
    rw [List.map_cons]
    by_cases h : name = entry.1
    · simp [h]
    · rw [lookup_cons_of_ne h, ih]
      simp [h]

@[simp]
theorem names_update (f : Frame α) (name : String) (record : α) :
    (f.update name record).names = f.names := by
  unfold names update
  rw [List.map_map]
  refine List.map_congr_left fun entry _ => ?_
  dsimp only [Function.comp_apply]
  split <;> rfl

theorem lookup_update (f : Frame α) (name : String) (record : α) (other : String) :
    (f.update name record).lookup other =
      if other = name ∧ f.holds other then some record else f.lookup other := by
  induction f with
  | nil => simp [update, holds]
  | cons entry f ih =>
    obtain ⟨key, value⟩ := entry
    unfold update holds at ih ⊢
    rw [List.map_cons]
    dsimp only
    by_cases hkey : other = key
    · subst hkey
      by_cases hname : other = name
      · simp [hname]
      · simp [hname]
    · rw [lookup_cons_of_ne, ih, lookup_cons_of_ne (by exact hkey)]
      split <;> exact hkey

end Frame

namespace Chain

/-! ## Assigning in a list of frames -/

section Assigning

variable {name : String} {record : α} {inner outer frames : List (Frame α)}

theorem map_names_assignIn (name : String) (record : α) (frames : List (Frame α)) :
    (assignIn name record frames).map Frame.names = frames.map Frame.names := by
  fun_induction assignIn name record frames with
  | case1 => rfl
  | case2 frame outer hholds => rw [List.map_cons, List.map_cons, Frame.names_update]
  | case3 frame outer hholds ih => rw [List.map_cons, List.map_cons, ih]

theorem length_assignIn (name : String) (record : α) (frames : List (Frame α)) :
    (assignIn name record frames).length = frames.length := by
  have h := congrArg List.length (map_names_assignIn name record frames)
  rwa [List.length_map, List.length_map] at h

theorem findIdx_assignIn (name : String) (record : α) (frames : List (Frame α)) (other : String) :
    (assignIn name record frames).findIdx (·.holds other) = frames.findIdx (·.holds other) := by
  have hnames : ∀ frames : List (Frame α), frames.findIdx (·.holds other) =
      (frames.map Frame.names).findIdx fun names => decide (other ∈ names) := fun frames => by
    rw [List.findIdx_map]
    congr 1
    funext f
    exact f.holds_eq_decide other
  rw [hnames, hnames, map_names_assignIn]

theorem getElem?_assignIn (name : String) (record : α) (frames : List (Frame α)) (i : Nat) :
    (assignIn name record frames)[i]? = frames[i]?.map fun f =>
      if frames.findIdx (·.holds name) = i then f.update name record else f := by
  induction frames generalizing i with
  | nil => simp [assignIn]
  | cons frame outer ih =>
    rw [assignIn, List.findIdx_cons]
    cases hholds : frame.holds name with
    | true => cases i <;> simp
    | false => cases i <;> simp [ih]

theorem holds_of_findIdx {i : Nat} {f : Frame α} (hf : frames[i]? = some f)
    (h : frames.findIdx (·.holds name) = i) : f.holds name = true := by
  subst h
  obtain ⟨hi, rfl⟩ := List.getElem?_eq_some_iff.1 hf
  exact @List.findIdx_getElem _ (fun f : Frame α => f.holds name) frames hi

theorem exists_getElem?_assignIn (target : String) (record : α) {i : Nat} {f : Frame α}
    (hf : frames[i]? = some f) :
    ∃ f', (assignIn target record frames)[i]? = some f' ∧ f'.names = f.names ∧
      ∀ name, f'.lookup name = if name = target ∧ frames.findIdx (·.holds name) = i
        then some record else f.lookup name := by
  rw [getElem?_assignIn, hf]
  by_cases hi : frames.findIdx (·.holds target) = i
  · refine ⟨f.update target record, by rw [Option.map_some, if_pos hi], f.names_update _ _, ?_⟩
    intro name
    rw [Frame.lookup_update]
    by_cases hname : name = target
    · subst hname
      rw [if_pos ⟨rfl, holds_of_findIdx hf hi⟩, if_pos ⟨rfl, hi⟩]
    · rw [if_neg (fun h => hname h.1), if_neg (fun h => hname h.1)]
  · refine ⟨f, by rw [Option.map_some, if_neg hi], rfl, fun name => ?_⟩
    rw [if_neg]
    rintro ⟨rfl, h⟩
    exact hi h

theorem assignIn_of_held (h : inner.any (·.holds name) = true) :
    assignIn name record (inner ++ outer) = assignIn name record inner ++ outer := by
  induction inner with
  | nil => simp at h
  | cons frame inner ih =>
    rw [List.cons_append, assignIn, assignIn]
    split
    · rfl
    · rename_i hholds
      rw [List.any_cons, Bool.or_eq_true] at h
      rw [ih (h.resolve_left hholds), List.cons_append]

theorem assignIn_of_not_held (h : inner.any (·.holds name) = false) :
    assignIn name record (inner ++ outer) = inner ++ assignIn name record outer := by
  induction inner with
  | nil => rfl
  | cons frame inner ih =>
    rw [List.any_cons, Bool.or_eq_false_iff] at h
    rw [List.cons_append, assignIn, if_neg (by simp [h.1]), ih h.2, List.cons_append]

theorem assignIn_of_find?_eq_none {c : Chain α} (h : c.find? name = none) :
    assignIn name record c.frames = c.frames := by
  rw [find?, List.findSome?_eq_none_iff] at h
  have hany : c.frames.any (·.holds name) = false := by
    rw [List.any_eq_false]
    intro f hf
    rw [Frame.holds_eq_false.2 (h f hf)]
    exact Bool.false_ne_true
  have hnone := @assignIn_of_not_held _ name record c.frames [] hany
  rwa [assignIn, List.append_nil] at hnone

end Assigning

def assignAll (assigned : List (String × α)) (frames : List (Frame α)) : List (Frame α) :=
  assigned.foldl (fun frames entry => assignIn entry.1 entry.2 frames) frames

theorem assignAll_append (first rest : List (String × α)) (frames : List (Frame α)) :
    assignAll (first ++ rest) frames = assignAll rest (assignAll first frames) :=
  List.foldl_append

theorem length_assignAll (assigned : List (String × α)) (frames : List (Frame α)) :
    (assignAll assigned frames).length = frames.length := by
  induction assigned generalizing frames with
  | nil => rfl
  | cons entry rest ih => rw [assignAll, List.foldl_cons, ← assignAll, ih, length_assignIn]

/-- A frame keeps its names, and where no frame inside it holds the same one, the record of a name
is that of the last assignment. -/
theorem exists_getElem?_assignAll (assigned : List (String × α)) {frames : List (Frame α)} {i : Nat}
    {f : Frame α} (hf : frames[i]? = some f) :
    ∃ f', (assignAll assigned frames)[i]? = some f' ∧ f'.names = f.names ∧
      ∀ name, f'.lookup name = if frames.findIdx (·.holds name) = i
        then (assigned.reverse.lookup name).or (f.lookup name) else f.lookup name := by
  induction assigned generalizing frames f with
  | nil => exact ⟨f, hf, rfl, by simp⟩
  | cons entry rest ih =>
    obtain ⟨target, record⟩ := entry
    obtain ⟨f₁, hf₁, hnames₁, hlookup₁⟩ := exists_getElem?_assignIn target record hf
    obtain ⟨f', hf', hnames, hlookup⟩ := ih hf₁
    refine ⟨f', hf', hnames.trans hnames₁, fun name => ?_⟩
    rw [hlookup, hlookup₁, findIdx_assignIn, List.reverse_cons, List.lookup_append, Option.or_assoc]
    by_cases hi : frames.findIdx (·.holds name) = i
    · rw [if_pos hi, if_pos hi]
      by_cases hname : name = target
      · subst hname
        rw [if_pos ⟨rfl, hi⟩, List.lookup_cons_self, Option.some_or]
      · rw [if_neg (fun h => hname h.1), Frame.lookup_cons_of_ne hname, List.lookup_nil,
          Option.none_or]
    · rw [if_neg hi, if_neg hi, if_neg (fun h => hi h.2)]

/-! ## Steps -/

inductive Step (α : Type) where
  | declare (name : String) (record : α)
  | assign (name : String) (record : α)
  | resolve (name : String)
  | push
  | pop

namespace Step

def operation : Step α → Operation α Unit
  | declare name record => .declare name record
  | assign name record => .assign name record
  | resolve name => discard (.resolve name)
  | push => modify Chain.push
  | pop => modify Chain.pop

def apply (s : Step α) (c : Chain α) : Chain α := stateAfter s.operation c

/-- How many frames are left of those that were pushed, where `level` were left before. There is
no answer if a frame is dropped that was not pushed. -/
def level? : Step α → Nat → Option Nat
  | push, level => some (level + 1)
  | pop, 0 => none
  | pop, level + 1 => some level
  | _, level => some level

/-- The assignment that a step makes, if no frame inside the outermost `base` holds the name. -/
def reaching? (base : Nat) (c : Chain α) : Step α → Option (String × α)
  | assign name record =>
    if (c.frames.take (c.depth - base)).any (·.holds name) then none else some (name, record)
  | _ => none

/-- It is checked that the name is new before it is put in. -/
theorem apply_declare_of_error {c : Chain α} {name : String} {record : α} {e : ScopeError}
    (h : c.declare name record = .error e) : (declare name record).apply c = c := by
  rw [declare_eq] at h
  rw [apply, operation, stateAfter, Operation.declare_run]
  obtain ⟨_ | ⟨frame, outer⟩⟩ := c
  · rfl
  · dsimp only at h ⊢
    cases hholds : frame.holds name with
    | true => rfl
    | false =>
      rw [hholds] at h
      cases h

theorem apply_declare_of_ok {c c' : Chain α} {name : String} {record : α}
    (h : c.declare name record = .ok c') : (declare name record).apply c = c' := by
  rw [Chain.declare, Operation.result] at h
  cases hrun : (Operation.declare name record).run c with
  | ok _ c₁ =>
    rw [hrun] at h
    exact (stateAfter_of_ok hrun).trans (Except.ok.inj h)
  | error e c₁ =>
    rw [hrun] at h
    cases h

theorem apply_declare (c : Chain α) (name : String) (record : α) :
    (declare name record).apply c = c ∨ ∃ frame outer, c.frames = frame :: outer ∧
      (declare name record).apply c = ⟨((name, record) :: frame) :: outer⟩ := by
  cases h : c.declare name record with
  | error e => exact .inl (apply_declare_of_error h)
  | ok c' =>
    obtain ⟨frame, outer, hc, -, rfl⟩ := declare_eq_ok.1 h
    exact .inr ⟨frame, outer, hc, apply_declare_of_ok h⟩

theorem apply_assign (c : Chain α) (name : String) (record : α) :
    (assign name record).apply c = ⟨assignIn name record c.frames⟩ := by
  rw [apply, operation, stateAfter, Operation.assign_run]
  cases h : c.find? name with
  | none => exact congrArg mk (assignIn_of_find?_eq_none h).symm
  | some found => rfl

theorem apply_resolve (c : Chain α) (name : String) : (resolve name).apply c = c := by
  have hresolve := Operation.resolve_run c name
  cases h : c.find? name with
  | none =>
    rw [h] at hresolve
    exact stateAfter_of_error (run_bind_of_error hresolve)
  | some found =>
    rw [h] at hresolve
    exact stateAfter_of_ok (run_map_eq_ok.2 ⟨found, hresolve, rfl⟩)

variable {s : Step α} {inner outer : List (Frame α)} {level level' : Nat}

theorem apply_append (hinner : inner.length = level + 1) (hlevel : s.level? level = some level') :
    ∃ inner', inner'.length = level' + 1 ∧ s.apply ⟨inner ++ outer⟩ =
      ⟨inner' ++ assignAll (s.reaching? outer.length ⟨inner ++ outer⟩).toList outer⟩ := by
  obtain ⟨frame, rest, rfl⟩ := List.exists_cons_of_length_eq_add_one hinner
  cases s with
  | declare name record =>
    cases hlevel
    rcases apply_declare ⟨frame :: rest ++ outer⟩ name record with h | ⟨frame', outer', hc, h⟩
    · exact ⟨frame :: rest, hinner, h⟩
    · obtain ⟨rfl, rfl⟩ := List.cons.inj hc
      exact ⟨((name, record) :: frame) :: rest, hinner, h⟩
  | assign name record =>
    cases hlevel
    generalize frame :: rest = inner at hinner ⊢
    -- the frames that may keep the assignment to themselves are just the inner ones
    have htake : (inner ++ outer).take ((inner ++ outer).length - outer.length) = inner := by
      rw [List.length_append, Nat.add_sub_cancel, List.take_left]
    rw [apply_assign, reaching?, depth, htake]
    cases hany : inner.any (·.holds name) with
    | true =>
      refine ⟨assignIn name record inner, (length_assignIn _ _ _).trans hinner, ?_⟩
      rw [assignIn_of_held hany]
      rfl
    | false =>
      refine ⟨inner, hinner, ?_⟩
      rw [assignIn_of_not_held hany]
      rfl
  | resolve name =>
    cases hlevel
    exact ⟨frame :: rest, hinner, apply_resolve _ name⟩
  | push =>
    cases hlevel
    exact ⟨[] :: frame :: rest, congrArg (· + 1) hinner, rfl⟩
  | pop =>
    cases level with
    | zero => cases hlevel
    | succ level =>
      cases hlevel
      exact ⟨rest, Nat.succ.inj hinner, rfl⟩

end Step

/-! ## Many steps -/

def steps (c : Chain α) (ss : List (Step α)) : Chain α := ss.foldl (fun c s => s.apply c) c

def level? (ss : List (Step α)) (level : Nat) : Option Nat :=
  ss.foldlM (fun level s => s.level? level) level

/-- The assignments, each at its time, that no frame inside the outermost `base` kept to itself. -/
def reaching (base : Nat) (c : Chain α) : List (Step α) → List (String × α)
  | [] => []
  | s :: ss => (s.reaching? base c).toList ++ reaching base (s.apply c) ss

theorem steps_append (ss : List (Step α)) {inner outer : List (Frame α)} {level level' : Nat}
    (hinner : inner.length = level + 1) (hlevel : level? ss level = some level') :
    ∃ inner', inner'.length = level' + 1 ∧ steps ⟨inner ++ outer⟩ ss =
      ⟨inner' ++ assignAll (reaching outer.length ⟨inner ++ outer⟩ ss) outer⟩ := by
  induction ss generalizing inner outer level with
  | nil =>
    cases hlevel
    exact ⟨inner, hinner, rfl⟩
  | cons s ss ih =>
    rw [level?, List.foldlM_cons] at hlevel
    obtain ⟨between, hs, hss⟩ := Option.bind_eq_some_iff.1 hlevel
    obtain ⟨inner₁, hinner₁, happly⟩ := @Step.apply_append _ s inner outer _ _ hinner hs
    obtain ⟨inner', hinner', hsteps⟩ := @ih _
      (assignAll (s.reaching? outer.length ⟨inner ++ outer⟩).toList outer) _ hinner₁ hss
    refine ⟨inner', hinner', ?_⟩
    rw [reaching, assignAll_append, steps, List.foldl_cons, happly, ← steps, hsteps,
      length_assignAll]

/-! ## Guards -/

/-- What a program does to a chain. Under `enter` it has a frame of its own, which is dropped in
the end. -/
inductive Script (α : Type) where
  | done
  | step (s : Step α) (rest : Script α)
  | enter (body rest : Script α)

namespace Script

def run : Script α → Chain α → Chain α
  | done, c => c
  | step s rest, c => rest.run (s.apply c)
  | enter body rest, c => rest.run (body.run c.push).pop

def steps : Script α → List (Step α)
  | done => []
  | step s rest => s :: rest.steps
  | enter body rest => .push :: (body.steps ++ .pop :: rest.steps)

theorem run_eq_steps (script : Script α) (c : Chain α) : script.run c = c.steps script.steps := by
  induction script generalizing c with
  | done => rfl
  | step s rest ih => exact ih _
  | enter body rest hbody hrest =>
    rw [run, hrest, hbody, steps, Chain.steps, Chain.steps, Chain.steps, List.foldl_cons,
      List.foldl_append, List.foldl_cons]
    rfl

end Script

/-- If under a guard no frames are dropped but those pushed there, and all of these are, then the
frames from before are isolated: their names stay, and a record changes only in the innermost of
them that holds its name, to that of the last assignment which no frame inside kept to itself. A
declaration that fails changes nothing, and with an innermost frame it fails only for its names. -/
theorem guard_isolates (c : Chain α) (body : Script α) (hbody : level? body.steps 0 = some 0) :
    ((Script.enter body .done).run c).depth = c.depth ∧
    (∀ (i : Nat) (f : Frame α), c.frames[i]? = some f →
      ∃ f', ((Script.enter body .done).run c).frames[i]? = some f' ∧ f'.names = f.names ∧
        ∀ name, f'.lookup name = if c.frames.findIdx (·.holds name) = i
          then ((reaching c.depth c.push body.steps).reverse.lookup name).or (f.lookup name)
          else f.lookup name) ∧
    (∀ (d : Chain α) (name : String) (record : α) (e : ScopeError),
      d.declare name record = .error e → (Step.declare name record).apply d = d) ∧
    ∀ (frame : Frame α) (outer : List (Frame α)) (name : String) (record : α),
      frame.holds name = false →
      (⟨frame :: outer⟩ : Chain α).declare name record =
        .ok ⟨((name, record) :: frame) :: outer⟩ := by
  have hrun : ((Script.enter body .done).run c).frames =
      assignAll (reaching c.depth c.push body.steps) c.frames := by
    obtain ⟨inner, hinner, hsteps⟩ := @steps_append _ body.steps [[]] c.frames 0 0 rfl hbody
    obtain ⟨frame, rfl⟩ := List.length_eq_one_iff.1 hinner
    rw [Script.run, Script.run, Script.run_eq_steps]
    exact congrArg (fun c : Chain α => c.pop.frames) hsteps
  refine ⟨?_, fun i f hf => ?_, fun d name record e h => ?_, fun frame outer name record h => ?_⟩
  · rw [depth, hrun, length_assignAll, depth]
  · rw [hrun]
    exact exists_getElem?_assignAll _ hf
  · exact Step.apply_declare_of_error h
  · exact declare_eq_ok.2 ⟨frame, outer, rfl, Frame.holds_eq_false.1 h, rfl⟩

/-- The assignments to `x` and `y` in frames that declare them do not reach the frames from
before. -/
theorem exists_guard_isolates : ∃ (c : Chain Nat) (body : Script Nat),
    level? body.steps 0 = some 0 ∧
    reaching c.depth c.push body.steps = [("y", 6), ("x", 2), ("y", 10)] ∧
    ((Script.enter body .done).run c).depth = 2 ∧
    ∃ f, ((Script.enter body .done).run c).frames[1]? = some f ∧ f.names = ["x", "y"] ∧
      f.lookup "x" = some 0 ∧ f.lookup "y" = some 10 := by
  let c : Chain Nat := ⟨[[("x", 1)], [("x", 0), ("y", 5)]]⟩
  let block : Script Nat :=
    .step (.declare "y" 7) (.step (.assign "y" 8) (.step (.assign "x" 2) .done))
  let body : Script Nat :=
    .step (.assign "y" 6) (.enter block (.step .push (.step (.declare "x" 9)
      (.step (.assign "x" 3) (.step .pop (.step (.assign "y" 10) .done))))))
  have hlevel : level? body.steps 0 = some 0 := by decide
  have hreaching : reaching c.depth c.push body.steps = [("y", 6), ("x", 2), ("y", 10)] := by decide
  obtain ⟨hdepth, hframes, -⟩ := guard_isolates c body hlevel
  obtain ⟨f, hf, hnames, hlookup⟩ := hframes 1 [("x", 0), ("y", 5)] rfl
  rw [hreaching] at hlookup
  exact ⟨c, body, hlevel, hreaching, hdepth, f, hf, hnames, hlookup "x", hlookup "y"⟩

end Chain

end Leveret
