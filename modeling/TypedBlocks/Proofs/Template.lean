import TypedBlocks.Proofs.TypeExpr
import TypedBlocks.Template

/-! Filling and plugging of templates: filling after plugging is filling with filled arguments. -/
namespace TypedBlocks.Template

/-- Induction on a template, with the statement at hand for each argument. -/
@[elab_as_elim]
theorem byArgs {motive : Template → Prop} (slot : ∀ i, motive (.slot i))
    (app : ∀ name args, (∀ t ∈ args, motive t) → motive (.app name args)) (t : Template) :
    motive t :=
  @Template.rec motive (fun ts => ∀ t ∈ ts, motive t) slot app
    (fun _ ht => absurd ht List.not_mem_nil)
    (fun _ _ first rest => List.forall_mem_cons.mpr ⟨first, rest⟩) t

@[simp]
theorem fillAll_eq_map (actuals : List TypeExpr) (ts : List Template) :
    fillAll actuals ts = ts.map (fill actuals) := by
  induction ts with
  | nil => rfl
  | cons t ts ih => simp [fillAll, ih]

@[simp]
theorem plugAll_eq_map (args ts : List Template) : plugAll args ts = ts.map (plug args) := by
  induction ts with
  | nil => rfl
  | cons t ts ih => simp [plugAll, ih]

inductive SlotsBelow (n : Nat) : Template → Prop
  | slot {i : Nat} (hi : i < n) : SlotsBelow n (.slot i)
  | app {name : Text} {args : List Template} (h : ∀ t ∈ args, SlotsBelow n t) :
      SlotsBelow n (.app name args)

@[simp]
theorem length_slots (n : Nat) : (slots n).length = n := by
  simp [slots]

/-- A type's own slots filled with its parameters are its parameters. -/
theorem map_fill_slots (actuals : List TypeExpr) :
    (slots actuals.length).map (fill actuals) = actuals := by
  apply List.ext_getElem
  · simp
  · intro i hi hi'
    simp [slots, fill, hi']

theorem SlotsBelow.fill_plug {args : List Template} {t : Template}
    (ht : SlotsBelow args.length t) (actuals : List TypeExpr) :
    fill actuals (plug args t) = fill (args.map (fill actuals)) t := by
  induction ht with
  | slot hi => simp [plug, fill, hi]
  | app h ih =>
    simp only [plug, fill, plugAll_eq_map, fillAll_eq_map, List.map_map]
    congr 1
    exact List.map_congr_left ih

/-- Filling a plugged list of templates is filling it with the filled arguments. -/
theorem map_fill_plug {args path : List Template} (h : ∀ t ∈ path, SlotsBelow args.length t)
    (actuals : List TypeExpr) :
    (path.map (plug args)).map (fill actuals) = path.map (fill (args.map (fill actuals))) := by
  rw [List.map_map]
  exact List.map_congr_left fun t ht => (h t ht).fill_plug actuals

theorem mem_bindSlot {bindings : List (Option TypeExpr)} {i : Nat} {t u : TypeExpr}
    (hu : some u ∈ bindSlot bindings i t) : some u ∈ bindings ∨ u = t := by
  unfold bindSlot at hu
  split at hu
  · rcases List.mem_or_eq_of_mem_set hu with hmem | heq
    · exact .inl hmem
    · exact .inr (Option.some.inj heq)
  · exact .inl hu

theorem mem_unfillAll {ts : List Template}
    (ih : ∀ t ∈ ts, ∀ (bindings : List (Option TypeExpr)) (actual u : TypeExpr),
      some u ∈ unfill bindings t actual → some u ∈ bindings ∨ u ∈ actual.walk)
    {bindings : List (Option TypeExpr)} {actuals : List TypeExpr} {u : TypeExpr}
    (hu : some u ∈ unfillAll bindings ts actuals) :
    some u ∈ bindings ∨ ∃ actual ∈ actuals, u ∈ actual.walk := by
  induction ts generalizing bindings actuals with
  | nil => exact .inl (by simpa [unfillAll] using hu)
  | cons t ts iht =>
    cases actuals with
    | nil => exact .inl (by simpa [unfillAll] using hu)
    | cons actual actuals =>
      rw [unfillAll] at hu
      rcases iht (fun t ht => ih t (List.mem_cons_of_mem _ ht)) hu with hmem | ⟨a, ha, hwalk⟩
      · rcases ih t List.mem_cons_self _ _ _ hmem with hmem | hwalk
        · exact .inl hmem
        · exact .inr ⟨actual, List.mem_cons_self, hwalk⟩
      · exact .inr ⟨a, List.mem_cons_of_mem _ ha, hwalk⟩

/-- What is read off for a slot is a part of the actual type. -/
theorem mem_unfill (t : Template) (bindings : List (Option TypeExpr))
    (actual u : TypeExpr) (hu : some u ∈ unfill bindings t actual) :
    some u ∈ bindings ∨ u ∈ actual.walk := by
  induction t using Template.byArgs generalizing bindings actual u with
  | slot i =>
    rw [unfill] at hu
    split at hu
    · exact .inl hu
    · rcases mem_bindSlot hu with hmem | rfl
      · exact .inl hmem
      · exact .inr u.self_mem_walk
  | app name args ih =>
    rw [unfill] at hu
    split at hu
    · exact .inl hu
    · rcases mem_unfillAll ih hu with hmem | ⟨p, hp, hwalk⟩
      · exact .inl hmem
      · exact .inr (TypeExpr.mem_walk_of_param hp hwalk)

end TypedBlocks.Template
