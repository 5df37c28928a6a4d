import TypedBlocks.Proofs.Hierarchy.Linked
import TypedBlocks.Proofs.TypeExpr

/-! Types that a hierarchy knows. Parents are written over slots so that filling the slots is the
same as putting parameters for their names, and every view of a known type is known. -/
namespace TypedBlocks

namespace Hierarchy

/-- Declared names applied to as many parameters as they take, with wildcards as leaves. -/
inductive Valid (h : Hierarchy) : TypeExpr → Prop
  | wildcard : Valid h .wildcard
  | app {e : Entry} (he : e ∈ h.entries) {params : List TypeExpr}
      (hlen : params.length = e.arity) (hparams : ∀ p ∈ params, Valid h p) :
      Valid h ⟨e.name, params⟩

/-- The same for templates over `n` slots, without wildcards. -/
inductive Shaped (h : Hierarchy) (n : Nat) : Template → Prop
  | slot {i : Nat} (hi : i < n) : Shaped h n (.slot i)
  | app {e : Entry} (he : e ∈ h.entries) {args : List Template} (hlen : args.length = e.arity)
      (hargs : ∀ t ∈ args, Shaped h n t) : Shaped h n (.app e.name args)

variable {h : Hierarchy}

theorem Shaped.slotsBelow {n : Nat} {t : Template} (ht : h.Shaped n t) : t.SlotsBelow n := by
  induction ht with
  | slot hi => exact .slot hi
  | app _ _ _ ih => exact .app ih

/-- A filled template is known when its parameters are. -/
theorem Shaped.fill {n : Nat} {t : Template} (ht : h.Shaped n t) {actuals : List TypeExpr}
    (hlen : actuals.length = n) (hactuals : ∀ a ∈ actuals, h.Valid a) :
    h.Valid (t.fill actuals) := by
  induction ht with
  | @slot i hi =>
    have hi' : i < actuals.length := hlen ▸ hi
    simpa [Template.fill, hi'] using hactuals _ (List.getElem_mem hi')
  | app he hlen' _ ih =>
    simp only [Template.fill, Template.fillAll_eq_map]
    refine .app he (by simpa using hlen') fun p hp => ?_
    obtain ⟨t, ht, rfl⟩ := List.mem_map.mp hp
    exact ih t ht

theorem Shaped.plug {n : Nat} {args : List Template} {t : Template} (ht : h.Shaped args.length t)
    (hargs : ∀ u ∈ args, h.Shaped n u) : h.Shaped n (t.plug args) := by
  generalize hk : args.length = k at ht
  induction ht with
  | @slot i hi =>
    have hi' : i < args.length := hk ▸ hi
    simpa [Template.plug, hi'] using hargs _ (List.getElem_mem hi')
  | app he hlen _ ih =>
    simp only [Template.plug, Template.plugAll_eq_map]
    refine .app he (by simpa using hlen) fun p hp => ?_
    obtain ⟨t, ht, rfl⟩ := List.mem_map.mp hp
    exact ih t ht

theorem Linked.name_ne_star (hl : h.Linked) {e : Entry} (he : e ∈ h.entries) :
    e.name ≠ TypeExpr.star :=
  fun heq => hl.star_notMem (heq ▸ mem_names.mpr ⟨e, he, rfl⟩)

theorem Linked.find?_eq (hl : h.Linked) {e : Entry} (he : e ∈ h.entries) :
    h.find? e.name = some e :=
  find?_of_mem hl.names_nodup he

theorem Linked.get_eq (hl : h.Linked) {e : Entry} (he : e ∈ h.entries) :
    h.get e.name = .ok e := by
  simp [get, hl.find?_eq he]

theorem get_eq_ok {name : Text} {e : Entry} (hget : h.get name = .ok e) :
    e ∈ h.entries ∧ e.name = name := by
  unfold get at hget
  split at hget
  · next hfind =>
    obtain rfl := Except.ok.inj hget
    exact find?_some hfind
  · simp at hget

/-- Two declared types of one name are the same. -/
theorem Linked.entry_unique (hl : h.Linked) {e e' : Entry} (he : e ∈ h.entries)
    (he' : e' ∈ h.entries) (hname : e.name = e'.name) : e = e' :=
  List.inj_on_of_nodup_map hl.names_nodup he he' hname

theorem Linked.app_not_wildcard (hl : h.Linked) {e : Entry} (he : e ∈ h.entries)
    (params : List TypeExpr) : TypeExpr.isWildcard ⟨e.name, params⟩ = false := by
  simp [TypeExpr.isWildcard, hl.name_ne_star he]

theorem Linked.valid_app_iff (hl : h.Linked) {e : Entry} (he : e ∈ h.entries)
    {params : List TypeExpr} :
    h.Valid ⟨e.name, params⟩ ↔ params.length = e.arity ∧ ∀ p ∈ params, h.Valid p := by
  constructor
  · generalize ht : TypeExpr.mk e.name params = t
    intro hvalid
    cases hvalid with
    | wildcard => exact absurd (congrArg TypeExpr.name ht) (hl.name_ne_star he)
    | @app e' he' params' hlen hparams =>
      obtain ⟨hname, rfl⟩ := TypeExpr.mk.inj ht
      obtain rfl := hl.entry_unique he he' hname
      exact ⟨hlen, hparams⟩
  · rintro ⟨hlen, hparams⟩
    exact .app he hlen hparams

/-- The types that pass validation are the known ones. -/
theorem Linked.validate_eq_ok (hl : h.Linked) {t : TypeExpr} :
    h.validate t = .ok () ↔ h.Valid t := by
  unfold validate
  rw [forM_eq_ok]
  induction t using TypeExpr.byParams with
  | mk name params ih =>
    rw [TypeExpr.walk_mk, List.forall_mem_cons]
    have hwalk : (∀ t ∈ params.flatMap TypeExpr.walk, h.validateNode t = .ok ()) ↔
        ∀ p ∈ params, h.Valid p := by
      simp only [List.mem_flatMap]
      constructor
      · intro hall p hp
        exact (ih p hp).mp fun t ht => hall t ⟨p, hp, ht⟩
      · rintro hall t ⟨p, hp, ht⟩
        exact (ih p hp).mpr (hall p hp) t ht
    rw [hwalk]
    constructor
    · rintro ⟨hnode, hparams⟩
      unfold validateNode at hnode
      split at hnode
      · next hstar =>
        split at hnode
        · next hnil =>
          obtain rfl : name = TypeExpr.star := hstar
          obtain rfl : params = [] := by simpa using hnil
          exact .wildcard
        · simp at hnode
      · obtain ⟨e, hget, hnode⟩ := bind_eq_ok.mp hnode
        obtain ⟨he, rfl⟩ := get_eq_ok hget
        split at hnode
        · next hlen => exact .app he hlen hparams
        · simp at hnode
    · intro hvalid
      cases hvalid with
      | wildcard => simp [validateNode]
      | @app e he _ hlen hparams =>
        refine ⟨?_, hparams⟩
        simp [validateNode, hl.name_ne_star he, hl.get_eq he, hlen]

end Hierarchy

end TypedBlocks
