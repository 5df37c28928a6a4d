import TypedBlocks.Proofs.Nearest.Bounds
import TypedBlocks.Proofs.Subtype.Confirm

/-! Parameters that are read off by matching a template. If a type fulfills what its template is
matched against, its own parameters fit what is read off for their slots, except for the invariant
ones, about which a match at a place of another polarity says less. -/
namespace TypedBlocks

namespace Template

theorem getElem?_bindSlot {bindings : List (Option TypeExpr)} {i j : Nat} {t x : TypeExpr}
    (hx : (bindSlot bindings i t)[j]? = some (some x)) :
    bindings[j]? = some (some x) ∨ (j = i ∧ x = t) := by
  unfold bindSlot at hx
  split at hx
  · rw [List.getElem?_set] at hx
    split at hx
    · next hij =>
      split at hx
      · simp only [Option.some.injEq] at hx
        exact .inr ⟨hij.symm, hx.symm⟩
      · simp at hx
    · exact .inl hx
  · exact .inl hx

/-- What matching keeps argument by argument, it keeps for all of them. -/
theorem unfillAll_keeps {P : List (Option TypeExpr) → Prop} {ts : List Template}
    {actuals : List TypeExpr}
    (hstep : ∀ (k : Nat) (t : Template) (a : TypeExpr), ts[k]? = some t → actuals[k]? = some a →
      ∀ bindings, P bindings → P (unfill bindings t a))
    {bindings : List (Option TypeExpr)} (hP : P bindings) : P (unfillAll bindings ts actuals) := by
  induction ts generalizing actuals bindings with
  | nil => simpa [unfillAll] using hP
  | cons t ts ih =>
    cases actuals with
    | nil => simpa [unfillAll] using hP
    | cons a actuals =>
      rw [unfillAll]
      exact ih (fun k => hstep (k + 1)) (hstep 0 t a rfl rfl bindings hP)

/-- What a slot has been bound to it stays bound to. -/
theorem getElem?_bindSlot_of_bound {bindings : List (Option TypeExpr)} {i j : Nat} {t x : TypeExpr}
    (hx : bindings[j]? = some (some x)) : (bindSlot bindings i t)[j]? = some (some x) := by
  unfold bindSlot
  split
  · next hnone =>
    have hij : i ≠ j := fun heq => by simp [← heq, hnone] at hx
    rwa [List.getElem?_set_ne hij]
  · exact hx

theorem getElem?_bindSlot_of_ne {bindings : List (Option TypeExpr)} {i j : Nat} (hij : i ≠ j)
    (t : TypeExpr) : (bindSlot bindings i t)[j]? = bindings[j]? := by
  unfold bindSlot
  split
  · exact List.getElem?_set_ne hij
  · rfl

theorem getElem?_bindSlot_self {bindings : List (Option TypeExpr)} {i : Nat}
    (hnone : bindings[i]? = some none) (t : TypeExpr) :
    (bindSlot bindings i t)[i]? = some (some t) := by
  have hi := (List.getElem?_eq_some_iff.mp hnone).1
  unfold bindSlot
  rw [hnone]
  exact List.getElem?_set_self hi

/-- Matching different slots against types reads off what stands in the slot's place. -/
theorem getElem?_unfillAll_slots {path : List Template}
    (hslots : ∀ t ∈ path, ∃ i, t = .slot i) (hnodup : path.Nodup) {us : List TypeExpr}
    (hus : ∀ u ∈ us, u.isWildcard = false) {bindings : List (Option TypeExpr)} {i j : Nat}
    {u : TypeExpr} (hj : path[j]? = some (.slot i)) (hu : us[j]? = some u)
    (hnone : bindings[i]? = some none) :
    (unfillAll bindings path us)[i]? = some (some u) := by
  induction path generalizing us bindings j with
  | nil => simp at hj
  | cons t path ih =>
    cases us with
    | nil => simp at hu
    | cons a us =>
      obtain ⟨⟨k, rfl⟩, hrest⟩ := List.forall_mem_cons.mp hslots
      obtain ⟨hfresh, hnodup⟩ := List.nodup_cons.mp hnodup
      obtain ⟨ha, hus⟩ := List.forall_mem_cons.mp hus
      rw [unfillAll, unfill, if_neg (by simp [ha])]
      cases j with
      | zero =>
        obtain rfl := Template.slot.inj (Option.some.inj hj)
        obtain rfl := Option.some.inj hu
        refine unfillAll_keeps (P := fun bindings => bindings[k]? = some (some a)) ?_
          (getElem?_bindSlot_self hnone a)
        intro n t b ht hb bindings hbound
        obtain ⟨m, rfl⟩ := hrest t (List.mem_of_getElem? ht)
        rw [unfill, if_neg (by simp [hus b (List.mem_of_getElem? hb)])]
        exact getElem?_bindSlot_of_bound hbound
      | succ j =>
        have hki : k ≠ i := fun heq => hfresh (heq ▸ List.mem_of_getElem? hj)
        exact ih hrest hnodup hus hj hu ((getElem?_bindSlot_of_ne hki a).trans hnone)

end Template

namespace Hierarchy

variable {h : Hierarchy} {formals : List Param} {us : List TypeExpr}

/-- The given parameters fit what has been read off for their slots. -/
def ReadOff (h : Hierarchy) (formals : List Param) (us : List TypeExpr)
    (bindings : List (Option TypeExpr)) : Prop :=
  ∀ (i : Nat) (p : Param) (u x : TypeExpr), formals[i]? = some p → us[i]? = some u →
    bindings[i]? = some (some x) → p.variance ≠ .inv → FitsAt h.Confirms p.variance u x

theorem readOff_none (n : Nat) : h.ReadOff formals us (List.replicate n none) := by
  intro i p u x _ _ hx
  simp [List.getElem?_replicate] at hx

/-- Matching a template against a type that it fits, filled with parameters, reads off what the
parameters fit. -/
theorem Linked.readOff_unfill (hl : h.Linked) (hus : h.GroundParams formals.length us)
    {t : Template} (hshaped : h.Shaped formals.length t) {place : Variance}
    (hrespects : h.Respects formals place t) {actual : TypeExpr} (hactual : h.Ground actual)
    (hfit : FitsAt h.Confirms place (t.fill us) actual) {bindings : List (Option TypeExpr)}
    (hread : h.ReadOff formals us bindings) :
    h.ReadOff formals us (Template.unfill bindings t actual) := by
  induction hshaped generalizing place actual bindings with
  | @slot i hi =>
    obtain ⟨hv⟩ := hrespects
    rw [Template.unfill, if_neg (by simp [hactual.starFree.isWildcard])]
    intro j p u x hp hu hx hinv
    rcases Template.getElem?_bindSlot hx with hx | ⟨rfl, rfl⟩
    · exact hread j p u x hp hu hx hinv
    · have hplace : p.variance = place := by
        have := hv p hp
        simp only [Variance.allowedAt, Bool.or_eq_true, beq_iff_eq] at this
        exact this.resolve_left hinv
      rw [hplace]
      simpa [Template.fill, hu] using hfit
  | @app e he args hlen hargs ih =>
    have hrespects := (hl.respects_app_iff he).mp hrespects
    rw [Template.unfill]
    split
    · exact hread
    · next hmatch =>
      simp only [Bool.or_eq_true, decide_eq_true_eq, not_or, Decidable.not_not] at hmatch
      obtain ⟨⟨-, hname⟩, -⟩ := hmatch
      obtain ⟨name, qs⟩ := actual
      obtain rfl : e.name = name := hname
      have hviews := hl.map_fill_ground hlen hargs hus
      have hqs := (hl.ground_app_iff he).mp hactual
      simp only [Template.fill, Template.fillAll_eq_map] at hfit
      refine Template.unfillAll_keeps (fun k t q ht hq bindings hread => ?_) hread
      have hk : k < e.params.length := by
        have := (List.getElem?_eq_some_iff.mp ht).1
        exact Nat.lt_of_lt_of_eq this hlen
      have hparam := List.getElem?_eq_getElem hk
      exact ih t (List.mem_of_getElem? ht) (hrespects k _ t hparam ht)
        (hqs.2 q (List.mem_of_getElem? hq))
        (hl.givesParams_confirms.fitsAt_params hl he hviews hqs hfit hparam
          (by rw [List.getElem?_map, ht]; rfl) hq) hread

theorem Linked.paramsBelow_eq_some (hl : h.Linked) {below e : Entry} (hbelow : below ∈ h.entries)
    (he : e ∈ h.entries) {as : List TypeExpr} {row : List (Option TypeExpr)} :
    h.paramsBelow e.name below.name as = .ok (some row) ↔ ∃ path,
      (below.paths e.name).head? = some path ∧
      row = Template.unfillAll (List.replicate below.arity none) path as := by
  have hrun : h.paramsBelow e.name below.name as = .ok ((below.paths e.name).head?.map fun path =>
      Template.unfillAll (List.replicate below.arity none) path as) := by
    simp [paramsBelow, hl.get_eq he, hl.get_eq hbelow]
  simp only [hrun, Except.ok.injEq, Option.map_eq_some_iff, eq_comm (a := row)]

/-- The parameters of a common descendant fit the column that is read off for each position. -/
theorem Linked.columnBelow_fits (hl : h.Linked) (hsingle : h.SinglePath)
    (hvar : h.VarianceConsistent) {types : List TypeExpr} (htypes : ∀ t ∈ types, h.Ground t)
    {below : Entry} (hbelow : below ∈ h.entries) (hu : h.Ground ⟨below.name, us⟩)
    (hconfirms : ∀ t ∈ types, h.Confirms ⟨below.name, us⟩ t) {i : Nat} {p : Param}
    {u x : TypeExpr} (hp : below.params[i]? = some p) (hui : us[i]? = some u)
    (hx : x ∈ h.columnBelow types below.name i) (hinv : p.variance ≠ .inv) :
    FitsAt h.Confirms p.variance u x := by
  obtain ⟨t, ht, row, hrow, hget⟩ := mem_columnBelow.mp hx
  have hground := htypes t ht
  obtain ⟨e, he, ts, rfl, -⟩ := hground.valid.cases_app hground.starFree.isWildcard
  obtain ⟨path, hfirst, rfl⟩ := (hl.paramsBelow_eq_some hbelow he).mp hrow
  obtain ⟨path', hpath', hfits⟩ := hl.view_of_confirms hbelow he (hconfirms _ ht)
  obtain rfl := hsingle.path_eq hbelow hpath' (List.mem_of_head? hfirst)
  have hpath := (hl.mem_paths hbelow).mp hpath'
  have hus := (hl.ground_app_iff hbelow).mp hu
  have hts := (hl.ground_app_iff he).mp hground
  refine Template.unfillAll_keeps (P := h.ReadOff below.params us) ?_ (readOff_none _)
    i p u x hp hui hget hinv
  intro k t a hk ha bindings hread
  have hlt : k < e.params.length := by
    have := (List.getElem?_eq_some_iff.mp ha).1
    exact Nat.lt_of_lt_of_eq this hts.1
  have hq := List.getElem?_eq_getElem hlt
  exact hl.readOff_unfill hus ((hl.path_shaped hpath).2 t (List.mem_of_getElem? hk))
    (hl.path_respects hvar hpath he k _ t hq hk) (hts.2 a (List.mem_of_getElem? ha))
    (hfits k _ (t.fill us) a hq (by rw [List.getElem?_map, hk]; rfl) ha) hread

end Hierarchy

end TypedBlocks
