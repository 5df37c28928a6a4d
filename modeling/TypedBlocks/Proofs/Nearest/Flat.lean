import TypedBlocks.Proofs.Nearest.Between
import TypedBlocks.Proofs.Subtype.Mutual
import TypedBlocks.Proofs.Subtype.Transitive

/-! Subtyping as a partial order on ground types, and flat hierarchies, in which every type passes
its parameters on to its ancestors, each once and with the same variance. In these the instances of
a type below a given one have a greatest, and comparisons always come to an end. -/
namespace TypedBlocks

namespace Hierarchy

variable {h : Hierarchy}

section Order

variable {a b c : TypeExpr}

theorem Linked.related_refl (hl : h.Linked) (ha : h.Ground a) : h.Related a a :=
  hl.keepsParams_related.refl hl ha

theorem Linked.related_trans (hl : h.Linked) (hvar : h.VarianceConsistent) (ha : h.Ground a)
    (hb : h.Ground b) (hc : h.Ground c) (hab : h.Related a b) (hbc : h.Related b c) :
    h.Related a c :=
  (hl.cuts_of_related hvar hab ha hb).above c hc hbc

theorem Linked.below_of_related (hl : h.Linked) (ha : h.Ground a) (hb : h.Ground b)
    (hab : h.Related a b) : h.Below a.name b.name := by
  obtain ⟨e, he, bs, rfl, -⟩ := hl.ground_cases hb
  obtain ⟨lower, -, as, path, rfl, hpath, -⟩ := hl.view_of_related he ha hab
  exact below_of_path hpath

/-- Ground types that are below each other are equal. -/
theorem Linked.related_antisymm (hl : h.Linked) (ha : h.Ground a) (hb : h.Ground b)
    (hab : h.Related a b) (hba : h.Related b a) : a = b :=
  (ha.agrees_iff hb).mp (hl.agrees_of_related ha.1 hb.1 hab hba)

theorem related_of_confirms (hab : h.Confirms a b) : h.Related a b := by
  obtain ⟨depth, hrun⟩ := hab
  exact related_of_subtypeWithin hrun

theorem Linked.tells_related (hl : h.Linked) (depth : Nat) (types : List TypeExpr) :
    Nearest.Tells (h.subtypeWithin depth) h.Related types :=
  fun _ _ _ _ _ hrun => hl.subtypeWithin_iff_related hrun

end Order

end Hierarchy

def Entry.slotVariance (e : Entry) : Template → Option Variance
  | .slot i => (e.params[i]?).map (·.variance)
  | .app _ _ => none

namespace Hierarchy

/-- Every type has the same parameters as each of its ancestors, up to their order. -/
def Flat (h : Hierarchy) : Prop :=
  ∀ e ∈ h.entries, ∀ target ∈ h.entries, ∀ path ∈ e.paths target.name,
    path.Perm (Template.slots e.arity) ∧
      path.map e.slotVariance = target.params.map fun p => some p.variance

instance (h : Hierarchy) : Decidable h.Flat :=
  inferInstanceAs (Decidable (∀ e ∈ h.entries, ∀ target ∈ h.entries,
    ∀ path ∈ e.paths target.name, path.Perm (Template.slots e.arity) ∧
      path.map e.slotVariance = target.params.map fun p => some p.variance))

section Flat

variable {e target : Entry} {path : List Template} (hperm : path.Perm (Template.slots e.arity))

include hperm

/-- A path that takes every parameter once has a place for each. -/
theorem slot_mem_path {i : Nat} (hi : i < e.arity) : Template.slot i ∈ path :=
  hperm.mem_iff.mpr (by simpa [Template.slots] using hi)

theorem slot_of_place {j : Nat} {t : Template} (ht : path[j]? = some t) :
    ∃ i < e.arity, t = .slot i := by
  have hmem := hperm.mem_iff.mp (List.mem_of_getElem? ht)
  obtain ⟨i, hi, rfl⟩ := List.mem_map.mp hmem
  exact ⟨i, List.mem_range.mp hi, rfl⟩

theorem path_nodup : path.Nodup := by
  rw [hperm.nodup_iff]
  exact List.nodup_range.map fun _ _ heq => Template.slot.inj heq

theorem idxOf_place {j : Nat} {t : Template} (ht : path[j]? = some t) : path.idxOf t = j := by
  have hidx := List.getElem?_idxOf (List.mem_of_getElem? ht)
  exact (List.getElem?_inj (List.getElem?_eq_some_iff.mp hidx).1 (path_nodup hperm)).mp
    (hidx.trans ht.symm)

/-- Parameters of the ancestor, put where the path takes the type's own parameters from. -/
theorem exists_params_at {us : List TypeExpr} (hlen : path.length = us.length) :
    ∃ zs : List TypeExpr, zs.length = e.arity ∧ (∀ z ∈ zs, z ∈ us) ∧
      ∀ (i j : Nat), path[j]? = some (.slot i) → zs[i]? = us[j]? := by
  have hlt {i : Nat} (hi : i < e.arity) : path.idxOf (.slot i) < us.length :=
    hlen ▸ List.idxOf_lt_length_iff.mpr (slot_mem_path hperm hi)
  refine ⟨(List.range e.arity).map fun i => us.getD (path.idxOf (.slot i)) .wildcard, by simp,
    fun z hz => ?_, fun i j hj => ?_⟩
  · obtain ⟨i, hi, rfl⟩ := List.mem_map.mp hz
    have hi := hlt (List.mem_range.mp hi)
    simp [List.getD_eq_getElem?_getD, hi]
  · obtain ⟨i', hi, heq⟩ := slot_of_place hperm hj
    obtain rfl := Template.slot.inj heq
    have hj' := idxOf_place hperm hj ▸ hlt hi
    simp [hi, idxOf_place hperm hj, hj', List.getD_eq_getElem?_getD]

/-- Along the path these parameters are seen as the ancestor's. -/
theorem fill_params_at {us zs : List TypeExpr} (hlen : path.length = us.length)
    (hzslen : zs.length = e.arity)
    (hzs : ∀ (i j : Nat), path[j]? = some (.slot i) → zs[i]? = us[j]?) :
    path.map (Template.fill zs) = us := by
  apply List.ext_getElem?
  intro j
  rw [List.getElem?_map]
  cases ht : path[j]? with
  | none => simpa [hlen] using (List.getElem?_eq_none_iff.mp ht)
  | some t =>
    obtain ⟨i, hi, rfl⟩ := slot_of_place hperm ht
    have hi' : i < zs.length := hzslen ▸ hi
    rw [← hzs i j ht]
    simp [Template.fill, hi']

/-- Matching the path against the ancestor's parameters reads these parameters off. -/
theorem unfill_params_at {us zs : List TypeExpr}
    (hus : ∀ u ∈ us, u.isWildcard = false) (hzslen : zs.length = e.arity)
    (hzs : ∀ (i j : Nat), path[j]? = some (.slot i) → zs[i]? = us[j]?) {i : Nat} {z : TypeExpr}
    (hz : zs[i]? = some z) :
    (Template.unfillAll (List.replicate e.arity none) path us)[i]? = some (some z) := by
  have hi : i < e.arity := hzslen ▸ (List.getElem?_eq_some_iff.mp hz).1
  obtain ⟨j, hj⟩ := List.mem_iff_getElem?.mp (slot_mem_path hperm hi)
  have hslots (t : Template) (ht : t ∈ path) : ∃ k, t = .slot k := by
    obtain ⟨j, hj⟩ := List.mem_iff_getElem?.mp ht
    obtain ⟨k, -, rfl⟩ := slot_of_place hperm hj
    exact ⟨k, rfl⟩
  exact Template.getElem?_unfillAll_slots hslots (path_nodup hperm) hus hj
    ((hzs i j hj).symm.trans hz) (by simp [hi])

/-- Parameters that fit the ancestor's along the path fit those put in their places, if variances
are kept. -/
theorem related_params_at {h : Hierarchy} (hl : h.Linked) (he : e ∈ h.entries)
    (hvariance : path.map e.slotVariance = target.params.map fun p => some p.variance)
    {us zs cs : List TypeExpr}
    (hzs : ∀ (i j : Nat), path[j]? = some (.slot i) → zs[i]? = us[j]?)
    (hcs : cs.length = e.arity)
    (hfits : Fits h.Related target.params (path.map (Template.fill cs)) us) :
    h.Related ⟨e.name, cs⟩ ⟨e.name, zs⟩ := by
  refine hl.related_of_params he hcs fun i p x z hp hx hz => ?_
  have hi : i < e.arity := (List.getElem?_eq_some_iff.mp hp).1
  obtain ⟨j, hj⟩ := List.mem_iff_getElem?.mp (slot_mem_path hperm hi)
  have hj' := congrArg (·[j]?) hvariance
  simp only [List.getElem?_map, hj, Option.map_some, Entry.slotVariance, hp] at hj'
  obtain ⟨q, hq, hv⟩ := Option.map_eq_some_iff.mp hj'.symm
  have hfit := hfits j q x z hq (by simp [hj, Template.fill, hx]) ((hzs i j hj).symm.trans hz)
  rwa [Option.some.inj hv] at hfit

end Flat

variable {h : Hierarchy}

/-- In a flat hierarchy some instance of a type is below an instance of an ancestor and above
every instance of the type that is below it. It is the one that the ancestor's parameters say. -/
theorem Flat.exists_greatest (hflat : h.Flat) (hl : h.Linked) {e target : Entry}
    {path : List Template} {us : List TypeExpr} (he : e ∈ h.entries)
    (htarget : target ∈ h.entries) (hpath : path ∈ e.paths target.name)
    (hus : us.length = target.arity ∧ ∀ x ∈ us, h.Ground x) :
    ∃ zs, h.Ground ⟨e.name, zs⟩ ∧ h.Related ⟨e.name, zs⟩ ⟨target.name, us⟩ ∧
      (∀ cs : List TypeExpr, cs.length = e.arity →
        Fits h.Related target.params (path.map (Template.fill cs)) us →
        h.Related ⟨e.name, cs⟩ ⟨e.name, zs⟩) ∧
      ∀ (i : Nat) (z : TypeExpr), zs[i]? = some z →
        (Template.unfillAll (List.replicate e.arity none) path us)[i]? = some (some z) := by
  obtain ⟨hperm, hvariance⟩ := hflat e he target htarget path hpath
  have hlen : path.length = us.length := by
    have := congrArg List.length hvariance
    simp only [List.length_map] at this
    exact this.trans hus.1.symm
  obtain ⟨zs, hzslen, hzsmem, hzs⟩ := exists_params_at hperm hlen
  refine ⟨zs, (hl.ground_app_iff he).mpr ⟨hzslen, fun z hz => hus.2 z (hzsmem z hz)⟩, ?_,
    fun cs hcs hfits => related_params_at hperm hl he hvariance hzs hcs hfits, fun i z hz =>
    unfill_params_at hperm (fun u hu => (hus.2 u hu).starFree.isWildcard) hzslen hzs hz⟩
  refine .of_fits he htarget hpath ?_
  rw [fill_params_at hperm hlen hzslen hzs]
  exact fits_refl target.params fun x hx => hl.related_refl (hus.2 x hx)

/-- In a flat hierarchy the parts of a type are smaller than the type. -/
theorem Flat.part_lt (hflat : h.Flat) (hl : h.Linked) {t x : TypeExpr} (hpart : h.Part t x) :
    x.size < t.size := by
  cases hpart with
  | @view e ancestor path hpath as hlen x hx =>
    obtain ⟨⟨target, htarget, rfl, -⟩, -⟩ := hl.path_shaped hpath
    have he := hpath.mem
    obtain ⟨hperm, -⟩ := hflat e he target htarget path ((hl.mem_paths he).mpr hpath)
    obtain ⟨u, hu, rfl⟩ := List.mem_map.mp hx
    obtain ⟨j, hj⟩ := List.mem_iff_getElem?.mp hu
    obtain ⟨i, hi, rfl⟩ := slot_of_place hperm hj
    have hi' : i < as.length := hlen ▸ hi
    simpa [Template.fill, hi'] using TypeExpr.size_lt_of_mem (List.getElem_mem hi')
  | @inner _ p _ hp hx =>
    obtain ⟨name, params⟩ := t
    exact Nat.lt_of_le_of_lt (TypeExpr.size_le_of_mem_walk hx) (TypeExpr.size_lt_of_mem hp)

/-- In a flat hierarchy comparisons answer, whatever the variances: both types get smaller. -/
theorem Flat.isSubtype_ok (hflat : h.Flat) (hl : h.Linked) {a b : TypeExpr} (ha : h.Valid a)
    (hb : h.Valid b) : ∃ answer, h.isSubtype a b = .ok answer := by
  refine hl.subtypeWithin_ok (fun a b => a.size + b.size) (fun a b x y hpart hmem => ?_) ha hb
    (by simp only [allowance]; omega)
  obtain ⟨name, params⟩ := b
  have hlt := hflat.part_lt hl hpart
  have hlt' : y.size < TypeExpr.size ⟨name, params⟩ := TypeExpr.size_lt_of_mem hmem
  exact ⟨by omega, fun _ => by omega⟩

/-- Without contravariant parameters, and in flat hierarchies, comparisons decide the relation. -/
theorem Linked.isSubtype_iff (hl : h.Linked) (hplain : ¬h.HasContra ∨ h.Flat) {a b : TypeExpr}
    (ha : h.Valid a) (hb : h.Valid b) : h.isSubtype a b = .ok true ↔ h.Related a b := by
  have hok : ∃ answer, h.isSubtype a b = .ok answer := by
    rcases hplain with hcontra | hflat
    · exact hl.isSubtype_ok hcontra ha hb
    · exact hflat.isSubtype_ok hl ha hb
  obtain ⟨answer, hrun⟩ := hok
  have hiff := hl.subtypeWithin_iff_related hrun
  rw [hrun, ← hiff, Except.ok.injEq]

end Hierarchy

end TypedBlocks
