import TypedBlocks.Proofs.Nearest.Flat

/-! Hierarchies in which instances of one head that are below a type meet below it. Flat ones are
among them. -/
namespace TypedBlocks.Hierarchy

variable {h : Hierarchy}

/-- Ground types that have one head meet below every ground type above both. -/
def Meeting (h : Hierarchy) : Prop :=
  ∀ a b u, h.Ground a → h.Ground b → h.Ground u → a.name = b.name → h.Related a u →
    h.Related b u → ∃ z, h.Ground z ∧ z.name = a.name ∧ h.Related a z ∧ h.Related b z ∧
      h.Related z u

/-- The same for any number of instances of a head. -/
theorem Meeting.exists_above (hmeeting : h.Meeting) (hl : h.Linked) (hvar : h.VarianceConsistent)
    {e : Entry} {u : TypeExpr} (hu : h.Ground u) {rows : List (List TypeExpr)} (hne : rows ≠ [])
    (hrows : ∀ row ∈ rows, h.Ground ⟨e.name, row⟩ ∧ h.Related ⟨e.name, row⟩ u) :
    ∃ zs, h.Ground ⟨e.name, zs⟩ ∧ (∀ row ∈ rows, h.Related ⟨e.name, row⟩ ⟨e.name, zs⟩) ∧
      h.Related ⟨e.name, zs⟩ u := by
  induction rows with
  | nil => exact absurd rfl hne
  | cons row rows ih =>
    obtain ⟨⟨hground, hrel⟩, hrest⟩ := List.forall_mem_cons.mp hrows
    by_cases hnil : rows = []
    · subst hnil
      exact ⟨row, hground, List.forall_mem_singleton.mpr (hl.related_refl hground), hrel⟩
    · obtain ⟨zs, hzs, habove, hbelow⟩ := ih hnil hrest
      obtain ⟨⟨name, ws⟩, hws, hname, hrow, hzsws, hwsu⟩ :=
        hmeeting _ _ _ hground hzs hu rfl hrel hbelow
      obtain rfl : name = e.name := hname
      refine ⟨ws, hws, List.forall_mem_cons.mpr ⟨hrow, fun r hr => ?_⟩, hwsu⟩
      exact hl.related_trans hvar (hrest r hr).1 hzs hws (habove r hr) hzsws

/-- In a flat hierarchy with one way to each ancestor, instances of one head meet at the greatest
instance below the type above. -/
theorem Flat.meeting (hflat : h.Flat) (hl : h.Linked) (hsingle : h.SinglePath) : h.Meeting := by
  intro a b u ha hb hu hname hau hbu
  obtain ⟨target, htarget, us, rfl, hus⟩ := hl.ground_cases hu
  obtain ⟨e, he, as, path, rfl, hpath, hfitsa⟩ := hl.view_of_related htarget ha hau
  obtain ⟨e', he', bs, path', rfl, hpath', hfitsb⟩ := hl.view_of_related htarget hb hbu
  obtain rfl := hl.entry_unique he he' hname
  have hmem := (hl.mem_paths he).mpr hpath
  obtain rfl := hsingle.path_eq he hmem ((hl.mem_paths he).mpr hpath')
  obtain ⟨zs, hground, hbelow, habove, -⟩ := hflat.exists_greatest hl he htarget hmem hus
  have hlena := ((hl.ground_app_iff he).mp ha).1
  have hlenb := ((hl.ground_app_iff he).mp hb).1
  exact ⟨⟨e.name, zs⟩, hground, rfl, habove as hlena hfitsa, habove bs hlenb hfitsb, hbelow⟩

/-- Some instance of the head that two types share lies between both and a third type. -/
def MeetBelow (h : Hierarchy) (a b u : TypeExpr) : Prop :=
  ∃ z, h.validate z = .ok () ∧ z.StarFree ∧ z.name = a.name ∧ h.isSubtype a z = .ok true ∧
    h.isSubtype b z = .ok true ∧ h.isSubtype z u = .ok true

/-- Known types without wildcards that have one head meet below every such type above both. -/
def Directed (h : Hierarchy) : Prop :=
  ∀ a b u, (∀ t ∈ [a, b, u], h.validate t = .ok () ∧ t.StarFree) → a.name = b.name →
    h.isSubtype a u = .ok true → h.isSubtype b u = .ok true → h.MeetBelow a b u

section Answers

variable (hl : h.Linked) (hplain : ¬h.HasContra ∨ h.Flat)

include hl hplain

theorem meetBelow_iff {a b u : TypeExpr} (ha : h.Ground a) (hb : h.Ground b) (hu : h.Ground u) :
    h.MeetBelow a b u ↔ ∃ z, h.Ground z ∧ z.name = a.name ∧ h.Related a z ∧ h.Related b z ∧
      h.Related z u := by
  refine exists_congr fun z => ?_
  constructor
  · rintro ⟨hz, hfree, hname, haz, hbz, hzu⟩
    rw [hl.validate_eq_ok] at hz
    rw [hl.isSubtype_iff hplain ha.valid hz] at haz
    rw [hl.isSubtype_iff hplain hb.valid hz] at hbz
    rw [hl.isSubtype_iff hplain hz hu.valid] at hzu
    exact ⟨⟨hz, hfree⟩, hname, haz, hbz, hzu⟩
  · rintro ⟨hz, hname, haz, hbz, hzu⟩
    exact ⟨hl.validate_eq_ok.mpr hz.valid, hz.starFree, hname,
      (hl.isSubtype_iff hplain ha.valid hz.valid).mpr haz,
      (hl.isSubtype_iff hplain hb.valid hz.valid).mpr hbz,
      (hl.isSubtype_iff hplain hz.valid hu.valid).mpr hzu⟩

/-- Where comparisons decide the relation, the answers say whether instances meet. -/
theorem directed_iff : h.Directed ↔ h.Meeting := by
  constructor
  · intro hdirected a b u ha hb hu hname hau hbu
    have hvalid : ∀ t ∈ [a, b, u], h.validate t = .ok () ∧ t.StarFree := by
      simp only [List.forall_mem_cons, hl.validate_eq_ok]
      exact ⟨⟨ha.valid, ha.starFree⟩, ⟨hb.valid, hb.starFree⟩, ⟨hu.valid, hu.starFree⟩, by simp⟩
    exact (meetBelow_iff hl hplain ha hb hu).mp (hdirected a b u hvalid hname
      ((hl.isSubtype_iff hplain ha.valid hu.valid).mpr hau)
      ((hl.isSubtype_iff hplain hb.valid hu.valid).mpr hbu))
  · intro hmeeting a b u hvalid hname hau hbu
    simp only [List.forall_mem_cons, hl.validate_eq_ok] at hvalid
    obtain ⟨ha, hb, hu, -⟩ := hvalid
    rw [hl.isSubtype_iff hplain ha.1 hu.1] at hau
    rw [hl.isSubtype_iff hplain hb.1 hu.1] at hbu
    have ha : h.Ground a := ⟨ha.1, ha.2⟩
    have hb : h.Ground b := ⟨hb.1, hb.2⟩
    have hu : h.Ground u := ⟨hu.1, hu.2⟩
    exact (meetBelow_iff hl hplain ha hb hu).mpr (hmeeting a b u ha hb hu hname hau hbu)

end Answers

end TypedBlocks.Hierarchy
