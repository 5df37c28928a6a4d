import TypedBlocks.Proofs.Nearest.Copies
import TypedBlocks.Proofs.Nearest.Directed

/-! Searches for nearest common ancestors leave no upper bound out, if instances of one head below a
type always meet below it and the searches for nearest common descendants, which contravariant
parameters need, leave no lower bound out. -/
namespace TypedBlocks.Hierarchy

variable {h : Hierarchy}

theorem hasContra_of_param {e : Entry} (he : e ∈ h.entries) {i : Nat} {p : Param}
    (hp : e.params[i]? = some p) (hv : p.variance = .contra) : h.HasContra :=
  ⟨e.decl, decl_mem_decls he, p, List.mem_of_getElem? hp, hv⟩

section Rows

variable {t u : TypeExpr} {above : Entry} (ht : h.Ground t) (habove : above ∈ h.entries)

include ht habove

/-- A ground type below a name has a row of ground parameters for it. -/
theorem Linked.row_of_below (hl : h.Linked) (hbelow : h.Below t.name above.name) :
    ∃ row, h.paramsFor t above.name = .ok (some row) ∧ h.Ground ⟨above.name, row⟩ := by
  obtain ⟨e, he, as, rfl, has⟩ := hl.ground_cases ht
  obtain ⟨path, hfirst, hpath⟩ := hl.first_of_below he hbelow
  exact ⟨_, (hl.paramsFor_eq_some he).mpr ⟨path, hfirst, rfl⟩,
    (hl.ground_app_iff habove).mpr (hl.views_ground hpath habove has)⟩

theorem Linked.related_row (hl : h.Linked) {row : List TypeExpr}
    (hrow : h.paramsFor t above.name = .ok (some row)) : h.Related t ⟨above.name, row⟩ := by
  obtain ⟨e, he, as, rfl, has⟩ := hl.ground_cases ht
  obtain ⟨path, hfirst, rfl⟩ := (hl.paramsFor_eq_some he).mp hrow
  have hmem := List.mem_of_head? hfirst
  have hviews := hl.views_ground ((hl.mem_paths he).mp hmem) habove has
  exact .of_fits he habove hmem (fits_refl above.params fun x hx => hl.related_refl (hviews.2 x hx))

/-- With one way to each ancestor, a type below another is also below it as an instance of any head
on the way. -/
theorem Linked.row_related (hl : h.Linked) (hsingle : h.SinglePath) {row : List TypeExpr}
    (hrow : h.paramsFor t above.name = .ok (some row)) (hu : h.Ground u)
    (hbelow : h.Below above.name u.name) (htu : h.Related t u) :
    h.Related ⟨above.name, row⟩ u := by
  obtain ⟨f, hf, us, rfl, -⟩ := hl.ground_cases hu
  obtain ⟨e, he, as, way, rfl, hway, hfits⟩ := hl.view_of_related hf ht htu
  obtain ⟨path, hfirst, rfl⟩ := (hl.paramsFor_eq_some he).mp hrow
  have hpath := (hl.mem_paths he).mp (List.mem_of_head? hfirst)
  obtain ⟨path', hpath'⟩ := hl.path_of_below habove hbelow
  obtain rfl := hsingle.path_eq he ((hl.mem_paths he).mpr hway)
    ((hl.mem_paths he).mpr (hl.path_append hpath hpath'))
  obtain ⟨⟨above', habove', hname, hlen⟩, -⟩ := hl.path_shaped hpath
  obtain rfl := hl.entry_unique habove' habove hname
  rw [hl.fill_step hpath' hlen] at hfits
  exact .of_fits habove hf ((hl.mem_paths habove).mpr hpath') hfits

end Rows

def FindsGround (h : Hierarchy) (search : List TypeExpr → Except Fault (List TypeExpr)) : Prop :=
  ∀ types found, types ≠ [] → (∀ t ∈ types, h.Ground t) → search types = .ok found →
    ∀ r ∈ found, h.Ground r

/-- Below an upper bound of ground types the search returns something, if instances of one head meet
or the bound is one of the types. -/
def FindsAll (h : Hierarchy) (search : List TypeExpr → Except Fault (List TypeExpr)) : Prop :=
  ∀ types found, types ≠ [] → (∀ t ∈ types, h.Ground t) → search types = .ok found →
    ∀ u, h.Ground u → (∀ t ∈ types, h.Related t u) → h.Meeting ∨ u ∈ types →
    ∃ r ∈ found, h.Related r u

def FindsAllBelow (h : Hierarchy) (search : List TypeExpr → Except Fault (List TypeExpr)) : Prop :=
  ∀ types found, types ≠ [] → (∀ t ∈ types, h.Ground t) → search types = .ok found →
    ∀ u, h.Ground u → (∀ t ∈ types, h.Related u t) → ∃ r ∈ found, h.Related u r

/-- An option that fits what the whole column fits. -/
theorem FindsAll.exists_option {up down : List TypeExpr → Except Fault (List TypeExpr)}
    (hup : h.FindsAll up) {v : Variance} (hdown : v = .contra → h.FindsAllBelow down)
    {column options : List TypeExpr} (hne : column ≠ []) (hcolumn : ∀ a ∈ column, h.Ground a)
    (hrun : ancestorPosition up down v column = .ok options) {z : TypeExpr} (hz : h.Ground z)
    (hfits : ∀ a ∈ column, FitsAt h.Related v a z) (hcase : h.Meeting ∨ z ∈ column) :
    ∃ x ∈ options, FitsAt h.Related v x z := by
  cases v with
  | co => exact hup column options hne hcolumn hrun z hz hfits hcase
  | contra => exact hdown rfl column options hne hcolumn hrun z hz hfits
  | inv =>
    obtain rfl := pure_eq_ok.mp hrun
    have hconst (a : TypeExpr) (ha : a ∈ column) : a = z :=
      ((hcolumn a ha).agrees_iff hz).mp (hfits a ha)
    rw [agreedOption_copies ⟨hne, hconst⟩ hz.starFree.isWildcard]
    exact ⟨z, List.mem_singleton_self z, z.agrees_refl⟩

section Step

variable {depth : Nat} {up down : List TypeExpr → Except Fault (List TypeExpr)}
  {types : List TypeExpr} (htypes : ∀ t ∈ types, h.Ground t) {above : Entry}
  (habove : above ∈ h.entries) (hcommon : ∀ t ∈ types, h.Below t.name above.name)

include htypes habove hcommon

theorem Linked.columnAbove_ne_nil (hl : h.Linked) (hne : types ≠ []) {i : Nat} {p : Param}
    (hp : above.params[i]? = some p) : h.columnAbove types above.name i ≠ [] := by
  obtain ⟨t, ht⟩ := List.exists_mem_of_ne_nil types hne
  obtain ⟨row, hrow, hground⟩ := hl.row_of_below (htypes t ht) habove (hcommon t ht)
  have hi : i < row.length := by
    rw [((hl.ground_app_iff habove).mp hground).1]
    exact (List.getElem?_eq_some_iff.mp hp).1
  exact List.ne_nil_of_mem (mem_columnAbove.mpr ⟨t, ht, row, hrow, List.getElem?_eq_getElem hi⟩)

/-- Options for columns of ground types combine to ground types. -/
theorem Linked.combo_ground (hl : h.Linked) (hup : h.FindsGround up)
    (hdown : h.HasContra → h.FindsGround down) (hne : types ≠ []) {combo : List TypeExpr}
    (hcombo : Combines (ancestorPosition up down) above.params
      (h.columnAbove types above.name) combo) : h.Ground ⟨above.name, combo⟩ := by
  refine (hl.ground_app_iff habove).mpr ⟨hcombo.1, fun x hx => ?_⟩
  obtain ⟨i, hi⟩ := List.mem_iff_getElem?.mp hx
  have hlt : i < above.params.length := hcombo.1 ▸ (List.getElem?_eq_some_iff.mp hi).1
  have hp := List.getElem?_eq_getElem hlt
  obtain ⟨options, hoptions, hmem⟩ := hcombo.2 i _ x hp hi
  have hcolumn := hl.columnAbove_ground htypes habove i
  have hfull := hl.columnAbove_ne_nil htypes habove hcommon hne hp
  cases hv : above.params[i].variance with
  | co =>
    rw [hv] at hoptions
    exact hup _ options hfull hcolumn hoptions x hmem
  | contra =>
    rw [hv] at hoptions
    exact hdown (hasContra_of_param habove hp hv) _ options hfull hcolumn hoptions x hmem
  | inv =>
    rw [hv] at hoptions
    obtain rfl := pure_eq_ok.mp hoptions
    rcases mem_agreedOption hmem with hmem | ⟨-, hnone⟩
    · exact hcolumn x hmem
    · rw [filter_ground hcolumn] at hnone
      exact absurd hnone hfull

/-- Some combination of options is below any parameters that all rows fit. -/
theorem Linked.exists_combo_related (hl : h.Linked) (hup : h.FindsAll up)
    (hdown : h.HasContra → h.FindsAllBelow down) (hne : types ≠ []) {zs : List TypeExpr}
    (hzs : h.Ground ⟨above.name, zs⟩)
    (hrows : ∀ t ∈ types, ∀ row, h.paramsFor t above.name = .ok (some row) →
      h.Related ⟨above.name, row⟩ ⟨above.name, zs⟩)
    (hcase : h.Meeting ∨ ∀ i z, zs[i]? = some z → z ∈ h.columnAbove types above.name i)
    {found : List TypeExpr} (hrun : h.ancestorsAt up down types above.name = .ok found) :
    ∃ combo, ⟨above.name, combo⟩ ∈ found ∧
      h.Related ⟨above.name, combo⟩ ⟨above.name, zs⟩ := by
  have hparams := (hl.ground_app_iff habove).mp hzs
  have hfit (i : Nat) (p : Param) (z : TypeExpr) (hp : above.params[i]? = some p)
      (hz : zs[i]? = some z) : ∀ a ∈ h.columnAbove types above.name i,
      FitsAt h.Related p.variance a z := by
    intro a ha
    obtain ⟨t, ht, row, hrow, hget⟩ := mem_columnAbove.mp ha
    obtain ⟨row', hrow', hground⟩ := hl.row_of_below (htypes t ht) habove (hcommon t ht)
    obtain rfl := Option.some.inj (Except.ok.inj (hrow.symm.trans hrow'))
    exact hl.fits_of_related habove ((hl.ground_app_iff habove).mp hground).1 (hrows t ht row hrow)
      i p a z hp hget hz
  have hoption (i : Nat) (p : Param) (options : List TypeExpr) (hp : above.params[i]? = some p)
      (hoptions : ancestorPosition up down p.variance (h.columnAbove types above.name i) =
        .ok options) :
      ∃ x ∈ options, ∀ q z, above.params[i]? = some q → zs[i]? = some z →
        FitsAt h.Related q.variance x z := by
    have hi : i < zs.length := by
      rw [hparams.1]
      exact (List.getElem?_eq_some_iff.mp hp).1
    have hz := List.getElem?_eq_getElem hi
    obtain ⟨x, hx, hfits⟩ := hup.exists_option
      (fun hv => hdown (hasContra_of_param habove hp hv))
      (hl.columnAbove_ne_nil htypes habove hcommon hne hp) (hl.columnAbove_ground htypes habove i)
      hoptions (hparams.2 _ (List.mem_of_getElem? hz)) (hfit i p _ hp hz)
      (hcase.imp_right fun hall => hall i _ hz)
    refine ⟨x, hx, fun q z hq hz' => ?_⟩
    obtain rfl := Option.some.inj (hp.symm.trans hq)
    obtain rfl := Option.some.inj (hz.symm.trans hz')
    exact hfits
  obtain ⟨combo, hmem, hlen, hgood⟩ := hl.exists_ancestorAt habove hrun hoption
  refine ⟨combo, hmem, hl.related_of_params habove hlen fun i p x z hp hx hz => ?_⟩
  exact hgood i x hx p z hp hz

end Step

section Search

variable {depth : Nat} {up down : List TypeExpr → Except Fault (List TypeExpr)}
  {types : List TypeExpr} {heads : List Text} {lists : List (List TypeExpr)}

/-- A candidate is a combination for a head that all types are below. -/
theorem Linked.candidate_cases (hl : h.Linked)
    (hheads : h.commonAncestorNames (types.map (·.name)) = .ok heads)
    (hlists : heads.mapM (h.ancestorsAt up down types) = .ok lists) {c : TypeExpr}
    (hc : c ∈ lists.flatten.eraseDups) :
    types ≠ [] ∧ ∃ above ∈ h.entries, (∀ t ∈ types, h.Below t.name above.name) ∧
      ∃ combo, c = ⟨above.name, combo⟩ ∧ Combines (ancestorPosition up down) above.params
        (h.columnAbove types above.name) combo := by
  obtain ⟨head, hhead, found, hat, hc⟩ := (mem_candidates hlists).mp hc
  obtain ⟨hne, hbelow, -⟩ := (hl.commonAncestorNames_iff hheads).mp hhead
  obtain ⟨name, hname⟩ := List.exists_mem_of_ne_nil _ hne
  obtain ⟨above, habove, rfl⟩ := hl.below_declared (hbelow name hname)
  obtain ⟨combo, rfl, hcombo⟩ := (hl.mem_ancestorsAt habove hat).mp hc
  refine ⟨by simpa using hne, above, habove, fun t ht => ?_, combo, rfl, hcombo⟩
  exact hbelow t.name (List.mem_map.mpr ⟨t, ht, rfl⟩)

theorem Linked.candidate_ground (hl : h.Linked) (hup : h.FindsGround up)
    (hdown : h.HasContra → h.FindsGround down) (htypes : ∀ t ∈ types, h.Ground t)
    (hheads : h.commonAncestorNames (types.map (·.name)) = .ok heads)
    (hlists : heads.mapM (h.ancestorsAt up down types) = .ok lists) :
    ∀ c ∈ lists.flatten.eraseDups, h.Ground c := by
  intro c hc
  obtain ⟨hne, above, habove, hcommon, combo, rfl, hcombo⟩ := hl.candidate_cases hheads hlists hc
  exact hl.combo_ground htypes habove hcommon hup hdown hne hcombo

theorem Linked.ancestorsBy_findsGround (hl : h.Linked) (hup : h.FindsGround up)
    (hdown : h.HasContra → h.FindsGround down) :
    h.FindsGround (h.ancestorsBy (h.subtypeWithin depth) up down) := by
  intro types found hne htypes hrun r hr
  have hfilter := filter_ground htypes
  rcases ancestorsBy_cases hrun with ⟨rfl, -⟩ | ⟨hnone, -⟩ | ⟨t, hone, rfl⟩ |
    ⟨heads, lists, hheads, hlists, hkeep⟩
  · exact absurd rfl hne
  · exact absurd (hfilter.symm.trans hnone) hne
  · obtain rfl := List.mem_singleton.mp hr
    exact htypes r (hfilter.symm.trans hone ▸ List.mem_cons_self)
  · rw [hfilter] at hheads hlists
    exact hl.candidate_ground hup hdown htypes hheads hlists r (mem_of_keepNearest hkeep hr)

/-- Parameters of the head that all rows fit and that are below the bound: they come from meeting
instances, or from the bound itself if it is one of the types. -/
theorem Linked.exists_params_between (hl : h.Linked) (hsingle : h.SinglePath)
    (hvar : h.VarianceConsistent) (hne : types ≠ [])
    (htypes : ∀ t ∈ types, h.Ground t) {above : Entry} (habove : above ∈ h.entries)
    (hcommon : ∀ t ∈ types, h.Below t.name above.name) {u : TypeExpr} (hu : h.Ground u)
    (hbound : ∀ t ∈ types, h.Related t u) (hbelow : h.Below above.name u.name)
    (hcase : h.Meeting ∨ u ∈ types) :
    ∃ zs, h.Ground ⟨above.name, zs⟩ ∧
      (∀ t ∈ types, ∀ row, h.paramsFor t above.name = .ok (some row) →
        h.Related ⟨above.name, row⟩ ⟨above.name, zs⟩) ∧
      h.Related ⟨above.name, zs⟩ u ∧
      (h.Meeting ∨ ∀ i z, zs[i]? = some z → z ∈ h.columnAbove types above.name i) := by
  have hrow (t : TypeExpr) (ht : t ∈ types) (row : List TypeExpr)
      (hparams : h.paramsFor t above.name = .ok (some row)) : h.Related ⟨above.name, row⟩ u :=
    hl.row_related (htypes t ht) habove hsingle hparams hu hbelow (hbound t ht)
  rcases hcase with hmeeting | hmem
  · let rows := types.filterMap fun t => (h.paramsFor t above.name).toOption.join
    have hrows {row : List TypeExpr} :
        row ∈ rows ↔ ∃ t ∈ types, h.paramsFor t above.name = .ok (some row) := by
      simp only [rows, List.mem_filterMap]
      refine exists_congr fun t => and_congr_right fun _ => ?_
      cases h.paramsFor t above.name <;> simp [Except.toOption]
    have hfull : rows ≠ [] := by
      obtain ⟨t, ht⟩ := List.exists_mem_of_ne_nil types hne
      obtain ⟨row, hparams, -⟩ := hl.row_of_below (htypes t ht) habove (hcommon t ht)
      exact List.ne_nil_of_mem (hrows.mpr ⟨t, ht, hparams⟩)
    have hall : ∀ row ∈ rows, h.Ground ⟨above.name, row⟩ ∧ h.Related ⟨above.name, row⟩ u := by
      intro row hmem
      obtain ⟨t, ht, hparams⟩ := hrows.mp hmem
      obtain ⟨row', hparams', hground⟩ := hl.row_of_below (htypes t ht) habove (hcommon t ht)
      obtain rfl := Option.some.inj (Except.ok.inj (hparams.symm.trans hparams'))
      exact ⟨hground, hrow t ht row hparams⟩
    obtain ⟨zs, hzs, habovezs, hbelowzs⟩ := hmeeting.exists_above hl hvar hu hfull hall
    exact ⟨zs, hzs, fun t ht row hparams => habovezs row (hrows.mpr ⟨t, ht, hparams⟩), hbelowzs,
      .inl hmeeting⟩
  · have hname : u.name = above.name := hl.below_antisymm (hcommon u hmem) hbelow
    obtain ⟨name, us⟩ := u
    obtain rfl : name = above.name := hname
    have hus := (hl.ground_app_iff habove).mp hu
    have hown : h.paramsFor ⟨above.name, us⟩ above.name = .ok (some us) := by
      refine (hl.paramsFor_eq_some habove).mpr ⟨_, hl.first_self habove, ?_⟩
      rw [← hus.1, Template.map_fill_slots]
    exact ⟨us, hu, hrow, hl.related_refl hu, .inr fun i z hz =>
      mem_columnAbove.mpr ⟨_, hmem, us, hown, hz⟩⟩

theorem Linked.ancestorsBy_findsAll (hl : h.Linked) (hsingle : h.SinglePath)
    (hvar : h.VarianceConsistent) (hupGround : h.FindsGround up) (hup : h.FindsAll up)
    (hdown : h.HasContra → h.FindsGround down ∧ h.FindsAllBelow down) :
    h.FindsAll (h.ancestorsBy (h.subtypeWithin depth) up down) := by
  intro types found hne htypes hrun u hu hbound hcase
  have hfilter := filter_ground htypes
  rcases ancestorsBy_cases hrun with ⟨rfl, -⟩ | ⟨hnone, -⟩ | ⟨t, hone, rfl⟩ |
    ⟨heads, lists, hheads, hlists, hkeep⟩
  · exact absurd rfl hne
  · exact absurd (hfilter.symm.trans hnone) hne
  · exact ⟨t, List.mem_cons_self, hbound t (hfilter.symm.trans hone ▸ List.mem_cons_self)⟩
  · rw [hfilter] at hheads hlists
    have hcandidates := hl.candidate_ground hupGround (fun hhas => (hdown hhas).1) htypes hheads
      hlists
    have hnames : ∀ name ∈ types.map (·.name), h.Below name u.name := by
      intro name hname
      obtain ⟨t, ht, rfl⟩ := List.mem_map.mp hname
      exact hl.below_of_related (htypes t ht) hu (hbound t ht)
    obtain ⟨head, hhead, hbelow⟩ := hl.exists_nearest_name (by simpa using hne) hheads hnames
    obtain ⟨above, habove, rfl, -⟩ := id hbelow
    have hcommon (t : TypeExpr) (ht : t ∈ types) : h.Below t.name above.name :=
      ((hl.commonAncestorNames_iff hheads).mp hhead).2.1 _ (List.mem_map.mpr ⟨t, ht, rfl⟩)
    obtain ⟨zs, hzs, hrows, hzsu, hcase⟩ := hl.exists_params_between hsingle hvar hne
      htypes habove hcommon hu hbound hbelow hcase
    obtain ⟨list, -, hat⟩ := mapM_exists hlists hhead
    obtain ⟨combo, hmem, hrel⟩ := hl.exists_combo_related htypes habove hcommon hup
      (fun hhas => (hdown hhas).2) hne hzs hrows hcase hat
    have hcandidate := (mem_candidates hlists).mpr ⟨above.name, hhead, list, hat, hmem⟩
    have hcombo := hcandidates _ hcandidate
    have hcombou := hl.related_trans hvar hcombo hzs hu hrel hzsu
    obtain ⟨r, hr, rfl | hrc⟩ := exists_kept (hl.tells_related depth _)
      (fun a ha b hb c hc => hl.related_trans hvar (hcandidates a ha) (hcandidates b hb)
        (hcandidates c hc)) hkeep hcandidate
    · exact ⟨_, hr, hcombou⟩
    · have hrground := hcandidates r (mem_of_keepNearest hkeep hr)
      exact ⟨r, hr, hl.related_trans hvar hrground hcombo hu hrc hcombou⟩

end Search

end TypedBlocks.Hierarchy
