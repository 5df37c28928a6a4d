import TypedBlocks.Proofs.Nearest.Least

/-! Searches for nearest common descendants leave no lower bound out in flat hierarchies, where what
a type says about the parameters of a descendant is the descendant's greatest instance below it.
Together with the other direction this makes nearest common ancestors the minimal upper bounds, in
flat hierarchies and in those without contravariant parameters. -/
namespace TypedBlocks.Hierarchy

variable {h : Hierarchy}

structure GreatestBelow (h : Hierarchy) (head : Text) (t : TypeExpr) (zs : List TypeExpr) :
    Prop where
  ground : h.Ground ⟨head, zs⟩
  below : h.Related ⟨head, zs⟩ t
  greatest : ∀ cs, h.Ground ⟨head, cs⟩ → h.Related ⟨head, cs⟩ t → h.Related ⟨head, cs⟩ ⟨head, zs⟩

theorem GreatestBelow.unique (hl : h.Linked) {head : Text} {t : TypeExpr} {zs zs' : List TypeExpr}
    (hzs : h.GreatestBelow head t zs) (hzs' : h.GreatestBelow head t zs') : zs = zs' :=
  (TypeExpr.mk.inj (hl.related_antisymm hzs.ground hzs'.ground
    (hzs'.greatest zs hzs.ground hzs.below) (hzs.greatest zs' hzs'.ground hzs'.below))).2

section Columns

variable (hflat : h.Flat) (hl : h.Linked) (hsingle : h.SinglePath) {below : Entry}
  (hbelow : below ∈ h.entries)

include hflat hl hsingle hbelow

/-- What a ground type says about the parameters of a descendant is its greatest instance below. -/
theorem Flat.paramsBelow_greatest {t : TypeExpr} (ht : h.Ground t)
    (hname : h.Below below.name t.name) :
    ∃ row zs, h.paramsBelow t.name below.name t.params = .ok (some row) ∧
      h.GreatestBelow below.name t zs ∧
      ∀ (i : Nat) (z : TypeExpr), zs[i]? = some z → row[i]? = some (some z) := by
  obtain ⟨e, he, ts, rfl, hts⟩ := hl.ground_cases ht
  obtain ⟨path, hfirst, hpath⟩ := hl.first_of_below hbelow hname
  have hmem := (hl.mem_paths hbelow).mpr hpath
  obtain ⟨zs, hground, hzs, hgreatest, hread⟩ := hflat.exists_greatest hl hbelow he hmem hts
  refine ⟨_, zs, (hl.paramsBelow_eq_some hbelow he).mpr ⟨path, hfirst, rfl⟩,
    ⟨hground, hzs, fun cs hcs hrelated => ?_⟩, hread⟩
  obtain ⟨e', he', cs', path', heq, hpath', hfits⟩ := hl.view_of_related he hcs hrelated
  obtain ⟨hname', rfl⟩ := TypeExpr.mk.inj heq
  obtain rfl := hl.entry_unique hbelow he' hname'
  obtain rfl := hsingle.path_eq hbelow hmem ((hl.mem_paths hbelow).mpr hpath')
  exact hgreatest cs ((hl.ground_app_iff hbelow).mp hcs).1 hfits

variable {types : List TypeExpr} (htypes : ∀ t ∈ types, h.Ground t)
  (hcommon : ∀ t ∈ types, h.Below below.name t.name)

include htypes hcommon

theorem Flat.mem_columnBelow {i : Nat} {p : Param} (hp : below.params[i]? = some p)
    {a : TypeExpr} : a ∈ h.columnBelow types below.name i ↔
      ∃ t ∈ types, ∃ zs, h.GreatestBelow below.name t zs ∧ zs[i]? = some a := by
  rw [Hierarchy.mem_columnBelow]
  refine exists_congr fun t => and_congr_right fun ht => ?_
  obtain ⟨row, zs, hrow, hgreatest, hread⟩ :=
    hflat.paramsBelow_greatest hl hsingle hbelow (htypes t ht) (hcommon t ht)
  have hi : i < zs.length := by
    rw [((hl.ground_app_iff hbelow).mp hgreatest.ground).1]
    exact (List.getElem?_eq_some_iff.mp hp).1
  have hget := hread i _ (List.getElem?_eq_getElem hi)
  constructor
  · rintro ⟨row', hrow', ha⟩
    obtain rfl := Option.some.inj (Except.ok.inj (hrow.symm.trans hrow'))
    refine ⟨zs, hgreatest, ?_⟩
    rw [List.getElem?_eq_getElem hi, ← Option.some.inj (hget.symm.trans ha)]
  · rintro ⟨zs', hgreatest', ha⟩
    obtain rfl := hgreatest.unique hl hgreatest'
    exact ⟨row, hrow, hread i a ha⟩

theorem Flat.columnBelow_ne_nil (hne : types ≠ []) {i : Nat} {p : Param}
    (hp : below.params[i]? = some p) : h.columnBelow types below.name i ≠ [] := by
  obtain ⟨t, ht⟩ := List.exists_mem_of_ne_nil types hne
  obtain ⟨-, zs, -, hgreatest, -⟩ :=
    hflat.paramsBelow_greatest hl hsingle hbelow (htypes t ht) (hcommon t ht)
  have hi : i < zs.length := by
    rw [((hl.ground_app_iff hbelow).mp hgreatest.ground).1]
    exact (List.getElem?_eq_some_iff.mp hp).1
  exact List.ne_nil_of_mem ((hflat.mem_columnBelow hl hsingle hbelow htypes hcommon hp).mpr
    ⟨t, ht, zs, hgreatest, List.getElem?_eq_getElem hi⟩)

/-- An instance of the head is below all types if its parameters fit what the types say about
them. -/
theorem Flat.below_all_iff (hvar : h.VarianceConsistent) {cs : List TypeExpr}
    (hcs : h.Ground ⟨below.name, cs⟩) :
    (∀ t ∈ types, h.Related ⟨below.name, cs⟩ t) ↔
      ∀ (i : Nat) (p : Param) (c : TypeExpr), below.params[i]? = some p → cs[i]? = some c →
        ∀ a ∈ h.columnBelow types below.name i, FitsAt h.Related p.variance c a := by
  constructor
  · intro hall i p c hp hc a ha
    obtain ⟨t, ht, zs, hgreatest, hz⟩ :=
      (hflat.mem_columnBelow hl hsingle hbelow htypes hcommon hp).mp ha
    exact hl.fits_of_related hbelow ((hl.ground_app_iff hbelow).mp hcs).1
      (hgreatest.greatest cs hcs (hall t ht)) i p c a hp hc hz
  · intro hfits t ht
    obtain ⟨-, zs, -, hgreatest, -⟩ :=
      hflat.paramsBelow_greatest hl hsingle hbelow (htypes t ht) (hcommon t ht)
    refine hl.related_trans hvar hcs hgreatest.ground (htypes t ht) ?_ hgreatest.below
    refine hl.related_of_params hbelow ((hl.ground_app_iff hbelow).mp hcs).1 ?_
    intro i p c z hp hc hz
    exact hfits i p c hp hc z ((hflat.mem_columnBelow hl hsingle hbelow htypes hcommon hp).mpr
      ⟨t, ht, zs, hgreatest, hz⟩)

end Columns

section Options

variable {up down : List TypeExpr → Except Fault (List TypeExpr)} {v : Variance}
  {column options : List TypeExpr} (hne : column ≠ []) (hcolumn : ∀ a ∈ column, h.Ground a)
  (hrun : descendantPosition up down v column = .ok options)

include hne hcolumn hrun

theorem descendantPosition_ground (hup : h.FindsGround up) (hdown : h.FindsGround down) :
    ∀ x ∈ options, h.Ground x := by
  intro x hx
  unfold descendantPosition at hrun
  rw [if_neg (by simpa using hne)] at hrun
  cases v with
  | co =>
    obtain ⟨found, hfound, hrun⟩ := bind_eq_ok.mp hrun
    obtain rfl := pure_eq_ok.mp hrun
    rcases List.mem_append.mp (List.mem_eraseDups.mp hx) with hx | hx
    · exact hdown column found hne hcolumn hfound x hx
    · exact hcolumn x hx
  | contra =>
    obtain ⟨found, hfound, hrun⟩ := bind_eq_ok.mp hrun
    obtain rfl := pure_eq_ok.mp hrun
    rcases List.mem_append.mp (List.mem_eraseDups.mp hx) with hx | hx
    · exact hup column found hne hcolumn hfound x hx
    · exact hcolumn x hx
  | inv =>
    obtain rfl := pure_eq_ok.mp hrun
    exact hcolumn x (List.mem_eraseDups.mp hx)

/-- An option that fits the whole column and that everything fits which fits the whole column. -/
theorem FindsAllBelow.exists_option (hbounds : h.FindsAbove up ∧ h.FindsBelow down)
    (hup : h.FindsAll up) (hdown : h.FindsAllBelow down) (hmeeting : h.Meeting) {z : TypeExpr}
    (hz : h.Ground z) (hfits : ∀ a ∈ column, FitsAt h.Related v z a) :
    ∃ x ∈ options, FitsAt h.Related v z x ∧ ∀ a ∈ column, FitsAt h.Related v x a := by
  have hvalid : ∀ a ∈ column, h.Valid a := fun a ha => (hcolumn a ha).valid
  unfold descendantPosition at hrun
  rw [if_neg (by simpa using hne)] at hrun
  cases v with
  | co =>
    obtain ⟨found, hfound, hrun⟩ := bind_eq_ok.mp hrun
    obtain rfl := pure_eq_ok.mp hrun
    obtain ⟨x, hx, hzx⟩ := hdown column found hne hcolumn hfound z hz hfits
    exact ⟨x, List.mem_eraseDups.mpr (List.mem_append_left _ hx), hzx, fun a ha =>
      related_of_confirms (hbounds.2 column found hvalid hfound x hx a ha)⟩
  | contra =>
    obtain ⟨found, hfound, hrun⟩ := bind_eq_ok.mp hrun
    obtain rfl := pure_eq_ok.mp hrun
    obtain ⟨x, hx, hxz⟩ := hup column found hne hcolumn hfound z hz hfits (.inl hmeeting)
    exact ⟨x, List.mem_eraseDups.mpr (List.mem_append_left _ hx), hxz, fun a ha =>
      related_of_confirms (hbounds.1 column found hvalid hfound x hx a ha)⟩
  | inv =>
    obtain rfl := pure_eq_ok.mp hrun
    obtain ⟨a, ha⟩ := List.exists_mem_of_ne_nil column hne
    obtain rfl := (hz.agrees_iff (hcolumn a ha)).mp (hfits a ha)
    exact ⟨z, List.mem_eraseDups.mpr ha, z.agrees_refl, hfits⟩

end Options

section Step

variable {depth : Nat} {up down : List TypeExpr → Except Fault (List TypeExpr)}
  {types : List TypeExpr} (hflat : h.Flat) (hl : h.Linked) (hsingle : h.SinglePath)
  (hne : types ≠ []) (htypes : ∀ t ∈ types, h.Ground t)

include hflat hl hsingle hne htypes

theorem Flat.descendant_ground (hup : h.FindsGround up) (hdown : h.FindsGround down)
    {lists : List (List TypeExpr)}
    (hlists : (h.commonDescendantNames (types.map (·.name))).mapM
      (h.descendantsAt (h.subtypeWithin depth) up down types) = .ok lists) :
    ∀ c ∈ lists.flatten.eraseDups, h.Ground c := by
  intro c hc
  obtain ⟨head, hhead, found, hat, hc⟩ := (mem_candidates hlists).mp hc
  obtain ⟨hnames, hbelow, -⟩ := hl.commonDescendantNames_iff.mp hhead
  obtain ⟨name, hname⟩ := List.exists_mem_of_ne_nil _ hnames
  obtain ⟨below, hmem, rfl, -⟩ := hbelow name hname
  have hcommon (t : TypeExpr) (ht : t ∈ types) : h.Below below.name t.name :=
    hbelow t.name (List.mem_map.mpr ⟨t, ht, rfl⟩)
  obtain ⟨⟨combo, rfl, hlen, hcombo⟩, -⟩ := (hl.mem_descendantsAt hmem hat).mp hc
  refine (hl.ground_app_iff hmem).mpr ⟨hlen, fun x hx => ?_⟩
  obtain ⟨i, hi⟩ := List.mem_iff_getElem?.mp hx
  have hlt : i < below.params.length := hlen ▸ (List.getElem?_eq_some_iff.mp hi).1
  have hp := List.getElem?_eq_getElem hlt
  obtain ⟨options, hoptions, hmem'⟩ := hcombo i _ x hp hi
  exact descendantPosition_ground (hflat.columnBelow_ne_nil hl hsingle hmem htypes hcommon hne hp)
    (hl.columnBelow_ground htypes hmem i) hoptions hup hdown x hmem'

/-- Some combination of options is above any parameters with which the head is below all types. -/
theorem Flat.exists_combo_above (hvar : h.VarianceConsistent) {below : Entry}
    (hbelow : below ∈ h.entries) (hcommon : ∀ t ∈ types, h.Below below.name t.name)
    (hbounds : h.FindsAbove up ∧ h.FindsBelow down)
    (hground : h.FindsGround up ∧ h.FindsGround down) (hup : h.FindsAll up)
    (hdown : h.FindsAllBelow down) {ws : List TypeExpr} (hws : h.Ground ⟨below.name, ws⟩)
    (hrelated : ∀ t ∈ types, h.Related ⟨below.name, ws⟩ t) {found : List TypeExpr}
    (hrun : h.descendantsAt (h.subtypeWithin depth) up down types below.name = .ok found) :
    ∃ combo, ⟨below.name, combo⟩ ∈ found ∧
      h.Related ⟨below.name, ws⟩ ⟨below.name, combo⟩ := by
  have hparams := (hl.ground_app_iff hbelow).mp hws
  have hiff {cs : List TypeExpr} (hcs : h.Ground ⟨below.name, cs⟩) :=
    hflat.below_all_iff hl hsingle hbelow htypes hcommon hvar hcs
  -- A good option is above the given parameter and fits all that the types say about the position.
  let Good (i : Nat) (x : TypeExpr) : Prop := h.Ground x ∧ ∀ p, below.params[i]? = some p →
    (∀ w, ws[i]? = some w → FitsAt h.Related p.variance w x) ∧
      ∀ a ∈ h.columnBelow types below.name i, FitsAt h.Related p.variance x a
  have hoption (i : Nat) (p : Param) (options : List TypeExpr) (hp : below.params[i]? = some p)
      (hoptions : descendantPosition up down p.variance (h.columnBelow types below.name i) =
        .ok options) : ∃ x ∈ options, Good i x := by
    have hi : i < ws.length := by
      rw [hparams.1]
      exact (List.getElem?_eq_some_iff.mp hp).1
    have hw := List.getElem?_eq_getElem hi
    have hfull := hflat.columnBelow_ne_nil hl hsingle hbelow htypes hcommon hne hp
    have hcolumn := hl.columnBelow_ground htypes hbelow i
    obtain ⟨x, hx, hwx, hxa⟩ := FindsAllBelow.exists_option hfull hcolumn hoptions hbounds hup hdown
      (hflat.meeting hl hsingle) (hparams.2 _ (List.mem_of_getElem? hw))
      ((hiff hws).mp hrelated i p _ hp hw)
    refine ⟨x, hx, descendantPosition_ground hfull hcolumn hoptions hground.1 hground.2 x hx,
      fun q hq => ?_⟩
    obtain rfl := Option.some.inj (hp.symm.trans hq)
    exact ⟨fun w hw' => Option.some.inj (hw.symm.trans hw') ▸ hwx, hxa⟩
  have hfulfills (combo : List TypeExpr) (hlen : combo.length = below.arity)
      (hgood : ∀ i x, combo[i]? = some x → Good i x) :
      ∀ t ∈ types, h.Related ⟨below.name, combo⟩ t := by
    have hcombo : h.Ground ⟨below.name, combo⟩ := by
      refine (hl.ground_app_iff hbelow).mpr ⟨hlen, fun x hx => ?_⟩
      obtain ⟨i, hi⟩ := List.mem_iff_getElem?.mp hx
      exact (hgood i x hi).1
    exact (hiff hcombo).mpr fun i p x hp hx => ((hgood i x hx).2 p hp).2
  obtain ⟨combo, hmem, hlen, hgood⟩ := hl.exists_descendantAt hbelow
    (fun _ _ _ hanswer => hl.subtypeWithin_iff_related hanswer) hrun hoption hfulfills
  refine ⟨combo, hmem, hl.related_of_params hbelow hparams.1 fun i p w x hp hw hx => ?_⟩
  exact ((hgood i x hx).2 p hp).1 w hw

end Step

section Search

variable {depth : Nat} {up down : List TypeExpr → Except Fault (List TypeExpr)} (hflat : h.Flat)
  (hl : h.Linked) (hsingle : h.SinglePath)

include hflat hl hsingle

theorem Flat.descendantsBy_findsGround (hup : h.FindsGround up) (hdown : h.FindsGround down) :
    h.FindsGround (h.descendantsBy (h.subtypeWithin depth) up down) := by
  intro types found hne htypes hrun r hr
  have hfilter := filter_ground htypes
  rcases descendantsBy_cases hrun with ⟨rfl, -⟩ | ⟨hnone, -⟩ | ⟨t, hone, rfl⟩ |
    ⟨lists, hlists, hkeep⟩
  · exact absurd rfl hne
  · exact absurd (hfilter.symm.trans hnone) hne
  · obtain rfl := List.mem_singleton.mp hr
    exact htypes r (hfilter.symm.trans hone ▸ List.mem_cons_self)
  · rw [hfilter] at hlists
    exact hflat.descendant_ground hl hsingle hne htypes hup hdown hlists r
      (mem_of_keepNearest hkeep hr)

theorem Flat.descendantsBy_findsAllBelow (hvar : h.VarianceConsistent)
    (hbounds : h.FindsAbove up ∧ h.FindsBelow down)
    (hground : h.FindsGround up ∧ h.FindsGround down) (hup : h.FindsAll up)
    (hdown : h.FindsAllBelow down) :
    h.FindsAllBelow (h.descendantsBy (h.subtypeWithin depth) up down) := by
  intro types found hne htypes hrun u hu hbound
  have hfilter := filter_ground htypes
  rcases descendantsBy_cases hrun with ⟨rfl, -⟩ | ⟨hnone, -⟩ | ⟨t, hone, rfl⟩ |
    ⟨lists, hlists, hkeep⟩
  · exact absurd rfl hne
  · exact absurd (hfilter.symm.trans hnone) hne
  · exact ⟨t, List.mem_cons_self, hbound t (hfilter.symm.trans hone ▸ List.mem_cons_self)⟩
  · rw [hfilter] at hlists
    have hcandidates := hflat.descendant_ground hl hsingle hne htypes hground.1 hground.2 hlists
    have hnames : ∀ name ∈ types.map (·.name), h.Below u.name name := by
      intro name hname
      obtain ⟨t, ht, rfl⟩ := List.mem_map.mp hname
      exact hl.below_of_related hu (htypes t ht) (hbound t ht)
    obtain ⟨head, hhead, hbelow⟩ := hl.exists_highest_name (by simpa using hne) hnames
    obtain ⟨below, hmem, rfl⟩ := hl.below_declared hbelow
    have hcommon (t : TypeExpr) (ht : t ∈ types) : h.Below below.name t.name :=
      (hl.commonDescendantNames_iff.mp hhead).2.1 _ (List.mem_map.mpr ⟨t, ht, rfl⟩)
    -- Seen as the head, the lower bound is still below all types.
    obtain ⟨ws, hrow, hws⟩ := hl.row_of_below hu hmem hbelow
    have huws := hl.related_row hu hmem hrow
    have hrelated (t : TypeExpr) (ht : t ∈ types) : h.Related ⟨below.name, ws⟩ t :=
      hl.row_related hu hmem hsingle hrow (htypes t ht) (hcommon t ht) (hbound t ht)
    obtain ⟨list, -, hat⟩ := mapM_exists hlists hhead
    obtain ⟨combo, hcombo, habove⟩ := hflat.exists_combo_above hl hsingle hne htypes hvar hmem
      hcommon hbounds hground hup hdown hws hrelated hat
    have hcandidate := (mem_candidates hlists).mpr ⟨below.name, hhead, list, hat, hcombo⟩
    have hcground := hcandidates _ hcandidate
    have hucombo := hl.related_trans hvar hu hws hcground huws habove
    obtain ⟨r, hr, rfl | hcr⟩ := exists_kept (R := fun a b => h.Related b a)
      (fun a _ b _ answer hanswer => hl.subtypeWithin_iff_related hanswer)
      (fun a ha b hb c hc hab hbc => hl.related_trans hvar (hcandidates c hc) (hcandidates b hb)
        (hcandidates a ha) hbc hab) hkeep hcandidate
    · exact ⟨_, hr, hucombo⟩
    · have hrground := hcandidates r (mem_of_keepNearest hkeep hr)
      exact ⟨r, hr, hl.related_trans hvar hu hcground hrground hucombo hcr⟩

end Search

section Exact

variable (hl : h.Linked) (hsingle : h.SinglePath) (hplain : ¬h.HasContra ∨ h.Flat)

include hl hsingle hplain

/-- Searches among ground types return ground types, those for descendants in flat hierarchies. -/
theorem Linked.searches_ground (depth : Nat) :
    h.FindsGround (h.ancestorsWithin depth) ∧
      (h.Flat → h.FindsGround (h.descendantsWithin depth)) := by
  induction depth with
  | zero =>
    constructor
    all_goals
      intros
      intro types found _ _ hrun
      simp [ancestorsWithin, descendantsWithin] at hrun
  | succ depth ih =>
    constructor
    · intro types found hne htypes hrun
      rw [ancestorsWithin] at hrun
      exact hl.ancestorsBy_findsGround ih.1 (fun hhas => ih.2 (hplain.resolve_left (· hhas))) types
        found hne htypes hrun
    · intro hflat types found hne htypes hrun
      rw [descendantsWithin] at hrun
      exact hflat.descendantsBy_findsGround hl hsingle ih.1 (ih.2 hflat) types found hne htypes hrun

/-- Searches leave no bound out, those for descendants in flat hierarchies. -/
theorem Linked.searches_findAll (hvar : h.VarianceConsistent) (depth : Nat) :
    h.FindsAll (h.ancestorsWithin depth) ∧
      (h.Flat → h.FindsAllBelow (h.descendantsWithin depth)) := by
  induction depth with
  | zero =>
    constructor
    all_goals
      intros
      intro types found _ _ hrun
      simp [ancestorsWithin, descendantsWithin] at hrun
  | succ depth ih =>
    have hground := hl.searches_ground hsingle hplain depth
    constructor
    · intro types found hne htypes hrun
      rw [ancestorsWithin] at hrun
      refine hl.ancestorsBy_findsAll hsingle hvar hground.1 ih.1 (fun hhas => ?_) types found hne
        htypes hrun
      have hflat := hplain.resolve_left (· hhas)
      exact ⟨hground.2 hflat, ih.2 hflat⟩
    · intro hflat types found hne htypes hrun
      rw [descendantsWithin] at hrun
      exact hflat.descendantsBy_findsAllBelow hl hsingle hvar (hl.searches_bound depth)
        ⟨hground.1, hground.2 hflat⟩ ih.1 (ih.2 hflat) types found hne htypes hrun

end Exact

structure NearestAbove (h : Hierarchy) (types : List TypeExpr) (t : TypeExpr) : Prop where
  ground : h.Ground t
  above : ∀ x ∈ types, h.Related x t
  nearest : ∀ u, h.Ground u → (∀ x ∈ types, h.Related x u) → h.Related u t → u = t

/-- Where instances of one head meet below every type above them, a search returns the minimal upper
bounds. -/
theorem Linked.mem_ancestors_iff (hl : h.Linked) (hsingle : h.SinglePath)
    (hvar : h.VarianceConsistent) (hplain : ¬h.HasContra ∨ h.Flat) (hmeeting : h.Meeting)
    {depth : Nat} {types found : List TypeExpr} (hne : types ≠ [])
    (htypes : ∀ t ∈ types, h.Ground t) (hrun : h.ancestorsWithin depth types = .ok found)
    {t : TypeExpr} : t ∈ found ↔ h.NearestAbove types t := by
  have hground := (hl.searches_ground hsingle hplain depth).1 types found hne htypes hrun
  have hbound (r : TypeExpr) (hr : r ∈ found) (x : TypeExpr) (hx : x ∈ types) : h.Related x r :=
    related_of_confirms ((hl.searches_bound depth).1 types found (fun t ht => (htypes t ht).valid)
      hrun r hr x hx)
  have hall (u : TypeExpr) (hu : h.Ground u) (habove : ∀ x ∈ types, h.Related x u) :
      ∃ r ∈ found, h.Related r u :=
    (hl.searches_findAll hsingle hplain hvar depth).1 types found hne htypes hrun u hu habove
      (.inl hmeeting)
  have hconfirms {a b : TypeExpr} (ha : h.Ground a) (hb : h.Ground b) (hab : h.Related a b) :
      h.Confirms a b := ⟨_, (hl.isSubtype_iff hplain ha.valid hb.valid).mpr hab⟩
  constructor
  · intro ht
    have htg := hground t ht
    refine ⟨htg, hbound t ht, fun u hu habove hut => ?_⟩
    have htu := (hl.searches_between hsingle hvar depth).1 types found htypes hrun t ht u hu
      (fun x hx => hconfirms (htypes x hx) hu (habove x hx)) (hconfirms hu htg hut)
    exact hl.related_antisymm hu htg hut (related_of_confirms htu)
  · intro hnearest
    obtain ⟨r, hr, hrt⟩ := hall t hnearest.ground hnearest.above
    exact hnearest.nearest r (hground r hr) (hbound r hr) hrt ▸ hr

end TypedBlocks.Hierarchy
