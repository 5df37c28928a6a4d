import TypedBlocks.Proofs.Nearest.ReadOff

/-! Nothing lies strictly between given types and a nearest common ancestor or descendant of them,
where each ancestor is reached in one way and parameters are used by their variances. A type in
between has the head of the result, since heads are extremal; position by position it is then in
between again. -/
namespace TypedBlocks

theorem TypeExpr.StarFree.mem_walk {t u : TypeExpr} (ht : t.StarFree) (hu : u ∈ t.walk) :
    u.StarFree := by
  induction t using TypeExpr.byParams with
  | mk name params ih =>
    rw [TypeExpr.walk_mk] at hu
    rcases List.mem_cons.mp hu with rfl | hu
    · exact ht
    · obtain ⟨p, hp, hu⟩ := List.mem_flatMap.mp hu
      exact ih p hp ((TypeExpr.starFree_mk.mp ht).2 p hp) hu

namespace Hierarchy

variable {h : Hierarchy}

theorem Ground.mem_walk {t u : TypeExpr} (ht : h.Ground t) (hu : u ∈ t.walk) : h.Ground u :=
  ⟨ht.valid.mem_walk hu, ht.starFree.mem_walk hu⟩

/-- A ground type is a declared name applied to ground types. -/
theorem Linked.ground_cases (hl : h.Linked) {t : TypeExpr} (ht : h.Ground t) :
    ∃ e ∈ h.entries, ∃ as, t = ⟨e.name, as⟩ ∧ h.GroundParams e.arity as := by
  obtain ⟨e, he, as, rfl, -⟩ := ht.valid.cases_app ht.starFree.isWildcard
  exact ⟨e, he, as, rfl, (hl.ground_app_iff he).mp ht⟩

/-- What ground types have at a position of an ancestor is ground. -/
theorem Linked.columnAbove_ground (hl : h.Linked) {types : List TypeExpr}
    (htypes : ∀ t ∈ types, h.Ground t) {above : Entry} (habove : above ∈ h.entries) (i : Nat) :
    ∀ x ∈ h.columnAbove types above.name i, h.Ground x := by
  intro x hx
  obtain ⟨t, ht, row, hrow, hget⟩ := mem_columnAbove.mp hx
  obtain ⟨e, he, as, rfl, has⟩ := hl.ground_cases (htypes t ht)
  obtain ⟨path, hfirst, rfl⟩ := (hl.paramsFor_eq_some he).mp hrow
  have hpath := (hl.mem_paths he).mp (List.mem_of_head? hfirst)
  exact (hl.views_ground hpath habove has).2 x (List.mem_of_getElem? hget)

/-- What ground types say about a parameter of a descendant is ground. -/
theorem Linked.columnBelow_ground (hl : h.Linked) {types : List TypeExpr}
    (htypes : ∀ t ∈ types, h.Ground t) {below : Entry} (hbelow : below ∈ h.entries) (i : Nat) :
    ∀ x ∈ h.columnBelow types below.name i, h.Ground x := by
  intro x hx
  obtain ⟨t, ht, row, hrow, hget⟩ := mem_columnBelow.mp hx
  obtain ⟨e, he, as, rfl, has⟩ := hl.ground_cases (htypes t ht)
  obtain ⟨path, -, rfl⟩ := (hl.paramsBelow_eq_some hbelow he).mp hrow
  rcases Template.mem_unfillAll (fun t _ => Template.mem_unfill t) (List.mem_of_getElem? hget)
    with hmem | ⟨a, ha, hwalk⟩
  · simp at hmem
  · exact (has.2 a ha).mem_walk hwalk

theorem filter_ground {types : List TypeExpr} (htypes : ∀ t ∈ types, h.Ground t) :
    types.filter (!·.isWildcard) = types :=
  List.filter_eq_self.mpr fun t ht => by simp [(htypes t ht).starFree.isWildcard]

theorem Linked.below_of_confirms (hl : h.Linked) {e above : Entry} (he : e ∈ h.entries)
    (habove : above ∈ h.entries) {as bs : List TypeExpr}
    (hconfirms : h.Confirms ⟨e.name, as⟩ ⟨above.name, bs⟩) : h.Below e.name above.name := by
  obtain ⟨path, hpath, -⟩ := hl.view_of_confirms he habove hconfirms
  exact below_of_path ((hl.mem_paths he).mp hpath)

/-- Parameters of one head that fit are passed on to the types. -/
theorem Linked.confirms_of_params (hl : h.Linked) {e : Entry} (he : e ∈ h.entries)
    {as bs : List TypeExpr} (hlen : as.length = e.arity) (hfits : Fits h.Confirms e.params as bs) :
    h.Confirms ⟨e.name, as⟩ ⟨e.name, bs⟩ := by
  refine hl.confirms_of_first he he (hl.first_self he) ?_
  rwa [← hlen, Template.map_fill_slots]

/-- No ground type above all given ones is strictly below a type that the search finds. -/
def NoneBelowFound (h : Hierarchy) (search : List TypeExpr → Except Fault (List TypeExpr)) :
    Prop :=
  ∀ types found, (∀ t ∈ types, h.Ground t) → search types = .ok found → ∀ r ∈ found, ∀ u,
    h.Ground u → (∀ t ∈ types, h.Confirms t u) → h.Confirms u r → h.Confirms r u

/-- No ground type below all given ones is strictly above a type that the search finds. -/
def NoneAboveFound (h : Hierarchy) (search : List TypeExpr → Except Fault (List TypeExpr)) :
    Prop :=
  ∀ types found, (∀ t ∈ types, h.Ground t) → search types = .ok found → ∀ r ∈ found, ∀ u,
    h.Ground u → (∀ t ∈ types, h.Confirms u t) → h.Confirms r u → h.Confirms u r

section Step

variable {relation : TypeExpr → TypeExpr → Except Fault Bool}
  {up down : List TypeExpr → Except Fault (List TypeExpr)} (hup : h.NoneBelowFound up)
  (hdown : h.NoneAboveFound down)

include hup hdown

/-- An option for a parameter of a common ancestor has nothing in between. -/
theorem ancestorPosition_between {v : Variance} {column options : List TypeExpr}
    (hcolumn : ∀ a ∈ column, h.Ground a) (hrun : ancestorPosition up down v column = .ok options)
    {x y : TypeExpr} (hx : x ∈ options) (hy : h.Ground y)
    (habove : ∀ a ∈ column, FitsAt h.Confirms v a y) (hyx : FitsAt h.Confirms v y x) :
    FitsAt h.Confirms v x y := by
  cases v with
  | co => exact hup column options hcolumn hrun x hx y hy habove hyx
  | contra => exact hdown column options hcolumn hrun x hx y hy habove hyx
  | inv => exact (x.agrees_comm y).trans hyx

/-- An option for a parameter of a common descendant has nothing in between. The column tells
nothing about an invariant parameter, and need not. -/
theorem descendantPosition_between {v : Variance} {column options : List TypeExpr}
    (hcolumn : ∀ a ∈ column, h.Ground a) (hrun : descendantPosition up down v column = .ok options)
    {x y : TypeExpr} (hx : x ∈ options) (hy : h.Ground y)
    (hbelow : v ≠ .inv → ∀ a ∈ column, FitsAt h.Confirms v y a)
    (hxy : FitsAt h.Confirms v x y) : FitsAt h.Confirms v y x := by
  unfold descendantPosition at hrun
  split at hrun
  · obtain rfl := pure_eq_ok.mp hrun
    obtain rfl := List.mem_singleton.mp hx
    cases v with
    | co => exact confirms_of_wildcard (.inr rfl)
    | contra => exact confirms_of_wildcard (.inl rfl)
    | inv => exact TypeExpr.agrees_of_wildcard (.inr rfl)
  · cases v with
    | co =>
      obtain ⟨found, hfound, hrun⟩ := bind_eq_ok.mp hrun
      obtain rfl := pure_eq_ok.mp hrun
      rcases List.mem_append.mp (List.mem_eraseDups.mp hx) with hx | hx
      · exact hdown column found hcolumn hfound x hx y hy (hbelow (by simp)) hxy
      · exact hbelow (by simp) x hx
    | contra =>
      obtain ⟨found, hfound, hrun⟩ := bind_eq_ok.mp hrun
      obtain rfl := pure_eq_ok.mp hrun
      rcases List.mem_append.mp (List.mem_eraseDups.mp hx) with hx | hx
      · exact hup column found hcolumn hfound x hx y hy (hbelow (by simp)) hxy
      · exact hbelow (by simp) x hx
    | inv => exact (y.agrees_comm x).trans hxy

theorem Linked.ancestorsBy_between (hl : h.Linked) (hsingle : h.SinglePath) :
    h.NoneBelowFound (h.ancestorsBy relation up down) := by
  intro types found htypes hrun r hr u hu htu hur
  rcases ancestorsBy_cases hrun with ⟨rfl, rfl⟩ | ⟨-, rfl⟩ | ⟨t, hone, rfl⟩ |
    ⟨heads, lists, hheads, hlists, hkeep⟩
  · exact absurd hr List.not_mem_nil
  · obtain rfl := List.mem_singleton.mp hr
    exact confirms_of_wildcard (.inl rfl)
  · obtain rfl := List.mem_singleton.mp hr
    rw [filter_ground htypes] at hone
    exact htu r (hone ▸ List.mem_cons_self)
  · rw [filter_ground htypes] at hheads hlists
    obtain ⟨head, hhead, found', hat, hr⟩ :=
      (mem_candidates hlists).mp (mem_of_keepNearest hkeep hr)
    obtain ⟨hne, hbelow, hlowest⟩ := (hl.commonAncestorNames_iff hheads).mp hhead
    obtain ⟨name, hname⟩ := List.exists_mem_of_ne_nil _ hne
    obtain ⟨above, habove, rfl⟩ := hl.below_declared (hbelow name hname)
    obtain ⟨combo, rfl, hlen, hcombo⟩ := (hl.mem_ancestorsAt habove hat).mp hr
    obtain ⟨middle, hmiddle, us, rfl, hus⟩ := hl.ground_cases hu
    have hcommon : ∀ name ∈ types.map (·.name), h.Below name middle.name := by
      intro name hname
      obtain ⟨t, ht, rfl⟩ := List.mem_map.mp hname
      obtain ⟨e, he, as, rfl, -⟩ := hl.ground_cases (htypes t ht)
      exact hl.below_of_confirms he hmiddle (htu _ ht)
    obtain rfl := hl.entry_unique hmiddle habove
      (hlowest middle.name hcommon (hl.below_of_confirms hmiddle habove hur))
    refine hl.confirms_of_params habove hlen fun i p x y hp hx hy => ?_
    obtain ⟨options, hoptions, hmem⟩ := hcombo i p x hp hx
    refine ancestorPosition_between hup hdown (hl.columnAbove_ground htypes habove i) hoptions hmem
      (hus.2 y (List.mem_of_getElem? hy)) (fun a ha => ?_)
      (hl.fits_of_confirms habove hus.1 hur i p y x hp hy hx)
    obtain ⟨t, ht, row, hrow, hget⟩ := mem_columnAbove.mp ha
    obtain ⟨e, he, as, rfl, -⟩ := hl.ground_cases (htypes t ht)
    obtain ⟨path, hfirst, rfl⟩ := (hl.paramsFor_eq_some he).mp hrow
    obtain ⟨path', hpath', hfits⟩ := hl.view_of_confirms he habove (htu _ ht)
    obtain rfl := hsingle.path_eq he hpath' (List.mem_of_head? hfirst)
    exact hfits i p a y hp hget hy

theorem Linked.descendantsBy_between (hl : h.Linked) (hsingle : h.SinglePath)
    (hvar : h.VarianceConsistent) : h.NoneAboveFound (h.descendantsBy relation up down) := by
  intro types found htypes hrun r hr u hu hut hru
  rcases descendantsBy_cases hrun with ⟨rfl, rfl⟩ | ⟨-, rfl⟩ | ⟨t, hone, rfl⟩ |
    ⟨lists, hlists, hkeep⟩
  · exact absurd hr List.not_mem_nil
  · obtain rfl := List.mem_singleton.mp hr
    exact confirms_of_wildcard (.inr rfl)
  · obtain rfl := List.mem_singleton.mp hr
    rw [filter_ground htypes] at hone
    exact hut r (hone ▸ List.mem_cons_self)
  · rw [filter_ground htypes] at hlists
    obtain ⟨head, hhead, found', hat, hr⟩ :=
      (mem_candidates hlists).mp (mem_of_keepNearest hkeep hr)
    obtain ⟨hne, hbelow, hhighest⟩ := hl.commonDescendantNames_iff.mp hhead
    obtain ⟨name, hname⟩ := List.exists_mem_of_ne_nil _ hne
    obtain ⟨below, hmem, rfl, -⟩ := hbelow name hname
    obtain ⟨⟨combo, rfl, hlen, hcombo⟩, -⟩ := (hl.mem_descendantsAt hmem hat).mp hr
    obtain ⟨middle, hmiddle, us, rfl, hus⟩ := hl.ground_cases hu
    have hcommon : ∀ name ∈ types.map (·.name), h.Below middle.name name := by
      intro name hname
      obtain ⟨t, ht, rfl⟩ := List.mem_map.mp hname
      obtain ⟨e, he, as, rfl, -⟩ := hl.ground_cases (htypes t ht)
      exact hl.below_of_confirms hmiddle he (hut _ ht)
    obtain rfl := hl.entry_unique hmiddle hmem
      (hhighest middle.name hcommon (hl.below_of_confirms hmem hmiddle hru))
    refine hl.confirms_of_params hmem hus.1 fun i p y x hp hy hx => ?_
    obtain ⟨options, hoptions, hx'⟩ := hcombo i p x hp hx
    exact descendantPosition_between hup hdown (hl.columnBelow_ground htypes hmem i) hoptions hx'
      (hus.2 y (List.mem_of_getElem? hy))
      (fun hinv a ha => hl.columnBelow_fits hsingle hvar htypes hmem hu hut hp hy ha hinv)
      (hl.fits_of_confirms hmem hlen hru i p x y hp hx hy)

end Step

/-- Whatever depth they are allowed, both searches leave nothing in between. -/
theorem Linked.searches_between (hl : h.Linked) (hsingle : h.SinglePath)
    (hvar : h.VarianceConsistent) (depth : Nat) :
    h.NoneBelowFound (h.ancestorsWithin depth) ∧
      h.NoneAboveFound (h.descendantsWithin depth) := by
  induction depth with
  | zero =>
    constructor
    all_goals
      intro types found _ hrun
      simp [ancestorsWithin, descendantsWithin] at hrun
  | succ depth ih =>
    constructor
    · intro types found htypes hrun
      rw [ancestorsWithin] at hrun
      exact hl.ancestorsBy_between ih.1 ih.2 hsingle types found htypes hrun
    · intro types found htypes hrun
      rw [descendantsWithin] at hrun
      exact hl.descendantsBy_between ih.1 ih.2 hsingle hvar types found htypes hrun

/-- In a hierarchy that reaches each ancestor in one way and uses parameters by their variances, no
known type without wildcards lies strictly between such types and a nearest common ancestor of them,
and none strictly between them and a nearest common descendant. -/
theorem nearest_none_between {definition : Definition} {h : Hierarchy}
    (hdef : ofDefinition definition = .ok h) (hsingle : h.SinglePath)
    (hvar : h.VarianceConsistent) {types : List TypeExpr}
    (htypes : ∀ t ∈ types, h.validate t = .ok () ∧ t.StarFree) {u : TypeExpr}
    (hu : h.validate u = .ok ()) (hfree : u.StarFree) :
    (∀ depth found, h.ancestorsWithin depth types = .ok found → ∀ r ∈ found,
      (∀ t ∈ types, h.Confirms t u) → h.Confirms u r → h.Confirms r u) ∧
    (∀ depth found, h.descendantsWithin depth types = .ok found → ∀ r ∈ found,
      (∀ t ∈ types, h.Confirms u t) → h.Confirms r u → h.Confirms u r) ∧
    (∀ found, h.commonAncestors types = .ok found → ∀ r ∈ found,
      (∀ t ∈ types, h.isSubtype t u = .ok true) → h.isSubtype u r = .ok true →
      (∀ answer, h.isSubtype r u = .ok answer → answer = true) ∧
      (¬h.HasContra → h.isSubtype r u = .ok true)) ∧
    (∀ found, h.commonDescendants types = .ok found → ∀ r ∈ found,
      (∀ t ∈ types, h.isSubtype u t = .ok true) → h.isSubtype r u = .ok true →
      (∀ answer, h.isSubtype u r = .ok answer → answer = true) ∧
      (¬h.HasContra → h.isSubtype u r = .ok true)) := by
  have hl := ofDefinition_linked hdef
  simp only [hl.validate_eq_ok] at htypes hu
  have hvalid (t : TypeExpr) (ht : t ∈ types) : h.Valid t := (htypes t ht).1
  have hground (t : TypeExpr) (ht : t ∈ types) : h.Ground t := ⟨(htypes t ht).1, (htypes t ht).2⟩
  have habove (depth : Nat) (found : List TypeExpr)
      (hrun : h.ancestorsWithin depth types = .ok found) (r : TypeExpr) (hr : r ∈ found)
      (htu : ∀ t ∈ types, h.Confirms t u) (hur : h.Confirms u r) : h.Confirms r u :=
    (hl.searches_between hsingle hvar depth).1 types found hground hrun r hr u ⟨hu, hfree⟩ htu hur
  have hbelow (depth : Nat) (found : List TypeExpr)
      (hrun : h.descendantsWithin depth types = .ok found) (r : TypeExpr) (hr : r ∈ found)
      (hut : ∀ t ∈ types, h.Confirms u t) (hru : h.Confirms r u) : h.Confirms u r :=
    (hl.searches_between hsingle hvar depth).2 types found hground hrun r hr u ⟨hu, hfree⟩ hut hru
  refine ⟨habove, hbelow, fun found hrun r hr htu hur => ?_, fun found hrun r hr hut hru => ?_⟩
  · exact hl.isSubtype_of_confirms (hl.ancestors_valid hvalid hrun r hr) hu
      (habove _ found hrun r hr (fun t ht => ⟨_, htu t ht⟩) ⟨_, hur⟩)
  · exact hl.isSubtype_of_confirms hu (hl.descendants_valid hvalid hrun r hr)
      (hbelow _ found hrun r hr (fun t ht => ⟨_, hut t ht⟩) ⟨_, hru⟩)

/-- The nearest pair above a flipped pair and a pair is below every pair between them and it. -/
theorem flipped_none_between_pair :
    pairHierarchy.SinglePath ∧ pairHierarchy.VarianceConsistent ∧
    pairHierarchy.commonAncestors [⟨"flipped", [⟨"animal", []⟩, ⟨"dog", []⟩]⟩,
      ⟨"pair", [⟨"animal", []⟩, ⟨"dog", []⟩]⟩] =
      .ok [⟨"pair", [⟨"animal", []⟩, ⟨"dog", []⟩]⟩] ∧
    pairHierarchy.Confirms ⟨"pair", [⟨"animal", []⟩, ⟨"dog", []⟩]⟩
      ⟨"pair", [⟨"animal", []⟩, ⟨"dog", []⟩]⟩ := by
  have hsingle : pairHierarchy.SinglePath := by decide +kernel
  have hvar : pairHierarchy.VarianceConsistent := by decide +kernel
  have hrun : pairHierarchy.commonAncestors [⟨"flipped", [⟨"animal", []⟩, ⟨"dog", []⟩]⟩,
      ⟨"pair", [⟨"animal", []⟩, ⟨"dog", []⟩]⟩] =
      .ok [⟨"pair", [⟨"animal", []⟩, ⟨"dog", []⟩]⟩] := eq_ok_of_toOption (by decide +kernel)
  have hflipped : pairHierarchy.isSubtype ⟨"flipped", [⟨"animal", []⟩, ⟨"dog", []⟩]⟩
      ⟨"pair", [⟨"animal", []⟩, ⟨"dog", []⟩]⟩ = .ok true := eq_ok_of_toOption (by decide +kernel)
  have hpair : pairHierarchy.isSubtype ⟨"pair", [⟨"animal", []⟩, ⟨"dog", []⟩]⟩
      ⟨"pair", [⟨"animal", []⟩, ⟨"dog", []⟩]⟩ = .ok true := eq_ok_of_toOption (by decide +kernel)
  have hvalid : ∀ t ∈ [TypeExpr.mk "flipped" [⟨"animal", []⟩, ⟨"dog", []⟩],
      ⟨"pair", [⟨"animal", []⟩, ⟨"dog", []⟩]⟩],
      pairHierarchy.validate t = .ok () ∧ t.StarFree :=
    List.forall_mem_cons.mpr ⟨⟨eq_ok_of_toOption (by decide +kernel), by decide +kernel⟩,
      List.forall_mem_singleton.mpr ⟨eq_ok_of_toOption (by decide +kernel), by decide +kernel⟩⟩
  have hbetween := (nearest_none_between pair_accepted hsingle hvar hvalid
    (u := ⟨"pair", [⟨"animal", []⟩, ⟨"dog", []⟩]⟩) (eq_ok_of_toOption (by decide +kernel))
    (by decide +kernel)).1 _ _ hrun _ List.mem_cons_self
    (List.forall_mem_cons.mpr ⟨⟨_, hflipped⟩, List.forall_mem_singleton.mpr ⟨_, hpair⟩⟩) ⟨_, hpair⟩
  exact ⟨hsingle, hvar, hrun, hbetween⟩

end Hierarchy

end TypedBlocks
