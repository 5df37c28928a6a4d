import TypedBlocks.Proofs.Nearest.Bounds

/-! Types that are below each other. No type is an ancestor of one of its own ancestors, so two such
types have one head, which is seen as itself in one way only; their parameters are then below each
other in turn, whatever the variances are. -/
namespace TypedBlocks

namespace TypeExpr

theorem agreeAll_iff {ps qs : List TypeExpr} :
    agreeAll ps qs = true ↔ List.Forall₂ (fun p q => p.agrees q = true) ps qs := by
  induction ps generalizing qs with
  | nil => cases qs <;> simp [agreeAll]
  | cons p ps ih =>
    cases qs with
    | nil => simp [agreeAll]
    | cons q qs => simp [agreeAll, ih]

/-- Apart from wildcards, types agree if their heads and all of their parameters do. -/
theorem agrees_app {name name' : Text} {ps qs : List TypeExpr}
    (hwild : isWildcard ⟨name, ps⟩ = false) (hwild' : isWildcard ⟨name', qs⟩ = false) :
    agrees ⟨name, ps⟩ ⟨name', qs⟩ = true ↔
      name = name' ∧ List.Forall₂ (fun p q => p.agrees q = true) ps qs := by
  simp only [agrees, hwild, hwild', Bool.false_or, Bool.and_eq_true, beq_iff_eq, agreeAll_iff]

end TypeExpr

/-- Types that agree and are below each other fit at every variance. -/
theorem FitsAt.of_mutual {R : TypeExpr → TypeExpr → Prop} {a b : TypeExpr}
    (hagrees : a.agrees b = true) (hab : R a b) (hba : R b a) (v : Variance) : FitsAt R v a b := by
  cases v with
  | co => exact hab
  | contra => exact hba
  | inv => exact hagrees

/-- Types that fit both ways are below each other, or agree at least. -/
theorem FitsAt.mutual {R : TypeExpr → TypeExpr → Prop} {v : Variance} {a b : TypeExpr}
    (hab : FitsAt R v a b) (hba : FitsAt R v b a) : a.agrees b = true ∨ R a b ∧ R b a := by
  cases v with
  | co => exact .inr ⟨hab, hba⟩
  | contra => exact .inr ⟨hba, hab⟩
  | inv => exact .inl hab

namespace Hierarchy

variable {h : Hierarchy} {a b : TypeExpr}

/-- Types of one head are compared by their own parameters first. -/
theorem Linked.subtypeWithin_of_params (hl : h.Linked) {e : Entry} (he : e ∈ h.entries)
    {depth : Nat} {as bs : List TypeExpr} (hlen : as.length = e.arity)
    (hfits : Fits (fun a b => h.subtypeWithin depth a b = .ok true) e.params as bs) :
    h.subtypeWithin (depth + 1) ⟨e.name, as⟩ ⟨e.name, bs⟩ = .ok true := by
  obtain ⟨rest, hpaths⟩ := List.head?_eq_some_iff.mp (hl.first_self he)
  have hviews := hl.allParamsFor_eq he as e.name
  rw [hpaths, List.map_cons, ← hlen, Template.map_fill_slots] at hviews
  rw [subtypeWithin, compareBy, hl.app_not_wildcard he, hl.app_not_wildcard he]
  refine bind_eq_ok.mpr ⟨e, hl.get_eq he, bind_eq_ok.mpr ⟨_, hviews, ?_⟩⟩
  exact bind_eq_ok.mpr ⟨true, fitByVariance_eq_true hfits, rfl⟩

/-- Known types that agree are found to be below each other, with no more nested comparisons than
the first of them has parts. -/
theorem Linked.subtypeWithin_of_agrees (hl : h.Linked) (ha : h.Valid a) (hb : h.Valid b)
    (hagrees : a.agrees b = true) {depth : Nat} (hdepth : a.size ≤ depth) :
    h.subtypeWithin depth a b = .ok true ∧ h.subtypeWithin depth b a = .ok true := by
  induction ha generalizing b depth with
  | wildcard =>
    obtain ⟨depth, rfl⟩ := Nat.exists_eq_add_one_of_ne_zero (Nat.ne_zero_of_lt hdepth)
    exact ⟨subtypeWithin_of_wildcard (.inl rfl), subtypeWithin_of_wildcard (.inr rfl)⟩
  | @app e he as hlen _ ih =>
    obtain ⟨depth, rfl⟩ := Nat.exists_eq_add_one_of_ne_zero (Nat.ne_zero_of_lt hdepth)
    cases hb with
    | wildcard => exact ⟨subtypeWithin_of_wildcard (.inr rfl), subtypeWithin_of_wildcard (.inl rfl)⟩
    | @app e' he' bs hlen' hbs =>
      obtain ⟨hname, hparams⟩ := (TypeExpr.agrees_app (hl.app_not_wildcard he as)
        (hl.app_not_wildcard he' bs)).mp hagrees
      obtain rfl := hl.entry_unique he he' hname
      -- Contravariant positions swap the sides, so both directions have to go through together.
      have hboth (i : Nat) (x y : TypeExpr) (hx : as[i]? = some x) (hy : bs[i]? = some y) :
          x.agrees y = true ∧ h.subtypeWithin depth x y = .ok true ∧
            h.subtypeWithin depth y x = .ok true := by
        have hmem := List.mem_of_getElem? hx
        have hsize : x.size < TypeExpr.size ⟨e.name, as⟩ := TypeExpr.size_lt_of_mem hmem
        have hxy : x.agrees y = true := by
          obtain ⟨hi, rfl⟩ := List.getElem?_eq_some_iff.mp hx
          obtain ⟨hi', rfl⟩ := List.getElem?_eq_some_iff.mp hy
          exact hparams.get hi hi'
        exact ⟨hxy, ih x hmem (hbs y (List.mem_of_getElem? hy)) hxy (by omega)⟩
      constructor
      · apply hl.subtypeWithin_of_params he hlen
        intro i p x y _ hx hy
        obtain ⟨hxy, hsub, hsup⟩ := hboth i x y hx hy
        exact FitsAt.of_mutual hxy hsub hsup p.variance
      · apply hl.subtypeWithin_of_params he hlen'
        intro i p y x _ hy hx
        obtain ⟨hxy, hsub, hsup⟩ := hboth i x y hx hy
        exact FitsAt.of_mutual (TypeExpr.agrees_comm x y ▸ hxy) hsup hsub p.variance

/-- Types that are below each other have one head, and all their parameters fit both ways. -/
theorem Linked.fits_of_mutual (hl : h.Linked) {e e' : Entry} (he : e ∈ h.entries)
    (he' : e' ∈ h.entries) {as bs : List TypeExpr} (hlen : as.length = e.arity)
    (hlen' : bs.length = e'.arity) (hab : h.Related ⟨e.name, as⟩ ⟨e'.name, bs⟩)
    (hba : h.Related ⟨e'.name, bs⟩ ⟨e.name, as⟩) :
    e = e' ∧ Fits h.Related e.params as bs ∧ Fits h.Related e.params bs as := by
  obtain ⟨_, hpath, -⟩ := hl.view_of_related_app he he' hab
  obtain ⟨_, hpath', -⟩ := hl.view_of_related_app he' he hba
  obtain rfl := hl.entry_unique he he'
    (hl.below_antisymm (below_of_path hpath) (below_of_path hpath'))
  exact ⟨rfl, hl.fits_of_related he hlen hab, hl.fits_of_related he hlen' hba⟩

/-- Known types that are below each other agree. -/
theorem Linked.agrees_of_related (hl : h.Linked) (ha : h.Valid a) (hb : h.Valid b)
    (hab : h.Related a b) (hba : h.Related b a) : a.agrees b = true := by
  induction ha generalizing b with
  | wildcard => exact TypeExpr.agrees_of_wildcard (.inl rfl)
  | @app e he as hlen _ ih =>
    cases hb with
    | wildcard => exact TypeExpr.agrees_of_wildcard (.inr rfl)
    | @app e' he' bs hlen' hbs =>
      obtain ⟨rfl, hfits, hfits'⟩ := hl.fits_of_mutual he he' hlen hlen' hab hba
      refine (TypeExpr.agrees_app (hl.app_not_wildcard he as) (hl.app_not_wildcard he bs)).mpr
        ⟨rfl, List.forall₂_iff_get.mpr ⟨hlen.trans hlen'.symm, fun i hi hi' => ?_⟩⟩
      have hp : i < e.params.length := Nat.lt_of_lt_of_eq hi hlen
      have hfit := hfits i _ _ _ (List.getElem?_eq_getElem hp) (List.getElem?_eq_getElem hi)
        (List.getElem?_eq_getElem hi')
      have hfit' := hfits' i _ _ _ (List.getElem?_eq_getElem hp) (List.getElem?_eq_getElem hi')
        (List.getElem?_eq_getElem hi)
      rcases hfit.mutual hfit' with hagrees | ⟨hsub, hsup⟩
      · exact hagrees
      · exact ih as[i] (List.getElem_mem hi) (hbs bs[i] (List.getElem_mem hi')) hsub hsup

/-- Known types, with or without wildcards, are found to be below each other exactly when they are
the same up to wildcards, and whatever depths are allowed no other two are. In particular every
known type is below itself, and types without wildcards that are below each other are equal. -/
theorem mutual_iff_agrees {definition : Definition} {h : Hierarchy}
    (hdef : ofDefinition definition = .ok h) {a b : TypeExpr} (ha : h.validate a = .ok ())
    (hb : h.validate b = .ok ()) :
    ((h.isSubtype a b = .ok true ∧ h.isSubtype b a = .ok true) ↔ a.agrees b = true) ∧
    ((∃ depth₁ depth₂, h.subtypeWithin depth₁ a b = .ok true ∧
      h.subtypeWithin depth₂ b a = .ok true) ↔ a.agrees b = true) ∧
    h.isSubtype a a = .ok true ∧
    (a.StarFree → b.StarFree →
      ((h.isSubtype a b = .ok true ∧ h.isSubtype b a = .ok true) ↔ a = b)) := by
  have hl := ofDefinition_linked hdef
  rw [hl.validate_eq_ok] at ha hb
  have hagree {depth₁ depth₂ : Nat} (hab : h.subtypeWithin depth₁ a b = .ok true)
      (hba : h.subtypeWithin depth₂ b a = .ok true) : a.agrees b = true :=
    hl.agrees_of_related ha hb (related_of_subtypeWithin hab) (related_of_subtypeWithin hba)
  have hmutual {x y : TypeExpr} (hx : h.Valid x) (hy : h.Valid y) (hxy : x.agrees y = true) :
      h.isSubtype x y = .ok true ∧ h.isSubtype y x = .ok true := by
    unfold isSubtype
    exact ⟨(hl.subtypeWithin_of_agrees hx hy hxy (by omega)).1,
      (hl.subtypeWithin_of_agrees hx hy hxy (by omega)).2⟩
  have hiff : (h.isSubtype a b = .ok true ∧ h.isSubtype b a = .ok true) ↔ a.agrees b = true :=
    ⟨fun ⟨hab, hba⟩ => hagree hab hba, hmutual ha hb⟩
  refine ⟨hiff, ⟨?_, ?_⟩, (hmutual ha ha (TypeExpr.agrees_refl a)).1, fun hfree hfree' => ?_⟩
  · rintro ⟨depth₁, depth₂, hab, hba⟩
    exact hagree hab hba
  · intro hagrees
    obtain ⟨hab, hba⟩ := hmutual ha hb hagrees
    exact ⟨_, _, hab, hba⟩
  · rw [hiff]
    exact hfree.agrees_iff hfree'

/-- Wildcards at different depths, at covariant and contravariant places. -/
theorem flipped_mutual_wildcards :
    pairHierarchy.validate ⟨"pair", [⟨"flipped", [⟨"animal", []⟩, .wildcard]⟩, .wildcard]⟩ =
      .ok () ∧
    pairHierarchy.validate ⟨"pair", [⟨"flipped", [.wildcard, ⟨"dog", []⟩]⟩, ⟨"dog", []⟩]⟩ =
      .ok () ∧
    pairHierarchy.isSubtype ⟨"pair", [⟨"flipped", [⟨"animal", []⟩, .wildcard]⟩, .wildcard]⟩
      ⟨"pair", [⟨"flipped", [.wildcard, ⟨"dog", []⟩]⟩, ⟨"dog", []⟩]⟩ = .ok true ∧
    pairHierarchy.isSubtype ⟨"pair", [⟨"flipped", [.wildcard, ⟨"dog", []⟩]⟩, ⟨"dog", []⟩]⟩
      ⟨"pair", [⟨"flipped", [⟨"animal", []⟩, .wildcard]⟩, .wildcard]⟩ = .ok true := by
  have hleft : pairHierarchy.validate
      ⟨"pair", [⟨"flipped", [⟨"animal", []⟩, .wildcard]⟩, .wildcard]⟩ = .ok () :=
    eq_ok_of_toOption (by decide +kernel)
  have hright : pairHierarchy.validate
      ⟨"pair", [⟨"flipped", [.wildcard, ⟨"dog", []⟩]⟩, ⟨"dog", []⟩]⟩ = .ok () :=
    eq_ok_of_toOption (by decide +kernel)
  exact ⟨hleft, hright, (mutual_iff_agrees pair_accepted hleft hright).1.mpr (by decide +kernel)⟩

end Hierarchy

end TypedBlocks
