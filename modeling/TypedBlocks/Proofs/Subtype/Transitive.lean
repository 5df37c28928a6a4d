import TypedBlocks.Proofs.Subtype.Ground

/-! Transitivity of subtyping in hierarchies that use parameters by their variances. A comparison
can be prolonged on either side inside any template whose slots respect the variances, so a middle
type that is larger than both ends is cut out along the second derivation. -/
namespace TypedBlocks

/-- The two lists of parameters in the order in which a place of the given polarity has them. -/
inductive Sided (as bs : List TypeExpr) : Variance → List TypeExpr → List TypeExpr → Prop
  | co : Sided as bs .co as bs
  | contra : Sided as bs .contra bs as

namespace Sided

variable {as bs xs ys : List TypeExpr} {v : Variance}

theorem flip (hside : Sided as bs v xs ys) : Sided as bs (v.compose .contra) ys xs := by
  cases hside with
  | co => exact .contra
  | contra => exact .co

theorem of_fitsAt (hside : Sided as bs v xs ys) {R : TypeExpr → TypeExpr → Prop} {t : Template}
    (hfit : FitsAt R v (t.fill as) (t.fill bs)) : R (t.fill xs) (t.fill ys) := by
  cases hside with
  | co => exact hfit
  | contra => exact hfit

theorem fill_eq (hside : Sided as bs v xs ys) {t : Template} (heq : t.fill as = t.fill bs) :
    t.fill xs = t.fill ys := by
  cases hside with
  | co => exact heq
  | contra => exact heq.symm

end Sided

namespace Hierarchy

/-- All ground types above `b` are above `a`, and all below `a` are below `b`. -/
structure Cuts (h : Hierarchy) (a b : TypeExpr) : Prop where
  above : ∀ c, h.Ground c → h.Related b c → h.Related a c
  below : ∀ c, h.Ground c → h.Related c a → h.Related c b

/-- A derivation can be prolonged on the left and on the right: where a filled template is its end,
the same template filled with the parameters of the other side may be put there. -/
def Prolongs (h : Hierarchy) (formals : List Param) (as bs : List TypeExpr)
    (p q : TypeExpr) : Prop :=
  ∀ (v : Variance) (xs ys : List TypeExpr), Sided as bs v xs ys → ∀ t : Template,
    h.Shaped formals.length t → h.Respects formals v t →
    (t.fill ys = p → h.Related (t.fill xs) q) ∧ (t.fill xs = q → h.Related p (t.fill ys))

variable {h : Hierarchy}

theorem Cuts.refl (a : TypeExpr) : h.Cuts a a :=
  ⟨fun _ _ hac => hac, fun _ _ hca => hca⟩

section Prolong

variable {formals : List Param} {as bs xs ys : List TypeExpr} {v w : Variance}

/-- A pair of parameters of the derivation, prolonged on the left. -/
theorem Prolongs.fits_left {t : Template} {b : TypeExpr}
    (hfit : FitsAt (h.Prolongs formals as bs) w (t.fill ys) b)
    (hside : Sided as bs v xs ys) (hshaped : h.Shaped formals.length t)
    (ht : h.Respects formals (v.compose w) t) (heq : w = .inv → t.fill xs = t.fill ys) :
    FitsAt h.Related w (t.fill xs) b := by
  cases w with
  | co =>
    rw [Variance.compose_co] at ht
    exact (hfit v xs ys hside t hshaped ht).1 rfl
  | contra => exact (hfit _ ys xs hside.flip t hshaped ht).2 rfl
  | inv =>
    rw [heq rfl]
    exact hfit

/-- A pair of parameters of the derivation, prolonged on the right. -/
theorem Prolongs.fits_right {t : Template} {a : TypeExpr}
    (hfit : FitsAt (h.Prolongs formals as bs) w a (t.fill xs))
    (hside : Sided as bs v xs ys) (hshaped : h.Shaped formals.length t)
    (ht : h.Respects formals (v.compose w) t) (heq : w = .inv → t.fill xs = t.fill ys) :
    FitsAt h.Related w a (t.fill ys) := by
  cases w with
  | co =>
    rw [Variance.compose_co] at ht
    exact (hfit v xs ys hside t hshaped ht).2 rfl
  | contra => exact (hfit _ ys xs hside.flip t hshaped ht).1 rfl
  | inv =>
    rw [← heq rfl]
    exact hfit

/-- A type that sees itself as another by a path does so with the other side's parameters too. -/
theorem Linked.prolong_left (hl : h.Linked) (hvar : h.VarianceConsistent)
    (has : h.GroundParams formals.length as) (hbs : h.GroundParams formals.length bs)
    (hcuts : Fits h.Cuts formals as bs) (hside : Sided as bs v xs ys) {e above : Entry}
    (habove : above ∈ h.entries) {path args : List Template} (hpath : h.Path e above.name path)
    (hlen : args.length = e.arity) (hargs : ∀ t ∈ args, h.Shaped formals.length t)
    (hrespects : h.RespectsAll formals v e.params args) {qs : List TypeExpr}
    (hfits : Fits (h.Prolongs formals as bs) above.params
      (path.map (Template.fill (args.map (Template.fill ys)))) qs) :
    h.Related ⟨e.name, args.map (Template.fill xs)⟩ ⟨above.name, qs⟩ := by
  refine .of_fits hpath.mem habove ((hl.mem_paths hpath.mem).mpr hpath) ?_
  rw [← hl.fill_step hpath hlen] at hfits ⊢
  intro i q a b hq ha hb
  rw [List.getElem?_map, Option.map_eq_some_iff] at ha
  obtain ⟨t, ht, rfl⟩ := ha
  have hfit := hfits i q (t.fill ys) b hq (by rw [List.getElem?_map, ht]; rfl) hb
  rw [List.getElem?_map, Option.map_eq_some_iff] at ht
  obtain ⟨u, hu, rfl⟩ := ht
  have hu_shaped : h.Shaped args.length u := by
    rw [hlen]
    exact (hl.path_shaped hpath).2 u (List.mem_of_getElem? hu)
  have hshaped : h.Shaped formals.length (u.plug args) := hu_shaped.plug hargs
  have ht : h.Respects formals (v.compose q.variance) (u.plug args) :=
    (hl.path_respects hvar hpath habove i q u hq hu).plug hu_shaped.slotsBelow hlen.symm hrespects
  refine Prolongs.fits_left hfit hside hshaped ht fun hinv => hside.fill_eq ?_
  rw [hinv, Variance.compose_inv] at ht
  exact hl.fill_eq_of_inv has hbs hcuts hshaped ht

/-- What a type is seen as with one side's parameters, it is seen as with the other side's. -/
theorem Linked.prolong_right (hl : h.Linked) (has : h.GroundParams formals.length as)
    (hbs : h.GroundParams formals.length bs) (hcuts : Fits h.Cuts formals as bs)
    (hside : Sided as bs v xs ys) {e above : Entry} (he : e ∈ h.entries)
    (habove : above ∈ h.entries) {path args : List Template} (hpath : path ∈ e.paths above.name)
    (hargs : ∀ t ∈ args, h.Shaped formals.length t)
    (hrespects : h.RespectsAll formals v above.params args) {ps : List TypeExpr}
    (hfits : Fits (h.Prolongs formals as bs) above.params (path.map (Template.fill ps))
      (args.map (Template.fill xs))) :
    h.Related ⟨e.name, ps⟩ ⟨above.name, args.map (Template.fill ys)⟩ := by
  refine .of_fits he habove hpath ?_
  intro i q a b hq ha hb
  rw [List.getElem?_map, Option.map_eq_some_iff] at hb
  obtain ⟨t, ht, rfl⟩ := hb
  have hfit := hfits i q a (t.fill xs) hq ha (by rw [List.getElem?_map, ht]; rfl)
  have hshaped := hargs t (List.mem_of_getElem? ht)
  have ht := hrespects i q t hq ht
  refine Prolongs.fits_right hfit hside hshaped ht fun hinv => hside.fill_eq ?_
  rw [hinv, Variance.compose_inv] at ht
  exact hl.fill_eq_of_inv has hbs hcuts hshaped ht

/-- Every derivation between ground types can be prolonged by parameters that cut. -/
theorem Linked.prolongs (hl : h.Linked) (hvar : h.VarianceConsistent)
    (has : h.GroundParams formals.length as) (hbs : h.GroundParams formals.length bs)
    (hcuts : Fits h.Cuts formals as bs) {p q : TypeExpr} (hpq : h.Related p q) (hp : h.Ground p)
    (hq : h.Ground q) : h.Prolongs formals as bs p q := by
  induction hpq using Related.byViews with
  | wildcard p q _ hw => exact absurd hw (hp.not_wildcard hq)
  | view e above he habove path hpath ps qs hpq hfits =>
    have hps := (hl.ground_app_iff he).mp hp
    have hqs := (hl.ground_app_iff habove).mp hq
    have hviews := hl.views_ground ((hl.mem_paths he).mp hpath) habove hps
    have hinner : Fits (h.Prolongs formals as bs) above.params
        (path.map (Template.fill ps)) qs := by
      apply hfits.imp
      intro a ha b hb
      exact ⟨fun ⟨_, ih⟩ => ih (hviews.2 a ha) (hqs.2 b hb),
        fun ⟨_, ih⟩ => ih (hqs.2 b hb) (hviews.2 a ha)⟩
    intro v xs ys hside t hshaped ht
    cases hshaped with
    | slot hi =>
      obtain ⟨hv⟩ := ht
      have hcut := hside.of_fitsAt (slot_fitsAt (fun a _ => Cuts.refl a) has hbs hcuts hi hv)
      exact ⟨fun heq => hcut.above _ hq (heq ▸ hpq), fun heq => hcut.below _ hp (heq ▸ hpq)⟩
    | @app e' he' args hlen hargs =>
      have hrespects := (hl.respects_app_iff he').mp ht
      simp only [Template.fill, Template.fillAll_eq_map]
      constructor
      · intro heq
        obtain ⟨hname, rfl⟩ := TypeExpr.mk.inj heq
        obtain rfl := hl.entry_unique he' he hname
        exact hl.prolong_left hvar has hbs hcuts hside habove ((hl.mem_paths he).mp hpath) hlen
          hargs hrespects hinner
      · intro heq
        obtain ⟨hname, rfl⟩ := TypeExpr.mk.inj heq
        obtain rfl := hl.entry_unique he' habove hname
        exact hl.prolong_right has hbs hcuts hside he habove hpath hargs hrespects hinner

end Prolong

/-- Fitting parameters stay fitting when they are followed by parameters that cut. -/
theorem FitsAt.cut {v : Variance} {a b c : TypeExpr} (ha : h.Ground a) (hb : h.Ground b)
    (hab : FitsAt h.Related v a b) (hbc : FitsAt h.Cuts v b c) : FitsAt h.Related v a c := by
  cases v with
  | co => exact hbc.below a ha hab
  | contra => exact hbc.above a ha hab
  | inv =>
    rw [(ha.agrees_iff hb).mp hab]
    exact hbc

theorem Linked.cuts_of_related (hl : h.Linked) (hvar : h.VarianceConsistent) {a b : TypeExpr}
    (hab : h.Related a b) (ha : h.Ground a) (hb : h.Ground b) : h.Cuts a b := by
  induction hab using Related.byViews with
  | wildcard a b _ hw => exact absurd hw (ha.not_wildcard hb)
  | view e above he habove path hpath as bs _ hfits =>
    have hpath := (hl.mem_paths he).mp hpath
    have has := (hl.ground_app_iff he).mp ha
    have hbs := (hl.ground_app_iff habove).mp hb
    have hviews := hl.views_ground hpath habove has
    have hcuts : Fits h.Cuts above.params (path.map (Template.fill as)) bs := by
      apply hfits.imp
      intro x hx y hy
      exact ⟨fun ⟨_, ih⟩ => ih (hviews.2 x hx) (hbs.2 y hy),
        fun ⟨_, ih⟩ => ih (hbs.2 y hy) (hviews.2 x hx)⟩
    constructor
    · intro c hc hbc
      have hown {cs : List TypeExpr} (hcs : h.GroundParams above.arity cs) :
          (Template.slots above.arity).map (Template.fill cs) = cs := by
        rw [← hcs.1, Template.map_fill_slots]
      have hprolongs := hl.prolongs hvar hviews hbs hcuts hbc hb hc .co _ _ .co
        (.app above.name (Template.slots above.arity))
        (.app habove (by simp) (hl.path_shaped (.self habove)).2)
        ((hl.respects_app_iff habove).mpr (respectsAll_slots above.params))
      simp only [Template.fill, Template.fillAll_eq_map, hown hviews, hown hbs] at hprolongs
      exact hl.related_of_path hpath has.1 (hprolongs.1 trivial)
    · intro c hc hca
      obtain ⟨lower, hlower, cs, path', rfl, hpath', hfits'⟩ := hl.view_of_related he hc hca
      have hcs := (hl.ground_app_iff hlower).mp hc
      have hlowerViews := hl.views_ground hpath' he hcs
      apply hl.related_of_path hpath' hcs.1
      apply hl.related_of_path hpath hlowerViews.1
      refine hl.related_of_params habove (hl.views_ground hpath habove hlowerViews).1 ?_
      intro i q x z hq hx hz
      rw [List.getElem?_map, Option.map_eq_some_iff] at hx
      obtain ⟨t, ht, rfl⟩ := hx
      have hshaped := (hl.path_shaped hpath).2 t (List.mem_of_getElem? ht)
      have hcut := hcuts i q (t.fill as) z hq (by rw [List.getElem?_map, ht]; rfl) hz
      exact FitsAt.cut (hl.fill_ground hshaped hlowerViews) (hl.fill_ground hshaped has)
        (hl.keepsParams_related.fill_fitsAt hl hlowerViews has hfits' hshaped
          (hl.path_respects hvar hpath habove i q t hq ht)) hcut

/-- In a hierarchy that uses its parameters by their variances, comparisons of known types without
wildcards that say yes twice do not say no for the ends, whatever depths they are allowed. -/
theorem subtype_trans {definition : Definition} {h : Hierarchy}
    (hdef : ofDefinition definition = .ok h) (hvar : h.VarianceConsistent) {a b c : TypeExpr}
    (ha : h.validate a = .ok ()) (hb : h.validate b = .ok ()) (hc : h.validate c = .ok ())
    (hfree : a.StarFree ∧ b.StarFree ∧ c.StarFree) :
    (∀ depth₁ depth₂ depth₃ answer, h.subtypeWithin depth₁ a b = .ok true →
      h.subtypeWithin depth₂ b c = .ok true → h.subtypeWithin depth₃ a c = .ok answer →
      answer = true) ∧
    (∀ answer, h.isSubtype a b = .ok true → h.isSubtype b c = .ok true →
      h.isSubtype a c = .ok answer → answer = true) := by
  have hl := ofDefinition_linked hdef
  rw [hl.validate_eq_ok] at ha hb hc
  have htrans (depth₁ depth₂ depth₃ : Nat) (answer : Bool)
      (hab : h.subtypeWithin depth₁ a b = .ok true) (hbc : h.subtypeWithin depth₂ b c = .ok true)
      (hac : h.subtypeWithin depth₃ a c = .ok answer) : answer = true := by
    have hcuts : h.Cuts a b :=
      hl.cuts_of_related hvar (related_of_subtypeWithin hab) ⟨ha, hfree.1⟩ ⟨hb, hfree.2.1⟩
    exact (hl.subtypeWithin_iff_related hac).mpr
      (hcuts.above c ⟨hc, hfree.2.2⟩ (related_of_subtypeWithin hbc))
  exact ⟨htrans, fun answer => htrans _ _ _ answer⟩

/-- From one flipped pair to a wider one and on to a pair, with the parameters changing places. -/
theorem flipped_trans_pair :
    pairHierarchy.VarianceConsistent ∧
    pairHierarchy.isSubtype ⟨"flipped", [⟨"animal", []⟩, ⟨"dog", []⟩]⟩
      ⟨"flipped", [⟨"dog", []⟩, ⟨"animal", []⟩]⟩ = .ok true ∧
    pairHierarchy.isSubtype ⟨"flipped", [⟨"dog", []⟩, ⟨"animal", []⟩]⟩
      ⟨"pair", [⟨"animal", []⟩, ⟨"dog", []⟩]⟩ = .ok true ∧
    ∃ answer, pairHierarchy.isSubtype ⟨"flipped", [⟨"animal", []⟩, ⟨"dog", []⟩]⟩
      ⟨"pair", [⟨"animal", []⟩, ⟨"dog", []⟩]⟩ = .ok answer ∧ answer = true := by
  have hvar : pairHierarchy.VarianceConsistent := by decide +kernel
  have hwiden : pairHierarchy.isSubtype ⟨"flipped", [⟨"animal", []⟩, ⟨"dog", []⟩]⟩
      ⟨"flipped", [⟨"dog", []⟩, ⟨"animal", []⟩]⟩ = .ok true :=
    eq_ok_of_toOption (by decide +kernel)
  have hflip : pairHierarchy.isSubtype ⟨"flipped", [⟨"dog", []⟩, ⟨"animal", []⟩]⟩
      ⟨"pair", [⟨"animal", []⟩, ⟨"dog", []⟩]⟩ = .ok true :=
    eq_ok_of_toOption (by decide +kernel)
  have hends : pairHierarchy.isSubtype ⟨"flipped", [⟨"animal", []⟩, ⟨"dog", []⟩]⟩
      ⟨"pair", [⟨"animal", []⟩, ⟨"dog", []⟩]⟩ = .ok true :=
    eq_ok_of_toOption (by decide +kernel)
  have htrans := (subtype_trans pair_accepted hvar (eq_ok_of_toOption (by decide +kernel))
    (eq_ok_of_toOption (by decide +kernel)) (eq_ok_of_toOption (by decide +kernel))
    (by decide +kernel)).2 true hwiden hflip hends
  exact ⟨hvar, hwiden, hflip, true, hends, htrans⟩

end Hierarchy

end TypedBlocks
