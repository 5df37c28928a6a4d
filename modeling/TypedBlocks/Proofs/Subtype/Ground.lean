import TypedBlocks.Proofs.Subtype.Decides
import TypedBlocks.Proofs.Subtype.Polarity

/-! Known types without wildcards. On them agreement is equality, and a template whose slots respect
the variances carries fitting parameters to related types. -/
namespace TypedBlocks

/-- Fitting at a contravariant place is fitting the other way round. -/
theorem fitsAt_flip {R : TypeExpr → TypeExpr → Prop} {v : Variance} {a b : TypeExpr} :
    FitsAt R (Variance.contra.compose v) a b ↔ FitsAt R v b a := by
  cases v with
  | co => exact Iff.rfl
  | contra => exact Iff.rfl
  | inv => simp only [Variance.compose, FitsAt, a.agrees_comm b]

namespace Hierarchy

/-- Known to the hierarchy and free of wildcards. -/
structure Ground (h : Hierarchy) (t : TypeExpr) : Prop where
  valid : h.Valid t
  starFree : t.StarFree

def GroundParams (h : Hierarchy) (arity : Nat) (params : List TypeExpr) : Prop :=
  params.length = arity ∧ ∀ p ∈ params, h.Ground p

variable {h : Hierarchy}

theorem Linked.ground_app_iff (hl : h.Linked) {e : Entry} (he : e ∈ h.entries)
    {params : List TypeExpr} : h.Ground ⟨e.name, params⟩ ↔ h.GroundParams e.arity params := by
  constructor
  · rintro ⟨hvalid, hfree⟩
    obtain ⟨hlen, hparams⟩ := (hl.valid_app_iff he).mp hvalid
    exact ⟨hlen, fun p hp => ⟨hparams p hp, (TypeExpr.starFree_mk.mp hfree).2 p hp⟩⟩
  · rintro ⟨hlen, hparams⟩
    exact ⟨.app he hlen fun p hp => (hparams p hp).valid,
      TypeExpr.starFree_mk.mpr ⟨hl.name_ne_star he, fun p hp => (hparams p hp).starFree⟩⟩

theorem Ground.not_wildcard {a b : TypeExpr} (ha : h.Ground a) (hb : h.Ground b) :
    ¬(a.isWildcard = true ∨ b.isWildcard = true) := by
  simp [ha.starFree.isWildcard, hb.starFree.isWildcard]

theorem Ground.agrees_iff {a b : TypeExpr} (ha : h.Ground a) (hb : h.Ground b) :
    a.agrees b = true ↔ a = b :=
  ha.starFree.agrees_iff hb.starFree

theorem Linked.fill_ground (hl : h.Linked) {n : Nat} {t : Template} (ht : h.Shaped n t)
    {actuals : List TypeExpr} (hactuals : h.GroundParams n actuals) :
    h.Ground (t.fill actuals) := by
  obtain ⟨hlen, hactuals⟩ := hactuals
  induction ht with
  | @slot i hi =>
    have hi' : i < actuals.length := hlen ▸ hi
    simpa [Template.fill, hi'] using hactuals _ (List.getElem_mem hi')
  | app he hlen' _ ih =>
    simp only [Template.fill, Template.fillAll_eq_map]
    refine (hl.ground_app_iff he).mpr ⟨by simpa using hlen', fun p hp => ?_⟩
    obtain ⟨t, ht, rfl⟩ := List.mem_map.mp hp
    exact ih t ht

theorem Linked.map_fill_ground (hl : h.Linked) {n arity : Nat} {args : List Template}
    (hlen : args.length = arity) (hargs : ∀ t ∈ args, h.Shaped n t) {actuals : List TypeExpr}
    (hactuals : h.GroundParams n actuals) :
    h.GroundParams arity (args.map (Template.fill actuals)) := by
  refine ⟨by simpa using hlen, fun p hp => ?_⟩
  obtain ⟨t, ht, rfl⟩ := List.mem_map.mp hp
  exact hl.fill_ground (hargs t ht) hactuals

theorem Linked.views_ground (hl : h.Linked) {e target : Entry} {path : List Template}
    (hp : h.Path e target.name path) (ht : target ∈ h.entries) {as : List TypeExpr}
    (has : h.GroundParams e.arity as) :
    h.GroundParams target.arity (path.map (Template.fill as)) := by
  obtain ⟨⟨target', ht', hname, hlen⟩, hshaped⟩ := hl.path_shaped hp
  obtain rfl := hl.entry_unique ht' ht hname
  exact hl.map_fill_ground hlen hshaped has

/-- Types of one head with fitting parameters are related. -/
theorem Linked.related_of_params (hl : h.Linked) {e : Entry} (he : e ∈ h.entries)
    {as bs : List TypeExpr} (hlen : as.length = e.arity) (hfits : Fits h.Related e.params as bs) :
    h.Related ⟨e.name, as⟩ ⟨e.name, bs⟩ := by
  refine .of_fits he he ((hl.mem_paths he).mpr (.self he)) ?_
  rwa [← hlen, Template.map_fill_slots]

/-- What an ancestor is related to, a type that sees itself as that ancestor is related to. -/
theorem Linked.related_of_path (hl : h.Linked) {e : Entry} {ancestor : Text}
    {path : List Template} (hp : h.Path e ancestor path) {as : List TypeExpr} {b : TypeExpr}
    (hlen : as.length = e.arity) (hab : h.Related ⟨ancestor, path.map (Template.fill as)⟩ b) :
    h.Related ⟨e.name, as⟩ b := by
  induction hp generalizing as with
  | self he => rwa [← hlen, Template.map_fill_slots] at hab
  | @step e p he args hedge ancestor path hpath ih =>
    obtain ⟨_, _, hisEdge⟩ := hl.parent_of_edge he hedge
    obtain ⟨p', hp', hname, hargs⟩ := hisEdge.target
    obtain rfl := hl.entry_unique hp' hpath.mem hname
    rw [hl.fill_step hpath hargs] at hab
    exact hl.related_of_edge he hpath.mem hedge hargs (ih (by simpa using hargs) hab)

/-- Declared types that are related are so by one way from the first head to the second. -/
theorem Linked.view_of_related_app (hl : h.Linked) {e e' : Entry} (he : e ∈ h.entries)
    (he' : e' ∈ h.entries) {as bs : List TypeExpr}
    (hab : h.Related ⟨e.name, as⟩ ⟨e'.name, bs⟩) :
    ∃ path, h.Path e e'.name path ∧ Fits h.Related e'.params (path.map (Template.fill as)) bs := by
  generalize ha : TypeExpr.mk e.name as = a at hab
  generalize hb : TypeExpr.mk e'.name bs = b at hab
  induction hab using Related.byViews with
  | wildcard a b _ hw =>
    subst ha hb
    simp [hl.app_not_wildcard he, hl.app_not_wildcard he'] at hw
  | view lower upper hlower hupper path hpath xs ys _ hfits =>
    obtain ⟨hname, rfl⟩ := TypeExpr.mk.inj ha
    obtain ⟨hname', rfl⟩ := TypeExpr.mk.inj hb
    obtain rfl := hl.entry_unique he hlower hname
    obtain rfl := hl.entry_unique he' hupper hname'
    refine ⟨path, (hl.mem_paths he).mp hpath, ?_⟩
    exact hfits.imp fun _ _ _ _ => ⟨fun ⟨hr, _⟩ => hr, fun ⟨hr, _⟩ => hr⟩

/-- A ground type is below another by the parameters of one of its views. -/
theorem Linked.view_of_related (hl : h.Linked) {c : TypeExpr} {e : Entry} (he : e ∈ h.entries)
    {as : List TypeExpr} (hc : h.Ground c) (hca : h.Related c ⟨e.name, as⟩) :
    ∃ lower ∈ h.entries, ∃ (cs : List TypeExpr) (path : List Template), c = ⟨lower.name, cs⟩ ∧
      h.Path lower e.name path ∧ Fits h.Related e.params (path.map (Template.fill cs)) as := by
  obtain ⟨hvalid, hfree⟩ := hc
  cases hvalid with
  | wildcard => exact absurd hfree.isWildcard (by decide)
  | @app lower hlower cs _ _ =>
    obtain ⟨path, hpath, hfits⟩ := hl.view_of_related_app hlower he hca
    exact ⟨lower, hlower, cs, path, rfl, hpath, hfits⟩

theorem Linked.fits_of_related (hl : h.Linked) {e : Entry} (he : e ∈ h.entries)
    {as bs : List TypeExpr} (hlen : as.length = e.arity)
    (hab : h.Related ⟨e.name, as⟩ ⟨e.name, bs⟩) : Fits h.Related e.params as bs := by
  obtain ⟨path, hpath, hfits⟩ := hl.view_of_related_app he he hab
  rwa [hl.path_self hpath, ← hlen, Template.map_fill_slots] at hfits

/-- The relation is passed on from the parameters of ground types to the types. -/
def KeepsParams (h : Hierarchy) (R : TypeExpr → TypeExpr → Prop) : Prop :=
  ∀ e ∈ h.entries, ∀ as bs, h.GroundParams e.arity as → h.GroundParams e.arity bs →
    Fits R e.params as bs → R ⟨e.name, as⟩ ⟨e.name, bs⟩

theorem Linked.keepsParams_related (hl : h.Linked) : h.KeepsParams h.Related :=
  fun _ he _ _ has _ hfits => hl.related_of_params he has.1 hfits

theorem fits_refl {R : TypeExpr → TypeExpr → Prop} (params : List Param) {as : List TypeExpr}
    (hrefl : ∀ a ∈ as, R a a) : Fits R params as as := by
  intro i p a b hp ha hb
  obtain rfl := Option.some.inj (ha.symm.trans hb)
  have hself := hrefl a (List.mem_of_getElem? ha)
  cases p.variance with
  | co => exact hself
  | contra => exact hself
  | inv => exact a.agrees_refl

theorem KeepsParams.refl {R : TypeExpr → TypeExpr → Prop} (hR : h.KeepsParams R) (hl : h.Linked)
    {t : TypeExpr} (ht : h.Ground t) : R t t := by
  obtain ⟨hvalid, hfree⟩ := ht
  induction hvalid with
  | wildcard => exact absurd hfree (by decide)
  | @app e he params hlen hparams ih =>
    have hground := (hl.ground_app_iff he).mp ⟨.app he hlen hparams, hfree⟩
    exact hR e he params params hground hground
      (fits_refl e.params fun p hp => ih p hp (hground.2 p hp).starFree)

/-- The relation is passed back from ground types of one head to their parameters. -/
def GivesParams (h : Hierarchy) (R : TypeExpr → TypeExpr → Prop) : Prop :=
  ∀ e ∈ h.entries, ∀ as bs, h.GroundParams e.arity as → h.GroundParams e.arity bs →
    R ⟨e.name, as⟩ ⟨e.name, bs⟩ → Fits R e.params as bs

theorem Linked.givesParams_related (hl : h.Linked) : h.GivesParams h.Related :=
  fun _ he _ _ has _ hab => hl.fits_of_related he has.1 hab

/-- Ground types of one head that fit at a place have parameters that fit at the places inside. -/
theorem GivesParams.fitsAt_params {R : TypeExpr → TypeExpr → Prop} (hR : h.GivesParams R)
    (hl : h.Linked) {e : Entry} (he : e ∈ h.entries) {as bs : List TypeExpr}
    (has : h.GroundParams e.arity as) (hbs : h.GroundParams e.arity bs) {place : Variance}
    (hfit : FitsAt R place ⟨e.name, as⟩ ⟨e.name, bs⟩) {i : Nat} {q : Param} {a b : TypeExpr}
    (hq : e.params[i]? = some q) (ha : as[i]? = some a) (hb : bs[i]? = some b) :
    FitsAt R (place.compose q.variance) a b := by
  cases place with
  | co => exact hR e he as bs has hbs hfit i q a b hq ha hb
  | contra => exact fitsAt_flip.mpr (hR e he bs as hbs has hfit i q b a hq hb ha)
  | inv =>
    have hag := (hl.ground_app_iff he).mpr has
    have hbg := (hl.ground_app_iff he).mpr hbs
    obtain ⟨-, rfl⟩ := TypeExpr.mk.inj ((hag.agrees_iff hbg).mp hfit)
    obtain rfl := Option.some.inj (ha.symm.trans hb)
    exact a.agrees_refl

section Fill

variable {R : TypeExpr → TypeExpr → Prop} {formals : List Param} {as bs : List TypeExpr}

/-- At a slot the parameters fit as its variance says, or are equal if they are invariant. -/
theorem slot_fitsAt (hrefl : ∀ a, h.Ground a → R a a) (has : h.GroundParams formals.length as)
    (hbs : h.GroundParams formals.length bs) (hfits : Fits R formals as bs) {i : Nat}
    (hi : i < formals.length) {place : Variance}
    (hallowed : ∀ p, formals[i]? = some p → p.variance.allowedAt place = true) :
    FitsAt R place ((Template.slot i).fill as) ((Template.slot i).fill bs) := by
  have hia : i < as.length := has.1 ▸ hi
  have hib : i < bs.length := hbs.1 ▸ hi
  have hfit := hfits i formals[i] as[i] bs[i] (List.getElem?_eq_getElem hi)
    (List.getElem?_eq_getElem hia) (List.getElem?_eq_getElem hib)
  have hplace := hallowed formals[i] (List.getElem?_eq_getElem hi)
  have hground := has.2 as[i] (List.getElem_mem hia)
  simp only [Template.fill, List.getD_eq_getElem?_getD, List.getElem?_eq_getElem hia,
    List.getElem?_eq_getElem hib, Option.getD_some]
  simp only [Variance.allowedAt, Bool.or_eq_true, beq_iff_eq] at hplace
  rcases hplace with hinv | hsame
  · rw [hinv] at hfit
    rw [← (hground.agrees_iff (hbs.2 bs[i] (List.getElem_mem hib))).mp hfit]
    cases place with
    | co => exact hrefl _ hground
    | contra => exact hrefl _ hground
    | inv => exact as[i].agrees_refl
  · rwa [hsame] at hfit

/-- Fitting parameters make no difference to a template that is allowed at an invariant place. -/
theorem Linked.fill_eq_of_inv (hl : h.Linked) (has : h.GroundParams formals.length as)
    (hbs : h.GroundParams formals.length bs) (hfits : Fits R formals as bs) {t : Template}
    (hshaped : h.Shaped formals.length t) (ht : h.Respects formals .inv t) :
    t.fill as = t.fill bs := by
  induction hshaped with
  | @slot i hi =>
    obtain ⟨hv⟩ := ht
    have hground {cs : List TypeExpr} (hcs : h.GroundParams formals.length cs) :
        h.Ground ((Template.slot i).fill cs) := hl.fill_ground (.slot hi) hcs
    have hfit : Fits (fun _ _ => True) formals as bs :=
      hfits.imp fun _ _ _ _ => ⟨fun _ => trivial, fun _ => trivial⟩
    exact ((hground has).agrees_iff (hground hbs)).mp
      (slot_fitsAt (fun _ _ => trivial) has hbs hfit hi hv)
  | @app e he args hlen hargs ih =>
    have hrespects := (hl.respects_app_iff he).mp ht
    simp only [Template.fill, Template.fillAll_eq_map, TypeExpr.mk.injEq, true_and]
    apply List.map_congr_left
    intro t hmem
    obtain ⟨i, hi, rfl⟩ := List.getElem_of_mem hmem
    have hi' : i < e.params.length := Nat.lt_of_lt_of_eq hi hlen
    exact ih _ hmem (hrespects i _ _ (List.getElem?_eq_getElem hi') (List.getElem?_eq_getElem hi))

/-- A template that respects the variances of its slots carries fitting parameters to types that
fit at the place where it stands. -/
theorem KeepsParams.fill_fitsAt (hR : h.KeepsParams R) (hl : h.Linked)
    (has : h.GroundParams formals.length as) (hbs : h.GroundParams formals.length bs)
    (hfits : Fits R formals as bs) {t : Template} (hshaped : h.Shaped formals.length t)
    {place : Variance} (ht : h.Respects formals place t) :
    FitsAt R place (t.fill as) (t.fill bs) := by
  induction hshaped generalizing place with
  | slot hi =>
    obtain ⟨hv⟩ := ht
    exact slot_fitsAt (fun a ha => hR.refl hl ha) has hbs hfits hi hv
  | @app e he args hlen hargs ih =>
    have hrespects := (hl.respects_app_iff he).mp ht
    have hinner (i : Nat) (q : Param) (t : Template) (hq : e.params[i]? = some q)
        (hget : args[i]? = some t) :
        FitsAt R (place.compose q.variance) (t.fill as) (t.fill bs) :=
      ih t (List.mem_of_getElem? hget) (hrespects i q t hq hget)
    have hground {cs : List TypeExpr} (hcs : h.GroundParams formals.length cs) :
        h.GroundParams e.arity (args.map (Template.fill cs)) := hl.map_fill_ground hlen hargs hcs
    cases place with
    | co =>
      simp only [Template.fill, Template.fillAll_eq_map]
      refine hR e he _ _ (hground has) (hground hbs) (fits_map fun i q t hq hget => ?_)
      exact hinner i q t hq hget
    | contra =>
      simp only [Template.fill, Template.fillAll_eq_map]
      refine hR e he _ _ (hground hbs) (hground has) (fits_map fun i q t hq hget => ?_)
      exact fitsAt_flip.mp (hinner i q t hq hget)
    | inv =>
      rw [hl.fill_eq_of_inv has hbs hfits (.app he hlen hargs) ht]
      exact TypeExpr.agrees_refl _

end Fill

end Hierarchy

end TypedBlocks
