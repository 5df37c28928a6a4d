import TypedBlocks.Proofs.Hierarchy.Names
import TypedBlocks.Proofs.Subtype.Confirm

/-! When seeing types as an ancestor keeps subtyping. It does exactly when the way to the ancestor
has every parameter at places that its variance allows; declarations are not checked for this. -/
namespace TypedBlocks

namespace Hierarchy

/-- Of two types with the given name, one found to be below the other, the first is found to be
below the second as instances of the ancestor too. -/
def VarianceSound (h : Hierarchy) (name ancestor : Text) : Prop :=
  ∀ (xs ys : List TypeExpr) (x y : TypeExpr),
    h.validate ⟨name, xs⟩ = .ok () → h.validate ⟨name, ys⟩ = .ok () →
    TypeExpr.StarFree ⟨name, xs⟩ → TypeExpr.StarFree ⟨name, ys⟩ →
    h.viewAs ⟨name, xs⟩ ancestor = .ok (some x) → h.viewAs ⟨name, ys⟩ ancestor = .ok (some y) →
    h.Confirms ⟨name, xs⟩ ⟨name, ys⟩ → h.Confirms x y

variable {h : Hierarchy}

theorem Linked.template_path (hl : h.Linked) {e : Entry} (he : e ∈ h.entries) {ancestor : Text}
    {template : Template} (hway : e.template? ancestor = some template) :
    ∃ above ∈ h.entries, ∃ path, above.name = ancestor ∧ template = .app above.name path ∧
      (e.paths above.name).head? = some path ∧ h.Path e above.name path := by
  obtain ⟨path, hfirst, rfl⟩ := Option.map_eq_some_iff.mp hway
  have hpath := (hl.mem_paths he).mp (List.mem_of_head? hfirst)
  obtain ⟨⟨above, habove, rfl, -⟩, -⟩ := hl.path_shaped hpath
  exact ⟨above, habove, path, rfl, rfl, hfirst, hpath⟩

theorem Linked.template_shaped (hl : h.Linked) {e above : Entry} (habove : above ∈ h.entries)
    {path : List Template} (hpath : h.Path e above.name path) :
    h.Shaped e.arity (.app above.name path) := by
  obtain ⟨⟨target, htarget, hname, hlen⟩, hshaped⟩ := hl.path_shaped hpath
  obtain rfl := hl.entry_unique htarget habove hname
  exact .app habove hlen hshaped

/-- Views through a way that respects the variances keep subtyping. -/
theorem Linked.sound_of_respects (hl : h.Linked) {e : Entry} (he : e ∈ h.entries) {ancestor : Text}
    (hrespects : ∀ template, e.template? ancestor = some template →
      h.Respects e.params .co template) : h.VarianceSound e.name ancestor := by
  intro xs ys x y hx hy hxfree hyfree hxview hyview hconfirms
  rw [hl.validate_eq_ok] at hx hy
  have hxs := (hl.ground_app_iff he).mp ⟨hx, hxfree⟩
  have hys := (hl.ground_app_iff he).mp ⟨hy, hyfree⟩
  rw [hl.viewAs_eq he] at hxview hyview
  obtain ⟨template, hway, rfl⟩ := Option.map_eq_some_iff.mp (Except.ok.inj hxview)
  rw [hway] at hyview
  obtain rfl := Option.some.inj (Except.ok.inj hyview)
  obtain ⟨above, habove, path, rfl, rfl, -, hpath⟩ := hl.template_path he hway
  exact hl.keepsParams_confirms.fill_fitsAt hl hxs hys (hl.fits_of_confirms he hxs.1 hconfirms)
    (hl.template_shaped habove hpath) (hrespects _ hway)

section Probe

def probe (arity : Nat) (fallback : TypeExpr) (i : Nat) (t : TypeExpr) : List TypeExpr :=
  (List.replicate arity fallback).set i t

/-- The smaller of two types first at a covariant position, the larger one at a contravariant. -/
def arranged (lower upper : TypeExpr) : Variance → TypeExpr × TypeExpr
  | .co => (lower, upper)
  | .contra => (upper, lower)
  | .inv => (lower, lower)

variable {fallback lower upper : TypeExpr} {formals : List Param}

theorem probe_ground (hfallback : h.Ground fallback) {t : TypeExpr} (ht : h.Ground t)
    (arity i : Nat) : h.GroundParams arity (probe arity fallback i t) := by
  refine ⟨by simp [probe], fun p hp => ?_⟩
  rcases List.mem_or_eq_of_mem_set hp with hmem | rfl
  · rw [List.eq_of_mem_replicate hmem]
    exact hfallback
  · exact ht

theorem fill_probe {arity i : Nat} (hi : i < arity) (t : TypeExpr) :
    (Template.slot i).fill (probe arity fallback i t) = t := by
  simp [Template.fill, probe, hi]

theorem arranged_ground (hlower : h.Ground lower) (hupper : h.Ground upper) (v : Variance) :
    h.Ground (arranged lower upper v).1 ∧ h.Ground (arranged lower upper v).2 := by
  cases v with
  | co => exact ⟨hlower, hupper⟩
  | contra => exact ⟨hupper, hlower⟩
  | inv => exact ⟨hlower, hlower⟩

theorem arranged_fitsAt {R : TypeExpr → TypeExpr → Prop} (hle : R lower upper) (v : Variance) :
    FitsAt R v (arranged lower upper v).1 (arranged lower upper v).2 := by
  cases v with
  | co => exact hle
  | contra => exact hle
  | inv => exact lower.agrees_refl

/-- Probes with arranged types at one position fit. -/
theorem probe_fits {R : TypeExpr → TypeExpr → Prop} (hrefl : R fallback fallback)
    (hle : R lower upper) {i : Nat} {p : Param} (hp : formals[i]? = some p) :
    Fits R formals (probe formals.length fallback i (arranged lower upper p.variance).1)
      (probe formals.length fallback i (arranged lower upper p.variance).2) := by
  intro j q a b hq ha hb
  have hj : j < formals.length := (List.getElem?_eq_some_iff.mp hq).1
  by_cases hij : i = j
  · subst hij
    obtain rfl := Option.some.inj (hp.symm.trans hq)
    obtain rfl : (arranged lower upper p.variance).1 = a := by simpa [probe, hj] using ha
    obtain rfl : (arranged lower upper p.variance).2 = b := by simpa [probe, hj] using hb
    exact arranged_fitsAt hle p.variance
  · obtain rfl : fallback = a := by simpa [probe, hij, hj] using ha
    obtain rfl : fallback = b := by simpa [probe, hij, hj] using hb
    cases q.variance with
    | co => exact hrefl
    | contra => exact hrefl
    | inv => exact fallback.agrees_refl

/-- A variance whose arrangement of a strict pair fits at a place is allowed there. -/
theorem allowedAt_of_arranged (hlower : h.Ground lower) (hupper : h.Ground upper)
    (hne : lower ≠ upper) (hnot : ¬h.Related upper lower) {v place : Variance}
    (hfit : FitsAt h.Related place (arranged lower upper v).1 (arranged lower upper v).2) :
    v.allowedAt place = true := by
  cases v with
  | co =>
    cases place with
    | co => rfl
    | contra => exact absurd hfit hnot
    | inv => exact absurd ((hlower.agrees_iff hupper).mp hfit) hne
  | contra =>
    cases place with
    | co => exact absurd hfit hnot
    | contra => rfl
    | inv => exact absurd ((hupper.agrees_iff hlower).mp hfit).symm hne
  | inv => rfl

/-- A template respects the variances if it carries the probes of all positions to types that fit
at the place where it stands. -/
theorem Linked.respects_of_probes (hl : h.Linked) (hfallback : h.Ground fallback)
    (hlower : h.Ground lower) (hupper : h.Ground upper) (hne : lower ≠ upper)
    (hnot : ¬h.Related upper lower) {t : Template} (hshaped : h.Shaped formals.length t)
    {place : Variance}
    (hfit : ∀ (i : Nat) (p : Param), formals[i]? = some p → FitsAt h.Related place
      (t.fill (probe formals.length fallback i (arranged lower upper p.variance).1))
      (t.fill (probe formals.length fallback i (arranged lower upper p.variance).2))) :
    h.Respects formals place t := by
  have hprobe (i : Nat) (v : Variance) :=
    And.intro
      (probe_ground hfallback (arranged_ground hlower hupper v).1 formals.length i)
      (probe_ground hfallback (arranged_ground hlower hupper v).2 formals.length i)
  induction hshaped generalizing place with
  | @slot i hi =>
    refine .slot fun p hp => ?_
    have hslot := hfit i p hp
    rw [fill_probe hi, fill_probe hi] at hslot
    exact allowedAt_of_arranged hlower hupper hne hnot hslot
  | @app e he args hlen hargs ih =>
    refine .app he fun j q t hq ht => ih t (List.mem_of_getElem? ht) fun i p hp => ?_
    have hwhole := hfit i p hp
    simp only [Template.fill, Template.fillAll_eq_map] at hwhole
    refine hl.givesParams_related.fitsAt_params hl he
      (hl.map_fill_ground hlen hargs (hprobe i p.variance).1)
      (hl.map_fill_ground hlen hargs (hprobe i p.variance).2) hwhole hq ?_ ?_
    · rw [List.getElem?_map, ht, Option.map_some]
    · rw [List.getElem?_map, ht, Option.map_some]

end Probe

/-- A type with an ancestor other than itself is strictly below its view as that ancestor. -/
theorem Linked.not_related_view (hl : h.Linked) {e above : Entry} (he : e ∈ h.entries)
    (habove : above ∈ h.entries) (hne : above.name ≠ e.name) {path : List Template}
    (hpath : h.Path e above.name path) {as bs : List TypeExpr} :
    ¬h.Related ⟨above.name, bs⟩ ⟨e.name, as⟩ := by
  intro hback
  obtain ⟨_, hpath', -⟩ := hl.view_of_related_app habove he hback
  exact hne (hl.below_antisymm (below_of_path hpath') (below_of_path hpath))

/-- Where there are ground types at all, views keep subtyping only through ways that respect the
variances. -/
theorem Linked.respects_of_sound (hl : h.Linked) {e : Entry} (he : e ∈ h.entries)
    {ancestor : Text} (hsound : h.VarianceSound e.name ancestor) {fallback : TypeExpr}
    (hfallback : h.Ground fallback) {template : Template}
    (hway : e.template? ancestor = some template) : h.Respects e.params .co template := by
  obtain ⟨above, habove, path, rfl, rfl, hfirst, hpath⟩ := hl.template_path he hway
  by_cases hname : above.name = e.name
  · obtain rfl := hl.entry_unique habove he hname
    rw [hl.path_self hpath]
    exact (hl.respects_app_iff he).mpr (respectsAll_slots above.params)
  · have hcopies : h.GroundParams e.arity (List.replicate e.arity fallback) :=
      ⟨List.length_replicate, fun p hp => List.eq_of_mem_replicate hp ▸ hfallback⟩
    have hlower := (hl.ground_app_iff he).mpr hcopies
    have hupper := (hl.ground_app_iff habove).mpr (hl.views_ground hpath habove hcopies)
    refine hl.respects_of_probes hfallback hlower hupper
      (fun heq => hname (TypeExpr.mk.inj heq).1.symm)
      (hl.not_related_view he habove hname hpath) (hl.template_shaped habove hpath)
      fun i p hp => ?_
    have hground := arranged_ground hlower hupper p.variance
    have hxs := probe_ground hfallback hground.1 e.arity i
    have hys := probe_ground hfallback hground.2 e.arity i
    have hfits := probe_fits (hl.keepsParams_confirms.refl hl hfallback)
      (hl.confirms_first_view habove hfirst he hcopies) hp
    have hx := (hl.ground_app_iff he).mpr hxs
    have hy := (hl.ground_app_iff he).mpr hys
    have hviews := hsound _ _ _ _ (hl.validate_eq_ok.mpr hx.valid) (hl.validate_eq_ok.mpr hy.valid)
      hx.starFree hy.starFree (by rw [hl.viewAs_eq he, hway]; rfl)
      (by rw [hl.viewAs_eq he, hway]; rfl) (hl.keepsParams_confirms e he _ _ hxs hys hfits)
    obtain ⟨depth, hrun⟩ := hviews
    exact related_of_subtypeWithin hrun

/-- Seeing the types of a name as an ancestor keeps subtyping exactly when the way to the ancestor
has covariant parameters at covariant places only and contravariant ones at contravariant places
only, unless there are no types without wildcards at all. So it does for all names and ancestors
where the declared parents use parameters by their variances. -/
theorem varianceSound_iff {definition : Definition} {h : Hierarchy}
    (hdef : ofDefinition definition = .ok h) :
    (∀ e ∈ h.entries, ∀ ancestor, h.VarianceSound e.name ancestor ↔
      ((∃ t : TypeExpr, h.validate t = .ok () ∧ t.StarFree) →
        ∀ template, e.template? ancestor = some template → h.Respects e.params .co template)) ∧
    (h.VarianceConsistent → ∀ e ∈ h.entries, ∀ ancestor, h.VarianceSound e.name ancestor) := by
  have hl := ofDefinition_linked hdef
  refine ⟨fun e he ancestor => ⟨?_, ?_⟩, fun hvar e he ancestor => ?_⟩
  · rintro hsound ⟨fallback, hvalid, hfree⟩ template hway
    exact hl.respects_of_sound he hsound ⟨hl.validate_eq_ok.mp hvalid, hfree⟩ hway
  · intro hrespects xs ys x y hx hy hxfree hyfree
    exact hl.sound_of_respects he (hrespects ⟨_, hx, hxfree⟩) xs ys x y hx hy hxfree hyfree
  · refine hl.sound_of_respects he fun template hway => ?_
    obtain ⟨above, habove, path, rfl, rfl, -, hpath⟩ := hl.template_path he hway
    exact (hl.respects_app_iff habove).mpr (hl.path_respects hvar hpath habove)

/-- Flipped pairs use their parameters by their variances, so as pairs they keep subtyping. -/
theorem flipped_sound_pair :
    pairHierarchy.VarianceConsistent ∧ pairHierarchy.VarianceSound "flipped" "pair" := by
  have hvar : pairHierarchy.VarianceConsistent := by decide +kernel
  obtain ⟨e, he, hname⟩ : ∃ e ∈ pairHierarchy.entries, e.name = "flipped" := by decide +kernel
  exact ⟨hvar, hname ▸ (varianceSound_iff pair_accepted).2 hvar e he "pair"⟩

end Hierarchy

/-- A tap gives what it holds, but is declared to be a sink, which takes it. -/
def tapDefinition : Definition := .mapping [
  typeEntry "animal" [] [],
  typeEntry "dog" [] ["animal"],
  typeEntry "sink" [("x", .contra)] [],
  typeEntry "tap" [("x", .co)] ["sink[x]"]]

def tapHierarchy : Hierarchy where
  entries := [
    ⟨⟨"animal", [], []⟩, [], [("animal", [[]])], ["dog"], ["dog"]⟩,
    ⟨⟨"dog", [], [⟨"animal", []⟩]⟩, [("animal", [])], [("animal", [[]]), ("dog", [[]])], [], []⟩,
    ⟨⟨"sink", [⟨"x", .contra⟩], []⟩, [], [("sink", [[.slot 0]])], ["tap"], ["tap"]⟩,
    ⟨⟨"tap", [⟨"x", .co⟩], [⟨"sink", [⟨"x", []⟩]⟩]⟩, [("sink", [.slot 0])],
      [("sink", [[.slot 0]]), ("tap", [[.slot 0]])], [], []⟩]
  order := ["animal", "dog", "sink", "tap"]

namespace Hierarchy

/-- A tap of dogs is a tap of animals, but as a sink it is not a sink of animals. -/
theorem tap_not_sound :
    ofDefinition tapDefinition = .ok tapHierarchy ∧
    tapHierarchy.isSubtype ⟨"tap", [⟨"dog", []⟩]⟩ ⟨"tap", [⟨"animal", []⟩]⟩ = .ok true ∧
    tapHierarchy.viewAs ⟨"tap", [⟨"dog", []⟩]⟩ "sink" = .ok (some ⟨"sink", [⟨"dog", []⟩]⟩) ∧
    tapHierarchy.viewAs ⟨"tap", [⟨"animal", []⟩]⟩ "sink" =
      .ok (some ⟨"sink", [⟨"animal", []⟩]⟩) ∧
    tapHierarchy.isSubtype ⟨"sink", [⟨"dog", []⟩]⟩ ⟨"sink", [⟨"animal", []⟩]⟩ = .ok false ∧
    ¬tapHierarchy.VarianceSound "tap" "sink" := by
  have hyes : tapHierarchy.isSubtype ⟨"tap", [⟨"dog", []⟩]⟩ ⟨"tap", [⟨"animal", []⟩]⟩ =
      .ok true := eq_ok_of_toOption (by decide +kernel)
  have hdog : tapHierarchy.viewAs ⟨"tap", [⟨"dog", []⟩]⟩ "sink" =
      .ok (some ⟨"sink", [⟨"dog", []⟩]⟩) := eq_ok_of_toOption (by decide +kernel)
  have hanimal : tapHierarchy.viewAs ⟨"tap", [⟨"animal", []⟩]⟩ "sink" =
      .ok (some ⟨"sink", [⟨"animal", []⟩]⟩) := eq_ok_of_toOption (by decide +kernel)
  have hno : tapHierarchy.isSubtype ⟨"sink", [⟨"dog", []⟩]⟩ ⟨"sink", [⟨"animal", []⟩]⟩ =
      .ok false := eq_ok_of_toOption (by decide +kernel)
  refine ⟨eq_ok_of_toOption (by decide +kernel), hyes, hdog, hanimal, hno, fun hsound => ?_⟩
  obtain ⟨depth, hrun⟩ := hsound _ _ _ _ (eq_ok_of_toOption (by decide +kernel))
    (eq_ok_of_toOption (by decide +kernel)) (by decide +kernel) (by decide +kernel) hdog hanimal
    ⟨_, hyes⟩
  have hyes' : tapHierarchy.Answers (.subtype ⟨"sink", [⟨"dog", []⟩]⟩ ⟨"sink", [⟨"animal", []⟩]⟩)
      true := ⟨depth, hrun⟩
  exact absurd (hyes'.unique ⟨_, hno⟩) (by decide)

end Hierarchy

end TypedBlocks
