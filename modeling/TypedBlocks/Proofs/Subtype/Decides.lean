import TypedBlocks.Proofs.Subtype.Relation

/-! A comparison that comes to an end decides subtyping along declared parents. -/
namespace TypedBlocks

open Json (Value)

variable {relation : TypeExpr → TypeExpr → Except Fault Bool} {p : Param} {params : List Param}
  {a b : TypeExpr} {as bs : List TypeExpr}

theorem fits_cons {R : TypeExpr → TypeExpr → Prop} :
    Fits R (p :: params) (a :: as) (b :: bs) ↔ FitsAt R p.variance a b ∧ Fits R params as bs := by
  constructor
  · intro h
    exact ⟨h 0 p a b rfl rfl rfl, fun i => h (i + 1)⟩
  · rintro ⟨hfirst, hrest⟩ i q x y hq hx hy
    cases i with
    | zero =>
      obtain rfl := Option.some.inj hq
      obtain rfl := Option.some.inj hx
      obtain rfl := Option.some.inj hy
      exact hfirst
    | succ i => exact hrest i q x y hq hx hy

/-- The question that the comparison of one position comes to. -/
theorem fitByVariance_cons :
    fitByVariance relation (p :: params) (a :: as) (b :: bs) =
      (match p.variance with
        | .co => relation a b
        | .contra => relation b a
        | .inv => .ok (a.agrees b)) >>= fun fits =>
        if fits then fitByVariance relation params as bs else .ok false := by
  rw [fitByVariance]
  cases p.variance <;> rfl

/-- A position that fits leaves the question to the positions after it. -/
theorem fitByVariance_cons_of_fitsAt
    (h : FitsAt (fun a b => relation a b = .ok true) p.variance a b) :
    fitByVariance relation (p :: params) (a :: as) (b :: bs) =
      fitByVariance relation params as bs := by
  rw [fitByVariance_cons]
  cases hv : p.variance with
  | co =>
    rw [hv] at h
    exact congrArg (· >>= _) h
  | contra =>
    rw [hv] at h
    exact congrArg (· >>= _) h
  | inv =>
    rw [hv] at h
    exact congrArg (fun fits => Except.ok fits >>= _) h

/-- If every position fits, so do the parameters. -/
theorem fitByVariance_eq_true (h : Fits (fun a b => relation a b = .ok true) params as bs) :
    fitByVariance relation params as bs = .ok true := by
  induction params generalizing as bs with
  | nil => rfl
  | cons p params ih =>
    cases as with
    | nil => rfl
    | cons a as =>
      cases bs with
      | nil => rfl
      | cons b bs =>
        obtain ⟨hfirst, hrest⟩ := fits_cons.mp h
        rw [fitByVariance_cons_of_fitsAt hfirst]
        exact ih hrest

theorem fits_of_fitByVariance (h : fitByVariance relation params as bs = .ok true) :
    Fits (fun a b => relation a b = .ok true) params as bs := by
  induction params generalizing as bs with
  | nil => intro i p a b hp; simp at hp
  | cons p params ih =>
    cases as with
    | nil => intro i p a b _ ha; simp at ha
    | cons a as =>
      cases bs with
      | nil => intro i p a b _ _ hb; simp at hb
      | cons b bs =>
        rw [fitByVariance_cons, bind_eq_ok] at h
        obtain ⟨fits, hfirst, hrest⟩ := h
        cases fits with
        | false => simp at hrest
        | true =>
          refine fits_cons.mpr ⟨?_, ih (by simpa using hrest)⟩
          cases hv : p.variance <;> simp_all [FitsAt]

/-- If no position fails, the parameters are not found to differ. -/
theorem fitByVariance_ne_false
    (h : Fits (fun a b => relation a b ≠ .ok false) params as bs) :
    fitByVariance relation params as bs ≠ .ok false := by
  induction params generalizing as bs with
  | nil => simp [fitByVariance, pure, Except.pure]
  | cons p params ih =>
    cases as with
    | nil => simp [fitByVariance, pure, Except.pure]
    | cons a as =>
      cases bs with
      | nil => simp [fitByVariance, pure, Except.pure]
      | cons b bs =>
        obtain ⟨hfirst, hrest⟩ := fits_cons.mp h
        rw [fitByVariance_cons]
        intro hfalse
        obtain ⟨fits, heq, hfalse⟩ := bind_eq_ok.mp hfalse
        cases fits with
        | true => exact ih hrest (by simpa using hfalse)
        | false => cases hv : p.variance <;> simp_all [FitsAt]

namespace Hierarchy

variable {h : Hierarchy}

/-- What a comparison that returns has done. -/
theorem subtypeWithin_succ {depth : Nat} {a b : TypeExpr} {answer : Bool}
    (hrun : h.subtypeWithin (depth + 1) a b = .ok answer) :
    ((a.isWildcard = true ∨ b.isWildcard = true) ∧ answer = true) ∨
      ∃ e ∈ h.entries, ∃ above ∈ h.entries, e.name = a.name ∧ above.name = b.name ∧
        ((e.paths above.name).map (Template.fillAll a.params)).anyM
          (fun params => fitByVariance (h.subtypeWithin depth) above.params params b.params) =
          .ok answer := by
  change (if (a.isWildcard || b.isWildcard) = true then Except.ok true else _) = _ at hrun
  split at hrun
  · next hw =>
    obtain rfl := Except.ok.inj hrun
    exact .inl ⟨by simpa using hw, rfl⟩
  · obtain ⟨above, hget, hrun⟩ := bind_eq_ok.mp hrun
    obtain ⟨habove, hname⟩ := get_eq_ok hget
    obtain ⟨views, hviews, hrun⟩ := bind_eq_ok.mp hrun
    obtain ⟨e, hget', hviews⟩ := bind_eq_ok.mp hviews
    obtain ⟨he, hname'⟩ := get_eq_ok hget'
    obtain rfl := pure_eq_ok.mp hviews
    exact .inr ⟨e, he, above, habove, hname', hname, hname ▸ hrun⟩

/-- A comparison that says yes has found a derivation. -/
theorem related_of_subtypeWithin {depth : Nat} {a b : TypeExpr}
    (hrun : h.subtypeWithin depth a b = .ok true) : h.Related a b := by
  induction depth generalizing a b with
  | zero => simp [subtypeWithin] at hrun
  | succ depth ih =>
    obtain ⟨name, as⟩ := a
    obtain ⟨name', bs⟩ := b
    rcases subtypeWithin_succ hrun with ⟨hw, -⟩ | ⟨e, he, above, habove, rfl, rfl, hany⟩
    · exact .wildcard hw
    · obtain ⟨view, hview, hfit⟩ := anyM_eq_ok_true hany
      obtain ⟨path, hpath, rfl⟩ := List.mem_map.mp hview
      rw [Template.fillAll_eq_map] at hfit
      exact .of_fits he habove hpath
        ((fits_of_fitByVariance hfit).imp fun _ _ _ _ => ⟨ih, ih⟩)

/-- Where there is a derivation no comparison says no. -/
theorem Linked.subtypeWithin_ne_false (hl : h.Linked) {a b : TypeExpr} (hab : h.Related a b)
    (depth : Nat) : h.subtypeWithin depth a b ≠ .ok false := by
  induction hab using Related.byViews generalizing depth with
  | wildcard a b _ hw =>
    cases depth with
    | zero => simp [subtypeWithin]
    | succ depth =>
      have hw' : (a.isWildcard || b.isWildcard) = true := by simpa using hw
      simp [subtypeWithin, compareBy, hw', pure, Except.pure]
  | view e above he habove path hpath as bs _ hfits =>
    cases depth with
    | zero => simp [subtypeWithin]
    | succ depth =>
      intro hrun
      rcases subtypeWithin_succ hrun with ⟨-, hfalse⟩ | ⟨e', he', above', habove', hn, hn', hany⟩
      · simp at hfalse
      · obtain rfl := hl.entry_unique he' he hn
        obtain rfl := hl.entry_unique habove' habove hn'
        have hview := anyM_eq_ok_false.mp hany _ (List.mem_map.mpr ⟨path, hpath, rfl⟩)
        rw [Template.fillAll_eq_map] at hview
        exact fitByVariance_ne_false
          (hfits.imp fun _ _ _ _ => ⟨fun hr => hr.2 depth, fun hr => hr.2 depth⟩) hview

theorem Linked.subtypeWithin_iff_related (hl : h.Linked) {depth : Nat} {a b : TypeExpr}
    {answer : Bool} (hrun : h.subtypeWithin depth a b = .ok answer) :
    answer = true ↔ h.Related a b := by
  constructor
  · rintro rfl
    exact related_of_subtypeWithin hrun
  · intro hab
    cases answer with
    | true => rfl
    | false => exact absurd hrun (hl.subtypeWithin_ne_false hab depth)

theorem decl_mem_decls {e : Entry} (he : e ∈ h.entries) : e.decl ∈ h.decls :=
  List.mem_map.mpr ⟨e, he, rfl⟩

/-- What an ancestor is below, a type that sees itself as that ancestor is below. -/
theorem Linked.derives_of_path (hl : h.Linked) {e : Entry} {ancestor : Text}
    {path : List Template} (hp : h.Path e ancestor path) {as : List TypeExpr} {b : TypeExpr}
    (hlen : as.length = e.arity)
    (hab : Derives h.decls ⟨ancestor, path.map (Template.fill as)⟩ b) :
    Derives h.decls ⟨e.name, as⟩ b := by
  induction hp generalizing as with
  | self he => rwa [← hlen, Template.map_fill_slots] at hab
  | @step e p he args hedge ancestor path hpath ih =>
    obtain ⟨parent, hparent, hisEdge⟩ := hl.parent_of_edge he hedge
    obtain ⟨p', hp', hname, hargs⟩ := hisEdge.target
    obtain rfl := hl.entry_unique hp' hpath.mem hname
    rw [hl.fill_step hpath hargs] at hab
    refine Derives.parent (decl_mem_decls he) hparent ?_
    rw [← hisEdge.fill as hlen]
    exact ih (by simpa using hargs) hab

/-- Of known types, the relation through kept ways is contained in the one along parents. -/
theorem Linked.derives_of_related (hl : h.Linked) {a b : TypeExpr} (hab : h.Related a b)
    (ha : h.Valid a) (hb : h.Valid b) : Derives h.decls a b := by
  induction hab using Related.byViews with
  | wildcard a b _ hw => exact .wildcard hw
  | view e above he habove path hpath as bs _ hfits =>
    have hpath := (hl.mem_paths he).mp hpath
    have hview := (hl.valid_app_iff habove).mp (hl.view_valid hpath habove ha)
    have hbs := (hl.valid_app_iff habove).mp hb
    apply hl.derives_of_path hpath ((hl.valid_app_iff he).mp ha).1
    apply Derives.of_fits (decl_mem_decls habove)
    apply hfits.imp
    intro x hx y hy
    exact ⟨fun ⟨_, ih⟩ => ih (hview.2 x hx) (hbs.2 y hy),
      fun ⟨_, ih⟩ => ih (hbs.2 y hy) (hview.2 x hx)⟩

/-- What a parent is related to, the type that declares it is related to. -/
theorem Linked.related_of_edge (hl : h.Linked) {e p : Entry} (he : e ∈ h.entries)
    (hp : p ∈ h.entries) {args : List Template} (hedge : (p.name, args) ∈ e.edges)
    (hargs : args.length = p.arity) {as : List TypeExpr} {b : TypeExpr}
    (hab : h.Related ⟨p.name, args.map (Template.fill as)⟩ b) : h.Related ⟨e.name, as⟩ b := by
  generalize ha : TypeExpr.mk p.name (args.map (Template.fill as)) = a at hab
  induction hab using Related.byViews with
  | wildcard a b _ hw =>
    subst ha
    rw [hl.app_not_wildcard hp] at hw
    exact .wildcard (.inr (by simpa using hw))
  | view p' above hp' habove path hpath as' bs _ hfits =>
    obtain ⟨hname, rfl⟩ := TypeExpr.mk.inj ha
    obtain rfl := hl.entry_unique hp hp' hname
    have hpath := (hl.mem_paths hp).mp hpath
    refine .of_fits he habove ((hl.mem_paths he).mpr (.step he hedge hpath)) ?_
    rw [hl.fill_step hpath hargs]
    exact hfits.imp fun _ _ _ _ => ⟨fun ⟨hr, _⟩ => hr, fun ⟨hr, _⟩ => hr⟩

theorem Linked.related_of_derives (hl : h.Linked) {a b : TypeExpr} (hab : Derives h.decls a b)
    (ha : h.Valid a) (hb : h.Valid b) : h.Related a b := by
  induction hab with
  | wildcard hw => exact .wildcard hw
  | @params d hd as bs co contra inv ihco ihcontra =>
    obtain ⟨e, he, rfl⟩ := List.mem_map.mp hd
    have has := (hl.valid_app_iff he).mp ha
    have hbs := (hl.valid_app_iff he).mp hb
    refine .of_fits he he ((hl.mem_paths he).mpr (.self he)) ?_
    rw [← has.1, Template.map_fill_slots]
    intro i p x y hp hx hy
    have hx' := has.2 x (List.mem_of_getElem? hx)
    have hy' := hbs.2 y (List.mem_of_getElem? hy)
    cases hv : p.variance with
    | co => exact ihco i p x y hp hx hy hv hx' hy'
    | contra => exact ihcontra i p x y hp hx hy hv hy' hx'
    | inv => exact inv i p x y hp hx hy hv
  | @parent d hd parent hparent as b hderives ih =>
    obtain ⟨e, he, rfl⟩ := List.mem_map.mp hd
    obtain ⟨⟨name, args⟩, hedge, hisEdge⟩ := hl.edge_of_parent he hparent
    obtain ⟨p, hp, rfl, hargs⟩ := hisEdge.target
    have hrel := ih (hl.instantiate_valid he hisEdge ha) hb
    rw [← hisEdge.fill as ((hl.valid_app_iff he).mp ha).1] at hrel
    exact hl.related_of_edge he hp hedge hargs hrel

theorem Linked.related_iff_derives (hl : h.Linked) {a b : TypeExpr} (ha : h.Valid a)
    (hb : h.Valid b) : h.Related a b ↔ Derives h.decls a b :=
  ⟨fun hab => hl.derives_of_related hab ha hb, fun hab => hl.related_of_derives hab ha hb⟩

/-- Every comparison of known types that comes to an end, whatever depth it is allowed, says yes
exactly when the declared parents, walked one at a time, lead from the one type to the other. -/
theorem subtype_iff_derives {definition : Definition} {h : Hierarchy}
    (hdef : ofDefinition definition = .ok h) {sub sup : TypeExpr} (hsub : h.validate sub = .ok ())
    (hsup : h.validate sup = .ok ()) :
    (∀ depth answer, h.subtypeWithin depth sub sup = .ok answer →
      (answer = true ↔ Derives h.decls sub sup)) ∧
    (∀ answer, h.isSubtype sub sup = .ok answer → (answer = true ↔ Derives h.decls sub sup)) := by
  have hl := ofDefinition_linked hdef
  rw [hl.validate_eq_ok] at hsub hsup
  have hdecides (depth : Nat) (answer : Bool) (hrun : h.subtypeWithin depth sub sup = .ok answer) :
      answer = true ↔ Derives h.decls sub sup :=
    (hl.subtypeWithin_iff_related hrun).trans (hl.related_iff_derives hsub hsup)
  exact ⟨hdecides, hdecides _⟩

end Hierarchy

def typeEntry (name : String) (params : List (String × Variance))
    (parents : List String) : Value × Value :=
  (.text name, .object [
    ("params", .list (params.map fun (p, v) =>
      .object [("name", .text p), ("variance", .text v.name)])),
    ("fulfills", .list (parents.map fun parent => .text parent))])

/-- Pairs that read in one direction and write in the other, and pairs the other way round. -/
def pairDefinition : Definition := .mapping [
  typeEntry "animal" [] [],
  typeEntry "dog" [] ["animal"],
  typeEntry "pair" [("a", .co), ("b", .contra)] [],
  typeEntry "flipped" [("x", .contra), ("y", .co)] ["pair[y, x]"]]

def pairHierarchy : Hierarchy where
  entries := [
    ⟨⟨"animal", [], []⟩, [], [("animal", [[]])], ["dog"], ["dog"]⟩,
    ⟨⟨"dog", [], [⟨"animal", []⟩]⟩, [("animal", [])], [("animal", [[]]), ("dog", [[]])], [], []⟩,
    ⟨⟨"pair", [⟨"a", .co⟩, ⟨"b", .contra⟩], []⟩, [], [("pair", [[.slot 0, .slot 1]])],
      ["flipped"], ["flipped"]⟩,
    ⟨⟨"flipped", [⟨"x", .contra⟩, ⟨"y", .co⟩], [⟨"pair", [⟨"y", []⟩, ⟨"x", []⟩]⟩]⟩,
      [("pair", [.slot 1, .slot 0])],
      [("pair", [[.slot 1, .slot 0]]), ("flipped", [[.slot 0, .slot 1]])], [], []⟩]
  order := ["animal", "dog", "pair", "flipped"]

namespace Hierarchy

theorem pair_accepted : ofDefinition pairDefinition = .ok pairHierarchy :=
  eq_ok_of_toOption (by decide +kernel)

/-- Seen as a pair, a flipped pair has its parameters the other way round. -/
theorem flipped_derives_pair :
    ofDefinition pairDefinition = .ok pairHierarchy ∧
    pairHierarchy.isSubtype ⟨"flipped", [⟨"animal", []⟩, ⟨"dog", []⟩]⟩
      ⟨"pair", [⟨"animal", []⟩, ⟨"dog", []⟩]⟩ = .ok true ∧
    Derives pairHierarchy.decls ⟨"flipped", [⟨"animal", []⟩, ⟨"dog", []⟩]⟩
      ⟨"pair", [⟨"animal", []⟩, ⟨"dog", []⟩]⟩ := by
  have hrun : pairHierarchy.isSubtype ⟨"flipped", [⟨"animal", []⟩, ⟨"dog", []⟩]⟩
      ⟨"pair", [⟨"animal", []⟩, ⟨"dog", []⟩]⟩ = .ok true :=
    eq_ok_of_toOption (by decide +kernel)
  have hdecides := (subtype_iff_derives pair_accepted (eq_ok_of_toOption (by decide +kernel))
    (eq_ok_of_toOption (by decide +kernel))).2 true hrun
  exact ⟨pair_accepted, hrun, hdecides.mp rfl⟩

end Hierarchy

end TypedBlocks
