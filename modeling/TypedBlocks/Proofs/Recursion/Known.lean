import TypedBlocks.Proofs.Recursion.Step

/-! Known types in the recursion. The questions nested in a question about known types are about
known types again, each of them a part of a given one unless two candidates are compared. -/
namespace TypedBlocks

namespace Call

def types : Call → List TypeExpr
  | .subtype sub sup => [sub, sup]
  | .ancestors types => types
  | .descendants types => types

def compares : Call → Bool
  | .subtype _ _ => true
  | .ancestors _ => false
  | .descendants _ => false

end Call

namespace Hierarchy

variable {h : Hierarchy}

/-- A parameter of the type as one of its ancestors has it, or something inside a parameter. -/
inductive Part (h : Hierarchy) : TypeExpr → TypeExpr → Prop
  | view {e : Entry} {ancestor : Text} {path : List Template} (hpath : h.Path e ancestor path)
      {as : List TypeExpr} (hlen : as.length = e.arity) {x : TypeExpr}
      (hx : x ∈ path.map (Template.fill as)) : Part h ⟨e.name, as⟩ x
  | inner {t p x : TypeExpr} (hp : p ∈ t.params) (hx : x ∈ p.walk) : Part h t x

def PartOf (h : Hierarchy) (types : List TypeExpr) (x : TypeExpr) : Prop :=
  h.Valid x ∧ ∃ t ∈ types, h.Part t x

def HasContra (h : Hierarchy) : Prop :=
  ∃ d ∈ h.decls, ∃ p ∈ d.params, p.variance = .contra

def Known (h : Hierarchy) (call : Call) : Prop :=
  ∀ t ∈ call.types, h.Valid t

def KnownAnswer (h : Hierarchy) : (call : Call) → call.Answer → Prop
  | .subtype _ _, _ => True
  | .ancestors _, types => ∀ t ∈ types, h.Valid t
  | .descendants _, types => ∀ t ∈ types, h.Valid t

/-- The questions about known types that can be nested in a question: parameters are compared in
one direction or the other, candidates are compared, or columns of parameters are combined. -/
inductive Within (h : Hierarchy) : Call → Call → Prop
  | params {a b x y : TypeExpr} (hx : h.Valid x) (hy : h.Valid y) (hax : h.Part a x)
      (hby : y ∈ b.params) : Within h (.subtype a b) (.subtype x y)
  | swapped (hcontra : h.HasContra) {a b x y : TypeExpr} (hx : h.Valid x) (hy : h.Valid y)
      (hax : h.Part a x) (hby : y ∈ b.params) : Within h (.subtype a b) (.subtype y x)
  | candidates {call : Call} (hcall : call.compares = false) {x y : TypeExpr} (hx : h.Valid x)
      (hy : h.Valid y) : Within h call (.subtype x y)
  | column {call call' : Call} (hcall : call.compares = false) (hcall' : call'.compares = false)
      (hne : call.types ≠ []) (hparts : ∀ x ∈ call'.types, h.PartOf call.types x) :
      Within h call call'

theorem Within.known {call call' : Call} (hwithin : h.Within call call') : h.Known call' := by
  cases hwithin with
  | params hx hy => exact List.forall_mem_cons.mpr ⟨hx, List.forall_mem_singleton.mpr hy⟩
  | swapped _ hx hy => exact List.forall_mem_cons.mpr ⟨hy, List.forall_mem_singleton.mpr hx⟩
  | candidates _ hx hy => exact List.forall_mem_cons.mpr ⟨hx, List.forall_mem_singleton.mpr hy⟩
  | column _ _ _ hparts => exact fun t ht => (hparts t ht).1

theorem Valid.mem_walk {t u : TypeExpr} (ht : h.Valid t) (hu : u ∈ t.walk) : h.Valid u := by
  induction ht with
  | wildcard =>
    obtain rfl : u = .wildcard := by simpa [TypeExpr.walk, TypeExpr.wildcard] using hu
    exact .wildcard
  | @app e he params hlen hparams ih =>
    rw [TypeExpr.walk_mk] at hu
    rcases List.mem_cons.mp hu with rfl | hu
    · exact .app he hlen hparams
    · obtain ⟨p, hp, hu⟩ := List.mem_flatMap.mp hu
      exact ih p hp hu

/-- A known type is a wildcard or a declared name applied to known types. -/
theorem Valid.cases_app {t : TypeExpr} (ht : h.Valid t) (hstar : t.isWildcard = false) :
    ∃ e ∈ h.entries, ∃ as : List TypeExpr, t = ⟨e.name, as⟩ ∧ as.length = e.arity ∧
      ∀ a ∈ as, h.Valid a := by
  cases ht with
  | wildcard => exact absurd hstar (by decide)
  | @app e he params hlen hparams => exact ⟨e, he, params, rfl, hlen, hparams⟩

section Steps

variable {P : Call → Prop} {Q : (call : Call) → call.Answer → Prop}
  {relation : TypeExpr → TypeExpr → Inquiry Bool}
  {up down : List TypeExpr → Inquiry (List TypeExpr)}

theorem Linked.compareBy_meets (hl : h.Linked) {a b : TypeExpr} (ha : h.Valid a) (hb : h.Valid b)
    (hrel : ∀ x y, h.Valid x → h.Valid y → h.Part a x → y ∈ b.params →
      (relation x y).Meets P Q (fun _ => True) ∧
      (h.HasContra → (relation y x).Meets P Q fun _ => True)) :
    (h.compareBy relation a b).Meets P Q fun _ => True := by
  unfold compareBy
  split
  · exact Inquiry.meets_pure trivial
  · next hstar =>
    simp only [Bool.or_eq_true, not_or, Bool.not_eq_true] at hstar
    obtain ⟨e, he, as, rfl, hlen, has⟩ := ha.cases_app hstar.1
    obtain ⟨above, habove, bs, rfl, hlen', hbs⟩ := hb.cases_app hstar.2
    apply (Inquiry.meets_liftM (hl.get_eq habove) rfl).bind
    rintro _ rfl
    apply (Inquiry.meets_liftM (hl.allParamsFor_eq he as above.name) rfl).bind
    rintro _ rfl
    apply Inquiry.meets_anyM
    intro view hview
    obtain ⟨path, hpath, rfl⟩ := List.mem_map.mp hview
    have hpath := (hl.mem_paths he).mp hpath
    have hview := (hl.valid_app_iff habove).mp (hl.view_valid hpath habove (.app he hlen has))
    apply fitByVariance_meets
    intro x hx y hy
    obtain ⟨hxy, hyx⟩ := hrel x y (hview.2 x hx) (hbs y hy) (.view hpath hlen hx) hy
    exact ⟨hxy, fun ⟨p, hp, hcontra⟩ =>
      hyx ⟨above.decl, List.mem_map.mpr ⟨above, habove, rfl⟩, p, hp, hcontra⟩⟩

section Heads

variable {types : List TypeExpr} (htypes : ∀ t ∈ types, h.Valid t ∧ t.isWildcard = false)

include htypes

/-- The parameters of a known type as the ancestor has them are parts of the type. -/
theorem Linked.row_above (hl : h.Linked) {t : TypeExpr} (ht : t ∈ types) {above : Entry}
    (habove : above ∈ h.entries) :
    ∃ row, (do return (← h.paramsFor t above.name).getD [] : Except Fault _) = .ok row ∧
      ∀ x ∈ row, h.PartOf types x := by
  obtain ⟨hvalid, hstar⟩ := htypes t ht
  obtain ⟨e, he, as, rfl, hlen, has⟩ := hvalid.cases_app hstar
  rw [hl.paramsFor_eq he]
  refine ⟨_, rfl, fun x hx => ?_⟩
  cases hhead : (e.paths above.name).head? with
  | none => simp [hhead] at hx
  | some path =>
    simp only [hhead, Option.map_some, Option.getD_some] at hx
    have hpath := (hl.mem_paths he).mp (List.mem_of_head? hhead)
    have hview := (hl.valid_app_iff habove).mp (hl.view_valid hpath habove (.app he hlen has))
    exact ⟨hview.2 x hx, _, ht, .view hpath hlen hx⟩

/-- What a known type determines of the parameters of a descendant are parts of the type. -/
theorem Linked.row_below (hl : h.Linked) {t : TypeExpr} (ht : t ∈ types) {below : Entry}
    (hbelow : below ∈ h.entries) :
    ∃ row, (do return (← h.paramsBelow t.name below.name t.params).getD [] : Except Fault _) =
      .ok row ∧ ∀ x, some x ∈ row → h.PartOf types x := by
  obtain ⟨hvalid, hstar⟩ := htypes t ht
  obtain ⟨e, he, as, rfl, hlen, has⟩ := hvalid.cases_app hstar
  refine ⟨((below.paths e.name).head?.map fun path =>
    Template.unfillAll (List.replicate below.arity none) path as).getD [], ?_, fun x hx => ?_⟩
  · simp [paramsBelow, hl.get_eq he, hl.get_eq hbelow]
  · cases hhead : (below.paths e.name).head? with
    | none => simp [hhead] at hx
    | some path =>
      simp only [hhead, Option.map_some, Option.getD_some] at hx
      rcases Template.mem_unfillAll (fun t _ => Template.mem_unfill t) hx with hmem | ⟨a, ha, hwalk⟩
      · simp at hmem
      · exact ⟨(has a ha).mem_walk hwalk, _, ht, .inner ha hwalk⟩

theorem Linked.ancestorsAt_meets (hl : h.Linked) {above : Entry} (habove : above ∈ h.entries)
    (hup : ∀ ts, (∀ t ∈ ts, h.PartOf types t) → (up ts).Meets P Q fun us => ∀ u ∈ us, h.Valid u)
    (hdown : ∀ ts, (∀ t ∈ ts, h.PartOf types t) →
      (down ts).Meets P Q fun us => ∀ u ∈ us, h.Valid u) :
    (h.ancestorsAt up down types above.name).Meets P Q fun us => ∀ u ∈ us, h.Valid u := by
  obtain ⟨rows, hrows, hparts⟩ := mapM_ok fun t ht => hl.row_above htypes (t := t) ht habove
  unfold ancestorsAt
  apply (Inquiry.meets_liftM hrows rfl).bind
  rintro _ rfl
  apply (Inquiry.meets_liftM (hl.get_eq habove) rfl).bind
  rintro _ rfl
  apply (ancestorOptions_meets .wildcard (fun _ ht => ht.1) hup hdown above.params hparts).bind
  intro options hoptions
  cases options with
  | none => exact Inquiry.meets_pure (by simp)
  | some found =>
    refine Inquiry.meets_pure fun u hu => ?_
    obtain ⟨combo, hcombo, rfl⟩ := List.mem_map.mp hu
    obtain ⟨hlen, hvalid⟩ := (hoptions found rfl).choices hcombo
    exact .app habove hlen hvalid

theorem Linked.descendantsAt_meets (hl : h.Linked) {below : Entry} (hbelow : below ∈ h.entries)
    (hrel : ∀ a b, h.Valid a → h.Valid b → (relation a b).Meets P Q fun _ => True)
    (hup : ∀ ts, (∀ t ∈ ts, h.PartOf types t) → (up ts).Meets P Q fun us => ∀ u ∈ us, h.Valid u)
    (hdown : ∀ ts, (∀ t ∈ ts, h.PartOf types t) →
      (down ts).Meets P Q fun us => ∀ u ∈ us, h.Valid u) :
    (h.descendantsAt relation up down types below.name).Meets P Q
      fun us => ∀ u ∈ us, h.Valid u := by
  obtain ⟨rows, hrows, hparts⟩ := mapM_ok fun t ht => hl.row_below htypes (t := t) ht hbelow
  unfold descendantsAt
  apply (Inquiry.meets_liftM hrows rfl).bind
  rintro _ rfl
  apply (Inquiry.meets_liftM (hl.get_eq hbelow) rfl).bind
  rintro _ rfl
  apply (descendantOptions_meets .wildcard (fun _ ht => ht.1) hup hdown below.params hparts).bind
  intro options hoptions
  refine fulfillAll_meets hrel (fun t ht => (htypes t ht).1) fun u hu => ?_
  obtain ⟨combo, hcombo, rfl⟩ := List.mem_map.mp hu
  obtain ⟨hlen, hvalid⟩ := hoptions.choices hcombo
  exact .app hbelow hlen hvalid

theorem Linked.commonAncestorNames_ok (hl : h.Linked) :
    ∃ heads, h.commonAncestorNames (types.map (·.name)) = .ok heads ∧
      ∀ head ∈ heads, ∃ e ∈ h.entries, e.name = head := by
  have hget : ∀ name ∈ types.map (·.name), ∃ e, h.get name = .ok e ∧ e ∈ h.entries := by
    intro name hname
    obtain ⟨t, ht, rfl⟩ := List.mem_map.mp hname
    obtain ⟨e, he, as, rfl, -⟩ := (htypes t ht).1.cases_app (htypes t ht).2
    exact ⟨e, hl.get_eq he, he⟩
  obtain ⟨entries, hentries, -⟩ := mapM_ok hget
  unfold commonAncestorNames
  split
  · exact ⟨[], rfl, by simp⟩
  · refine ⟨_, bind_eq_ok.mpr ⟨entries, hentries, rfl⟩, fun head hhead => ?_⟩
    obtain ⟨e, he, rfl⟩ := List.mem_map.mp hhead
    exact ⟨e, (List.mem_filter.mp (List.mem_filter.mp he).1).1, rfl⟩

end Heads

theorem mem_commonDescendantNames {names : List Text} {head : Text}
    (hhead : head ∈ h.commonDescendantNames names) : ∃ e ∈ h.entries, e.name = head := by
  unfold commonDescendantNames at hhead
  split at hhead
  · simp at hhead
  · obtain ⟨e, he, rfl⟩ := List.mem_map.mp hhead
    exact ⟨e, (List.mem_filter.mp (List.mem_filter.mp he).1).1, rfl⟩

theorem concrete_valid {types : List TypeExpr} (htypes : ∀ t ∈ types, h.Valid t) :
    ∀ t ∈ types.filter (!·.isWildcard), h.Valid t ∧ t.isWildcard = false := by
  intro t ht
  obtain ⟨hmem, hstar⟩ := List.mem_filter.mp ht
  exact ⟨htypes t hmem, by simpa using hstar⟩

theorem PartOf.of_filter {p : TypeExpr → Bool} {types : List TypeExpr} {x : TypeExpr}
    (hx : h.PartOf (types.filter p) x) : h.PartOf types x := by
  obtain ⟨hvalid, t, ht, hpart⟩ := hx
  exact ⟨hvalid, t, (List.mem_filter.mp ht).1, hpart⟩

/-- The nearest of all that was found for the heads. -/
theorem nearest_meets
    (hrel : ∀ a b, h.Valid a → h.Valid b → (relation a b).Meets P Q fun _ => True)
    {search : Inquiry (List (List TypeExpr))}
    (hsearch : search.Meets P Q fun found => ∀ us ∈ found, ∀ u ∈ us, h.Valid u) :
    (search >>= fun found => keepNearest relation found.flatten.eraseDups).Meets P Q
      fun us => ∀ u ∈ us, h.Valid u := by
  apply hsearch.bind
  intro found hfound
  refine keepNearest_meets hrel fun u hu => ?_
  obtain ⟨us, hus, hu⟩ := List.mem_flatten.mp (List.mem_eraseDups.mp hu)
  exact hfound us hus u hu

section Nearest

variable {types : List TypeExpr} (htypes : ∀ t ∈ types, h.Valid t)
  (hrel : ∀ a b, h.Valid a → h.Valid b → (relation a b).Meets P Q fun _ => True)
  (hup : ∀ ts, types ≠ [] → (∀ t ∈ ts, h.PartOf types t) →
    (up ts).Meets P Q fun us => ∀ u ∈ us, h.Valid u)
  (hdown : ∀ ts, types ≠ [] → (∀ t ∈ ts, h.PartOf types t) →
    (down ts).Meets P Q fun us => ∀ u ∈ us, h.Valid u)

include htypes hrel hup hdown

theorem Linked.ancestorsBy_meets (hl : h.Linked) :
    (h.ancestorsBy relation up down types).Meets P Q fun us => ∀ u ∈ us, h.Valid u := by
  have hconcrete := concrete_valid htypes
  unfold ancestorsBy
  split
  · exact Inquiry.meets_pure (by simp)
  · next hempty =>
    have hne : types ≠ [] := by simpa using hempty
    split
    · exact Inquiry.meets_pure (by simpa using Valid.wildcard)
    · next t hone =>
      refine Inquiry.meets_pure fun u hu => (hconcrete u ?_).1
      rwa [hone]
    · obtain ⟨heads, hheads, hentry⟩ := hl.commonAncestorNames_ok hconcrete
      apply (Inquiry.meets_liftM hheads rfl).bind
      rintro _ rfl
      refine nearest_meets hrel (Inquiry.meets_mapM fun head hhead => ?_)
      obtain ⟨above, habove, rfl⟩ := hentry head hhead
      exact hl.ancestorsAt_meets hconcrete habove
        (fun ts hts => hup ts hne fun t ht => (hts t ht).of_filter)
        (fun ts hts => hdown ts hne fun t ht => (hts t ht).of_filter)

theorem Linked.descendantsBy_meets (hl : h.Linked) :
    (h.descendantsBy relation up down types).Meets P Q fun us => ∀ u ∈ us, h.Valid u := by
  have hconcrete := concrete_valid htypes
  unfold descendantsBy
  split
  · exact Inquiry.meets_pure (by simp)
  · next hempty =>
    have hne : types ≠ [] := by simpa using hempty
    split
    · exact Inquiry.meets_pure (by simpa using Valid.wildcard)
    · next t hone =>
      refine Inquiry.meets_pure fun u hu => (hconcrete u ?_).1
      rwa [hone]
    · refine nearest_meets (fun a b ha hb => hrel b a hb ha)
        (Inquiry.meets_mapM fun head hhead => ?_)
      obtain ⟨below, hbelow, rfl⟩ := mem_commonDescendantNames hhead
      exact hl.descendantsAt_meets hconcrete hbelow hrel
        (fun ts hts => hup ts hne fun t ht => (hts t ht).of_filter)
        (fun ts hts => hdown ts hne fun t ht => (hts t ht).of_filter)

end Nearest

end Steps

/-- A step on known types does not fail, asks about known types inside the given ones, and answers
in known types. -/
theorem Linked.inquire_meets (hl : h.Linked) {call : Call} (hcall : h.Known call) :
    (h.inquire call).Meets (h.Within call) h.KnownAnswer (h.KnownAnswer call) := by
  cases call with
  | subtype a b =>
    apply hl.compareBy_meets (hcall a (by simp [Call.types])) (hcall b (by simp [Call.types]))
    intro x y hx hy hax hby
    exact ⟨Inquiry.meets_put (.subtype x y) (.params hx hy hax hby),
      fun hcontra => Inquiry.meets_put (.subtype y x) (.swapped hcontra hx hy hax hby)⟩
  | ancestors types =>
    apply hl.ancestorsBy_meets hcall
    · intro a b ha hb
      exact Inquiry.meets_put (.subtype a b) (.candidates rfl ha hb)
    · intro ts hne hts
      exact Inquiry.meets_put (.ancestors ts) (.column rfl rfl hne hts)
    · intro ts hne hts
      exact Inquiry.meets_put (.descendants ts) (.column rfl rfl hne hts)
  | descendants types =>
    apply hl.descendantsBy_meets hcall
    · intro a b ha hb
      exact Inquiry.meets_put (.subtype a b) (.candidates rfl ha hb)
    · intro ts hne hts
      exact Inquiry.meets_put (.ancestors ts) (.column rfl rfl hne hts)
    · intro ts hne hts
      exact Inquiry.meets_put (.descendants ts) (.column rfl rfl hne hts)

theorem Linked.inquire_known (hl : h.Linked) (call : Call) (hcall : h.Known call) :
    (h.inquire call).Meets h.Known h.KnownAnswer (h.KnownAnswer call) :=
  (hl.inquire_meets hcall).imp (fun _ => Within.known) fun _ ha => ha

/-- The calls nested in a call on known types are among those that can be. -/
theorem Linked.within_of_nests (hl : h.Linked) {call call' : Call} (hcall : h.Known call)
    (hnests : h.Nests call call') : h.Within call call' :=
  (hl.inquire_meets hcall).puts
    (fun _ _ hwithin ha => answers_of_step hl.inquire_known hwithin.known ha) hnests

end Hierarchy

end TypedBlocks
