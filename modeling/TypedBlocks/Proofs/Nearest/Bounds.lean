import TypedBlocks.Proofs.Nearest.Found
import TypedBlocks.Proofs.Recursion.Ends
import TypedBlocks.Proofs.Subtype.Confirm

/-! The nearest common ancestors of types are above all of them, and the nearest common descendants
below all of them. Candidates above are never compared with the given types: they fit because each
position is an upper or a lower bound of its column. -/
namespace TypedBlocks

namespace TypeExpr

theorem agrees_of_wildcard {a b : TypeExpr} (hw : a.isWildcard = true ∨ b.isWildcard = true) :
    a.agrees b = true := by
  obtain ⟨name, params⟩ := a
  obtain ⟨name', params'⟩ := b
  rcases hw with hw | hw <;> simp [agrees, hw]

end TypeExpr

namespace Hierarchy

variable {h : Hierarchy}

theorem confirms_of_wildcard {a b : TypeExpr} (hw : a.isWildcard = true ∨ b.isWildcard = true) :
    h.Confirms a b :=
  ⟨1, subtypeWithin_of_wildcard hw⟩

/-- A known type is found to be below itself, with or without wildcards. -/
theorem Linked.confirms_refl (hl : h.Linked) {t : TypeExpr} (ht : h.Valid t) :
    h.Confirms t t := by
  induction ht with
  | wildcard => exact confirms_of_wildcard (.inl rfl)
  | @app e he params hlen _ ih =>
    refine hl.confirms_of_first he he (hl.first_self he) ?_
    rw [← hlen, Template.map_fill_slots]
    exact fits_refl e.params ih

/-- Comparisons that come to an end agree with one that says yes. -/
theorem Confirms.answer {a b : TypeExpr} (hab : h.Confirms a b) {depth : Nat} {answer : Bool}
    (hrun : h.subtypeWithin depth a b = .ok answer) : answer = true := by
  obtain ⟨depth', hrun'⟩ := hab
  have hans : h.Answers (.subtype a b) answer := ⟨depth, hrun⟩
  exact hans.unique ⟨depth', hrun'⟩

theorem Linked.first_of_below (hl : h.Linked) {e : Entry} (he : e ∈ h.entries) {upper : Text}
    (hbelow : h.Below e.name upper) :
    ∃ path, (e.paths upper).head? = some path ∧ h.Path e upper path := by
  obtain ⟨path, hpath⟩ := hl.path_of_below he hbelow
  obtain ⟨first, rest, hpaths⟩ := List.exists_cons_of_ne_nil
    (List.ne_nil_of_mem ((hl.mem_paths he).mpr hpath))
  refine ⟨first, by rw [hpaths]; rfl, (hl.mem_paths he).mp ?_⟩
  rw [hpaths]
  exact List.mem_cons_self

/-- The parameters of a type seen as an ancestor are those along the first path. -/
theorem Linked.paramsFor_eq_some (hl : h.Linked) {e : Entry} (he : e ∈ h.entries)
    {as row : List TypeExpr} {upper : Text} :
    h.paramsFor ⟨e.name, as⟩ upper = .ok (some row) ↔
      ∃ path, (e.paths upper).head? = some path ∧ row = path.map (Template.fill as) := by
  simp only [hl.paramsFor_eq he, Except.ok.injEq, Option.map_eq_some_iff, eq_comm (a := row)]

/-- What known types have at a position of an ancestor is known. -/
theorem Linked.columnAbove_valid (hl : h.Linked) {types : List TypeExpr}
    (htypes : ∀ t ∈ types, h.Valid t ∧ t.isWildcard = false) {above : Entry}
    (habove : above ∈ h.entries) (i : Nat) {x : TypeExpr}
    (hx : x ∈ h.columnAbove types above.name i) : h.Valid x := by
  obtain ⟨t, ht, row, hrow, hget⟩ := mem_columnAbove.mp hx
  obtain ⟨hvalid, hstar⟩ := htypes t ht
  obtain ⟨e, he, as, rfl, hlen, has⟩ := hvalid.cases_app hstar
  obtain ⟨path, hfirst, rfl⟩ := (hl.paramsFor_eq_some he).mp hrow
  have hpath := (hl.mem_paths he).mp (List.mem_of_head? hfirst)
  exact ((hl.valid_app_iff habove).mp (hl.view_valid hpath habove hvalid)).2 x
    (List.mem_of_getElem? hget)

/-- The option of an invariant position agrees with its whole column. -/
theorem agrees_of_mem_agreedOption {column : List TypeExpr} {a x : TypeExpr}
    (hx : x ∈ agreedOption column) (ha : a ∈ column) : a.agrees x = true := by
  cases hstar : a.isWildcard with
  | true => exact TypeExpr.agrees_of_wildcard (.inl hstar)
  | false =>
    have hmem : a ∈ column.filter (!·.isWildcard) := List.mem_filter.mpr ⟨ha, by simp [hstar]⟩
    unfold agreedOption at hx
    split at hx
    · next hnone => simp [hnone] at hmem
    · next t ts hsome =>
      rw [hsome] at hmem
      dsimp only at hx
      split at hx
      · next hall =>
        obtain rfl := List.mem_singleton.mp hx
        rw [TypeExpr.agrees_comm]
        exact List.all_eq_true.mp hall a hmem
      · simp at hx

/-- What a search must do with known types: all that it finds is above each of them. -/
def FindsAbove (h : Hierarchy) (search : List TypeExpr → Except Fault (List TypeExpr)) : Prop :=
  ∀ types found, (∀ t ∈ types, h.Valid t) → search types = .ok found →
    ∀ r ∈ found, ∀ t ∈ types, h.Confirms t r

def FindsBelow (h : Hierarchy) (search : List TypeExpr → Except Fault (List TypeExpr)) : Prop :=
  ∀ types found, (∀ t ∈ types, h.Valid t) → search types = .ok found →
    ∀ r ∈ found, ∀ t ∈ types, h.Confirms r t

section Step

variable {relation : TypeExpr → TypeExpr → Except Fault Bool}
  {up down : List TypeExpr → Except Fault (List TypeExpr)}

theorem ancestorPosition_fits (hup : h.FindsAbove up) (hdown : h.FindsBelow down) {v : Variance}
    {column options : List TypeExpr} (hcolumn : ∀ a ∈ column, h.Valid a)
    (hrun : ancestorPosition up down v column = .ok options) {a x : TypeExpr} (ha : a ∈ column)
    (hx : x ∈ options) : FitsAt h.Confirms v a x := by
  cases v with
  | co => exact hup column options hcolumn hrun x hx a ha
  | contra => exact hdown column options hcolumn hrun x hx a ha
  | inv =>
    obtain rfl := pure_eq_ok.mp hrun
    exact agrees_of_mem_agreedOption hx ha

/-- A combination of options is above each type that sees itself as the head. -/
theorem Linked.confirms_combo (hl : h.Linked) (hup : h.FindsAbove up) (hdown : h.FindsBelow down)
    {types : List TypeExpr} (htypes : ∀ t ∈ types, h.Valid t ∧ t.isWildcard = false)
    {above : Entry} (habove : above ∈ h.entries) {combo : List TypeExpr}
    (hcombo : Combines (ancestorPosition up down) above.params
      (h.columnAbove types above.name) combo) {t : TypeExpr} (ht : t ∈ types)
    (hbelow : h.Below t.name above.name) : h.Confirms t ⟨above.name, combo⟩ := by
  obtain ⟨hvalid, hstar⟩ := htypes t ht
  obtain ⟨e, he, as, rfl, hlen, has⟩ := hvalid.cases_app hstar
  obtain ⟨path, hfirst, hpath⟩ := hl.first_of_below he hbelow
  refine hl.confirms_of_first he habove hfirst fun i p a x hp ha hx => ?_
  obtain ⟨options, hoptions, hmem⟩ := hcombo.2 i p x hp hx
  have hcolumn : a ∈ h.columnAbove types above.name i :=
    mem_columnAbove.mpr ⟨_, ht, _, (hl.paramsFor_eq_some he).mpr ⟨path, hfirst, rfl⟩, ha⟩
  exact ancestorPosition_fits hup hdown (fun b hb => hl.columnAbove_valid htypes habove i hb)
    hoptions hcolumn hmem

theorem Linked.ancestorsBy_findsAbove (hl : h.Linked) (hup : h.FindsAbove up)
    (hdown : h.FindsBelow down) : h.FindsAbove (h.ancestorsBy relation up down) := by
  intro types found htypes hrun r hr t ht
  cases hstar : t.isWildcard with
  | true => exact confirms_of_wildcard (.inl hstar)
  | false =>
    have hconcrete := concrete_valid htypes
    have hmem : t ∈ types.filter (!·.isWildcard) := List.mem_filter.mpr ⟨ht, by simp [hstar]⟩
    rcases ancestorsBy_cases hrun with ⟨rfl, rfl⟩ | ⟨hnone, rfl⟩ | ⟨u, hone, rfl⟩ |
      ⟨heads, lists, hheads, hlists, hkeep⟩
    · exact absurd ht List.not_mem_nil
    · simp [hnone] at hmem
    · rw [hone] at hmem
      obtain rfl := List.mem_singleton.mp hr
      obtain rfl := List.mem_singleton.mp hmem
      exact hl.confirms_refl (htypes t ht)
    · obtain ⟨head, hhead, found', hat, hr⟩ :=
        (mem_candidates hlists).mp (mem_of_keepNearest hkeep hr)
      obtain ⟨-, hbelow, -⟩ := (hl.commonAncestorNames_iff hheads).mp hhead
      have hbelow := hbelow t.name (List.mem_map.mpr ⟨t, hmem, rfl⟩)
      obtain ⟨above, habove, rfl⟩ := hl.below_declared hbelow
      obtain ⟨combo, rfl, hcombo⟩ := (hl.mem_ancestorsAt habove hat).mp hr
      exact hl.confirms_combo hup hdown hconcrete habove hcombo hmem hbelow

/-- Candidates below have been compared with every given type. -/
theorem Linked.descendantsBy_findsBelow (hl : h.Linked)
    (hrelation : ∀ a b, relation a b = .ok true → h.Confirms a b) :
    h.FindsBelow (h.descendantsBy relation up down) := by
  intro types found htypes hrun r hr t ht
  cases hstar : t.isWildcard with
  | true => exact confirms_of_wildcard (.inr hstar)
  | false =>
    have hmem : t ∈ types.filter (!·.isWildcard) := List.mem_filter.mpr ⟨ht, by simp [hstar]⟩
    rcases descendantsBy_cases hrun with ⟨rfl, rfl⟩ | ⟨hnone, rfl⟩ | ⟨u, hone, rfl⟩ |
      ⟨lists, hlists, hkeep⟩
    · exact absurd ht List.not_mem_nil
    · simp [hnone] at hmem
    · rw [hone] at hmem
      obtain rfl := List.mem_singleton.mp hr
      obtain rfl := List.mem_singleton.mp hmem
      exact hl.confirms_refl (htypes t ht)
    · obtain ⟨head, hhead, found', hat, hr⟩ :=
        (mem_candidates hlists).mp (mem_of_keepNearest hkeep hr)
      obtain ⟨below, hbelow, rfl⟩ := mem_commonDescendantNames hhead
      exact hrelation r t (((hl.mem_descendantsAt hbelow hat).mp hr).2 t hmem)

end Step

/-- Whatever depth they are allowed, both searches find bounds only. -/
theorem Linked.searches_bound (hl : h.Linked) (depth : Nat) :
    h.FindsAbove (h.ancestorsWithin depth) ∧ h.FindsBelow (h.descendantsWithin depth) := by
  induction depth with
  | zero =>
    constructor
    all_goals
      intro types found _ hrun
      simp [ancestorsWithin, descendantsWithin] at hrun
  | succ depth ih =>
    constructor
    · intro types found htypes hrun
      rw [ancestorsWithin] at hrun
      exact hl.ancestorsBy_findsAbove ih.1 ih.2 types found htypes hrun
    · intro types found htypes hrun
      rw [descendantsWithin] at hrun
      exact hl.descendantsBy_findsBelow (fun _ _ hab => ⟨depth, hab⟩) types found htypes hrun

theorem Linked.ancestors_valid (hl : h.Linked) {depth : Nat} {types found : List TypeExpr}
    (htypes : ∀ t ∈ types, h.Valid t) (hrun : h.ancestorsWithin depth types = .ok found) :
    ∀ r ∈ found, h.Valid r := by
  have hknown : h.Known (.ancestors types) := htypes
  exact answers_of_step hl.inquire_known hknown ⟨depth, hrun⟩

theorem Linked.descendants_valid (hl : h.Linked) {depth : Nat} {types found : List TypeExpr}
    (htypes : ∀ t ∈ types, h.Valid t) (hrun : h.descendantsWithin depth types = .ok found) :
    ∀ r ∈ found, h.Valid r := by
  have hknown : h.Known (.descendants types) := htypes
  exact answers_of_step hl.inquire_known hknown ⟨depth, hrun⟩

/-- Where a comparison of known types says yes at some depth, the comparison at the usual depth does
not say no, and it answers if no parameter is contravariant. -/
theorem Linked.isSubtype_of_confirms (hl : h.Linked) {a b : TypeExpr} (ha : h.Valid a)
    (hb : h.Valid b) (hab : h.Confirms a b) :
    (∀ answer, h.isSubtype a b = .ok answer → answer = true) ∧
    (¬h.HasContra → h.isSubtype a b = .ok true) := by
  refine ⟨fun answer hrun => hab.answer hrun, fun hcontra => ?_⟩
  obtain ⟨answer, hrun⟩ := hl.isSubtype_ok hcontra ha hb
  rw [hrun, hab.answer hrun]

/-- Every nearest common ancestor that a search on known types returns is found to be above each of
the types, and every nearest common descendant to be below each of them. No comparison with them
says no, and none stays without an answer where no parameter is contravariant. -/
theorem nearest_are_bounds {definition : Definition} {h : Hierarchy}
    (hdef : ofDefinition definition = .ok h) {types : List TypeExpr}
    (htypes : ∀ t ∈ types, h.validate t = .ok ()) :
    (∀ depth found, h.ancestorsWithin depth types = .ok found →
      ∀ r ∈ found, ∀ t ∈ types, h.Confirms t r) ∧
    (∀ depth found, h.descendantsWithin depth types = .ok found →
      ∀ r ∈ found, ∀ t ∈ types, h.Confirms r t) ∧
    (∀ found, h.commonAncestors types = .ok found → ∀ r ∈ found, ∀ t ∈ types,
      (∀ answer, h.isSubtype t r = .ok answer → answer = true) ∧
      (¬h.HasContra → h.isSubtype t r = .ok true)) ∧
    (∀ found, h.commonDescendants types = .ok found → ∀ r ∈ found, ∀ t ∈ types,
      (∀ answer, h.isSubtype r t = .ok answer → answer = true) ∧
      (¬h.HasContra → h.isSubtype r t = .ok true)) := by
  have hl := ofDefinition_linked hdef
  simp only [hl.validate_eq_ok] at htypes
  have habove (depth : Nat) (found : List TypeExpr)
      (hrun : h.ancestorsWithin depth types = .ok found) (r : TypeExpr) (hr : r ∈ found)
      (t : TypeExpr) (ht : t ∈ types) : h.Confirms t r :=
    (hl.searches_bound depth).1 types found htypes hrun r hr t ht
  have hbelow (depth : Nat) (found : List TypeExpr)
      (hrun : h.descendantsWithin depth types = .ok found) (r : TypeExpr) (hr : r ∈ found)
      (t : TypeExpr) (ht : t ∈ types) : h.Confirms r t :=
    (hl.searches_bound depth).2 types found htypes hrun r hr t ht
  refine ⟨habove, hbelow, fun found hrun r hr t ht => ?_, fun found hrun r hr t ht => ?_⟩
  · exact hl.isSubtype_of_confirms (htypes t ht) (hl.ancestors_valid htypes hrun r hr)
      (habove _ found hrun r hr t ht)
  · exact hl.isSubtype_of_confirms (hl.descendants_valid htypes hrun r hr) (htypes t ht)
      (hbelow _ found hrun r hr t ht)

/-- A flipped pair and a pair that leaves one place open have a pair above both. -/
theorem flipped_bounded_by_pair :
    pairHierarchy.commonAncestors [⟨"flipped", [⟨"animal", []⟩, ⟨"dog", []⟩]⟩,
      ⟨"pair", [⟨"animal", []⟩, .wildcard]⟩] = .ok [⟨"pair", [⟨"animal", []⟩, ⟨"animal", []⟩]⟩] ∧
    ∀ t ∈ [TypeExpr.mk "flipped" [⟨"animal", []⟩, ⟨"dog", []⟩],
      ⟨"pair", [⟨"animal", []⟩, .wildcard]⟩],
      pairHierarchy.Confirms t ⟨"pair", [⟨"animal", []⟩, ⟨"animal", []⟩]⟩ := by
  have hrun : pairHierarchy.commonAncestors [⟨"flipped", [⟨"animal", []⟩, ⟨"dog", []⟩]⟩,
      ⟨"pair", [⟨"animal", []⟩, .wildcard]⟩] =
      .ok [⟨"pair", [⟨"animal", []⟩, ⟨"animal", []⟩]⟩] := eq_ok_of_toOption (by decide +kernel)
  have hvalid : ∀ t ∈ [TypeExpr.mk "flipped" [⟨"animal", []⟩, ⟨"dog", []⟩],
      ⟨"pair", [⟨"animal", []⟩, .wildcard]⟩], pairHierarchy.validate t = .ok () :=
    List.forall_mem_cons.mpr ⟨eq_ok_of_toOption (by decide +kernel),
      List.forall_mem_singleton.mpr (eq_ok_of_toOption (by decide +kernel))⟩
  exact ⟨hrun, (nearest_are_bounds pair_accepted hvalid).1 _ _ hrun _ List.mem_cons_self⟩

end Hierarchy

end TypedBlocks
