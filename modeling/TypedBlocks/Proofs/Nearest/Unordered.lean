import TypedBlocks.Proofs.Hierarchy.Alike
import TypedBlocks.Proofs.Nearest.Apart

/-! The nearest types of given types as a set. Neither the order in which types are given, nor how
often, nor the order in which types are declared has a part in what is found: the candidates are the
same, and since no two of them are below each other, so are the nearest of them. -/
namespace TypedBlocks.Hierarchy

variable {h h' : Hierarchy} {relation : TypeExpr → TypeExpr → Except Fault Bool}
  {up up' down down' : List TypeExpr → Except Fault (List TypeExpr)}
  {types types' found found' column column' options options' : List TypeExpr}

/-- Two searches, if both return, find the same for the same ground types. -/
def SameFinds (h : Hierarchy) (search search' : List TypeExpr → Except Fault (List TypeExpr)) :
    Prop :=
  ∀ types types' found found', (∀ t ∈ types, h.Ground t) → (∀ t, t ∈ types ↔ t ∈ types') →
    search types = .ok found → search' types' = .ok found' → ∀ t, t ∈ found ↔ t ∈ found'

theorem Alike.sameFinds_symm (halike : h.Alike h') (hsame : h.SameFinds up up') :
    h'.SameFinds up' up := by
  intro types types' found found' htypes hmem hrun hrun' t
  refine (hsame types' types found' found (fun u hu => ?_) (fun u => (hmem u).symm) hrun' hrun
    t).symm
  exact halike.ground_iff.mpr (htypes u ((hmem u).mpr hu))

theorem isEmpty_congr {α : Type} {xs ys : List α} (hmem : ∀ x, x ∈ xs ↔ x ∈ ys) :
    xs = [] ↔ ys = [] := by
  simp only [List.eq_nil_iff_forall_not_mem, hmem]

theorem eq_of_getElem? {α : Type} {xs ys : List α} (hlen : xs.length = ys.length)
    (hsame : ∀ (i : Nat) (x : α), xs[i]? = some x → ys[i]? = some x) : xs = ys := by
  refine List.ext_getElem hlen fun i hi hi' => ?_
  have hx := hsame i xs[i] (List.getElem?_eq_getElem hi)
  rw [List.getElem?_eq_getElem hi'] at hx
  exact (Option.some.inj hx).symm

/-- Ground types agree on a type if all of them are that type. -/
theorem mem_agreedOption_iff (hcolumn : ∀ a ∈ column, h.Ground a) {x : TypeExpr} :
    x ∈ agreedOption column ↔
      (column = [] ∧ x = .wildcard) ∨ (x ∈ column ∧ ∀ a ∈ column, a = x) := by
  constructor
  · intro hx
    rcases mem_agreedOption hx with hmem | ⟨rfl, hnone⟩
    · refine .inr ⟨hmem, fun a ha => ?_⟩
      exact (hcolumn a ha).eq_of_agrees (hcolumn x hmem) (agrees_of_mem_agreedOption hx ha)
    · exact .inl ⟨filter_ground hcolumn ▸ hnone, rfl⟩
  · rintro (⟨rfl, rfl⟩ | ⟨hmem, hall⟩)
    · simp [agreedOption]
    · have hcopies : Copies x column := ⟨List.ne_nil_of_mem hmem, hall⟩
      simp [agreedOption_copies hcopies (hcolumn x hmem).starFree.isWildcard]

section Position

variable (hup : h.SameFinds up up') (hdown : h.SameFinds down down')
  (hcolumn : ∀ a ∈ column, h.Ground a) (hmem : ∀ a, a ∈ column ↔ a ∈ column')

include hup hdown hcolumn hmem

theorem ancestorPosition_same {v : Variance}
    (hrun : ancestorPosition up down v column = .ok options)
    (hrun' : ancestorPosition up' down' v column' = .ok options') :
    ∀ x, x ∈ options ↔ x ∈ options' := by
  cases v with
  | co => exact hup column column' options options' hcolumn hmem hrun hrun'
  | contra => exact hdown column column' options options' hcolumn hmem hrun hrun'
  | inv =>
    obtain rfl := pure_eq_ok.mp hrun
    obtain rfl := pure_eq_ok.mp hrun'
    have hcolumn' : ∀ a ∈ column', h.Ground a := fun a ha => hcolumn a ((hmem a).mpr ha)
    intro x
    simp only [mem_agreedOption_iff hcolumn, mem_agreedOption_iff hcolumn', isEmpty_congr hmem,
      hmem]

theorem descendantPosition_same {v : Variance}
    (hrun : descendantPosition up down v column = .ok options)
    (hrun' : descendantPosition up' down' v column' = .ok options') :
    ∀ x, x ∈ options ↔ x ∈ options' := by
  have hempty : column.isEmpty = column'.isEmpty := by
    rw [Bool.eq_iff_iff, List.isEmpty_iff, List.isEmpty_iff, isEmpty_congr hmem]
  unfold descendantPosition at hrun hrun'
  rw [← hempty] at hrun'
  cases hopen : column.isEmpty with
  | true =>
    simp only [hopen, if_true] at hrun hrun'
    obtain rfl := pure_eq_ok.mp hrun
    obtain rfl := pure_eq_ok.mp hrun'
    exact fun _ => Iff.rfl
  | false =>
    simp only [hopen, Bool.false_eq_true, if_false] at hrun hrun'
    cases v with
    | co =>
      obtain ⟨found, hfound, hrun⟩ := bind_eq_ok.mp hrun
      obtain ⟨found', hfound', hrun'⟩ := bind_eq_ok.mp hrun'
      obtain rfl := pure_eq_ok.mp hrun
      obtain rfl := pure_eq_ok.mp hrun'
      intro x
      simp only [List.mem_eraseDups, List.mem_append, hmem,
        hdown column column' found found' hcolumn hmem hfound hfound' x]
    | contra =>
      obtain ⟨found, hfound, hrun⟩ := bind_eq_ok.mp hrun
      obtain ⟨found', hfound', hrun'⟩ := bind_eq_ok.mp hrun'
      obtain rfl := pure_eq_ok.mp hrun
      obtain rfl := pure_eq_ok.mp hrun'
      intro x
      simp only [List.mem_eraseDups, List.mem_append, hmem,
        hup column column' found found' hcolumn hmem hfound hfound' x]
    | inv =>
      obtain rfl := pure_eq_ok.mp hrun
      obtain rfl := pure_eq_ok.mp hrun'
      intro x
      simp only [List.mem_eraseDups, hmem]

end Position

namespace Alike

variable (halike : h.Alike h') (htypes : ∀ t ∈ types, h.Ground t)
  (hmem : ∀ t, t ∈ types ↔ t ∈ types')

include halike hmem

theorem columnAbove_same (head : Text) (i : Nat) :
    ∀ x, x ∈ h.columnAbove types head i ↔ x ∈ h'.columnAbove types' head i := by
  intro x
  simp only [mem_columnAbove, halike.paramsFor_eq, hmem]

theorem columnBelow_same (head : Text) (i : Nat) :
    ∀ x, x ∈ h.columnBelow types head i ↔ x ∈ h'.columnBelow types' head i := by
  intro x
  simp only [mem_columnBelow, halike.paramsBelow_eq, hmem]

theorem headsAbove_same {heads heads' : List Text}
    (hheads : h.commonAncestorNames (types.map (·.name)) = .ok heads)
    (hheads' : h'.commonAncestorNames (types'.map (·.name)) = .ok heads') :
    ∀ head, head ∈ heads ↔ head ∈ heads' := by
  intro head
  rw [halike.linked.commonAncestorNames_iff hheads, halike.linked'.commonAncestorNames_iff hheads']
  simp only [ne_eq, List.map_eq_nil_iff, isEmpty_congr hmem, List.mem_map, hmem, halike.below_iff]

theorem headsBelow_same : ∀ head, head ∈ h.commonDescendantNames (types.map (·.name)) ↔
    head ∈ h'.commonDescendantNames (types'.map (·.name)) := by
  intro head
  rw [halike.linked.commonDescendantNames_iff, halike.linked'.commonDescendantNames_iff]
  simp only [ne_eq, List.map_eq_nil_iff, isEmpty_congr hmem, List.mem_map, hmem, halike.below_iff]

include htypes

/-- A common ancestor with some head that one search finds, the other finds. -/
theorem ancestorsAt_subset (hup : h.SameFinds up up') (hdown : h.SameFinds down down')
    {e : Entry} (he : e ∈ h.entries) (hrun : h.ancestorsAt up down types e.name = .ok found)
    (hrun' : h'.ancestorsAt up' down' types' e.name = .ok found') {t : TypeExpr}
    (ht : t ∈ found) : t ∈ found' := by
  obtain ⟨combo, rfl, hlen, hcombo⟩ := (halike.linked.mem_ancestorsAt he hrun).mp ht
  obtain ⟨e', he', hdecl, -⟩ := halike.entry he
  have hname : e'.name = e.name := congrArg Declaration.name hdecl
  have hparams : e'.params = e.params := congrArg Declaration.params hdecl
  rw [← hname] at hrun'
  obtain ⟨combo', hfound', hlen', hsame⟩ := halike.linked'.exists_ancestorAt he' hrun'
    (Q := fun i x => combo[i]? = some x) fun i p options' hp hposition' => by
      rw [hparams] at hp
      have hi : i < combo.length := hlen ▸ (List.getElem?_eq_some_iff.mp hp).1
      have hx := List.getElem?_eq_getElem hi
      obtain ⟨options, hposition, hoption⟩ := hcombo i p _ hp hx
      rw [hname] at hposition'
      have hiff := ancestorPosition_same hup hdown
        (halike.linked.columnAbove_ground htypes he i) (halike.columnAbove_same hmem e.name i)
        hposition hposition'
      exact ⟨_, (hiff _).mp hoption, hx⟩
  have hlength := hlen'.trans ((congrArg List.length hparams).trans hlen.symm)
  rw [eq_of_getElem? hlength hsame, hname] at hfound'
  exact hfound'

/-- A common descendant with some head that one search finds, the other finds. -/
theorem descendantsAt_subset (hup : h.SameFinds up up') (hdown : h.SameFinds down down')
    {R : TypeExpr → TypeExpr → Prop}
    (htells : ∀ a b answer, relation a b = .ok answer → (answer = true ↔ R a b))
    {e : Entry} (he : e ∈ h.entries)
    (hrun : h.descendantsAt relation up down types e.name = .ok found)
    (hrun' : h'.descendantsAt relation up' down' types' e.name = .ok found') {t : TypeExpr}
    (ht : t ∈ found) : t ∈ found' := by
  obtain ⟨⟨combo, rfl, hlen, hcombo⟩, hfits⟩ := (halike.linked.mem_descendantsAt he hrun).mp ht
  obtain ⟨e', he', hdecl, -⟩ := halike.entry he
  have hname : e'.name = e.name := congrArg Declaration.name hdecl
  have hparams : e'.params = e.params := congrArg Declaration.params hdecl
  have hsame {combo' : List TypeExpr} (hlen' : combo'.length = e'.arity)
      (heq : ∀ (i : Nat) (x : TypeExpr), combo'[i]? = some x → combo[i]? = some x) :
      combo' = combo :=
    eq_of_getElem? (hlen'.trans ((congrArg List.length hparams).trans hlen.symm)) heq
  rw [← hname] at hrun'
  obtain ⟨combo', hfound', hlen', heq⟩ := halike.linked'.exists_descendantAt he' htells hrun'
    (Q := fun i x => combo[i]? = some x)
    (fun i p options' hp hposition' => by
      rw [hparams] at hp
      have hi : i < combo.length := hlen ▸ (List.getElem?_eq_some_iff.mp hp).1
      have hx := List.getElem?_eq_getElem hi
      obtain ⟨options, hposition, hoption⟩ := hcombo i p _ hp hx
      rw [hname] at hposition'
      have hiff := descendantPosition_same hup hdown
        (halike.linked.columnBelow_ground htypes he i) (halike.columnBelow_same hmem e.name i)
        hposition hposition'
      exact ⟨_, (hiff _).mp hoption, hx⟩)
    (fun combo' hlen' heq u hu => by
      rw [hsame hlen' heq, hname]
      exact (htells _ u true (hfits u ((hmem u).mpr hu))).mp rfl)
  rw [hsame hlen' heq, hname] at hfound'
  exact hfound'

end Alike

/-! ### All heads together -/

theorem candidates_same {heads heads' : List Text} (hheads : ∀ head, head ∈ heads ↔ head ∈ heads')
    {search search' : Text → Except Fault (List TypeExpr)}
    (hsearch : ∀ head ∈ heads, ∀ found found', search head = .ok found →
      search' head = .ok found' → ∀ t, t ∈ found ↔ t ∈ found')
    {lists lists' : List (List TypeExpr)} (hlists : heads.mapM search = .ok lists)
    (hlists' : heads'.mapM search' = .ok lists') :
    ∀ t, t ∈ lists.flatten.eraseDups ↔ t ∈ lists'.flatten.eraseDups := by
  intro t
  rw [mem_candidates hlists, mem_candidates hlists']
  constructor
  · rintro ⟨head, hhead, found, hfound, ht⟩
    have hhead' := (hheads head).mp hhead
    obtain ⟨found', -, hfound'⟩ := mapM_exists hlists' hhead'
    exact ⟨head, hhead', found', hfound',
      (hsearch head hhead found found' hfound hfound' t).mp ht⟩
  · rintro ⟨head, hhead', found', hfound', ht⟩
    have hhead := (hheads head).mpr hhead'
    obtain ⟨found, -, hfound⟩ := mapM_exists hlists hhead
    exact ⟨head, hhead, found, hfound, (hsearch head hhead found found' hfound hfound' t).mpr ht⟩

/-- Where no two candidates are below each other, only the candidates matter for what is kept. -/
theorem keepNearest_same {R : TypeExpr → TypeExpr → Prop}
    {nearer : TypeExpr → TypeExpr → Except Fault Bool}
    (htells : ∀ a b answer, nearer a b = .ok answer → (answer = true ↔ R a b))
    {candidates candidates' : List TypeExpr} (hsame : ∀ t, t ∈ candidates ↔ t ∈ candidates')
    (hnodup : candidates.Nodup) (hnodup' : candidates'.Nodup)
    (hanti : ∀ a ∈ candidates, ∀ b ∈ candidates, R a b → R b a → a = b)
    (hrun : keepNearest nearer candidates = .ok found)
    (hrun' : keepNearest nearer candidates' = .ok found') : ∀ t, t ∈ found ↔ t ∈ found' := by
  intro t
  rw [mem_keepNearest_iff_minimal (fun a _ b _ => htells a b) hanti hnodup hrun,
    mem_keepNearest_iff_minimal (fun a _ b _ => htells a b) (by simpa only [← hsame] using hanti)
      hnodup' hrun']
  simp only [hsame]

section Step

variable (halike : h.Alike h') (hup : h.SameFinds up up') (hdown : h.SameFinds down down')
  (hapart : h.KeepsApart up) (hapart' : h.KeepsApart down)
  (htells : ∀ a b answer, relation a b = .ok answer → (answer = true ↔ h.Related a b))
  (htypes : ∀ t ∈ types, h.Ground t) (hmem : ∀ t, t ∈ types ↔ t ∈ types')
  (hmany : ∀ t, types ≠ [t]) (hmany' : ∀ t, types' ≠ [t])

include halike hup hdown hapart hapart' htells htypes hmem hmany hmany'

theorem ancestorsBy_same (hrun : h.ancestorsBy relation up down types = .ok found)
    (hrun' : h'.ancestorsBy relation up' down' types' = .ok found') :
    ∀ t, t ∈ found ↔ t ∈ found' := by
  have htypes' : ∀ t ∈ types', h'.Ground t := fun t ht =>
    halike.ground_iff.mp (htypes t ((hmem t).mpr ht))
  rcases ancestorsBy_ground htypes hrun with ⟨rfl, rfl⟩ | ⟨t, hone, -⟩ |
    ⟨hne, heads, lists, hheads, hlists, hkeep⟩
  · obtain rfl := (isEmpty_congr hmem).mp rfl
    obtain rfl := pure_eq_ok.mp hrun'
    exact fun _ => Iff.rfl
  · exact absurd hone (hmany t)
  rcases ancestorsBy_ground htypes' hrun' with ⟨hnil, -⟩ | ⟨t, hone, -⟩ |
    ⟨-, heads', lists', hheads', hlists', hkeep'⟩
  · exact absurd ((isEmpty_congr hmem).mpr hnil) hne
  · exact absurd hone (hmany' t)
  have hdeclared (head : Text) (hhead : head ∈ heads) : ∃ e ∈ h.entries, e.name = head := by
    obtain ⟨hnames, hbelow, -⟩ := (halike.linked.commonAncestorNames_iff hheads).mp hhead
    obtain ⟨name, hname⟩ := List.exists_mem_of_ne_nil _ hnames
    exact halike.linked.below_declared (hbelow name hname)
  have hcandidates := candidates_same (halike.headsAbove_same hmem hheads hheads')
    (fun head hhead found found' hfound hfound' t => by
      obtain ⟨e, he, rfl⟩ := hdeclared head hhead
      obtain ⟨e', he', hdecl, -⟩ := halike.entry he
      have hname : e'.name = e.name := congrArg Declaration.name hdecl
      refine ⟨halike.ancestorsAt_subset htypes hmem hup hdown he hfound hfound', ?_⟩
      rw [← hname] at hfound hfound'
      exact halike.symm.ancestorsAt_subset htypes' (fun t => (hmem t).symm)
        (halike.sameFinds_symm hup) (halike.sameFinds_symm hdown) he' hfound' hfound)
    hlists hlists'
  have hcandidatesApart :=
    halike.linked.candidatesAbove_apart hapart hapart' htypes hdeclared hlists
  exact keepNearest_same htells hcandidates (nodup_eraseDups _) (nodup_eraseDups _)
    (fun a ha b hb hab hba => hcandidatesApart.eq_of_related halike.linked ha hb hab hba)
    hkeep hkeep'

theorem descendantsBy_same (hrun : h.descendantsBy relation up down types = .ok found)
    (hrun' : h'.descendantsBy relation up' down' types' = .ok found') :
    ∀ t, t ∈ found ↔ t ∈ found' := by
  have htypes' : ∀ t ∈ types', h'.Ground t := fun t ht =>
    halike.ground_iff.mp (htypes t ((hmem t).mpr ht))
  rcases descendantsBy_ground htypes hrun with ⟨rfl, rfl⟩ | ⟨t, hone, -⟩ |
    ⟨hne, lists, hlists, hkeep⟩
  · obtain rfl := (isEmpty_congr hmem).mp rfl
    obtain rfl := pure_eq_ok.mp hrun'
    exact fun _ => Iff.rfl
  · exact absurd hone (hmany t)
  rcases descendantsBy_ground htypes' hrun' with ⟨hnil, -⟩ | ⟨t, hone, -⟩ |
    ⟨-, lists', hlists', hkeep'⟩
  · exact absurd ((isEmpty_congr hmem).mpr hnil) hne
  · exact absurd hone (hmany' t)
  have hcandidates := candidates_same (halike.headsBelow_same hmem)
    (fun head hhead found found' hfound hfound' t => by
      obtain ⟨e, he, rfl⟩ := mem_commonDescendantNames hhead
      obtain ⟨e', he', hdecl, -⟩ := halike.entry he
      have hname : e'.name = e.name := congrArg Declaration.name hdecl
      refine ⟨halike.descendantsAt_subset htypes hmem hup hdown htells he hfound hfound', ?_⟩
      rw [← hname] at hfound hfound'
      exact halike.symm.descendantsAt_subset htypes' (fun t => (hmem t).symm)
        (halike.sameFinds_symm hup) (halike.sameFinds_symm hdown) htells he' hfound' hfound)
    hlists hlists'
  have hcandidatesApart := halike.linked.candidatesBelow_apart hapart hapart' htypes
    (fun head hhead => mem_commonDescendantNames hhead) hlists
  exact keepNearest_same (R := fun a b => h.Related b a) (fun a b => htells b a) hcandidates
    (nodup_eraseDups _) (nodup_eraseDups _)
    (fun a ha b hb hab hba => hcandidatesApart.eq_of_related halike.linked ha hb hba hab)
    hkeep hkeep'

end Step

/-- Searches among copies of one type find the same. -/
theorem Alike.copies_same (halike : h.Alike h') {t : TypeExpr} (ht : h.Ground t)
    (htypes : Copies t types) (hmem : ∀ u, u ∈ types ↔ u ∈ types') (depth : Nat) :
    (h.ancestorsWithin depth types = .ok found → h'.ancestorsWithin depth types' = .ok found' →
      found = found') ∧
    (h.descendantsWithin depth types = .ok found →
      h'.descendantsWithin depth types' = .ok found' → found = found') := by
  have hfound := halike.linked.found_of_copies ht htypes depth found
  have hfound' := halike.linked'.found_of_copies (halike.ground_iff.mp ht)
    (htypes.of_same hmem) depth found'
  exact ⟨fun hrun hrun' => (hfound.1 hrun).trans (hfound'.1 hrun').symm,
    fun hrun hrun' => (hfound.2 hrun).trans (hfound'.2 hrun').symm⟩

/-- Whatever depth they are allowed, searches that return find the same in hierarchies that are
alike. -/
theorem Alike.searches_same (halike : h.Alike h') (depth : Nat) :
    h.SameFinds (h.ancestorsWithin depth) (h'.ancestorsWithin depth) ∧
      h.SameFinds (h.descendantsWithin depth) (h'.descendantsWithin depth) := by
  induction depth with
  | zero =>
    constructor
    all_goals
      intro types types' found found' _ _ hrun
      simp [ancestorsWithin, descendantsWithin] at hrun
  | succ depth ih =>
    obtain ⟨hapart, hapart'⟩ := halike.linked.searches_apart depth
    have htells (a b : TypeExpr) (answer : Bool)
        (hrun : h.subtypeWithin depth a b = .ok answer) : answer = true ↔ h.Related a b :=
      halike.linked.subtypeWithin_iff_related hrun
    -- A single type is returned as it is; among more than one, its copies have to be compared.
    have hsingle {types types' : List TypeExpr} (htypes : ∀ t ∈ types, h.Ground t)
        (hmem : ∀ t, t ∈ types ↔ t ∈ types') {t : TypeExpr} (hone : types = [t] ∨ types' = [t]) :
        h.Ground t ∧ Copies t types := by
      have hself : Copies t [t] := ⟨List.cons_ne_nil t [], by simp⟩
      have hcopies : Copies t types := by
        rcases hone with rfl | rfl
        · exact hself
        · exact hself.of_same fun u => (hmem u).symm
      exact ⟨htypes t hcopies.mem, hcopies⟩
    constructor
    · intro types types' found found' htypes hmem hrun hrun'
      by_cases hone : ∃ t, types = [t] ∨ types' = [t]
      · obtain ⟨t, hone⟩ := hone
        obtain ⟨ht, hcopies⟩ := hsingle htypes hmem hone
        obtain rfl := (halike.copies_same ht hcopies hmem (depth + 1)).1 hrun hrun'
        exact fun _ => Iff.rfl
      · push Not at hone
        rw [ancestorsWithin] at hrun hrun'
        rw [← halike.subtypeWithin_eq] at hrun'
        exact ancestorsBy_same halike ih.1 ih.2 hapart hapart' htells htypes hmem
          (fun t => (hone t).1) (fun t => (hone t).2) hrun hrun'
    · intro types types' found found' htypes hmem hrun hrun'
      by_cases hone : ∃ t, types = [t] ∨ types' = [t]
      · obtain ⟨t, hone⟩ := hone
        obtain ⟨ht, hcopies⟩ := hsingle htypes hmem hone
        obtain rfl := (halike.copies_same ht hcopies hmem (depth + 1)).2 hrun hrun'
        exact fun _ => Iff.rfl
      · push Not at hone
        rw [descendantsWithin] at hrun hrun'
        rw [← halike.subtypeWithin_eq] at hrun'
        exact descendantsBy_same halike ih.1 ih.2 hapart hapart' htells htypes hmem
          (fun t => (hone t).1) (fun t => (hone t).2) hrun hrun'

/-- The same, at depths that need not be the same. -/
theorem Alike.nearest_same (halike : h.Alike h') (htypes : ∀ t ∈ types, h.Ground t)
    (hmem : ∀ t, t ∈ types ↔ t ∈ types') (depth depth' : Nat)
    (found found' : List TypeExpr) :
    (h.ancestorsWithin depth types = .ok found → h'.ancestorsWithin depth' types' = .ok found' →
      ∀ t, t ∈ found ↔ t ∈ found') ∧
    (h.descendantsWithin depth types = .ok found →
      h'.descendantsWithin depth' types' = .ok found' → ∀ t, t ∈ found ↔ t ∈ found') := by
  obtain ⟨habove, hbelow⟩ := halike.searches_same (max depth depth')
  constructor
  · intro hrun hrun'
    have hcall : h.answerWithin depth (.ancestors types) = .ok found := hrun
    have hcall' : h'.answerWithin depth' (.ancestors types') = .ok found' := hrun'
    exact habove types types' found found' htypes hmem
      (answerWithin_mono (Nat.le_max_left depth depth') hcall)
      (answerWithin_mono (Nat.le_max_right depth depth') hcall')
  · intro hrun hrun'
    have hcall : h.answerWithin depth (.descendants types) = .ok found := hrun
    have hcall' : h'.answerWithin depth' (.descendants types') = .ok found' := hrun'
    exact hbelow types types' found found' htypes hmem
      (answerWithin_mono (Nat.le_max_left depth depth') hcall)
      (answerWithin_mono (Nat.le_max_right depth depth') hcall')

/-- The nearest common ancestors and the nearest common descendants of known types without wildcards
depend only on which types are given: not on their order, not on how often each is given, and not on
the depths allowed, as long as the searches return. -/
theorem nearest_unordered {definition : Definition} {h : Hierarchy}
    (hdef : ofDefinition definition = .ok h) {types types' : List TypeExpr}
    (htypes : ∀ t ∈ types, h.validate t = .ok () ∧ t.StarFree)
    (hmem : ∀ t, t ∈ types ↔ t ∈ types') :
    (∀ found found', h.commonAncestors types = .ok found →
      h.commonAncestors types' = .ok found' → ∀ t, t ∈ found ↔ t ∈ found') ∧
    (∀ found found', h.commonDescendants types = .ok found →
      h.commonDescendants types' = .ok found' → ∀ t, t ∈ found ↔ t ∈ found') ∧
    (∀ depth depth' found found', h.ancestorsWithin depth types = .ok found →
      h.ancestorsWithin depth' types' = .ok found' → ∀ t, t ∈ found ↔ t ∈ found') ∧
    (∀ depth depth' found found', h.descendantsWithin depth types = .ok found →
      h.descendantsWithin depth' types' = .ok found' → ∀ t, t ∈ found ↔ t ∈ found') := by
  have hl := ofDefinition_linked hdef
  have hground : ∀ t ∈ types, h.Ground t := fun t ht =>
    ⟨hl.validate_eq_ok.mp (htypes t ht).1, (htypes t ht).2⟩
  have hsame (depth depth' : Nat) (found found' : List TypeExpr) :=
    (Alike.refl hl).nearest_same hground hmem depth depth' found found'
  exact ⟨fun found found' => (hsame _ _ found found').1,
    fun found found' => (hsame _ _ found found').2,
    fun depth depth' found found' => (hsame depth depth' found found').1,
    fun depth depth' found found' => (hsame depth depth' found found').2⟩

/-- A flipped pair and the pair above it, given in the other order and one of them twice. -/
theorem flipped_unordered :
    (∀ t ∈ [TypeExpr.mk "flipped" [⟨"animal", []⟩, ⟨"dog", []⟩],
      ⟨"pair", [⟨"animal", []⟩, ⟨"dog", []⟩]⟩], pairHierarchy.validate t = .ok () ∧ t.StarFree) ∧
    (∃ found, pairHierarchy.commonDescendants [⟨"pair", [⟨"animal", []⟩, ⟨"dog", []⟩]⟩,
      ⟨"flipped", [⟨"animal", []⟩, ⟨"dog", []⟩]⟩, ⟨"pair", [⟨"animal", []⟩, ⟨"dog", []⟩]⟩] =
      .ok found) ∧
    ∀ found, pairHierarchy.commonDescendants [⟨"pair", [⟨"animal", []⟩, ⟨"dog", []⟩]⟩,
      ⟨"flipped", [⟨"animal", []⟩, ⟨"dog", []⟩]⟩, ⟨"pair", [⟨"animal", []⟩, ⟨"dog", []⟩]⟩] =
      .ok found → ∀ t, t ∈ found ↔ t = ⟨"flipped", [⟨"animal", []⟩, ⟨"dog", []⟩]⟩ := by
  have hvalid : ∀ t ∈ [TypeExpr.mk "flipped" [⟨"animal", []⟩, ⟨"dog", []⟩],
      ⟨"pair", [⟨"animal", []⟩, ⟨"dog", []⟩]⟩],
      pairHierarchy.validate t = .ok () ∧ t.StarFree :=
    List.forall_mem_cons.mpr ⟨⟨eq_ok_of_toOption (by decide +kernel), by decide +kernel⟩,
      List.forall_mem_singleton.mpr ⟨eq_ok_of_toOption (by decide +kernel), by decide +kernel⟩⟩
  have hrun : pairHierarchy.commonDescendants [⟨"flipped", [⟨"animal", []⟩, ⟨"dog", []⟩]⟩,
      ⟨"pair", [⟨"animal", []⟩, ⟨"dog", []⟩]⟩] =
      .ok [⟨"flipped", [⟨"animal", []⟩, ⟨"dog", []⟩]⟩] := eq_ok_of_toOption (by decide +kernel)
  have hagain : pairHierarchy.commonDescendants [⟨"pair", [⟨"animal", []⟩, ⟨"dog", []⟩]⟩,
      ⟨"flipped", [⟨"animal", []⟩, ⟨"dog", []⟩]⟩, ⟨"pair", [⟨"animal", []⟩, ⟨"dog", []⟩]⟩] =
      .ok [⟨"flipped", [⟨"animal", []⟩, ⟨"dog", []⟩]⟩] := eq_ok_of_toOption (by decide +kernel)
  have hsame (a b u : TypeExpr) : u ∈ [a, b] ↔ u ∈ [b, a, b] := by
    simp only [List.mem_cons, List.not_mem_nil]
    grind
  refine ⟨hvalid, ⟨_, hagain⟩, fun found hfound t => ?_⟩
  rw [← (nearest_unordered pair_accepted hvalid (hsame _ _)).2.1 _ found hrun hfound t,
    List.mem_singleton]

end TypedBlocks.Hierarchy
