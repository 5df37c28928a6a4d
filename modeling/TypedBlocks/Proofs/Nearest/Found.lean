import TypedBlocks.Proofs.Hierarchy.Names
import TypedBlocks.Proofs.Nearest.Kept
import TypedBlocks.Proofs.Recursion.Step

/-! What a search that returns has found. The types found for one head are the combinations that
take one option at each position; of all candidates the nearest are kept. -/
namespace TypedBlocks

namespace Hierarchy

variable {h : Hierarchy} {relation : TypeExpr → TypeExpr → Except Fault Bool}
  {up down : List TypeExpr → Except Fault (List TypeExpr)}

/-- One option for each parameter, out of those that a position offers for its column. -/
def Combines (position : Variance → List TypeExpr → Except Fault (List TypeExpr))
    (params : List Param) (column : Nat → List TypeExpr) (combo : List TypeExpr) : Prop :=
  combo.length = params.length ∧ ∀ (i : Nat) (p : Param) (x : TypeExpr), params[i]? = some p →
    combo[i]? = some x → ∃ options, position p.variance (column i) = .ok options ∧ x ∈ options

theorem combines_cons {position : Variance → List TypeExpr → Except Fault (List TypeExpr)}
    {p : Param} {params : List Param} {column : Nat → List TypeExpr} {combo : List TypeExpr} :
    Combines position (p :: params) column combo ↔ ∃ x rest, combo = x :: rest ∧
      (∃ options, position p.variance (column 0) = .ok options ∧ x ∈ options) ∧
      Combines position params (fun i => column (i + 1)) rest := by
  constructor
  · rintro ⟨hlen, hall⟩
    cases combo with
    | nil => simp at hlen
    | cons x rest =>
      exact ⟨x, rest, rfl, hall 0 p x rfl rfl, by simpa using hlen, fun i => hall (i + 1)⟩
  · rintro ⟨x, rest, rfl, hfirst, hlen, hall⟩
    refine ⟨by simpa using hlen, fun i q y hq hy => ?_⟩
    cases i with
    | zero =>
      obtain rfl := Option.some.inj hq
      obtain rfl := Option.some.inj hy
      exact hfirst
    | succ i => exact hall i q y hq hy

/-- Good options for each position combine to good ones. -/
theorem exists_combines
    {position : Variance → List TypeExpr → Except Fault (List TypeExpr)} {params : List Param}
    {column : Nat → List TypeExpr} {Q : Nat → TypeExpr → Prop}
    (hQ : ∀ i p, params[i]? = some p → ∃ options, position p.variance (column i) = .ok options ∧
      ∃ x ∈ options, Q i x) :
    ∃ combo, Combines position params column combo ∧ ∀ i x, combo[i]? = some x → Q i x := by
  induction params generalizing column Q with
  | nil => exact ⟨[], ⟨rfl, by simp⟩, by simp⟩
  | cons p params ih =>
    obtain ⟨options, hoptions, x, hx, hgood⟩ := hQ 0 p rfl
    obtain ⟨combo, hcombo, hgoods⟩ := ih fun i => hQ (i + 1)
    refine ⟨x :: combo, combines_cons.mpr ⟨x, combo, rfl, ⟨options, hoptions, hx⟩, hcombo⟩, ?_⟩
    intro i y hy
    cases i with
    | zero =>
      obtain rfl := Option.some.inj hy
      exact hgood
    | succ i => exact hgoods i y hy

theorem filterMap_tail (rows : List (List TypeExpr)) (i : Nat) :
    (rows.map (·.tail)).filterMap (·[i]?) = rows.filterMap (·[i + 1]?) := by
  simp [List.filterMap_map]

/-- Choices among the options for a common ancestor combine one option of each position. -/
theorem mem_ancestorOptions {params : List Param} {rows : List (List TypeExpr)}
    {options : Option (List (List TypeExpr))}
    (hrun : ancestorOptions up down params rows = .ok options) {combo : List TypeExpr} :
    (∃ found, options = some found ∧ combo ∈ choices found) ↔
      Combines (ancestorPosition up down) params (fun i => rows.filterMap (·[i]?)) combo := by
  induction params generalizing rows options combo with
  | nil =>
    obtain rfl := pure_eq_ok.mp hrun
    simp [choices, Combines]
  | cons p params ih =>
    obtain ⟨position, hposition, hrun⟩ := bind_eq_ok.mp hrun
    simp only [List.head?_eq_getElem?] at hposition
    rw [combines_cons]
    split at hrun
    · next hempty =>
      obtain rfl := pure_eq_ok.mp hrun
      obtain rfl : position = [] := by simpa using hempty
      simp [hposition]
    · obtain ⟨rest, hrest, hrun⟩ := bind_eq_ok.mp hrun
      obtain rfl := pure_eq_ok.mp hrun
      have htail (tail : List TypeExpr) :
          (∃ found, rest = some found ∧ tail ∈ choices found) ↔ _ := ih hrest
      simp only [filterMap_tail] at htail
      simp only [Option.map_eq_some_iff, hposition, Except.ok.injEq, exists_eq_left', ← htail]
      constructor
      · rintro ⟨_, ⟨found, hfound, rfl⟩, hcombo⟩
        simp only [choices, List.mem_flatMap, List.mem_map] at hcombo
        obtain ⟨x, hx, tail, hmem, rfl⟩ := hcombo
        exact ⟨x, tail, rfl, hx, found, hfound, hmem⟩
      · rintro ⟨x, tail, rfl, hx, found, hfound, hmem⟩
        refine ⟨position :: found, ⟨found, hfound, rfl⟩, ?_⟩
        simp only [choices, List.mem_flatMap, List.mem_map]
        exact ⟨x, hx, tail, hmem, rfl⟩

/-- The options of all positions have been computed, unless a position has none. -/
theorem ancestorPosition_of_options {params : List Param} {rows : List (List TypeExpr)}
    {options : Option (List (List TypeExpr))}
    (hrun : ancestorOptions up down params rows = .ok options)
    (hfull : ∀ (i : Nat) (p : Param) (found : List TypeExpr), params[i]? = some p →
      ancestorPosition up down p.variance (rows.filterMap (·[i]?)) = .ok found → found ≠ [])
    {i : Nat} {p : Param} (hp : params[i]? = some p) :
    ∃ found, ancestorPosition up down p.variance (rows.filterMap (·[i]?)) = .ok found := by
  induction params generalizing rows options i with
  | nil => simp at hp
  | cons q params ih =>
    obtain ⟨position, hposition, hrun⟩ := bind_eq_ok.mp hrun
    simp only [List.head?_eq_getElem?] at hposition
    have hne := hfull 0 q position rfl hposition
    cases i with
    | zero =>
      obtain rfl := Option.some.inj hp
      exact ⟨position, hposition⟩
    | succ i =>
      rw [if_neg (by simpa using hne)] at hrun
      obtain ⟨rest, hrest, -⟩ := bind_eq_ok.mp hrun
      obtain ⟨found, hfound⟩ := ih hrest
        (fun j r found hr hfound => hfull (j + 1) r found hr (filterMap_tail rows j ▸ hfound)) hp
      exact ⟨found, by rwa [filterMap_tail] at hfound⟩

theorem filterMap_join_tail (rows : List (List (Option TypeExpr))) (i : Nat) :
    (rows.map (·.tail)).filterMap (fun row => row[i]?.join) =
      rows.filterMap (fun row => row[i + 1]?.join) := by
  simp [List.filterMap_map]

/-- Choices among the options for a common descendant combine one option of each position. -/
theorem mem_descendantOptions {params : List Param} {rows : List (List (Option TypeExpr))}
    {options : List (List TypeExpr)}
    (hrun : descendantOptions up down params rows = .ok options) {combo : List TypeExpr} :
    combo ∈ choices options ↔ Combines (descendantPosition up down) params
      (fun i => rows.filterMap fun row => row[i]?.join) combo := by
  induction params generalizing rows options combo with
  | nil =>
    obtain rfl := pure_eq_ok.mp hrun
    simp [choices, Combines]
  | cons p params ih =>
    obtain ⟨position, hposition, hrun⟩ := bind_eq_ok.mp hrun
    obtain ⟨rest, hrest, hrun⟩ := bind_eq_ok.mp hrun
    obtain rfl := pure_eq_ok.mp hrun
    simp only [List.head?_eq_getElem?] at hposition
    have htail (tail : List TypeExpr) : tail ∈ choices rest ↔ _ := ih hrest
    simp only [filterMap_join_tail] at htail
    rw [combines_cons]
    simp only [choices, List.mem_flatMap, List.mem_map, hposition, Except.ok.injEq,
      exists_eq_left', ← htail]
    constructor
    · rintro ⟨x, hx, tail, htail, rfl⟩
      exact ⟨x, tail, rfl, hx, htail⟩
    · rintro ⟨x, tail, rfl, hx, htail⟩
      exact ⟨x, hx, tail, htail, rfl⟩

/-- The options of all positions have been computed. -/
theorem descendantPosition_of_options {params : List Param} {rows : List (List (Option TypeExpr))}
    {options : List (List TypeExpr)}
    (hrun : descendantOptions up down params rows = .ok options) {i : Nat} {p : Param}
    (hp : params[i]? = some p) : ∃ found, descendantPosition up down p.variance
      (rows.filterMap fun row => row[i]?.join) = .ok found := by
  induction params generalizing rows options i with
  | nil => simp at hp
  | cons q params ih =>
    obtain ⟨position, hposition, hrun⟩ := bind_eq_ok.mp hrun
    obtain ⟨rest, hrest, -⟩ := bind_eq_ok.mp hrun
    cases i with
    | zero =>
      obtain rfl := Option.some.inj hp
      exact ⟨position, by simpa only [List.head?_eq_getElem?] using hposition⟩
    | succ i =>
      obtain ⟨found, hfound⟩ := ih hrest hp
      exact ⟨found, by rwa [filterMap_join_tail] at hfound⟩

theorem mem_fulfillAll {types candidates kept : List TypeExpr}
    (hrun : fulfillAll relation types candidates = .ok kept) {t : TypeExpr} :
    t ∈ kept ↔ t ∈ candidates ∧ ∀ u ∈ types, relation t u = .ok true := by
  induction candidates generalizing kept with
  | nil =>
    obtain rfl := pure_eq_ok.mp hrun
    simp
  | cons c cs ih =>
    obtain ⟨fits, hfits, hrun⟩ := bind_eq_ok.mp hrun
    obtain ⟨rest, hrest, hrun⟩ := bind_eq_ok.mp hrun
    obtain rfl := pure_eq_ok.mp hrun
    cases fits with
    | true =>
      have hc := allM_eq_ok_true.mp hfits
      simp only [if_true, List.mem_cons, ih hrest]
      constructor
      · rintro (rfl | ⟨hmem, hall⟩)
        · exact ⟨.inl rfl, hc⟩
        · exact ⟨.inr hmem, hall⟩
      · rintro ⟨rfl | hmem, hall⟩
        · exact .inl rfl
        · exact .inr ⟨hmem, hall⟩
    | false =>
      have hc : ¬∀ u ∈ types, relation c u = .ok true := by
        rw [← allM_eq_ok_true, hfits]
        simp
      simp only [Bool.false_eq_true, if_false, List.mem_cons, ih hrest]
      constructor
      · rintro ⟨hmem, hall⟩
        exact ⟨.inr hmem, hall⟩
      · rintro ⟨rfl | hmem, hall⟩
        · exact absurd hall hc
        · exact ⟨hmem, hall⟩

/-- A candidate that is related to all types is kept. -/
theorem mem_fulfillAll_of_related {R : TypeExpr → TypeExpr → Prop}
    (htells : ∀ a b answer, relation a b = .ok answer → (answer = true ↔ R a b))
    {types candidates kept : List TypeExpr}
    (hrun : fulfillAll relation types candidates = .ok kept) {c : TypeExpr}
    (hc : c ∈ candidates) (hrelated : ∀ u ∈ types, R c u) : c ∈ kept := by
  have hanswer : ∃ fits, types.allM (relation c) = .ok fits := by
    clear hrelated
    induction candidates generalizing kept with
    | nil => exact absurd hc List.not_mem_nil
    | cons d cs ih =>
      obtain ⟨fits, hfits, hrun⟩ := bind_eq_ok.mp hrun
      obtain ⟨rest, hrest, -⟩ := bind_eq_ok.mp hrun
      rcases List.mem_cons.mp hc with rfl | hc
      · exact ⟨fits, hfits⟩
      · exact ih hrest hc
  obtain ⟨fits, hfits⟩ := hanswer
  cases fits with
  | true => exact (mem_fulfillAll hrun).mpr ⟨hc, allM_eq_ok_true.mp hfits⟩
  | false =>
    obtain ⟨u, hu, hno⟩ := allM_eq_ok_false hfits
    exact absurd ((htells c u false hno).mpr (hrelated u hu)) Bool.false_ne_true

def columnAbove (h : Hierarchy) (types : List TypeExpr) (head : Text) (i : Nat) :
    List TypeExpr :=
  types.filterMap fun t => ((h.paramsFor t head).toOption.join.getD [])[i]?

theorem mem_columnAbove {types : List TypeExpr} {head : Text} {i : Nat} {x : TypeExpr} :
    x ∈ h.columnAbove types head i ↔
      ∃ t ∈ types, ∃ row, h.paramsFor t head = .ok (some row) ∧ row[i]? = some x := by
  rw [columnAbove, List.mem_filterMap]
  refine exists_congr fun t => and_congr_right fun _ => ?_
  cases hrow : h.paramsFor t head with
  | error fault => simp [Except.toOption]
  | ok row => cases row <;> simp [Except.toOption]

def columnBelow (h : Hierarchy) (types : List TypeExpr) (head : Text) (i : Nat) :
    List TypeExpr :=
  types.filterMap fun t =>
    ((h.paramsBelow t.name head t.params).toOption.join.getD [])[i]?.join

theorem mem_columnBelow {types : List TypeExpr} {head : Text} {i : Nat} {x : TypeExpr} :
    x ∈ h.columnBelow types head i ↔ ∃ t ∈ types, ∃ row,
      h.paramsBelow t.name head t.params = .ok (some row) ∧ row[i]? = some (some x) := by
  rw [columnBelow, List.mem_filterMap]
  refine exists_congr fun t => and_congr_right fun _ => ?_
  cases hrow : h.paramsBelow t.name head t.params with
  | error fault => simp [Except.toOption]
  | ok row => cases row <;> simp [Except.toOption, Option.join_eq_some_iff]

/-- The rows of parameters that a search collects. -/
theorem rows_eq_map {α : Type} {row : TypeExpr → Except Fault (Option (List α))}
    {types : List TypeExpr} {rows : List (List α)}
    (hrun : types.mapM (fun t => do return (← row t).getD []) = .ok rows) :
    rows = types.map fun t => (row t).toOption.join.getD [] := by
  have hmap := map_eq_of_mapM (k := id) (g := fun t => (row t).toOption.join.getD []) hrun
    fun t _ r hr => by
      obtain ⟨found, hfound, hr⟩ := bind_eq_ok.mp hr
      obtain rfl := pure_eq_ok.mp hr
      simp [hfound, Except.toOption]
  simpa using hmap

/-- The common ancestors with one head combine options for the columns above. -/
theorem Linked.mem_ancestorsAt (hl : h.Linked) {e : Entry} (he : e ∈ h.entries)
    {types found : List TypeExpr} (hrun : h.ancestorsAt up down types e.name = .ok found)
    {t : TypeExpr} :
    t ∈ found ↔ ∃ combo, t = ⟨e.name, combo⟩ ∧
      Combines (ancestorPosition up down) e.params (h.columnAbove types e.name) combo := by
  obtain ⟨rows, hrows, hrun⟩ := bind_eq_ok.mp hrun
  obtain ⟨e', he', hrun⟩ := bind_eq_ok.mp hrun
  obtain rfl := Except.ok.inj ((hl.get_eq he).symm.trans he')
  obtain ⟨options, hoptions, hfound⟩ := bind_eq_ok.mp hrun
  obtain rfl := rows_eq_map hrows
  have hcombo (combo : List TypeExpr) :
      (∃ found, options = some found ∧ combo ∈ choices found) ↔ _ := mem_ancestorOptions hoptions
  simp only [List.filterMap_map, Function.comp_def] at hcombo
  unfold columnAbove
  simp only [← hcombo]
  cases options with
  | none =>
    obtain rfl := pure_eq_ok.mp hfound
    simp
  | some options =>
    obtain rfl := pure_eq_ok.mp hfound
    simp only [List.mem_map, Option.some.injEq, exists_eq_left']
    exact exists_congr fun combo => ⟨fun hc => ⟨hc.2.symm, hc.1⟩, fun hc => ⟨hc.2, hc.1.symm⟩⟩

theorem Linked.exists_ancestorAt (hl : h.Linked) {e : Entry} (he : e ∈ h.entries)
    {types found : List TypeExpr} (hrun : h.ancestorsAt up down types e.name = .ok found)
    {Q : Nat → TypeExpr → Prop}
    (hQ : ∀ (i : Nat) (p : Param) (options : List TypeExpr), e.params[i]? = some p →
      ancestorPosition up down p.variance (h.columnAbove types e.name i) = .ok options →
      ∃ x ∈ options, Q i x) :
    ∃ combo, ⟨e.name, combo⟩ ∈ found ∧ combo.length = e.arity ∧
      ∀ i x, combo[i]? = some x → Q i x := by
  obtain ⟨rows, hrows, hat⟩ := bind_eq_ok.mp hrun
  obtain ⟨e', he', hat⟩ := bind_eq_ok.mp hat
  obtain rfl := Except.ok.inj ((hl.get_eq he).symm.trans he')
  obtain ⟨options, hoptions, -⟩ := bind_eq_ok.mp hat
  obtain rfl := rows_eq_map hrows
  have hcolumn (i : Nat) : (types.map fun t => (h.paramsFor t e.name).toOption.join.getD
      []).filterMap (·[i]?) = h.columnAbove types e.name i := by
    rw [List.filterMap_map]
    rfl
  have hposition (i : Nat) (p : Param) (hp : e.params[i]? = some p) : ∃ options,
      ancestorPosition up down p.variance (h.columnAbove types e.name i) = .ok options ∧
        ∃ x ∈ options, Q i x := by
    obtain ⟨options, hat⟩ := ancestorPosition_of_options hoptions (fun j q found hq hfound => by
      obtain ⟨x, hx, -⟩ := hQ j q found hq (hcolumn j ▸ hfound)
      exact List.ne_nil_of_mem hx) hp
    rw [hcolumn] at hat
    exact ⟨options, hat, hQ i p options hp hat⟩
  obtain ⟨combo, hcombo, hgood⟩ := exists_combines hposition
  exact ⟨combo, (hl.mem_ancestorsAt he hrun).mpr ⟨combo, rfl, hcombo⟩, hcombo.1, hgood⟩

/-- The common descendants with one head combine options for the columns below, as far as they
fulfill all types. -/
theorem Linked.mem_descendantsAt (hl : h.Linked) {e : Entry} (he : e ∈ h.entries)
    {types found : List TypeExpr}
    (hrun : h.descendantsAt relation up down types e.name = .ok found) {t : TypeExpr} :
    t ∈ found ↔ (∃ combo, t = ⟨e.name, combo⟩ ∧
      Combines (descendantPosition up down) e.params (h.columnBelow types e.name) combo) ∧
      ∀ u ∈ types, relation t u = .ok true := by
  obtain ⟨rows, hrows, hrun⟩ := bind_eq_ok.mp hrun
  obtain ⟨e', he', hrun⟩ := bind_eq_ok.mp hrun
  obtain rfl := Except.ok.inj ((hl.get_eq he).symm.trans he')
  obtain ⟨options, hoptions, hfound⟩ := bind_eq_ok.mp hrun
  obtain rfl := rows_eq_map hrows
  have hcombo (combo : List TypeExpr) : combo ∈ choices options ↔ _ :=
    mem_descendantOptions hoptions
  simp only [List.filterMap_map, Function.comp_def] at hcombo
  unfold columnBelow
  simp only [mem_fulfillAll hfound, List.mem_map, ← hcombo]
  refine and_congr_left fun _ => exists_congr fun combo => ?_
  exact ⟨fun hc => ⟨hc.2.symm, hc.1⟩, fun hc => ⟨hc.2, hc.1.symm⟩⟩

/-- Good options for all positions combine to a common descendant, if what they combine to is
related to all types. -/
theorem Linked.exists_descendantAt (hl : h.Linked) {e : Entry} (he : e ∈ h.entries)
    {R : TypeExpr → TypeExpr → Prop}
    (htells : ∀ a b answer, relation a b = .ok answer → (answer = true ↔ R a b))
    {types found : List TypeExpr}
    (hrun : h.descendantsAt relation up down types e.name = .ok found) {Q : Nat → TypeExpr → Prop}
    (hQ : ∀ (i : Nat) (p : Param) (options : List TypeExpr), e.params[i]? = some p →
      descendantPosition up down p.variance (h.columnBelow types e.name i) = .ok options →
      ∃ x ∈ options, Q i x)
    (hrelated : ∀ combo : List TypeExpr, combo.length = e.arity →
      (∀ i x, combo[i]? = some x → Q i x) → ∀ u ∈ types, R ⟨e.name, combo⟩ u) :
    ∃ combo, ⟨e.name, combo⟩ ∈ found ∧ combo.length = e.arity ∧
      ∀ i x, combo[i]? = some x → Q i x := by
  obtain ⟨rows, hrows, hrun⟩ := bind_eq_ok.mp hrun
  obtain ⟨e', he', hrun⟩ := bind_eq_ok.mp hrun
  obtain rfl := Except.ok.inj ((hl.get_eq he).symm.trans he')
  obtain ⟨options, hoptions, hfound⟩ := bind_eq_ok.mp hrun
  obtain rfl := rows_eq_map hrows
  have hcolumn (i : Nat) : (types.map fun t => (h.paramsBelow t.name e.name
      t.params).toOption.join.getD []).filterMap (fun row => row[i]?.join) =
      h.columnBelow types e.name i := by
    rw [List.filterMap_map]
    rfl
  have hposition (i : Nat) (p : Param) (hp : e.params[i]? = some p) : ∃ options,
      descendantPosition up down p.variance (h.columnBelow types e.name i) = .ok options ∧
        ∃ x ∈ options, Q i x := by
    obtain ⟨options, hat⟩ := descendantPosition_of_options hoptions hp
    rw [hcolumn] at hat
    exact ⟨options, hat, hQ i p options hp hat⟩
  obtain ⟨combo, hcombo, hgood⟩ := exists_combines hposition
  have hchoice : combo ∈ choices options := by
    rw [mem_descendantOptions hoptions]
    simpa only [hcolumn] using hcombo
  exact ⟨combo, mem_fulfillAll_of_related htells hfound (List.mem_map.mpr ⟨combo, hchoice, rfl⟩)
    (hrelated combo hcombo.1 hgood), hcombo.1, hgood⟩

/-- The candidates of several searches together. -/
theorem mem_candidates {α : Type} {xs : List α} {search : α → Except Fault (List TypeExpr)}
    {lists : List (List TypeExpr)} (hrun : xs.mapM search = .ok lists) {t : TypeExpr} :
    t ∈ lists.flatten.eraseDups ↔ ∃ x ∈ xs, ∃ found, search x = .ok found ∧ t ∈ found := by
  rw [List.mem_eraseDups, List.mem_flatten]
  constructor
  · rintro ⟨found, hfound, ht⟩
    obtain ⟨x, hx, hsearch⟩ := exists_of_mapM hrun hfound
    exact ⟨x, hx, found, hsearch, ht⟩
  · rintro ⟨x, hx, found, hsearch, ht⟩
    obtain ⟨found', hfound', hsearch'⟩ := mapM_exists hrun hx
    obtain rfl := Except.ok.inj (hsearch.symm.trans hsearch')
    exact ⟨found, hfound', ht⟩

/-- What a search for nearest common ancestors that returns has done. -/
theorem ancestorsBy_cases {types found : List TypeExpr}
    (hrun : h.ancestorsBy relation up down types = .ok found) :
    (types = [] ∧ found = []) ∨
    (types.filter (!·.isWildcard) = [] ∧ found = [.wildcard]) ∨
    (∃ t, types.filter (!·.isWildcard) = [t] ∧ found = [t]) ∨
    ∃ heads lists,
      h.commonAncestorNames ((types.filter (!·.isWildcard)).map (·.name)) = .ok heads ∧
      heads.mapM (h.ancestorsAt up down (types.filter (!·.isWildcard))) = .ok lists ∧
      keepNearest relation lists.flatten.eraseDups = .ok found := by
  unfold ancestorsBy at hrun
  split at hrun
  · next hempty => exact .inl ⟨by simpa using hempty, (pure_eq_ok.mp hrun).symm⟩
  · split at hrun
    · next hnone => exact .inr (.inl ⟨hnone, (pure_eq_ok.mp hrun).symm⟩)
    · next t hone => exact .inr (.inr (.inl ⟨t, hone, (pure_eq_ok.mp hrun).symm⟩))
    · obtain ⟨heads, hheads, hrun⟩ := bind_eq_ok.mp hrun
      obtain ⟨lists, hlists, hrun⟩ := bind_eq_ok.mp hrun
      exact .inr (.inr (.inr ⟨heads, lists, hheads, hlists, hrun⟩))

/-- What a search for nearest common descendants that returns has done. -/
theorem descendantsBy_cases {types found : List TypeExpr}
    (hrun : h.descendantsBy relation up down types = .ok found) :
    (types = [] ∧ found = []) ∨
    (types.filter (!·.isWildcard) = [] ∧ found = [.wildcard]) ∨
    (∃ t, types.filter (!·.isWildcard) = [t] ∧ found = [t]) ∨
    ∃ lists,
      (h.commonDescendantNames ((types.filter (!·.isWildcard)).map (·.name))).mapM
        (h.descendantsAt relation up down (types.filter (!·.isWildcard))) = .ok lists ∧
      keepNearest (fun a b => relation b a) lists.flatten.eraseDups = .ok found := by
  unfold descendantsBy at hrun
  split at hrun
  · next hempty => exact .inl ⟨by simpa using hempty, (pure_eq_ok.mp hrun).symm⟩
  · split at hrun
    · next hnone => exact .inr (.inl ⟨hnone, (pure_eq_ok.mp hrun).symm⟩)
    · next t hone => exact .inr (.inr (.inl ⟨t, hone, (pure_eq_ok.mp hrun).symm⟩))
    · obtain ⟨lists, hlists, hrun⟩ := bind_eq_ok.mp hrun
      exact .inr (.inr (.inr ⟨lists, hlists, hrun⟩))

end Hierarchy

end TypedBlocks
