import TypedBlocks.Proofs.Nearest.Copies

/-! Nearest types of given types without wildcards are never equal up to wildcards only. What is
found may have wildcards, at positions that no given type determines; but such a position is left
open by all that is found with the same head. So of two candidates that are below each other neither
has to give way to the other. -/
namespace TypedBlocks

theorem eq_of_agreeAll {xs ys : List TypeExpr}
    (hagrees : List.Forall₂ (fun x y => x.agrees y = true) xs ys)
    (heq : ∀ (i : Nat) (x y : TypeExpr), xs[i]? = some x → ys[i]? = some y →
      x.agrees y = true → x = y) : xs = ys := by
  induction hagrees with
  | nil => rfl
  | cons hxy _ ih => rw [heq 0 _ _ rfl rfl hxy, ih fun i => heq (i + 1)]

namespace Hierarchy

variable {h : Hierarchy} {relation : TypeExpr → TypeExpr → Except Fault Bool}
  {up down : List TypeExpr → Except Fault (List TypeExpr)}
  {types found column options : List TypeExpr}

/-- The types found are known, and they differ from each other, and from the given types, by more
than wildcards. -/
structure Apart (h : Hierarchy) (types found : List TypeExpr) : Prop where
  valid : ∀ r ∈ found, h.Valid r
  fromFound : ∀ r ∈ found, ∀ r' ∈ found, r.agrees r' = true → r = r'
  fromGiven : ∀ r ∈ found, ∀ t ∈ types, r.agrees t = true → r = t

theorem Apart.nil : h.Apart types [] :=
  ⟨by simp, by simp, by simp⟩

theorem Apart.of_subset {kept : List TypeExpr} (happart : h.Apart types found)
    (hsub : ∀ r ∈ kept, r ∈ found) : h.Apart types kept where
  valid r hr := happart.valid r (hsub r hr)
  fromFound r hr r' hr' := happart.fromFound r (hsub r hr) r' (hsub r' hr')
  fromGiven r hr := happart.fromGiven r (hsub r hr)

/-- Types that are apart are partially ordered. -/
theorem Apart.eq_of_related (happart : h.Apart types found) (hl : h.Linked) {r r' : TypeExpr}
    (hr : r ∈ found) (hr' : r' ∈ found) (hrel : h.Related r r') (hrel' : h.Related r' r) :
    r = r' :=
  happart.fromFound r hr r' hr'
    (hl.agrees_of_related (happart.valid r hr) (happart.valid r' hr') hrel hrel')

/-- What a search for nearest common ancestors of ground types has done. -/
theorem ancestorsBy_ground (htypes : ∀ t ∈ types, h.Ground t)
    (hrun : h.ancestorsBy relation up down types = .ok found) :
    (types = [] ∧ found = []) ∨ (∃ t, types = [t] ∧ found = [t]) ∨
    (types ≠ [] ∧ ∃ heads lists, h.commonAncestorNames (types.map (·.name)) = .ok heads ∧
      heads.mapM (h.ancestorsAt up down types) = .ok lists ∧
      keepNearest relation lists.flatten.eraseDups = .ok found) := by
  cases types with
  | nil => exact .inl ⟨rfl, (pure_eq_ok.mp hrun).symm⟩
  | cons t ts =>
    have hfilter := filter_ground htypes
    rcases ancestorsBy_cases hrun with ⟨heq, -⟩ | ⟨hnone, -⟩ | ⟨u, hone, rfl⟩ |
      ⟨heads, lists, hheads, hlists, hkeep⟩
    · cases heq
    · simp [hfilter] at hnone
    · exact .inr (.inl ⟨u, hfilter.symm.trans hone, rfl⟩)
    · rw [hfilter] at hheads hlists
      exact .inr (.inr ⟨List.cons_ne_nil t ts, heads, lists, hheads, hlists, hkeep⟩)

/-- What a search for nearest common descendants of ground types has done. -/
theorem descendantsBy_ground (htypes : ∀ t ∈ types, h.Ground t)
    (hrun : h.descendantsBy relation up down types = .ok found) :
    (types = [] ∧ found = []) ∨ (∃ t, types = [t] ∧ found = [t]) ∨
    (types ≠ [] ∧ ∃ lists, (h.commonDescendantNames (types.map (·.name))).mapM
        (h.descendantsAt relation up down types) = .ok lists ∧
      keepNearest (fun a b => relation b a) lists.flatten.eraseDups = .ok found) := by
  cases types with
  | nil => exact .inl ⟨rfl, (pure_eq_ok.mp hrun).symm⟩
  | cons t ts =>
    have hfilter := filter_ground htypes
    rcases descendantsBy_cases hrun with ⟨heq, -⟩ | ⟨hnone, -⟩ | ⟨u, hone, rfl⟩ |
      ⟨lists, hlists, hkeep⟩
    · cases heq
    · simp [hfilter] at hnone
    · exact .inr (.inl ⟨u, hfilter.symm.trans hone, rfl⟩)
    · rw [hfilter] at hlists
      exact .inr (.inr ⟨List.cons_ne_nil t ts, lists, hlists, hkeep⟩)

/-- What is found for ground types differs by more than wildcards. -/
def KeepsApart (h : Hierarchy) (search : List TypeExpr → Except Fault (List TypeExpr)) : Prop :=
  ∀ types found, (∀ t ∈ types, h.Ground t) → search types = .ok found → h.Apart types found

theorem apart_singleton {t : TypeExpr} (ht : h.Valid t) : h.Apart [t] [t] where
  valid := List.forall_mem_singleton.mpr ht
  fromFound _ hr _ hr' _ := (List.mem_singleton.mp hr).trans (List.mem_singleton.mp hr').symm
  fromGiven _ hr _ hr' _ := (List.mem_singleton.mp hr).trans (List.mem_singleton.mp hr').symm

theorem Ground.eq_of_agrees {a b : TypeExpr} (ha : h.Ground a) (hb : h.Ground b)
    (hagrees : a.agrees b = true) : a = b :=
  (ha.agrees_iff hb).mp hagrees

/-- The agreed type of a column of ground types is one of them. -/
theorem mem_column_of_agreed (hcolumn : ∀ a ∈ column, h.Ground a) {a x : TypeExpr}
    (ha : a ∈ column) (hx : x ∈ agreedOption column) : x ∈ column := by
  rcases mem_agreedOption hx with hmem | ⟨-, hnone⟩
  · exact hmem
  · rw [filter_ground hcolumn] at hnone
    exact absurd ha (hnone ▸ List.not_mem_nil)

theorem agreedOption_apart (hcolumn : ∀ a ∈ column, h.Ground a) :
    h.Apart column (agreedOption column) := by
  refine ⟨fun x hx => ?_, ?_, ?_⟩
  · rcases mem_agreedOption hx with hmem | ⟨rfl, -⟩
    · exact (hcolumn x hmem).valid
    · exact .wildcard
  · intro x hx y hy hagrees
    rcases mem_agreedOption hx with hmem | ⟨rfl, hnone⟩
    · have hmem' := mem_column_of_agreed hcolumn hmem hy
      exact (hcolumn x hmem).eq_of_agrees (hcolumn y hmem') hagrees
    · rw [filter_ground hcolumn] at hnone
      rcases mem_agreedOption hy with hmem' | ⟨rfl, -⟩
      · exact absurd hmem' (hnone ▸ List.not_mem_nil)
      · rfl
  · intro x hx a ha hagrees
    have hmem := mem_column_of_agreed hcolumn ha hx
    exact (hcolumn x hmem).eq_of_agrees (hcolumn a ha) hagrees

/-- Options that were found for a column are apart from each other and from the column itself. -/
theorem apart_append_column (hcolumn : ∀ a ∈ column, h.Ground a) (happart : h.Apart column found) :
    h.Apart column (found ++ column).eraseDups := by
  refine ⟨fun x hx => ?_, ?_, ?_⟩
  · rw [List.mem_eraseDups, List.mem_append] at hx
    exact hx.elim (happart.valid x) fun hx => (hcolumn x hx).valid
  · intro x hx y hy hagrees
    rw [List.mem_eraseDups, List.mem_append] at hx hy
    rcases hx with hx | hx <;> rcases hy with hy | hy
    · exact happart.fromFound x hx y hy hagrees
    · exact happart.fromGiven x hx y hy hagrees
    · exact (happart.fromGiven y hy x hx (TypeExpr.agrees_comm x y ▸ hagrees)).symm
    · exact (hcolumn x hx).eq_of_agrees (hcolumn y hy) hagrees
  · intro x hx a ha hagrees
    rw [List.mem_eraseDups, List.mem_append] at hx
    rcases hx with hx | hx
    · exact happart.fromGiven x hx a ha hagrees
    · exact (hcolumn x hx).eq_of_agrees (hcolumn a ha) hagrees

/-- Candidates that combine options, which are apart at each position, are apart. A given type with
the head of a candidate has its own parameters in the columns. -/
theorem Linked.candidates_apart (hl : h.Linked)
    {position : Variance → List TypeExpr → Except Fault (List TypeExpr)}
    {C : Text → Nat → List TypeExpr} {search : Text → Except Fault (List TypeExpr)}
    (hsearch : ∀ e ∈ h.entries, ∀ found, search e.name = .ok found → ∀ r ∈ found,
      ∃ combo, r = ⟨e.name, combo⟩ ∧ Combines position e.params (C e.name) combo)
    (hposition : ∀ e ∈ h.entries, ∀ i v options, position v (C e.name i) = .ok options →
      h.Apart (C e.name i) options)
    (htypes : ∀ t ∈ types, h.Ground t)
    (hown : ∀ e ∈ h.entries, ∀ as, ⟨e.name, as⟩ ∈ types → ∀ i a, as[i]? = some a →
      a ∈ C e.name i)
    {heads : List Text} (hheads : ∀ head ∈ heads, ∃ e ∈ h.entries, e.name = head)
    {lists : List (List TypeExpr)} (hlists : heads.mapM search = .ok lists) :
    h.Apart types lists.flatten.eraseDups := by
  have hcombo (r : TypeExpr) (hr : r ∈ lists.flatten.eraseDups) : ∃ e ∈ h.entries, ∃ combo,
      r = ⟨e.name, combo⟩ ∧ Combines position e.params (C e.name) combo := by
    obtain ⟨head, hhead, found, hfound, hr⟩ := (mem_candidates hlists).mp hr
    obtain ⟨e, he, rfl⟩ := hheads head hhead
    exact ⟨e, he, hsearch e he found hfound r hr⟩
  have hparam {e : Entry} {combo : List TypeExpr} {i : Nat} {x : TypeExpr}
      (hlen : combo.length = e.params.length) (hx : combo[i]? = some x) :
      ∃ p, e.params[i]? = some p :=
    ⟨_, List.getElem?_eq_getElem (hlen ▸ (List.getElem?_eq_some_iff.mp hx).1)⟩
  refine ⟨fun r hr => ?_, ?_, ?_⟩
  · obtain ⟨e, he, combo, rfl, hlen, hoptions⟩ := hcombo r hr
    refine .app he hlen fun x hx => ?_
    obtain ⟨i, hi⟩ := List.mem_iff_getElem?.mp hx
    obtain ⟨p, hp⟩ := hparam hlen hi
    obtain ⟨options, hrun, hmem⟩ := hoptions i p x hp hi
    exact (hposition e he i p.variance options hrun).valid x hmem
  · intro r hr r' hr' hagrees
    obtain ⟨e, he, combo, rfl, hlen, hoptions⟩ := hcombo r hr
    obtain ⟨e', he', combo', rfl, -, hoptions'⟩ := hcombo r' hr'
    obtain ⟨hname, hparams⟩ := (TypeExpr.agrees_app (hl.app_not_wildcard he combo)
      (hl.app_not_wildcard he' combo')).mp hagrees
    obtain rfl := hl.entry_unique he he' hname
    rw [eq_of_agreeAll hparams fun i x y hx hy hxy => ?_]
    obtain ⟨p, hp⟩ := hparam hlen hx
    obtain ⟨options, hrun, hmem⟩ := hoptions i p x hp hx
    obtain ⟨options', hrun', hmem'⟩ := hoptions' i p y hp hy
    obtain rfl := Except.ok.inj (hrun.symm.trans hrun')
    exact (hposition e he i p.variance options hrun).fromFound x hmem y hmem' hxy
  · intro r hr t ht hagrees
    obtain ⟨e, he, combo, rfl, hlen, hoptions⟩ := hcombo r hr
    obtain ⟨e', he', as, rfl, -⟩ := hl.ground_cases (htypes t ht)
    obtain ⟨hname, hparams⟩ := (TypeExpr.agrees_app (hl.app_not_wildcard he combo)
      (hl.app_not_wildcard he' as)).mp hagrees
    obtain rfl := hl.entry_unique he he' hname
    rw [eq_of_agreeAll hparams fun i x a hx ha hxa => ?_]
    obtain ⟨p, hp⟩ := hparam hlen hx
    obtain ⟨options, hrun, hmem⟩ := hoptions i p x hp hx
    exact (hposition e he i p.variance options hrun).fromGiven x hmem a (hown e he as ht i a ha) hxa

section Step

variable (hup : h.KeepsApart up) (hdown : h.KeepsApart down)

include hup hdown

theorem ancestorPosition_apart (hcolumn : ∀ a ∈ column, h.Ground a) {v : Variance}
    (hrun : ancestorPosition up down v column = .ok options) : h.Apart column options := by
  cases v with
  | co => exact hup column options hcolumn hrun
  | contra => exact hdown column options hcolumn hrun
  | inv =>
    obtain rfl := pure_eq_ok.mp hrun
    exact agreedOption_apart hcolumn

theorem descendantPosition_apart (hcolumn : ∀ a ∈ column, h.Ground a) {v : Variance}
    (hrun : descendantPosition up down v column = .ok options) : h.Apart column options := by
  unfold descendantPosition at hrun
  split at hrun
  · next hempty =>
    obtain rfl := pure_eq_ok.mp hrun
    obtain rfl : column = [] := by simpa using hempty
    have hopen := apart_singleton (h := h) .wildcard
    exact ⟨hopen.valid, hopen.fromFound, by simp⟩
  · cases v with
    | co =>
      obtain ⟨found, hfound, hrun⟩ := bind_eq_ok.mp hrun
      obtain rfl := pure_eq_ok.mp hrun
      exact apart_append_column hcolumn (hdown column found hcolumn hfound)
    | contra =>
      obtain ⟨found, hfound, hrun⟩ := bind_eq_ok.mp hrun
      obtain rfl := pure_eq_ok.mp hrun
      exact apart_append_column hcolumn (hup column found hcolumn hfound)
    | inv =>
      obtain rfl := pure_eq_ok.mp hrun
      exact apart_append_column hcolumn .nil

/-- The candidates for common ancestors of ground types are apart. -/
theorem Linked.candidatesAbove_apart (hl : h.Linked) (htypes : ∀ t ∈ types, h.Ground t)
    {heads : List Text} (hheads : ∀ head ∈ heads, ∃ e ∈ h.entries, e.name = head)
    {lists : List (List TypeExpr)}
    (hlists : heads.mapM (h.ancestorsAt up down types) = .ok lists) :
    h.Apart types lists.flatten.eraseDups := by
  refine hl.candidates_apart (C := h.columnAbove types)
    (fun e he found hrun r hr => (hl.mem_ancestorsAt he hrun).mp hr)
    (fun e he i v options hrun =>
      ancestorPosition_apart hup hdown (hl.columnAbove_ground htypes he i) hrun)
    htypes (fun e he as has i a ha => mem_columnAbove.mpr ?_) hheads hlists
  have hlen := ((hl.ground_app_iff he).mp (htypes _ has)).1
  exact ⟨_, has, as, hl.paramsFor_self he hlen, ha⟩

/-- The candidates for common descendants of ground types are apart. -/
theorem Linked.candidatesBelow_apart (hl : h.Linked) (htypes : ∀ t ∈ types, h.Ground t)
    {heads : List Text} (hheads : ∀ head ∈ heads, ∃ e ∈ h.entries, e.name = head)
    {lists : List (List TypeExpr)}
    (hlists : heads.mapM (h.descendantsAt relation up down types) = .ok lists) :
    h.Apart types lists.flatten.eraseDups := by
  refine hl.candidates_apart (C := h.columnBelow types)
    (fun e he found hrun r hr => ((hl.mem_descendantsAt he hrun).mp hr).1)
    (fun e he i v options hrun =>
      descendantPosition_apart hup hdown (hl.columnBelow_ground htypes he i) hrun)
    htypes (fun e he as has i a ha => mem_columnBelow.mpr ?_) hheads hlists
  have hparams := (hl.ground_app_iff he).mp (htypes _ has)
  exact ⟨_, has, as.map some, hl.paramsBelow_self he hparams, by rw [List.getElem?_map, ha]; rfl⟩

theorem Linked.ancestorsBy_apart (hl : h.Linked) :
    h.KeepsApart (h.ancestorsBy relation up down) := by
  intro types found htypes hrun
  rcases ancestorsBy_ground htypes hrun with ⟨rfl, rfl⟩ | ⟨t, rfl, rfl⟩ |
    ⟨hne, heads, lists, hheads, hlists, hkeep⟩
  · exact .nil
  · exact apart_singleton (htypes t List.mem_cons_self).valid
  · refine (hl.candidatesAbove_apart hup hdown htypes (fun head hhead => ?_) hlists).of_subset
      fun r hr => mem_of_keepNearest hkeep hr
    obtain ⟨hne, hbelow, -⟩ := (hl.commonAncestorNames_iff hheads).mp hhead
    obtain ⟨name, hname⟩ := List.exists_mem_of_ne_nil _ hne
    exact hl.below_declared (hbelow name hname)

theorem Linked.descendantsBy_apart (hl : h.Linked) :
    h.KeepsApart (h.descendantsBy relation up down) := by
  intro types found htypes hrun
  rcases descendantsBy_ground htypes hrun with ⟨rfl, rfl⟩ | ⟨t, rfl, rfl⟩ |
    ⟨hne, lists, hlists, hkeep⟩
  · exact .nil
  · exact apart_singleton (htypes t List.mem_cons_self).valid
  · exact (hl.candidatesBelow_apart hup hdown htypes
      (fun head hhead => mem_commonDescendantNames hhead) hlists).of_subset
      fun r hr => mem_of_keepNearest hkeep hr

end Step

theorem Linked.searches_apart (hl : h.Linked) (depth : Nat) :
    h.KeepsApart (h.ancestorsWithin depth) ∧ h.KeepsApart (h.descendantsWithin depth) := by
  induction depth with
  | zero =>
    constructor
    all_goals
      intro types found _ hrun
      simp [ancestorsWithin, descendantsWithin] at hrun
  | succ depth ih =>
    constructor
    · intro types found htypes hrun
      rw [ancestorsWithin] at hrun
      exact hl.ancestorsBy_apart ih.1 ih.2 types found htypes hrun
    · intro types found htypes hrun
      rw [descendantsWithin] at hrun
      exact hl.descendantsBy_apart ih.1 ih.2 types found htypes hrun

end Hierarchy

end TypedBlocks
