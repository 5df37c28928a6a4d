import TypedBlocks.Proofs.Nearest.Flat
import TypedBlocks.Proofs.Nearest.Unordered
import TypedBlocks.Proofs.Recursion.Ends

/-! Searches among types of which one is below, or above, all the others. A search below finds that
lowest type alone. A search above finds the highest type alone, if each ancestor is reached in one
way: at each position of its parameters the column has an end again, on the side that the variance
asks for. -/
namespace TypedBlocks.Hierarchy

variable {h : Hierarchy} {relation : TypeExpr → TypeExpr → Except Fault Bool}
  {up down : List TypeExpr → Except Fault (List TypeExpr)}
  {types found column options as bs : List TypeExpr} {a b : TypeExpr} {e : Entry}

structure Lowest (h : Hierarchy) (types : List TypeExpr) (a : TypeExpr) : Prop where
  mem : a ∈ types
  below : ∀ t ∈ types, h.Related a t

structure Highest (h : Hierarchy) (types : List TypeExpr) (b : TypeExpr) : Prop where
  mem : b ∈ types
  above : ∀ t ∈ types, h.Related t b

/-- Of ground types with a lowest one, that one alone is found. -/
def FindsLowest (h : Hierarchy) (search : List TypeExpr → Except Fault (List TypeExpr)) : Prop :=
  ∀ types found a, (∀ t ∈ types, h.Ground t) → h.Lowest types a → search types = .ok found →
    found = [a]

def FindsHighest (h : Hierarchy) (search : List TypeExpr → Except Fault (List TypeExpr)) : Prop :=
  ∀ types found b, (∀ t ∈ types, h.Ground t) → h.Highest types b → search types = .ok found →
    found = [b]

/-- The entries of a column are options for a parameter of a common descendant. -/
theorem mem_descendantPosition {v : Variance}
    (hrun : descendantPosition up down v column = .ok options) {x : TypeExpr} (hx : x ∈ column) :
    x ∈ options := by
  have hempty : column.isEmpty = false := by simpa using List.ne_nil_of_mem hx
  unfold descendantPosition at hrun
  rw [if_neg (by simp [hempty])] at hrun
  cases v with
  | co =>
    obtain ⟨found, -, hrun⟩ := bind_eq_ok.mp hrun
    obtain rfl := pure_eq_ok.mp hrun
    exact List.mem_eraseDups.mpr (List.mem_append_right found hx)
  | contra =>
    obtain ⟨found, -, hrun⟩ := bind_eq_ok.mp hrun
    obtain rfl := pure_eq_ok.mp hrun
    exact List.mem_eraseDups.mpr (List.mem_append_right found hx)
  | inv =>
    obtain rfl := pure_eq_ok.mp hrun
    exact List.mem_eraseDups.mpr hx

section Lowest

variable (htypes : ∀ t ∈ types, h.Ground t)

include htypes

/-- The head of the lowest type is the only highest name below all heads. -/
theorem Linked.heads_of_lowest (hl : h.Linked) (ha : h.Lowest types a) :
    Copies a.name (h.commonDescendantNames (types.map (·.name))) := by
  refine hl.heads_of_bottom (List.mem_map_of_mem ha.mem) fun name hname => ?_
  obtain ⟨t, ht, rfl⟩ := List.mem_map.mp hname
  exact hl.below_of_related (htypes a ha.mem) (htypes t ht) (ha.below t ht)

/-- The lowest type is among the common descendants with its head. Its own parameters are in the
columns. -/
theorem Linked.lowest_mem_descendantsAt (hl : h.Linked) (he : e ∈ h.entries)
    (htells : ∀ a b answer, relation a b = .ok answer → (answer = true ↔ h.Related a b))
    (ha : h.Lowest types ⟨e.name, as⟩)
    (hrun : h.descendantsAt relation up down types e.name = .ok found) :
    ⟨e.name, as⟩ ∈ found := by
  have has := (hl.ground_app_iff he).mp (htypes _ ha.mem)
  have heq (combo : List TypeExpr) (hlen : combo.length = e.arity)
      (hown : ∀ i x, combo[i]? = some x → as[i]? = some x) : combo = as :=
    eq_of_getElem? (hlen.trans has.1.symm) hown
  have hposition (i : Nat) (p : Param) (options : List TypeExpr) (hp : e.params[i]? = some p)
      (hat : descendantPosition up down p.variance (h.columnBelow types e.name i) = .ok options) :
      ∃ x ∈ options, as[i]? = some x := by
    have hi : i < as.length := has.1 ▸ (List.getElem?_eq_some_iff.mp hp).1
    refine ⟨as[i], mem_descendantPosition hat (mem_columnBelow.mpr ?_),
      List.getElem?_eq_getElem hi⟩
    exact ⟨_, ha.mem, as.map some, hl.paramsBelow_self he has, by simp [hi]⟩
  obtain ⟨combo, hmem, hlen, hown⟩ := hl.exists_descendantAt he htells hrun hposition
    fun combo hlen hown => heq combo hlen hown ▸ ha.below
  rwa [heq combo hlen hown] at hmem

end Lowest

/-- A search below finds the lowest type alone. -/
theorem Linked.descendants_of_lowest (hl : h.Linked) (depth : Nat) :
    h.FindsLowest (h.descendantsWithin depth) := by
  intro types found a htypes ha hrun
  cases depth with
  | zero => simp [descendantsWithin] at hrun
  | succ depth =>
    rw [descendantsWithin] at hrun
    rcases descendantsBy_ground htypes hrun with ⟨rfl, -⟩ | ⟨t, rfl, rfl⟩ |
      ⟨-, lists, hlists, hkeep⟩
    · exact absurd ha.mem List.not_mem_nil
    · rw [List.mem_singleton.mp ha.mem]
    · have htells (c d : TypeExpr) (answer : Bool)
          (hanswer : h.subtypeWithin depth c d = .ok answer) : answer = true ↔ h.Related c d :=
        hl.subtypeWithin_iff_related hanswer
      have hapart := hl.candidatesBelow_apart (hl.searches_apart depth).1
        (hl.searches_apart depth).2 htypes (fun head hhead => mem_commonDescendantNames hhead)
        hlists
      have hcandidate : a ∈ lists.flatten.eraseDups := by
        obtain ⟨e, he, as, rfl, -⟩ := hl.ground_cases (htypes a ha.mem)
        have hhead := (hl.heads_of_lowest htypes ha).mem
        obtain ⟨found', -, hat⟩ := mapM_exists hlists hhead
        exact (mem_candidates hlists).mpr
          ⟨e.name, hhead, found', hat, hl.lowest_mem_descendantsAt htypes he htells ha hat⟩
      -- every candidate is below all given types, and so below the lowest
      have hbelow (c : TypeExpr) (hc : c ∈ lists.flatten.eraseDups) : h.Related c a := by
        obtain ⟨head, hhead, found', hat, hc⟩ := (mem_candidates hlists).mp hc
        obtain ⟨e, he, rfl⟩ := mem_commonDescendantNames hhead
        exact related_of_subtypeWithin (((hl.mem_descendantsAt he hat).mp hc).2 a ha.mem)
      exact keepNearest_eq_singleton (R := fun c d => h.Related d c)
        (fun c _ d _ => htells d c)
        (fun c hc d hd hdc hcd => hapart.eq_of_related hl hc hd hcd hdc) (nodup_eraseDups _) hkeep
        hcandidate hbelow

/-- A column with an end on the side of its variance has that end as the only option. -/
theorem ancestorPosition_of_fits (hup : h.FindsHighest up) (hdown : h.FindsLowest down)
    (hcolumn : ∀ x ∈ column, h.Ground x) {v : Variance} (hb : b ∈ column)
    (hfits : ∀ x ∈ column, FitsAt h.Related v x b)
    (hrun : ancestorPosition up down v column = .ok options) : options = [b] := by
  cases v with
  | co => exact hup column options b hcolumn ⟨hb, hfits⟩ hrun
  | contra => exact hdown column options b hcolumn ⟨hb, hfits⟩ hrun
  | inv =>
    obtain rfl := pure_eq_ok.mp hrun
    have hcopies : Copies b column := ⟨List.ne_nil_of_mem hb, fun x hx =>
      (hcolumn x hx).eq_of_agrees (hcolumn b hb) (hfits x hx)⟩
    exact agreedOption_copies hcopies (hcolumn b hb).starFree.isWildcard

section Highest

variable (htypes : ∀ t ∈ types, h.Ground t)

include htypes

/-- The head of the highest type is the only lowest name above all heads. -/
theorem Linked.heads_of_highest (hl : h.Linked) (hb : h.Highest types b) {heads : List Text}
    (hheads : h.commonAncestorNames (types.map (·.name)) = .ok heads) : Copies b.name heads := by
  refine hl.heads_of_top (List.mem_map_of_mem hb.mem) (fun name hname => ?_) hheads
  obtain ⟨t, ht, rfl⟩ := List.mem_map.mp hname
  exact hl.below_of_related (htypes t ht) (htypes b hb.mem) (hb.above t ht)

/-- What the types have at a position of the highest one fits its parameter there. -/
theorem Linked.columnAbove_fits (hl : h.Linked) (hsingle : h.SinglePath) (he : e ∈ h.entries)
    (hb : h.Highest types ⟨e.name, bs⟩) {i : Nat} {p : Param} {y : TypeExpr}
    (hp : e.params[i]? = some p) (hy : bs[i]? = some y) :
    ∀ x ∈ h.columnAbove types e.name i, FitsAt h.Related p.variance x y := by
  intro x hx
  obtain ⟨t, ht, row, hrow, hget⟩ := mem_columnAbove.mp hx
  obtain ⟨e', he', ts, rfl, -⟩ := hl.ground_cases (htypes t ht)
  obtain ⟨path, hfirst, rfl⟩ := (hl.paramsFor_eq_some he').mp hrow
  obtain ⟨path', hpath', hfits⟩ := hl.view_of_related_app he' he (hb.above _ ht)
  obtain rfl := hsingle.path_eq he' ((hl.mem_paths he').mpr hpath') (List.mem_of_head? hfirst)
  exact hfits i p x y hp hget hy

/-- The highest type is all that is found with its head. -/
theorem Linked.ancestorsAt_of_highest (hl : h.Linked) (hsingle : h.SinglePath)
    (hup : h.FindsHighest up) (hdown : h.FindsLowest down) (he : e ∈ h.entries)
    (hb : h.Highest types ⟨e.name, bs⟩)
    (hrun : h.ancestorsAt up down types e.name = .ok found) : Copies ⟨e.name, bs⟩ found := by
  have hbs := (hl.ground_app_iff he).mp (htypes _ hb.mem)
  have hposition (i : Nat) (p : Param) (options : List TypeExpr) (hp : e.params[i]? = some p)
      (hat : ancestorPosition up down p.variance (h.columnAbove types e.name i) = .ok options) :
      ∃ y, bs[i]? = some y ∧ options = [y] := by
    have hi : i < bs.length := hbs.1 ▸ (List.getElem?_eq_some_iff.mp hp).1
    have hy : bs[i]? = some bs[i] := List.getElem?_eq_getElem hi
    have hmem : bs[i] ∈ h.columnAbove types e.name i :=
      mem_columnAbove.mpr ⟨_, hb.mem, bs, hl.paramsFor_self he hbs.1, hy⟩
    exact ⟨bs[i], hy, ancestorPosition_of_fits hup hdown (hl.columnAbove_ground htypes he i) hmem
      (hl.columnAbove_fits htypes hsingle he hb hp hy) hat⟩
  constructor
  · obtain ⟨combo, hmem, -⟩ := hl.exists_ancestorAt he hrun (Q := fun _ _ => True)
      fun i p options hp hat => by
        obtain ⟨y, -, rfl⟩ := hposition i p options hp hat
        exact ⟨y, List.mem_singleton_self y, trivial⟩
    exact List.ne_nil_of_mem hmem
  · intro t ht
    obtain ⟨combo, rfl, hlen, hcombo⟩ := (hl.mem_ancestorsAt he hrun).mp ht
    rw [eq_of_getElem? (hlen.trans hbs.1.symm) fun i x hx => ?_]
    have hp := List.getElem?_eq_getElem (hlen ▸ (List.getElem?_eq_some_iff.mp hx).1)
    obtain ⟨options, hat, hmem⟩ := hcombo i _ x hp hx
    obtain ⟨y, hy, rfl⟩ := hposition i _ options hp hat
    rwa [List.mem_singleton.mp hmem]

end Highest

/-- With one way to each ancestor, a search above finds the highest type alone. -/
theorem Linked.ancestors_of_highest (hl : h.Linked) (hsingle : h.SinglePath) (depth : Nat) :
    h.FindsHighest (h.ancestorsWithin depth) := by
  induction depth with
  | zero =>
    intro types found b _ _ hrun
    simp [ancestorsWithin] at hrun
  | succ depth ih =>
    intro types found b htypes hb hrun
    rw [ancestorsWithin] at hrun
    rcases ancestorsBy_ground htypes hrun with ⟨rfl, -⟩ | ⟨t, rfl, rfl⟩ |
      ⟨-, heads, lists, hheads, hlists, hkeep⟩
    · exact absurd hb.mem List.not_mem_nil
    · rw [List.mem_singleton.mp hb.mem]
    · have hcopies := hl.heads_of_highest htypes hb hheads
      obtain ⟨e, he, bs, rfl, -⟩ := hl.ground_cases (htypes b hb.mem)
      have hlist (list : List TypeExpr) (hmem : list ∈ lists) : Copies ⟨e.name, bs⟩ list := by
        obtain ⟨head, hhead, hat⟩ := exists_of_mapM hlists hmem
        obtain rfl := hcopies.eq head hhead
        exact hl.ancestorsAt_of_highest htypes hsingle ih
          (hl.descendants_of_lowest depth) he hb hat
      have hfound : Copies ⟨e.name, bs⟩ lists.flatten := by
        obtain ⟨list, hmem, -⟩ := mapM_exists hlists hcopies.mem
        refine ⟨List.ne_nil_of_mem (List.mem_flatten.mpr ⟨list, hmem, (hlist list hmem).mem⟩), ?_⟩
        intro t ht
        obtain ⟨list, hmem, ht⟩ := List.mem_flatten.mp ht
        exact (hlist list hmem).eq t ht
      rw [hfound.eraseDups_eq, keepNearest_singleton] at hkeep
      exact (Except.ok.inj hkeep).symm

/-- Of two known types without wildcards let one be found to be below the other. Whatever their
order, and however often each is given, a search below finds the lower one alone, and with one way
to each ancestor a search above finds the upper one alone. Where no type leads back to itself
through the arguments of a parent, the searches do end. -/
theorem nearest_of_subtype {definition : Definition} {h : Hierarchy}
    (hdef : ofDefinition definition = .ok h) {a b : TypeExpr}
    (ha : h.validate a = .ok () ∧ a.StarFree) (hb : h.validate b = .ok () ∧ b.StarFree)
    (hab : h.Confirms a b) {types : List TypeExpr} (htypes : ∀ t, t ∈ types ↔ t = a ∨ t = b) :
    (∀ found, h.commonDescendants types = .ok found → found = [a]) ∧
    (∀ depth found, h.descendantsWithin depth types = .ok found → found = [a]) ∧
    (h.SinglePath → (∀ found, h.commonAncestors types = .ok found → found = [b]) ∧
      ∀ depth found, h.ancestorsWithin depth types = .ok found → found = [b]) ∧
    ((∀ d ∈ h.decls, ¬h.LeadsBack d) → (∃ depth, h.descendantsWithin depth types = .ok [a]) ∧
      (h.SinglePath → ∃ depth, h.ancestorsWithin depth types = .ok [b])) := by
  have hl := ofDefinition_linked hdef
  have hga : h.Ground a := ⟨hl.validate_eq_ok.mp ha.1, ha.2⟩
  have hgb : h.Ground b := ⟨hl.validate_eq_ok.mp hb.1, hb.2⟩
  have hrel : h.Related a b := related_of_confirms hab
  have hground (t : TypeExpr) (ht : t ∈ types) : h.Ground t := by
    rcases (htypes t).mp ht with rfl | rfl
    · exact hga
    · exact hgb
  have hlowest : h.Lowest types a := by
    refine ⟨(htypes a).mpr (.inl rfl), fun t ht => ?_⟩
    rcases (htypes t).mp ht with rfl | rfl
    · exact hl.related_refl hga
    · exact hrel
  have hhighest : h.Highest types b := by
    refine ⟨(htypes b).mpr (.inr rfl), fun t ht => ?_⟩
    rcases (htypes t).mp ht with rfl | rfl
    · exact hrel
    · exact hl.related_refl hgb
  have hdown (depth : Nat) (found : List TypeExpr) :=
    hl.descendants_of_lowest depth types found a hground hlowest
  have hup (hsingle : h.SinglePath) (depth : Nat) (found : List TypeExpr) :=
    hl.ancestors_of_highest hsingle depth types found b hground hhighest
  refine ⟨fun found => hdown _ found, hdown, fun hsingle => ⟨fun found => hup hsingle _ found,
    hup hsingle⟩, fun hback => ?_⟩
  obtain ⟨cost, hcost⟩ := hl.exists_costs hback
  have hvalid (t : TypeExpr) (ht : t ∈ types) : h.Valid t := (hground t ht).valid
  refine ⟨?_, fun hsingle => ?_⟩
  · obtain ⟨depth, found, hrun⟩ := hcost.ends hl (.descendants types) hvalid
    exact ⟨depth, hdown depth found hrun ▸ hrun⟩
  · obtain ⟨depth, found, hrun⟩ := hcost.ends hl (.ancestors types) hvalid
    exact ⟨depth, hup hsingle depth found hrun ▸ hrun⟩

/-- A flipped pair and the pair that it is below, given in the other order. -/
theorem flipped_nearest_pair :
    pairHierarchy.isSubtype ⟨"flipped", [⟨"animal", []⟩, ⟨"dog", []⟩]⟩
      ⟨"pair", [⟨"animal", []⟩, ⟨"dog", []⟩]⟩ = .ok true ∧
    (∃ depth, pairHierarchy.descendantsWithin depth [⟨"pair", [⟨"animal", []⟩, ⟨"dog", []⟩]⟩,
      ⟨"flipped", [⟨"animal", []⟩, ⟨"dog", []⟩]⟩] =
      .ok [⟨"flipped", [⟨"animal", []⟩, ⟨"dog", []⟩]⟩]) ∧
    ∃ depth, pairHierarchy.ancestorsWithin depth [⟨"pair", [⟨"animal", []⟩, ⟨"dog", []⟩]⟩,
      ⟨"flipped", [⟨"animal", []⟩, ⟨"dog", []⟩]⟩] =
      .ok [⟨"pair", [⟨"animal", []⟩, ⟨"dog", []⟩]⟩] := by
  have hrun : pairHierarchy.isSubtype ⟨"flipped", [⟨"animal", []⟩, ⟨"dog", []⟩]⟩
      ⟨"pair", [⟨"animal", []⟩, ⟨"dog", []⟩]⟩ = .ok true := eq_ok_of_toOption (by decide +kernel)
  have hback : ∀ d ∈ pairHierarchy.decls, ¬pairHierarchy.LeadsBack d := by
    have hargs : ∀ d ∈ pairHierarchy.decls, ∀ parent ∈ d.parents,
        d.argumentNames parent = [] := by decide +kernel
    rintro d hd ⟨parent, hparent, name, hname, -⟩
    simp [hargs d hd parent hparent] at hname
  have hswapped (a b t : TypeExpr) : t ∈ [b, a] ↔ t = a ∨ t = b := by simp [or_comm]
  obtain ⟨-, -, -, hends⟩ := nearest_of_subtype pair_accepted
    ⟨eq_ok_of_toOption (by decide +kernel), by decide +kernel⟩
    ⟨eq_ok_of_toOption (by decide +kernel), by decide +kernel⟩ ⟨_, hrun⟩ (hswapped _ _)
  obtain ⟨hdown, hup⟩ := hends hback
  exact ⟨hrun, hdown, hup (by decide +kernel)⟩

end TypedBlocks.Hierarchy
