import TypedBlocks.Hierarchy.Query
import TypedBlocks.Proofs.Hierarchy.Closure
import TypedBlocks.Proofs.Hierarchy.Reordered
import TypedBlocks.Proofs.Nearest.Copies
import TypedBlocks.Proofs.Nearest.Places

/-! Nearest common names, and the nearest common types of a hierarchy without parameters, whose
types are names alone. Keeping only the nearest names loses none of the others: declared parents
form no circle, so a common ancestor that is not lowest leads down to one that is, and a common
descendant that is not highest leads up to one that is. -/
namespace TypedBlocks

open Json (Value)

def TypeExpr.bare (name : Text) : TypeExpr :=
  ⟨name, []⟩

theorem TypeExpr.map_name_bare (names : List Text) : (names.map bare).map name = names :=
  List.map_map.trans (List.map_id names)

namespace Hierarchy

open Declaration (HasParent)

variable {h : Hierarchy} {names heads : List Text}

/-- The names are common ones of which none is nearer than another. Every common name is among them
or has one of them that is nearer. They stand in declaration order. -/
structure NearestNames (h : Hierarchy) (Common : Text → Prop) (Nearer : Text → Text → Prop)
    (found : List Text) : Prop where
  common : ∀ name ∈ found, Common name
  nearest : ∀ name, Common name → ∃ head ∈ found, name = head ∨ Nearer head name
  unrelated : ∀ a ∈ found, ∀ b ∈ found, ¬Nearer a b
  sublist : found.Sublist h.names

section Above

/-- Searching the names above declared ones returns. -/
theorem Linked.commonAncestorNames_returns (hl : h.Linked) (hnames : ∀ n ∈ names, n ∈ h.names) :
    ∃ heads, h.commonAncestorNames names = .ok heads := by
  have hget (n : Text) (hn : n ∈ names) : ∃ e, h.get n = .ok e := by
    obtain ⟨e, he, rfl⟩ := mem_names.mp (hnames n hn)
    exact ⟨e, hl.get_eq he⟩
  obtain ⟨entries, hentries⟩ := mapM_returns hget
  unfold commonAncestorNames
  split
  · exact ⟨[], rfl⟩
  · exact ⟨_, bind_eq_ok.mpr ⟨entries, hentries, rfl⟩⟩

theorem commonAncestorNames_sublist (hrun : h.commonAncestorNames names = .ok heads) :
    heads.Sublist h.names := by
  unfold commonAncestorNames at hrun
  split at hrun
  · obtain rfl := pure_eq_ok.mp hrun
    exact List.nil_sublist _
  · obtain ⟨types, -, hrun⟩ := bind_eq_ok.mp hrun
    obtain rfl := pure_eq_ok.mp hrun
    exact (List.filter_sublist.trans List.filter_sublist).map _

theorem Linked.nearestNames_above (hl : h.Linked) (hne : names ≠ [])
    (hnames : ∀ n ∈ names, n ∈ h.names) (hrun : h.commonAncestorNames names = .ok heads) :
    h.NearestNames (fun name => ∀ n ∈ names, Relation.ReflTransGen (HasParent h.decls) n name)
      (Relation.TransGen (HasParent h.decls)) heads where
  common := fun head hhead n hn =>
    (hl.below_iff_reflTransGen.mp (((hl.commonAncestorNames_iff hrun).mp hhead).2.1 n hn)).2
  nearest := by
    intro name hcommon
    have hbelow (n : Text) (hn : n ∈ names) : h.Below n name :=
      hl.below_iff_reflTransGen.mpr ⟨hnames n hn, hcommon n hn⟩
    obtain ⟨head, hhead, habove⟩ := hl.exists_nearest_name hne hrun hbelow
    exact ⟨head, hhead, hl.eq_or_transGen_of_below habove⟩
  unrelated := by
    intro a ha b hb hsteps
    obtain ⟨-, habove, -⟩ := (hl.commonAncestorNames_iff hrun).mp ha
    obtain ⟨-, -, hlowest⟩ := (hl.commonAncestorNames_iff hrun).mp hb
    obtain rfl := hlowest a habove (hl.below_of_transGen hsteps)
    exact hl.not_transGen_self hsteps
  sublist := commonAncestorNames_sublist hrun

end Above

section Below

theorem commonDescendantNames_sublist (h : Hierarchy) (names : List Text) :
    (h.commonDescendantNames names).Sublist h.names := by
  unfold commonDescendantNames highest
  split
  · exact List.nil_sublist _
  · exact (List.filter_sublist.trans List.filter_sublist).map _

theorem Linked.nearestNames_below (hl : h.Linked) (hne : names ≠ [])
    (hnames : ∀ n ∈ names, n ∈ h.names) :
    h.NearestNames (fun name => ∀ n ∈ names, Relation.ReflTransGen (HasParent h.decls) name n)
      (fun low name => Relation.TransGen (HasParent h.decls) name low)
      (h.commonDescendantNames names) where
  common := fun head hhead n hn =>
    (hl.below_iff_reflTransGen.mp ((hl.commonDescendantNames_iff.mp hhead).2.1 n hn)).2
  nearest := by
    intro name hcommon
    have hbelow (n : Text) (hn : n ∈ names) : h.Below name n := by
      rcases Relation.reflTransGen_iff_eq_or_transGen.mp (hcommon n hn) with rfl | hsteps
      · exact hl.below_iff_reflTransGen.mpr ⟨hnames n hn, .refl⟩
      · exact hl.below_of_transGen hsteps
    obtain ⟨head, hhead, hbelow⟩ := hl.exists_highest_name hne hbelow
    exact ⟨head, hhead, (hl.eq_or_transGen_of_below hbelow).imp_left Eq.symm⟩
  unrelated := by
    intro a ha b hb hsteps
    obtain ⟨-, hbelow, -⟩ := hl.commonDescendantNames_iff.mp ha
    obtain ⟨-, -, hhighest⟩ := hl.commonDescendantNames_iff.mp hb
    obtain rfl := hhighest a hbelow (hl.below_of_transGen hsteps)
    exact hl.not_transGen_self hsteps
  sublist := h.commonDescendantNames_sublist names

end Below

section Given

/-- Declared names are in lower case. -/
theorem lower_of_mem_names {definition : Definition} (hdef : ofDefinition definition = .ok h)
    {name : Text} (hname : name ∈ h.names) : Text.lower name = name := by
  obtain ⟨entries, decls, rfl, hdecls, hrun⟩ := exists_of_ofDefinition hdef
  obtain ⟨edges, order, rfl⟩ := exists_link hrun
  rw [names_link] at hname
  obtain ⟨d, hd, rfl⟩ := List.mem_map.mp hname
  exact Declaration.lower_of_reads (Declaration.readEntries_iff.mp hdecls).1 d hd

/-- Names given as texts in lower case are searched as they are. -/
theorem Linked.nearestAncestorNames_eq (hl : h.Linked) (hlower : ∀ n ∈ names, Text.lower n = n)
    (hnames : ∀ n ∈ names, n ∈ h.names) :
    h.nearestAncestorNames (names.map .text) = h.commonAncestorNames names := by
  have hfound (n : Text) (hn : n ∈ names) : ∃ e, h.lookup (.text n) = .ok e ∧ e.name = n := by
    obtain ⟨e, he, rfl⟩ := mem_names.mp (hnames n hn)
    exact ⟨e, hl.lookup_text he (hlower _ hn), rfl⟩
  obtain ⟨entries, hentries⟩ := mapM_returns fun n hn => (hfound n hn).imp fun _ he => he.1
  have heq : entries.map (·.name) = names.map id := by
    refine map_eq_of_mapM hentries fun n hn e he => ?_
    obtain ⟨e', he', hname⟩ := hfound n hn
    rwa [Except.ok.inj (he.symm.trans he')]
  rw [nearestAncestorNames, List.mapM_map, Function.comp_def, hentries, ok_bind, heq, List.map_id]

theorem reachesAll_eq (e : Entry) (hlower : ∀ n ∈ names, Text.lower n = n) :
    e.reachesAll (names.map .text) = .ok (names.all e.reaches) := by
  unfold Entry.reachesAll
  induction names with
  | nil => rfl
  | cons n names ih =>
    obtain ⟨hn, hrest⟩ := List.forall_mem_cons.mp hlower
    rw [List.map_cons, List.allM_cons, ih hrest, Entry.reachesNamed, askNamed, nameOf, hn,
      List.all_cons]
    cases hreaches : e.reaches n <;> simp [hreaches, pure, Except.pure]

theorem nearestDescendantNames_eq (hlower : ∀ n ∈ names, Text.lower n = n) :
    h.nearestDescendantNames (names.map .text) = .ok (h.commonDescendantNames names) := by
  rw [nearestDescendantNames, commonDescendantNames, List.isEmpty_map,
    filterM_ok fun e _ => reachesAll_eq e hlower, ok_bind]
  split <;> rfl

end Given

section Plain

variable {up down : List TypeExpr → Except Fault (List TypeExpr)}
  {relation : TypeExpr → TypeExpr → Except Fault Bool} {e : Entry}

def Plain (h : Hierarchy) : Prop :=
  ∀ e ∈ h.entries, e.params = []

instance (h : Hierarchy) : Decidable h.Plain :=
  inferInstanceAs (Decidable (∀ e ∈ h.entries, e.params = []))

theorem Linked.bare_not_wildcard (hl : h.Linked) (he : e ∈ h.entries) :
    (TypeExpr.bare e.name).isWildcard = false :=
  hl.app_not_wildcard he []

/-- Without parameters one type is a subtype of another if it reaches its name. -/
theorem Plain.compareBy_eq (hplain : h.Plain) (hl : h.Linked) {a b : Entry} (ha : a ∈ h.entries)
    (hb : b ∈ h.entries) :
    h.compareBy relation (.bare a.name) (.bare b.name) = .ok (a.reaches b.name) := by
  have hpaths : a.reaches b.name = true ↔ a.paths b.name ≠ [] := by
    rw [hl.reaches_iff ha]
    constructor
    · intro hbelow
      obtain ⟨path, hpath⟩ := hl.path_of_below ha hbelow
      exact List.ne_nil_of_mem ((hl.mem_paths ha).mpr hpath)
    · intro hne
      obtain ⟨path, hmem⟩ := List.exists_mem_of_ne_nil _ hne
      exact below_of_path ((hl.mem_paths ha).mp hmem)
  unfold compareBy
  rw [hl.bare_not_wildcard ha, hl.bare_not_wildcard hb, Bool.or_self, if_neg Bool.false_ne_true]
  refine bind_eq_ok.mpr ⟨b, hl.get_eq hb, bind_eq_ok.mpr ⟨_, hl.allParamsFor_eq ha [] b.name, ?_⟩⟩
  rw [hplain b hb]
  cases hcase : a.paths b.name with
  | nil =>
    have hnot : a.reaches b.name = false := by
      rw [← Bool.not_eq_true, hpaths]
      simp [hcase]
    rw [hnot]
    rfl
  | cons path paths =>
    rw [hpaths.mpr (by simp [hcase])]
    rfl

theorem Plain.ancestorsAt_eq (hplain : h.Plain) (hl : h.Linked) (he : e ∈ h.entries)
    (hnames : ∀ n ∈ names, n ∈ h.names) :
    h.ancestorsAt up down (names.map .bare) e.name = .ok [.bare e.name] := by
  have hrow : ∀ t ∈ names.map TypeExpr.bare,
      ∃ row, (do return (← h.paramsFor t e.name).getD [] : Except Fault (List TypeExpr)) =
        .ok row := by
    intro t ht
    obtain ⟨n, hn, rfl⟩ := List.mem_map.mp ht
    obtain ⟨below, hbelow, rfl⟩ := mem_names.mp (hnames n hn)
    exact ⟨_, bind_eq_ok.mpr ⟨_, hl.paramsFor_eq hbelow [] e.name, rfl⟩⟩
  obtain ⟨rows, hrows⟩ := mapM_returns hrow
  refine bind_eq_ok.mpr ⟨rows, hrows, bind_eq_ok.mpr ⟨e, hl.get_eq he, ?_⟩⟩
  rw [hplain e he]
  rfl

theorem Plain.descendantsAt_eq (hplain : h.Plain) (hl : h.Linked) (he : e ∈ h.entries)
    (hnames : ∀ n ∈ names, n ∈ h.names)
    (hfits : ∀ n ∈ names, relation (.bare e.name) (.bare n) = .ok true) :
    h.descendantsAt relation up down (names.map .bare) e.name = .ok [.bare e.name] := by
  have hrow : ∀ t ∈ names.map TypeExpr.bare,
      ∃ row, (do return (← h.paramsBelow t.name e.name t.params).getD [] :
        Except Fault (List (Option TypeExpr))) = .ok row := by
    intro t ht
    obtain ⟨n, hn, rfl⟩ := List.mem_map.mp ht
    obtain ⟨above, habove, rfl⟩ := mem_names.mp (hnames n hn)
    have hbelow : ∃ row, h.paramsBelow above.name e.name [] = .ok row :=
      ⟨_, bind_eq_ok.mpr ⟨above, hl.get_eq habove, bind_eq_ok.mpr ⟨e, hl.get_eq he, rfl⟩⟩⟩
    obtain ⟨row, hrow⟩ := hbelow
    exact ⟨_, bind_eq_ok.mpr ⟨row, hrow, rfl⟩⟩
  have hall : (names.map TypeExpr.bare).allM (relation (.bare e.name)) = .ok true := by
    rw [allM_eq_ok_true]
    intro t ht
    obtain ⟨n, hn, rfl⟩ := List.mem_map.mp ht
    exact hfits n hn
  obtain ⟨rows, hrows⟩ := mapM_returns hrow
  refine bind_eq_ok.mpr ⟨rows, hrows, bind_eq_ok.mpr ⟨e, hl.get_eq he, ?_⟩⟩
  rw [hplain e he]
  refine bind_eq_ok.mpr ⟨[], rfl, ?_⟩
  change fulfillAll relation (names.map .bare) [.bare e.name] = .ok [.bare e.name]
  rw [fulfillAll, hall, ok_bind]
  rfl

/-- Heads that each give one type, none of them nearer than another, give those types. -/
theorem keepNearest_of_heads {search : Text → Except Fault (List TypeExpr)}
    {nearer : TypeExpr → TypeExpr → Except Fault Bool} (hnodup : heads.Nodup)
    (hsearch : ∀ head ∈ heads, search head = .ok [.bare head])
    (hapart : ∀ a ∈ heads, ∀ b ∈ heads, a ≠ b → nearer (.bare a) (.bare b) = .ok false) :
    (do
      let found ← heads.mapM search
      keepNearest nearer found.flatten.eraseDups) = .ok (heads.map .bare) := by
  have hfound : heads.mapM search = .ok (heads.map fun head => [.bare head]) := by
    rw [mapM_eq_ok, List.forall₂_map_right_iff, List.forall₂_same]
    exact hsearch
  have hflat : (heads.map fun head => [TypeExpr.bare head]).flatten =
      heads.map TypeExpr.bare := by
    rw [← List.flatMap_def]
    exact List.flatMap_pure_eq_map _ heads
  have htypes : (heads.map TypeExpr.bare).Nodup :=
    hnodup.map fun a b heq => congrArg TypeExpr.name heq
  rw [hfound, ok_bind, hflat, eraseDups_of_nodup htypes]
  refine keepNearest_eq_self (List.pairwise_map.mpr (hnodup.pairwise_of_forall_ne ?_))
  exact fun a ha b hb hne => ⟨hapart a ha b hb hne, hapart b hb a ha hne.symm⟩

/-- Declared names alone are no wildcards. -/
theorem Linked.filter_names (hl : h.Linked) (hnames : ∀ n ∈ names, n ∈ h.names) :
    (names.map TypeExpr.bare).filter (!·.isWildcard) = names.map .bare := by
  rw [List.filter_eq_self]
  intro t ht
  obtain ⟨n, hn, rfl⟩ := List.mem_map.mp ht
  obtain ⟨e, he, rfl⟩ := mem_names.mp (hnames n hn)
  simp [hl.bare_not_wildcard he]

theorem Linked.reaches_eq_false (hl : h.Linked) (he : e ∈ h.entries) {name : Text}
    (hne : e.name ≠ name) (hnot : ¬Relation.TransGen (HasParent h.decls) e.name name) :
    e.reaches name = false := by
  rw [← Bool.not_eq_true, hl.reaches_iff he]
  intro hbelow
  rcases hl.eq_or_transGen_of_below hbelow with heq | hsteps
  · exact hne heq.symm
  · exact hnot hsteps

section Searches

variable (hplain : h.Plain) (hl : h.Linked) (hne : names ≠ []) (hnames : ∀ n ∈ names, n ∈ h.names)
  (hrelation : ∀ a ∈ h.entries, ∀ b ∈ h.entries,
    relation (.bare a.name) (.bare b.name) = .ok (a.reaches b.name))

include hplain hl hne hnames hrelation

theorem Plain.ancestorsBy_eq (hrun : h.commonAncestorNames names = .ok heads) :
    h.ancestorsBy relation up down (names.map .bare) = .ok (heads.map .bare) := by
  have hnearest := hl.nearestNames_above hne hnames hrun
  have hnodup := hl.names_nodup.sublist hnearest.sublist
  have hdeclared (a : Text) (ha : a ∈ heads) : ∃ e ∈ h.entries, e.name = a :=
    mem_names.mp (hnearest.sublist.mem ha)
  have hmany : (do
      let found ← heads.mapM (h.ancestorsAt up down (names.map .bare))
      keepNearest relation found.flatten.eraseDups) = .ok (heads.map .bare) := by
    refine keepNearest_of_heads hnodup (fun head hhead => ?_) fun a ha b hb hab => ?_
    · obtain ⟨e, he, rfl⟩ := hdeclared head hhead
      exact hplain.ancestorsAt_eq hl he hnames
    · have hnot := hnearest.unrelated a ha b hb
      obtain ⟨e, he, rfl⟩ := hdeclared a ha
      obtain ⟨e', he', rfl⟩ := hdeclared b hb
      rw [hrelation e he e' he', hl.reaches_eq_false he hab hnot]
  have hfilter := hl.filter_names hnames
  -- A single type is answered without a search, so its names have to be shown to be itself alone.
  obtain ⟨n, rest, rfl⟩ := List.exists_cons_of_ne_nil hne
  cases rest with
  | nil =>
    obtain ⟨e, he, rfl⟩ := mem_names.mp (hnames n (List.mem_singleton_self n))
    have hcopies : Copies e.name heads := hl.heads_of_top (List.mem_singleton_self e.name)
      (List.forall_mem_singleton.mpr (below_of_path (.self he))) hrun
    rw [hcopies.eq_singleton hnodup]
    simp only [ancestorsBy, hfilter]
    rfl
  | cons n' rest =>
    simp only [ancestorsBy, hfilter]
    refine bind_eq_ok.mpr ⟨heads, ?_, hmany⟩
    exact (congrArg h.commonAncestorNames (TypeExpr.map_name_bare _)).trans hrun

theorem Plain.descendantsBy_eq :
    h.descendantsBy relation up down (names.map .bare) =
      .ok ((h.commonDescendantNames names).map .bare) := by
  have hnearest := hl.nearestNames_below hne hnames
  have hnodup := hl.names_nodup.sublist hnearest.sublist
  have hdeclared (a : Text) (ha : a ∈ h.commonDescendantNames names) :
      ∃ e ∈ h.entries, e.name = a := mem_names.mp (hnearest.sublist.mem ha)
  have hmany : (do
      let found ← (h.commonDescendantNames ((names.map TypeExpr.bare).map TypeExpr.name)).mapM
        (h.descendantsAt relation up down (names.map .bare))
      keepNearest (fun a b => relation b a) found.flatten.eraseDups) =
        .ok ((h.commonDescendantNames names).map .bare) := by
    rw [TypeExpr.map_name_bare]
    refine keepNearest_of_heads hnodup (fun head hhead => ?_) fun a ha b hb hab => ?_
    · have hbelow := (hl.commonDescendantNames_iff.mp hhead).2.1
      obtain ⟨e, he, rfl⟩ := hdeclared head hhead
      refine hplain.descendantsAt_eq hl he hnames fun n hn => ?_
      obtain ⟨e', he', rfl⟩ := mem_names.mp (hnames n hn)
      rw [hrelation e he e' he', (hl.reaches_iff he).mpr (hbelow e'.name hn)]
    · have hnot := hnearest.unrelated a ha b hb
      obtain ⟨e, he, rfl⟩ := hdeclared a ha
      obtain ⟨e', he', rfl⟩ := hdeclared b hb
      rw [hrelation e' he' e he, hl.reaches_eq_false he' (Ne.symm hab) hnot]
  have hfilter := hl.filter_names hnames
  obtain ⟨n, rest, rfl⟩ := List.exists_cons_of_ne_nil hne
  cases rest with
  | nil =>
    obtain ⟨e, he, rfl⟩ := mem_names.mp (hnames n (List.mem_singleton_self n))
    have hcopies := hl.heads_of_bottom (List.mem_singleton_self e.name)
      (List.forall_mem_singleton.mpr (below_of_path (.self he)))
    rw [hcopies.eq_singleton hnodup]
    simp only [descendantsBy, hfilter]
    rfl
  | cons n' rest =>
    simp only [descendantsBy, hfilter]
    exact hmany

end Searches

end Plain

/-- Declared names, at least one of them, have nearest common ancestors and nearest common
descendants: common ones, none of them an ancestor of another, in declaration order, such that
every common ancestor is one of the nearest or an ancestor of one, and every common descendant one
of the nearest or a descendant of one. In a hierarchy without parameters the searches among types
find the same names. -/
theorem nearest_names {definition : Definition} {h : Hierarchy}
    (hdef : ofDefinition definition = .ok h) {names : List Text} (hne : names ≠ [])
    (hnames : ∀ n ∈ names, n ∈ h.names) :
    ∃ above below,
      h.nearestAncestorNames (names.map .text) = .ok above ∧
      h.NearestNames (fun name => ∀ n ∈ names, Relation.ReflTransGen (HasParent h.decls) n name)
        (Relation.TransGen (HasParent h.decls)) above ∧
      h.nearestDescendantNames (names.map .text) = .ok below ∧
      h.NearestNames (fun name => ∀ n ∈ names, Relation.ReflTransGen (HasParent h.decls) name n)
        (fun low name => Relation.TransGen (HasParent h.decls) name low) below ∧
      (h.Plain →
        h.commonAncestors (names.map .bare) = .ok (above.map .bare) ∧
        h.commonDescendants (names.map .bare) = .ok (below.map .bare)) := by
  have hl := ofDefinition_linked hdef
  have hlower (n : Text) (hn : n ∈ names) := lower_of_mem_names hdef (hnames n hn)
  obtain ⟨above, hrun⟩ := hl.commonAncestorNames_returns hnames
  refine ⟨above, h.commonDescendantNames names, ?_, hl.nearestNames_above hne hnames hrun,
    nearestDescendantNames_eq hlower, hl.nearestNames_below hne hnames, fun hplain => ?_⟩
  · rw [hl.nearestAncestorNames_eq hlower hnames, hrun]
  · have hrelation (depth : Nat) (a : Entry) (ha : a ∈ h.entries) (b : Entry)
        (hb : b ∈ h.entries) :
        h.subtypeWithin (depth + 1) (.bare a.name) (.bare b.name) = .ok (a.reaches b.name) :=
      hplain.compareBy_eq hl ha hb
    -- The search spends one level and a comparison another; without parameters it asks no more.
    have hdepth (n : Nat) : allowance + n = 998 + n + 1 + 1 := by
      rw [allowance]
      omega
    rw [commonAncestors, commonDescendants, hdepth, ancestorsWithin, descendantsWithin]
    exact ⟨hplain.ancestorsBy_eq hl hne hnames (hrelation _) hrun,
      hplain.descendantsBy_eq hl hne hnames (hrelation _)⟩

/-- Two types with the same two parents: both parents are nearest to them, and they to both
parents. The animal, which all of them lead to, is no nearest one. -/
theorem bat_nearest_names :
    batHierarchy.nearestAncestorNames [.text "bat", .text "griffin"] = .ok ["mammal", "flyer"] ∧
    batHierarchy.commonAncestors [.bare "bat", .bare "griffin"] =
      .ok [.bare "mammal", .bare "flyer"] ∧
    batHierarchy.nearestDescendantNames [.text "flyer", .text "mammal"] =
      .ok ["bat", "griffin"] ∧
    batHierarchy.commonDescendants [.bare "flyer", .bare "mammal"] =
      .ok [.bare "bat", .bare "griffin"] := by
  have hplain : batHierarchy.Plain := by decide +kernel
  have hlow : ∀ n ∈ (["bat", "griffin"] : List Text), n ∈ batHierarchy.names := by decide +kernel
  have hhigh : ∀ n ∈ (["flyer", "mammal"] : List Text), n ∈ batHierarchy.names := by
    decide +kernel
  have hup : batHierarchy.nearestAncestorNames [.text "bat", .text "griffin"] =
      .ok ["mammal", "flyer"] := eq_ok_of_toOption (by decide +kernel)
  have hdown : batHierarchy.nearestDescendantNames [.text "flyer", .text "mammal"] =
      .ok ["bat", "griffin"] := eq_ok_of_toOption (by decide +kernel)
  obtain ⟨above, _, habove, -, -, -, hfound⟩ := nearest_names bat_accepted (by simp) hlow
  obtain ⟨_, below, -, -, hbelow, -, hfound'⟩ := nearest_names bat_accepted (by simp) hhigh
  obtain rfl := Except.ok.inj (habove.symm.trans hup)
  obtain rfl := Except.ok.inj (hbelow.symm.trans hdown)
  exact ⟨hup, (hfound hplain).1, hdown, (hfound' hplain).2⟩

end Hierarchy

end TypedBlocks
