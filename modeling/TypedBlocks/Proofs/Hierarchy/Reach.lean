import Mathlib.Data.List.Induction
import Mathlib.Logic.Function.Iterate
import TypedBlocks.Hierarchy.Link
import TypedBlocks.Proofs.Hierarchy.Order
import TypedBlocks.Proofs.Template

/-! The table of what each type reaches. Its entries satisfy one equation: the ways to an ancestor
are the type itself, then the ways of each parent seen through the parent's arguments, without
repetitions. -/
namespace TypedBlocks

namespace Table

variable {α : Type}

theorem lookup_cons_of_ne {name other : Text} (h : other ≠ name) (a : α)
    (entries : List (Text × α)) : ((name, a) :: entries).lookup other = entries.lookup other := by
  simp [List.lookup_cons, beq_eq_false_iff_ne.mpr h]

theorem get_cons_self (name : Text) (items : List α) (t : Table α) :
    get ((name, items) :: t) name = items := by
  simp [get]

theorem get_cons_of_ne {name other : Text} (h : other ≠ name) (items : List α) (t : Table α) :
    get ((name, items) :: t) other = t.get other :=
  congrArg (Option.getD · []) (lookup_cons_of_ne h items t)

theorem get_of_notMem {t : Table α} {name : Text} (h : name ∉ t.map (·.1)) : t.get name = [] := by
  unfold get
  rw [List.lookup_eq_none_iff.mpr]
  · rfl
  · intro entry hentry
    rw [bne_iff_ne]
    rintro rfl
    exact h (List.mem_map.mpr ⟨entry, hentry, rfl⟩)

theorem get_alter (t : Table α) (name : Text) (f : List α → List α) (other : Text) :
    (t.alter name f).get other = if other = name then f (t.get other) else t.get other := by
  induction t with
  | nil =>
    rw [alter]
    split
    · next h => rw [h, get_cons_self]; rfl
    · next h => rw [get_cons_of_ne h]
  | cons entry t ih =>
    obtain ⟨n, items⟩ := entry
    rw [alter]
    by_cases hn : n = name
    · subst hn
      by_cases h : other = n
      · rw [if_pos rfl, if_pos h, h, get_cons_self, get_cons_self]
      · rw [if_pos rfl, if_neg h, get_cons_of_ne h, get_cons_of_ne h]
    · rw [if_neg hn]
      by_cases h : other = n
      · rw [h, if_neg hn, get_cons_self, get_cons_self]
      · rw [get_cons_of_ne h, get_cons_of_ne h, ih]

/-- The list under a name is changed as often as the name is given. -/
theorem get_alterAll (t : Table α) (names : List Text) (f : List α → List α) (other : Text) :
    (t.alterAll names f).get other = f^[names.count other] (t.get other) := by
  unfold alterAll
  induction names generalizing t with
  | nil => rfl
  | cons name names ih =>
    rw [List.foldl_cons, ih, get_alter]
    split
    · next h => rw [h, List.count_cons_self, Function.iterate_succ_apply]
    · next h => rw [List.count_cons_of_ne (Ne.symm h)]

end Table

namespace Reach

/-- Adding ways one by one touches one name only. -/
theorem get_foldl_add (r : Reach) (name : Text) (new : List (List Template)) (other : Text) :
    (new.foldl (fun r way => r.add name way) r).get other =
      if other = name then new.foldl addNew (r.get other) else r.get other := by
  induction new generalizing r with
  | nil => simp
  | cons way new ih =>
    rw [List.foldl_cons, ih, add, Table.get_alter]
    split <;> rfl

/-- What a parent adds to the ways to each name. -/
theorem get_addParent (r : Reach) (args : List Template) (parent : Reach)
    (hkeys : (parent.map (·.1)).Nodup) (other : Text) :
    (r.addParent args parent).get other =
      ((parent.get other).map (Template.plugAll args)).foldl addNew (r.get other) := by
  unfold addParent
  induction parent generalizing r with
  | nil => simp [Table.get]
  | cons entry parent ih =>
    obtain ⟨name, paths⟩ := entry
    simp only [List.map_cons, List.nodup_cons] at hkeys
    rw [List.foldl_cons, ih _ hkeys.2]
    simp only
    rw [← List.foldl_map (f := Template.plugAll args) (g := fun r way => Reach.add r name way),
      get_foldl_add]
    by_cases h : other = name
    · subst h
      rw [if_pos rfl, Table.get_of_notMem hkeys.1, Table.get_cons_self]
      rfl
    · rw [if_neg h, Table.get_cons_of_ne h]

theorem get_sort (names : List Text) (r : Reach) (other : Text) :
    Table.get (r.sort names) other = if other ∈ names then r.get other else [] := by
  unfold sort Table.get
  induction names with
  | nil => simp
  | cons name names ih =>
    by_cases h : other = name
    · subst h
      cases hr : r.lookup other with
      | none =>
        simp only [List.filterMap_cons, hr, Option.map_none, ih]
        simp
      | some paths => simp [hr]
    · cases hr : r.lookup name with
      | none =>
        simp only [List.filterMap_cons, hr, Option.map_none, ih, List.mem_cons, h, false_or]
      | some paths =>
        simp only [List.filterMap_cons, hr, Option.map_some, Table.lookup_cons_of_ne h, ih,
          List.mem_cons, h, false_or]

theorem keys_sort (names : List Text) (r : Reach) :
    (r.sort names).map (·.1) = names.filter fun n => (r.lookup n).isSome := by
  unfold sort
  induction names with
  | nil => rfl
  | cons name names ih =>
    cases hr : r.lookup name with
    | none => simp only [List.filterMap_cons, hr, Option.map_none, ih, List.filter_cons,
        Option.isSome_none, Bool.false_eq_true, if_false]
    | some paths => simp only [List.filterMap_cons, hr, Option.map_some, List.map_cons, ih,
        List.filter_cons, Option.isSome_some, if_true]

/-- Adding ways in turn leaves the first occurrence of each. -/
theorem foldl_addNew (known new : List (List Template)) :
    new.foldl addNew known.eraseDups = (known ++ new).eraseDups := by
  induction new generalizing known with
  | nil => simp
  | cons way new ih =>
    have hstep : addNew known.eraseDups way = (known ++ [way]).eraseDups := by
      rw [List.eraseDups_append]
      by_cases h : way ∈ known <;>
        simp [addNew, h, List.removeAll, List.mem_eraseDups, List.eraseDups_cons]
    rw [List.foldl_cons, hstep, ih]
    simp

def Filled (r : Reach) : Prop :=
  ∀ entry ∈ r, entry.2 ≠ []

theorem Filled.add {r : Reach} (hr : r.Filled) (name : Text) (way : List Template) :
    (r.add name way).Filled := by
  have hnew (known : List (List Template)) : addNew known way ≠ [] := by
    unfold addNew
    split
    · next h => exact List.ne_nil_of_mem (by simpa using h)
    · simp
  unfold Reach.add
  induction r with
  | nil =>
    intro entry hentry
    obtain rfl := List.mem_singleton.mp hentry
    exact hnew []
  | cons entry r ih =>
    obtain ⟨n, known⟩ := entry
    obtain ⟨hfirst, hrest⟩ := List.forall_mem_cons.mp hr
    rw [Table.alter]
    split
    · exact List.forall_mem_cons.mpr ⟨hnew known, hrest⟩
    · exact List.forall_mem_cons.mpr ⟨hfirst, ih hrest⟩

theorem Filled.addParent {r : Reach} (hr : r.Filled) (args : List Template) (parent : Reach) :
    (r.addParent args parent).Filled := by
  have hways (name : Text) (paths : List (List Template)) (r : Reach) (hr : r.Filled) :
      (paths.foldl (fun r path => r.add name (Template.plugAll args path)) r).Filled := by
    induction paths generalizing r with
    | nil => exact hr
    | cons path paths ih => exact ih _ (hr.add name _)
  unfold Reach.addParent
  induction parent generalizing r with
  | nil => exact hr
  | cons entry parent ih => exact ih (hways entry.1 entry.2 r hr)

theorem Filled.sort {r : Reach} (hr : r.Filled) (names : List Text) : (r.sort names).Filled := by
  intro entry hentry
  obtain ⟨name, -, hlookup⟩ := List.mem_filterMap.mp hentry
  obtain ⟨paths, hpaths, rfl⟩ := Option.map_eq_some_iff.mp hlookup
  obtain ⟨before, after, rfl, -⟩ := List.lookup_eq_some_iff.mp hpaths
  exact hr (name, paths) (by simp)

end Reach

namespace Hierarchy

/-- The ways in which a type reaches an ancestor, given the ways of its parents. -/
theorem get_reachOf (table : List (Text × Reach)) (d : Declaration)
    (edges : List (Text × List Template))
    (hkeys : ∀ edge ∈ edges, (((table.lookup edge.1).getD []).map (·.1)).Nodup) (other : Text) :
    (reachOf table d edges).get other =
      ((if other = d.name then [Template.slots d.arity] else []) ++
        edges.flatMap fun edge =>
          (Table.get ((table.lookup edge.1).getD []) other).map
            (Template.plugAll edge.2)).eraseDups := by
  have hfold (r : Reach) (known : List (List Template)) (hr : r.get other = known.eraseDups) :
      (edges.foldl (fun r edge => r.addParent edge.2 ((table.lookup edge.1).getD [])) r).get
        other =
      (known ++ edges.flatMap fun edge =>
        (Table.get ((table.lookup edge.1).getD []) other).map
          (Template.plugAll edge.2)).eraseDups := by
    induction edges generalizing r known with
    | nil => simpa using hr
    | cons edge edges ih =>
      rw [List.foldl_cons, List.flatMap_cons, ← List.append_assoc]
      apply ih (fun edge hedge => hkeys edge (List.mem_cons_of_mem _ hedge))
      rw [Reach.get_addParent _ _ _ (hkeys _ List.mem_cons_self), hr, Reach.foldl_addNew]
  apply hfold
  by_cases h : other = d.name
  · simp [Table.get, h, List.eraseDups_cons]
  · rw [if_neg h, Table.get_cons_of_ne h]
    rfl

theorem reachOf_congr {table table' : List (Text × Reach)} (d : Declaration)
    {edges : List (Text × List Template)}
    (h : ∀ edge ∈ edges, table.lookup edge.1 = table'.lookup edge.1) :
    reachOf table d edges = reachOf table' d edges := by
  unfold reachOf
  apply List.foldl_ext
  rintro r ⟨parent, args⟩ hedge
  simp only [h (parent, args) hedge]

theorem reachOf_filled (table : List (Text × Reach)) (d : Declaration)
    (edges : List (Text × List Template)) : (reachOf table d edges).Filled := by
  have hfold (r : Reach) (hr : r.Filled) : (edges.foldl (fun r edge =>
      r.addParent edge.2 ((table.lookup edge.1).getD [])) r).Filled := by
    induction edges generalizing r with
    | nil => exact hr
    | cons edge edges ih => exact ih _ (hr.addParent edge.2 _)
  apply hfold
  intro entry hentry
  obtain rfl := List.mem_singleton.mp hentry
  simp

variable (decls : List Declaration) (edges : List (Text × List (Text × List Template)))

def parentNames (name : Text) : List Text :=
  ((edges.lookup name).getD []).map (·.1)

def tablesOf (order : List Text) : Tables :=
  order.foldl (linkOne decls edges) {}

def tableOf (order : List Text) : List (Text × Reach) :=
  (tablesOf decls edges order).reach

/-- What holds of nothing and of all that a linked type can reach holds of what the table gives. -/
theorem tableOf_lookup_getD {P : Reach → Prop} (hnil : P [])
    (hreach : ∀ table d es, P ((reachOf table d es).sort (decls.map (·.name))))
    (order : List Text) (name : Text) :
    P (((tableOf decls edges order).lookup name).getD []) := by
  have hfold (t : Tables) (ht : ∀ entry ∈ t.reach, P entry.2) :
      ∀ entry ∈ (order.foldl (linkOne decls edges) t).reach, P entry.2 := by
    induction order generalizing t with
    | nil => exact ht
    | cons name order ih =>
      apply ih
      unfold linkOne
      split
      · exact List.forall_mem_append.mpr
          ⟨ht, List.forall_mem_singleton.mpr (hreach t.reach _ _)⟩
      · exact ht
  cases hlookup : (tableOf decls edges order).lookup name with
  | none => exact hnil
  | some r =>
    obtain ⟨before, after, htable, -⟩ := List.lookup_eq_some_iff.mp hlookup
    refine hfold {} (by simp) (name, r) ?_
    rw [← tablesOf, ← tableOf, htable]
    simp

theorem tableOf_filled (order : List Text) (name : Text) :
    Reach.Filled (((tableOf decls edges order).lookup name).getD []) := by
  refine tableOf_lookup_getD decls edges (fun _ hentry => absurd hentry List.not_mem_nil) ?_ order
    name
  exact fun table d es => (reachOf_filled table d es).sort _

/-- The names that a type reaches stand in declaration order. -/
theorem tableOf_keys_sublist (order : List Text) (name : Text) :
    ((((tableOf decls edges order).lookup name).getD []).map (·.1)).Sublist
      (decls.map (·.name)) := by
  refine tableOf_lookup_getD decls edges
    (P := fun r => (r.map (·.1)).Sublist (decls.map (·.name))) (List.nil_sublist _)
    (fun table d es => ?_) order name
  rw [Reach.keys_sort]
  exact List.filter_sublist

section Ordered

variable {decls edges} {order : List Text} {last : Text}

/-- Linking one more type adds its entry to the table. -/
theorem tableOf_snoc {d : Declaration} (hlast : Declaration.find? decls last = some d) :
    tableOf decls edges (order ++ [last]) = tableOf decls edges order ++
      [(last, (reachOf (tableOf decls edges order) d ((edges.lookup last).getD [])).sort
        (decls.map (·.name)))] := by
  simp [tableOf, tablesOf, linkOne, hlast]

theorem tableOf_keys
    (h : Ordered (parentNames edges) (fun n => ∃ d, Declaration.find? decls n = some d) order) :
    (tableOf decls edges order).map (·.1) = order := by
  induction order using List.reverseRecOn with
  | nil => rfl
  | append_singleton order last ih =>
    obtain ⟨d, hlast⟩ := h.declared last (by simp)
    rw [tableOf_snoc hlast, List.map_append, ih h.of_snoc]
    rfl

/-- The entries of the types that were linked before stay as they are. -/
theorem tableOf_snoc_lookup
    (h : Ordered (parentNames edges) (fun n => ∃ d, Declaration.find? decls n = some d)
      (order ++ [last])) {name : Text} (hname : name ∈ order) :
    (tableOf decls edges (order ++ [last])).lookup name =
      (tableOf decls edges order).lookup name := by
  obtain ⟨d, hlast⟩ := h.declared last (by simp)
  have hsome : ((tableOf decls edges order).lookup name).isSome := by
    rw [← tableOf_keys h.of_snoc] at hname
    obtain ⟨entry, hentry, rfl⟩ := List.mem_map.mp hname
    rw [Option.isSome_iff_ne_none]
    intro hnone
    simpa using List.lookup_eq_none_iff.mp hnone entry hentry
  rw [tableOf_snoc hlast, List.lookup_append, Option.or_of_isSome hsome]

theorem tableOf_lookup_new
    (h : Ordered (parentNames edges) (fun n => ∃ d, Declaration.find? decls n = some d)
      (order ++ [last])) : (tableOf decls edges order).lookup last = none := by
  rw [List.lookup_eq_none_iff]
  intro entry hentry
  rw [bne_iff_ne]
  rintro rfl
  exact h.last_notMem (tableOf_keys h.of_snoc ▸ List.mem_map.mpr ⟨entry, hentry, rfl⟩)

/-- The entry of the type linked last is the new one. -/
theorem tableOf_snoc_lookup_last
    (h : Ordered (parentNames edges) (fun n => ∃ d, Declaration.find? decls n = some d)
      (order ++ [last])) {d : Declaration} (hlast : Declaration.find? decls last = some d) :
    (tableOf decls edges (order ++ [last])).lookup last =
      some ((reachOf (tableOf decls edges order) d ((edges.lookup last).getD [])).sort
        (decls.map (·.name))) := by
  rw [tableOf_snoc hlast, List.lookup_append, tableOf_lookup_new h]
  simp

/-- After linking, the entry of each type is composed from the entries of its parents. -/
theorem tableOf_lookup
    (h : Ordered (parentNames edges) (fun n => ∃ d, Declaration.find? decls n = some d) order)
    {name : Text} (hname : name ∈ order) {d : Declaration}
    (hd : Declaration.find? decls name = some d) :
    (tableOf decls edges order).lookup name =
      some ((reachOf (tableOf decls edges order) d ((edges.lookup name).getD [])).sort
        (decls.map (·.name))) := by
  induction order using List.reverseRecOn with
  | nil => exact absurd hname List.not_mem_nil
  | append_singleton order last ih =>
    have hsame : reachOf (tableOf decls edges (order ++ [last])) d ((edges.lookup name).getD []) =
        reachOf (tableOf decls edges order) d ((edges.lookup name).getD []) := by
      apply reachOf_congr
      intro edge hedge
      have hparent : edge.1 ∈ parentNames edges name := List.mem_map.mpr ⟨edge, hedge, rfl⟩
      exact tableOf_snoc_lookup h (h.parent_mem_dropLast hname hparent)
    rw [hsame]
    rcases List.mem_append.mp hname with hmem | hmem
    · rw [tableOf_snoc_lookup h hmem, ih h.of_snoc hmem]
    · obtain rfl := List.mem_singleton.mp hmem
      exact tableOf_snoc_lookup_last h hd

end Ordered

end Hierarchy

end TypedBlocks
