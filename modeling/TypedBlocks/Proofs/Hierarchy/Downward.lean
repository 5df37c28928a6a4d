import Mathlib.Data.List.Sort
import TypedBlocks.Proofs.Hierarchy.Reach

/-! The tables of children and of descendants. Both are filled while other types are linked, in the
order with parents first. A type enters at the moment it is linked and at no other, so after any
part of the order the tables hold what filters of that part hold: the types with a given parent, in
the order they were linked, and the types with a given ancestor, in the order of declaration. -/
namespace TypedBlocks.Hierarchy

section Place

variable {names : List Text}

theorem sortByPlace_eq_insertionSort (names items : List Text) :
    sortByPlace names items = items.insertionSort fun a b => names.idxOf a ≤ names.idxOf b := by
  have hinsert (name : Text) (sorted : List Text) : insertByPlace names name sorted =
      sorted.orderedInsert (fun a b => names.idxOf a ≤ names.idxOf b) name := by
    induction sorted with
    | nil => rfl
    | cons first rest ih => rw [insertByPlace, List.orderedInsert_cons, ih]
  unfold sortByPlace List.insertionSort
  congr 1
  funext name sorted
  exact hinsert name sorted

theorem pairwise_sortByPlace (names items : List Text) :
    (sortByPlace names items).Pairwise fun a b => names.idxOf a ≤ names.idxOf b := by
  have htotal : Std.Total fun a b : Text => names.idxOf a ≤ names.idxOf b :=
    ⟨fun a b => Nat.le_total _ _⟩
  have htrans : IsTrans Text fun a b => names.idxOf a ≤ names.idxOf b :=
    ⟨fun _ _ _ => Nat.le_trans⟩
  rw [sortByPlace_eq_insertionSort]
  exact List.pairwise_insertionSort _ items

theorem pairwise_idxOf (hn : names.Nodup) :
    names.Pairwise fun a b => names.idxOf a ≤ names.idxOf b := by
  rw [List.pairwise_iff_getElem]
  intro i j hi hj hlt
  rw [hn.idxOf_getElem i hi, hn.idxOf_getElem j hj]
  exact hlt.le

/-- Sorting a name into some of the names gives those and the name, as they stand. -/
theorem sortByPlace_filter (hn : names.Nodup) {p : Text → Bool} {name : Text}
    (hname : name ∈ names) (hp : p name = false) :
    sortByPlace names (names.filter p ++ [name]) = names.filter fun n => p n || n == name := by
  have hperm : (names.filter p ++ [name]).Perm (names.filter fun n => p n || n == name) := by
    refine (List.perm_ext_iff_of_nodup ?_ (hn.filter _)).mpr fun n => ?_
    · refine List.nodup_append.mpr ⟨hn.filter _, List.nodup_singleton name, ?_⟩
      rintro n hmem _ hlast rfl
      obtain rfl := List.mem_singleton.mp hlast
      simp [hp] at hmem
    · simp only [List.mem_append, List.mem_filter, List.mem_singleton, Bool.or_eq_true, beq_iff_eq]
      constructor
      · rintro (⟨hmem, hn⟩ | rfl)
        · exact ⟨hmem, .inl hn⟩
        · exact ⟨hname, .inr rfl⟩
      · rintro ⟨hmem, hn | rfl⟩
        · exact .inl ⟨hmem, hn⟩
        · exact .inr rfl
  have hsort : (sortByPlace names (names.filter p ++ [name])).Perm (names.filter p ++ [name]) := by
    rw [sortByPlace_eq_insertionSort]
    exact List.perm_insertionSort _ _
  refine List.Perm.eq_of_pairwise ?_ (pairwise_sortByPlace _ _)
    ((pairwise_idxOf hn).sublist List.filter_sublist) (hsort.trans hperm)
  -- names at one place are the same
  intro a b _ hb hab hba
  exact ((List.idxOf_inj (List.mem_filter.mp hb).1).mp (Nat.le_antisymm hba hab)).symm

end Place

variable {decls : List Declaration} (edges : List (Text × List (Text × List Template)))
  {order : List Text} {name : Text} {d : Declaration}

theorem tablesOf_snoc (last : Text) : tablesOf decls edges (order ++ [last]) =
    linkOne decls edges (tablesOf decls edges order) last := by
  simp [tablesOf]

section Children

theorem addNew_of_notMem {known : List Text} (h : name ∉ known) :
    addNew known name = known ++ [name] := by
  simp [addNew, h]

theorem addNew_addNew (known : List Text) (name : Text) :
    addNew (addNew known name) name = addNew known name := by
  have hmem : (addNew known name).contains name = true := by
    unfold addNew
    split
    · assumption
    · simp
  rw [addNew, if_pos hmem]

/-- A type that is linked becomes a child of each of its parents, also of one that it names more
than once. -/
theorem children_linkOne (t : Tables) (hd : Declaration.find? decls name = some d) (y : Text) :
    (linkOne decls edges t name).children.get y =
      if y ∈ parentNames edges name then addNew (t.children.get y) name
      else t.children.get y := by
  have htable : (linkOne decls edges t name).children =
      t.children.alterAll (parentNames edges name) (addNew · name) := by
    rw [linkOne, hd]
    rfl
  rw [htable, Table.get_alterAll]
  split
  · next hy =>
    obtain ⟨times, htimes⟩ := Nat.exists_eq_succ_of_ne_zero (List.count_pos_iff.mpr hy).ne'
    rw [htimes, Function.iterate_succ_apply]
    exact Function.iterate_fixed (addNew_addNew _ name) times
  · next hy => rw [List.count_eq_zero_of_not_mem hy, Function.iterate_zero_apply]

/-- The children of a type are those that name it as a parent, in the order they were linked. -/
theorem children_tablesOf
    (h : Ordered (parentNames edges) (fun n => ∃ d, Declaration.find? decls n = some d) order)
    (y : Text) : (tablesOf decls edges order).children.get y =
      order.filter fun n => (parentNames edges n).contains y := by
  induction order using List.reverseRecOn with
  | nil => rfl
  | append_singleton order last ih =>
    obtain ⟨d, hlast⟩ := h.declared last (by simp)
    rw [tablesOf_snoc, children_linkOne edges _ hlast, ih h.of_snoc, List.filter_append]
    split
    · next hy =>
      have hnew : last ∉ order.filter fun n => (parentNames edges n).contains y :=
        fun hmem => h.last_notMem (List.mem_filter.mp hmem).1
      rw [addNew_of_notMem hnew]
      simp [hy]
    · next hy => simp [hy]

end Children

section Descendants

def ancestorsIn (table : List (Text × Reach)) (name : Text) : List Text :=
  (((table.lookup name).getD []).map (·.1)).filter (· ≠ name)

/-- A type that is linked is sorted in among the descendants of each of its ancestors. -/
theorem descendants_linkOne (hn : (decls.map (·.name)).Nodup) (t : Tables)
    (hd : Declaration.find? decls name = some d)
    (hnew : t.reach.lookup name = none) (y : Text) :
    (linkOne decls edges t name).descendants.get y =
      if y ∈ ancestorsIn (linkOne decls edges t name).reach name then
        sortByPlace (decls.map (·.name)) (t.descendants.get y ++ [name])
      else t.descendants.get y := by
  have hlookup : (linkOne decls edges t name).reach.lookup name =
      some ((reachOf t.reach d ((edges.lookup name).getD [])).sort (decls.map (·.name))) := by
    rw [linkOne, hd, List.lookup_append, hnew]
    simp
  have htable : (linkOne decls edges t name).descendants =
      t.descendants.alterAll (ancestorsIn (linkOne decls edges t name).reach name)
        fun below => sortByPlace (decls.map (·.name)) (below ++ [name]) := by
    rw [ancestorsIn, hlookup, linkOne, hd]
    rfl
  have honce : (ancestorsIn (linkOne decls edges t name).reach name).Nodup := by
    rw [ancestorsIn, hlookup, Option.getD_some, Reach.keys_sort]
    exact (hn.filter _).filter _
  rw [htable, Table.get_alterAll]
  split
  · next hy => rw [List.count_eq_one_of_mem honce hy, Function.iterate_one]
  · next hy => rw [List.count_eq_zero_of_not_mem hy, Function.iterate_zero_apply]

/-- The descendants of a type are those that have it for an ancestor, in declaration order. -/
theorem descendants_tablesOf (hn : (decls.map (·.name)).Nodup)
    (h : Ordered (parentNames edges) (fun n => ∃ d, Declaration.find? decls n = some d) order)
    (y : Text) : (tablesOf decls edges order).descendants.get y =
      (decls.map (·.name)).filter fun n =>
        order.contains n && (ancestorsIn (tableOf decls edges order) n).contains y := by
  induction order using List.reverseRecOn with
  | nil => simp [tablesOf, Table.get]
  | append_singleton order last ih =>
    obtain ⟨d, hlast⟩ := h.declared last (by simp)
    have hdeclared : last ∈ decls.map (·.name) := by
      have hd := List.find?_some hlast
      exact List.mem_map.mpr ⟨d, List.mem_of_find?_eq_some hlast, by simpa using hd⟩
    have hlate : order.contains last = false := by simpa using h.last_notMem
    -- what was found before about an earlier type does not change
    have hold (n : Text) (hmem : n ∈ order) :
        ancestorsIn (tableOf decls edges (order ++ [last])) n =
          ancestorsIn (tableOf decls edges order) n := by
      rw [ancestorsIn, tableOf_snoc_lookup h hmem, ancestorsIn]
    have hsplit (n : Text) : ((order ++ [last]).contains n &&
        (ancestorsIn (tableOf decls edges (order ++ [last])) n).contains y) =
        (order.contains n && (ancestorsIn (tableOf decls edges order) n).contains y ||
          n == last && (ancestorsIn (tableOf decls edges (order ++ [last])) last).contains y) := by
      by_cases heq : n = last
      · simp [heq, h.last_notMem]
      · by_cases hmem : n ∈ order
        · simp [heq, hmem, hold n hmem]
        · simp [heq, hmem]
    have hstep := descendants_linkOne edges hn _ hlast (tableOf_lookup_new h) y
    rw [← tablesOf_snoc, ih h.of_snoc] at hstep
    rw [hstep]
    simp only [hsplit]
    split
    · next hy =>
      have hy' : (ancestorsIn (tableOf decls edges (order ++ [last])) last).contains y = true :=
        List.contains_iff_mem.mpr hy
      rw [sortByPlace_filter hn hdeclared (by rw [hlate, Bool.false_and])]
      simp only [hy', Bool.and_true]
    · next hy =>
      have hy' : (ancestorsIn (tableOf decls edges (order ++ [last])) last).contains y = false := by
        rw [← Bool.not_eq_true, List.contains_iff_mem]
        exact hy
      simp only [hy', Bool.and_false, Bool.or_false]

end Descendants

end TypedBlocks.Hierarchy
