import TypedBlocks.Proofs.Hierarchy.ReadBack
import TypedBlocks.Proofs.Nearest.Between
import TypedBlocks.Proofs.Subtype.Mutual

/-! Searches among copies of one type. Whatever is asked about copies of a known type without
wildcards, above or below them, that type alone is found; as many nested questions are needed as the
type has parts. -/
namespace TypedBlocks

structure Copies {α : Type} (x : α) (xs : List α) : Prop where
  ne_nil : xs ≠ []
  eq : ∀ y ∈ xs, y = x

namespace Copies

variable {α β : Type} {x : α} {xs : List α}

theorem mem (hxs : Copies x xs) : x ∈ xs := by
  obtain ⟨y, hy⟩ := List.exists_mem_of_ne_nil xs hxs.ne_nil
  exact hxs.eq y hy ▸ hy

theorem of_same {ys : List α} (hxs : Copies x xs) (hmem : ∀ y, y ∈ xs ↔ y ∈ ys) : Copies x ys :=
  ⟨List.ne_nil_of_mem ((hmem x).mp hxs.mem), fun y hy => hxs.eq y ((hmem y).mpr hy)⟩

theorem map (hxs : Copies x xs) (f : α → β) : Copies (f x) (xs.map f) := by
  refine ⟨by simpa using hxs.ne_nil, fun z hz => ?_⟩
  obtain ⟨y, hy, rfl⟩ := List.mem_map.mp hz
  rw [hxs.eq y hy]

theorem filterMap (hxs : Copies x xs) {f : α → Option β} {y : β} (hf : f x = some y) :
    Copies y (xs.filterMap f) := by
  refine ⟨List.ne_nil_of_mem (List.mem_filterMap.mpr ⟨x, hxs.mem, hf⟩), fun z hz => ?_⟩
  obtain ⟨x', hx', hz⟩ := List.mem_filterMap.mp hz
  rw [hxs.eq x' hx', hf] at hz
  exact (Option.some.inj hz).symm

theorem mapM {ε : Type} (hxs : Copies x xs) {f : α → Except ε β} {y : β} (hf : f x = .ok y) :
    ∃ ys, xs.mapM f = .ok ys ∧ Copies y ys := by
  obtain ⟨ys, hys, heq⟩ := mapM_ok (f := f) (T := (· = y)) fun x' hx' =>
    ⟨y, (hxs.eq x' hx').symm ▸ hf, rfl⟩
  obtain ⟨z, hz, -⟩ := mapM_exists hys hxs.mem
  exact ⟨ys, hys, List.ne_nil_of_mem hz, heq⟩

theorem flatten {lists : List (List α)} (hlists : Copies [x] lists) : Copies x lists.flatten := by
  refine ⟨List.ne_nil_of_mem (List.mem_flatten.mpr ⟨[x], hlists.mem, List.mem_singleton_self x⟩),
    fun y hy => ?_⟩
  obtain ⟨found, hfound, hy⟩ := List.mem_flatten.mp hy
  rw [hlists.eq found hfound] at hy
  exact List.mem_singleton.mp hy

theorem eraseDups_eq [BEq α] [LawfulBEq α] (hxs : Copies x xs) : xs.eraseDups = [x] := by
  obtain ⟨y, ys, rfl⟩ := List.exists_cons_of_ne_nil hxs.ne_nil
  obtain rfl := hxs.eq y List.mem_cons_self
  have hrest : ys.filter (fun b => !b == y) = [] := by
    refine List.filter_eq_nil_iff.mpr fun z hz => ?_
    simp [hxs.eq z (List.mem_cons_of_mem y hz)]
  rw [List.eraseDups_cons, hrest, List.eraseDups_nil]

theorem eq_singleton [BEq α] [LawfulBEq α] (hxs : Copies x xs) (hnodup : xs.Nodup) : xs = [x] := by
  rw [← hxs.eraseDups_eq, eraseDups_of_nodup hnodup]

end Copies

theorem keepNearest_singleton (nearer : TypeExpr → TypeExpr → Except Fault Bool) (t : TypeExpr) :
    keepNearest nearer [t] = .ok [t] := by
  simp [keepNearest, Nearest.survivors, Nearest.isBeaten, pure, Except.pure]

namespace Hierarchy

variable {h : Hierarchy} {relation : TypeExpr → TypeExpr → Except Fault Bool}
  {up down : List TypeExpr → Except Fault (List TypeExpr)} {t a : TypeExpr}
  {types column as : List TypeExpr} {e : Entry}

theorem agreedOption_copies (hcolumn : Copies a column) (ha : a.isWildcard = false) :
    agreedOption column = [a] := by
  have hfilter : column.filter (!·.isWildcard) = column :=
    List.filter_eq_self.mpr fun b hb => by simp [hcolumn.eq b hb, ha]
  have hbest (us : List TypeExpr) (hus : ∀ u ∈ us, u = a) :
      us.foldl (fun best u => if u.stars < best.stars then u else best) a = a := by
    induction us with
    | nil => rfl
    | cons u us ih =>
      obtain ⟨rfl, hrest⟩ := List.forall_mem_cons.mp hus
      simpa using ih hrest
  obtain ⟨b, rest, rfl⟩ := List.exists_cons_of_ne_nil hcolumn.ne_nil
  obtain ⟨rfl, hrest⟩ := List.forall_mem_cons.mp hcolumn.eq
  have hall : (b :: rest).all b.agrees = true := by
    refine List.all_eq_true.mpr fun u hu => ?_
    rw [hcolumn.eq u hu]
    exact b.agrees_refl
  simp only [agreedOption, hfilter, hbest rest hrest, hall, if_true]

def FindsCopies (up down : List TypeExpr → Except Fault (List TypeExpr)) (a : TypeExpr) : Prop :=
  ∀ column, Copies a column → up column = .ok [a] ∧ down column = .ok [a]

theorem ancestorPosition_copies (hfinds : FindsCopies up down a) (ha : a.isWildcard = false)
    (hcolumn : Copies a column) (v : Variance) :
    ancestorPosition up down v column = .ok [a] := by
  cases v with
  | co => exact (hfinds column hcolumn).1
  | contra => exact (hfinds column hcolumn).2
  | inv => exact congrArg Except.ok (agreedOption_copies hcolumn ha)

theorem descendantPosition_copies (hfinds : FindsCopies up down a) (hcolumn : Copies a column)
    (v : Variance) : descendantPosition up down v column = .ok [a] := by
  obtain ⟨hup, hdown⟩ := hfinds column hcolumn
  have hempty : column.isEmpty = false := by simpa using hcolumn.ne_nil
  have hmore : Copies a ([a] ++ column) :=
    ⟨by simp, List.forall_mem_cons.mpr ⟨rfl, hcolumn.eq⟩⟩
  unfold descendantPosition
  rw [if_neg (by simp [hempty])]
  cases v with
  | co => simp only [hdown, ok_bind, hmore.eraseDups_eq]; rfl
  | contra => simp only [hup, ok_bind, hmore.eraseDups_eq]; rfl
  | inv => simp only [hcolumn.eraseDups_eq]; rfl

theorem ancestorOptions_copies {params : List Param} {rows : List (List TypeExpr)}
    (hlen : as.length = params.length)
    (has : ∀ a ∈ as, FindsCopies up down a ∧ a.isWildcard = false) (hrows : Copies as rows) :
    ancestorOptions up down params rows = .ok (some (as.map ([·]))) := by
  induction params generalizing as rows with
  | nil =>
    obtain rfl := List.eq_nil_of_length_eq_zero hlen
    rfl
  | cons p params ih =>
    obtain ⟨a, as, rfl⟩ := List.exists_cons_of_length_eq_add_one hlen
    obtain ⟨⟨hfinds, ha⟩, has⟩ := List.forall_mem_cons.mp has
    have hcolumn : Copies a (rows.filterMap (·.head?)) := hrows.filterMap rfl
    have hrest := ih (Nat.succ.inj hlen) has (hrows.map (·.tail))
    simp only [ancestorOptions, ancestorPosition_copies hfinds ha hcolumn, ok_bind, hrest]
    rfl

theorem descendantOptions_copies {params : List Param} {rows : List (List (Option TypeExpr))}
    (hlen : as.length = params.length) (has : ∀ a ∈ as, FindsCopies up down a)
    (hrows : Copies (as.map some) rows) :
    descendantOptions up down params rows = .ok (as.map ([·])) := by
  induction params generalizing as rows with
  | nil =>
    obtain rfl := List.eq_nil_of_length_eq_zero hlen
    rfl
  | cons p params ih =>
    obtain ⟨a, as, rfl⟩ := List.exists_cons_of_length_eq_add_one hlen
    obtain ⟨hfinds, has⟩ := List.forall_mem_cons.mp has
    have hcolumn : Copies a (rows.filterMap fun row => row.head?.join) := hrows.filterMap rfl
    have hrest := ih (Nat.succ.inj hlen) has (hrows.map (·.tail))
    simp only [descendantOptions, descendantPosition_copies hfinds hcolumn, ok_bind, hrest]
    rfl

/-- Matching a type's own slots reads off its parameters. -/
theorem Linked.paramsBelow_self (hl : h.Linked) (he : e ∈ h.entries)
    (has : h.GroundParams e.arity as) :
    h.paramsBelow e.name e.name as = .ok (some (as.map some)) := by
  refine (hl.paramsBelow_eq_some he he).mpr ⟨_, hl.first_self he, ?_⟩
  have hfill : (Template.slots e.arity).map (Template.fill as) = as := by
    rw [← has.1, Template.map_fill_slots]
  have hback := hl.unfillAll_path (.self he) has.1
  rw [hfill] at hback
  rw [hback]
  refine List.ext_getElem? fun i => ?_
  rw [Template.getElem?_readBack, List.getElem?_map]
  refine Option.map_congr fun a ha => ?_
  have hi : i < e.arity := has.1 ▸ (List.getElem?_eq_some_iff.mp ha).1
  have hstar := (has.2 a (List.mem_of_getElem? ha)).starFree.isWildcard
  rw [if_pos ⟨by simpa [Template.occurringAll_slots] using hi, hstar⟩]

/-- The common ancestors of copies of a type, with its head. -/
theorem Linked.ancestorsAt_copies (hl : h.Linked) (he : e ∈ h.entries)
    (has : h.GroundParams e.arity as) (hfinds : ∀ a ∈ as, FindsCopies up down a)
    (htypes : Copies ⟨e.name, as⟩ types) :
    h.ancestorsAt up down types e.name = .ok [⟨e.name, as⟩] := by
  obtain ⟨rows, hrows, hcopies⟩ := htypes.mapM
    (f := fun t => do return (← h.paramsFor t e.name).getD []) (y := as)
    (by rw [hl.paramsFor_self he has.1]; rfl)
  have hoptions := ancestorOptions_copies has.1
    (fun a ha => ⟨hfinds a ha, (has.2 a ha).starFree.isWildcard⟩) hcopies
  refine bind_eq_ok.mpr ⟨rows, hrows, bind_eq_ok.mpr ⟨e, hl.get_eq he, ?_⟩⟩
  refine bind_eq_ok.mpr ⟨_, hoptions, ?_⟩
  simp only [choices_singletons]
  rfl

/-- The common descendants of copies of a type, with its head. -/
theorem Linked.descendantsAt_copies (hl : h.Linked) (he : e ∈ h.entries)
    (has : h.GroundParams e.arity as) (hfinds : ∀ a ∈ as, FindsCopies up down a)
    (hself : relation ⟨e.name, as⟩ ⟨e.name, as⟩ = .ok true)
    (htypes : Copies ⟨e.name, as⟩ types) :
    h.descendantsAt relation up down types e.name = .ok [⟨e.name, as⟩] := by
  obtain ⟨rows, hrows, hcopies⟩ := htypes.mapM
    (f := fun t => do return (← h.paramsBelow t.name e.name t.params).getD []) (y := as.map some)
    (by rw [hl.paramsBelow_self he has]; rfl)
  have hoptions : descendantOptions up down e.params rows = .ok (as.map ([·])) :=
    descendantOptions_copies has.1 hfinds hcopies
  have hfits : types.allM (relation ⟨e.name, as⟩) = .ok true :=
    allM_eq_ok_true.mpr fun u hu => by rw [htypes.eq u hu, hself]
  refine bind_eq_ok.mpr ⟨rows, hrows, bind_eq_ok.mpr ⟨e, hl.get_eq he, ?_⟩⟩
  refine bind_eq_ok.mpr ⟨_, hoptions, ?_⟩
  simp only [choices_singletons, List.map_cons, List.map_nil, fulfillAll, hfits, ok_bind]
  rfl

/-- A name that all names are below is the only lowest name above them. -/
theorem Linked.heads_of_top (hl : h.Linked) {names heads : List Text} {top : Text}
    (htop : top ∈ names) (hall : ∀ name ∈ names, h.Below name top)
    (hheads : h.commonAncestorNames names = .ok heads) : Copies top heads := by
  constructor
  · refine List.ne_nil_of_mem ((hl.commonAncestorNames_iff hheads).mpr
      ⟨List.ne_nil_of_mem htop, hall, fun other hother hbelow => ?_⟩)
    exact hl.below_antisymm hbelow (hother top htop)
  · intro head hhead
    obtain ⟨-, habove, hlowest⟩ := (hl.commonAncestorNames_iff hheads).mp hhead
    exact (hlowest top hall (habove top htop)).symm

/-- A name that is below all names is the only highest name below them. -/
theorem Linked.heads_of_bottom (hl : h.Linked) {names : List Text} {bottom : Text}
    (hbottom : bottom ∈ names) (hall : ∀ name ∈ names, h.Below bottom name) :
    Copies bottom (h.commonDescendantNames names) := by
  constructor
  · refine List.ne_nil_of_mem (hl.commonDescendantNames_iff.mpr
      ⟨List.ne_nil_of_mem hbottom, hall, fun other hother habove => ?_⟩)
    exact hl.below_antisymm (hother bottom hbottom) habove
  · intro head hhead
    obtain ⟨-, hbelow, hhighest⟩ := hl.commonDescendantNames_iff.mp hhead
    exact (hhighest bottom hall (hbelow bottom hbottom)).symm

/-- A name is below all its copies, and above them. -/
theorem below_of_copies (he : e ∈ h.entries) {names : List Text} (hnames : Copies e.name names) :
    ∀ name ∈ names, h.Below name e.name ∧ h.Below e.name name := by
  intro name hname
  rw [hnames.eq name hname]
  exact ⟨below_of_path (.self he), below_of_path (.self he)⟩

theorem Linked.ancestorsBy_copies (hl : h.Linked) (he : e ∈ h.entries)
    (has : h.GroundParams e.arity as) (hfinds : ∀ a ∈ as, FindsCopies up down a)
    (htypes : Copies ⟨e.name, as⟩ types) :
    h.ancestorsBy relation up down types = .ok [⟨e.name, as⟩] := by
  have hground : ∀ t ∈ types, h.Ground t := fun t ht =>
    htypes.eq t ht ▸ (hl.ground_app_iff he).mpr has
  have hconcrete : ∀ t ∈ types, h.Valid t ∧ t.isWildcard = false := fun t ht =>
    ⟨(hground t ht).valid, (hground t ht).starFree.isWildcard⟩
  obtain ⟨heads, hheads, -⟩ := hl.commonAncestorNames_ok hconcrete
  have hnames := htypes.map (·.name)
  have hcopies : Copies e.name heads :=
    hl.heads_of_top hnames.mem (fun name hname => (below_of_copies he hnames name hname).1) hheads
  obtain ⟨lists, hlists, hfound⟩ :=
    hcopies.mapM (hl.ancestorsAt_copies he has hfinds htypes)
  have hfilter := filter_ground hground
  obtain ⟨t, rest, rfl⟩ := List.exists_cons_of_ne_nil htypes.ne_nil
  cases rest with
  | nil =>
    obtain rfl := htypes.eq t List.mem_cons_self
    simp only [ancestorsBy, hfilter]
    rfl
  | cons u rest =>
    simp only [ancestorsBy, hfilter]
    refine bind_eq_ok.mpr ⟨heads, hheads, bind_eq_ok.mpr ⟨lists, hlists, ?_⟩⟩
    rw [hfound.flatten.eraseDups_eq, keepNearest_singleton]

theorem Linked.descendantsBy_copies (hl : h.Linked) (he : e ∈ h.entries)
    (has : h.GroundParams e.arity as) (hfinds : ∀ a ∈ as, FindsCopies up down a)
    (hself : relation ⟨e.name, as⟩ ⟨e.name, as⟩ = .ok true)
    (htypes : Copies ⟨e.name, as⟩ types) :
    h.descendantsBy relation up down types = .ok [⟨e.name, as⟩] := by
  have hground : ∀ t ∈ types, h.Ground t := fun t ht =>
    htypes.eq t ht ▸ (hl.ground_app_iff he).mpr has
  have hnames := htypes.map (·.name)
  have hcopies : Copies e.name (h.commonDescendantNames (types.map (·.name))) :=
    hl.heads_of_bottom hnames.mem fun name hname => (below_of_copies he hnames name hname).2
  obtain ⟨lists, hlists, hfound⟩ :=
    hcopies.mapM (hl.descendantsAt_copies he has hfinds hself htypes)
  have hfilter := filter_ground hground
  obtain ⟨t, rest, rfl⟩ := List.exists_cons_of_ne_nil htypes.ne_nil
  cases rest with
  | nil =>
    obtain rfl := htypes.eq t List.mem_cons_self
    simp only [descendantsBy, hfilter]
    rfl
  | cons u rest =>
    simp only [descendantsBy, hfilter]
    refine bind_eq_ok.mpr ⟨lists, hlists, ?_⟩
    rw [hfound.flatten.eraseDups_eq, keepNearest_singleton]

/-- With as many nested questions as a type has parts, both searches find it in its copies. -/
theorem Linked.searches_copies (hl : h.Linked) (ht : h.Ground t) {depth : Nat}
    (hdepth : t.size < depth) :
    FindsCopies (h.ancestorsWithin depth) (h.descendantsWithin depth) t := by
  induction depth generalizing t with
  | zero => exact absurd hdepth (Nat.not_lt_zero _)
  | succ depth ih =>
    obtain ⟨e, he, as, rfl, has⟩ := hl.ground_cases ht
    have hfinds (a : TypeExpr) (ha : a ∈ as) :
        FindsCopies (h.ancestorsWithin depth) (h.descendantsWithin depth) a :=
      ih (has.2 a ha) (Nat.lt_of_lt_of_le (TypeExpr.size_lt_of_mem ha) (Nat.le_of_lt_succ hdepth))
    have hself := (hl.subtypeWithin_of_agrees ht.valid ht.valid (TypeExpr.agrees_refl _)
      (Nat.le_of_lt_succ hdepth)).1
    intro types htypes
    rw [ancestorsWithin, descendantsWithin]
    exact ⟨hl.ancestorsBy_copies he has hfinds htypes,
      hl.descendantsBy_copies he has hfinds hself htypes⟩

/-- The searches never find anything else. -/
theorem Linked.found_of_copies (hl : h.Linked) (ht : h.Ground t) (htypes : Copies t types)
    (depth : Nat) (found : List TypeExpr) :
    (h.ancestorsWithin depth types = .ok found → found = [t]) ∧
      (h.descendantsWithin depth types = .ok found → found = [t]) := by
  obtain ⟨hup, hdown⟩ := hl.searches_copies ht (Nat.lt_succ_self t.size) types htypes
  constructor
  · intro hrun
    have hans : h.Answers (.ancestors types) found := ⟨depth, hrun⟩
    have hself : h.Answers (.ancestors types) [t] := ⟨t.size + 1, hup⟩
    exact hans.unique hself
  · intro hrun
    have hans : h.Answers (.descendants types) found := ⟨depth, hrun⟩
    have hself : h.Answers (.descendants types) [t] := ⟨t.size + 1, hdown⟩
    exact hans.unique hself

end Hierarchy

end TypedBlocks
