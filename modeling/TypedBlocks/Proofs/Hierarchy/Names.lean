import TypedBlocks.Nearest
import TypedBlocks.Proofs.Hierarchy.Paths

/-! Names as a partial order: a name is below another if a path of declared parents leads from the
one to the other. The nearest common names are the extremal ones. -/
namespace TypedBlocks

namespace Template

/-- Plugging twice is plugging plugged arguments. -/
theorem SlotsBelow.plug_plug {args : List Template} {t : Template}
    (ht : SlotsBelow args.length t) (outer : List Template) :
    plug outer (plug args t) = plug (args.map (plug outer)) t := by
  induction ht with
  | slot hi => simp [plug, hi]
  | app h ih =>
    simp only [plug, plugAll_eq_map, List.map_map]
    congr 1
    exact List.map_congr_left ih

theorem SlotsBelow.plug_slots {n : Nat} {t : Template} (ht : SlotsBelow n t) :
    plug (slots n) t = t := by
  induction ht with
  | slot hi => simp [plug, slots, hi]
  | app h ih =>
    simp only [plug, plugAll_eq_map]
    congr 1
    exact (List.map_congr_left ih).trans (List.map_id' _)

end Template

namespace Hierarchy

variable {h : Hierarchy}

/-- Paths can be walked one after the other. -/
theorem Linked.path_append (hl : h.Linked) {lower middle : Entry} {ancestor : Text}
    {path path' : List Template} (hpath : h.Path lower middle.name path)
    (hpath' : h.Path middle ancestor path') :
    h.Path lower ancestor (path'.map (Template.plug path)) := by
  have hbelow {t : Template} (ht : t ∈ path') : t.SlotsBelow middle.arity :=
    ((hl.path_shaped hpath').2 t ht).slotsBelow
  generalize hname : middle.name = name at hpath
  induction hpath with
  | @self e he =>
    obtain rfl := hl.entry_unique he hpath'.mem hname.symm
    have hown : path'.map (Template.plug (Template.slots e.arity)) = path' :=
      (List.map_congr_left fun t ht => (hbelow ht).plug_slots).trans (List.map_id' _)
    rwa [hown]
  | @step e p he args hedge name rest hrest ih =>
    obtain ⟨⟨middle', hmiddle, hname', hlen⟩, -⟩ := hl.path_shaped hrest
    obtain rfl := hl.entry_unique hmiddle hpath'.mem (hname'.trans hname.symm)
    have hassoc : path'.map (Template.plug (rest.map (Template.plug args))) =
        (path'.map (Template.plug rest)).map (Template.plug args) := by
      rw [List.map_map]
      exact List.map_congr_left fun t ht => ((hlen ▸ hbelow ht).plug_plug args).symm
    rw [hassoc]
    exact .step he hedge (ih hname)

def SinglePath (h : Hierarchy) : Prop :=
  ∀ e ∈ h.entries, ∀ way ∈ e.reach, way.2.length ≤ 1

instance (h : Hierarchy) : Decidable h.SinglePath :=
  inferInstanceAs (Decidable (∀ e ∈ h.entries, ∀ way ∈ e.reach, way.2.length ≤ 1))

theorem SinglePath.path_eq (hsingle : h.SinglePath) {e : Entry} (he : e ∈ h.entries)
    {ancestor : Text} {path path' : List Template} (hpath : path ∈ e.paths ancestor)
    (hpath' : path' ∈ e.paths ancestor) : path = path' := by
  have hlen : (e.paths ancestor).length ≤ 1 := by
    unfold Entry.paths Table.get
    cases hlookup : e.reach.lookup ancestor with
    | none => simp
    | some ways =>
      obtain ⟨before, after, hreach, -⟩ := List.lookup_eq_some_iff.mp hlookup
      exact hsingle e he (ancestor, ways) (by simp [hreach])
  obtain ⟨way, hway⟩ := List.length_eq_one_iff.mp
    (Nat.le_antisymm hlen (List.length_pos_of_mem hpath))
  rw [hway, List.mem_singleton] at hpath hpath'
  exact hpath.trans hpath'.symm

/-- A path of declared parents leads from one name to the other. -/
def Below (h : Hierarchy) (lower upper : Text) : Prop :=
  ∃ e ∈ h.entries, e.name = lower ∧ ∃ path, h.Path e upper path

theorem below_of_path {e : Entry} {upper : Text} {path : List Template}
    (hpath : h.Path e upper path) : h.Below e.name upper :=
  ⟨e, hpath.mem, rfl, path, hpath⟩

theorem Linked.path_of_below (hl : h.Linked) {e : Entry} (he : e ∈ h.entries) {upper : Text}
    (hbelow : h.Below e.name upper) : ∃ path, h.Path e upper path := by
  obtain ⟨e', he', hname, path, hpath⟩ := hbelow
  obtain rfl := hl.entry_unique he' he hname
  exact ⟨path, hpath⟩

theorem Linked.below_declared (hl : h.Linked) {lower upper : Text} (hbelow : h.Below lower upper) :
    ∃ e ∈ h.entries, e.name = upper := by
  obtain ⟨_, _, _, path, hpath⟩ := hbelow
  obtain ⟨⟨target, htarget, hname, -⟩, -⟩ := hl.path_shaped hpath
  exact ⟨target, htarget, hname⟩

theorem Linked.below_trans (hl : h.Linked) {a b c : Text} (hab : h.Below a b)
    (hbc : h.Below b c) : h.Below a c := by
  obtain ⟨lower, -, rfl, path, hpath⟩ := hab
  obtain ⟨middle, -, rfl, path', hpath'⟩ := hbc
  exact below_of_path (hl.path_append hpath hpath')

/-- A name below another is the same or later in the order. -/
theorem Linked.below_order (hl : h.Linked) {lower upper : Text} (hbelow : h.Below lower upper) :
    upper = lower ∨ h.order.idxOf upper < h.order.idxOf lower := by
  obtain ⟨e, -, rfl, path, hpath⟩ := hbelow
  exact (hl.path_order hpath).imp_left And.left

theorem Linked.below_antisymm (hl : h.Linked) {a b : Text} (hab : h.Below a b)
    (hba : h.Below b a) : a = b := by
  rcases hl.below_order hab with heq | hlt
  · exact heq.symm
  · rcases hl.below_order hba with heq | hlt'
    · exact heq
    · exact absurd hlt (Nat.lt_asymm hlt')

/-- The names that a type reaches are those above its own. -/
theorem Linked.reaches_iff (hl : h.Linked) {e : Entry} (he : e ∈ h.entries) {name : Text} :
    e.reaches name = true ↔ h.Below e.name name := by
  constructor
  · intro hreach
    obtain ⟨way, hway, hname⟩ := List.any_eq_true.mp hreach
    have hsome : (e.reach.lookup name).isSome := by
      rw [Option.isSome_iff_ne_none]
      intro hnone
      have := List.lookup_eq_none_iff.mp hnone way hway
      simp_all
    obtain ⟨ways, hlookup⟩ := Option.isSome_iff_exists.mp hsome
    obtain ⟨before, after, hreach, -⟩ := List.lookup_eq_some_iff.mp hlookup
    have hne : ways ≠ [] := hl.filled e he (name, ways) (by simp [hreach])
    obtain ⟨path, rest, rfl⟩ := List.exists_cons_of_ne_nil hne
    have hpath : path ∈ e.paths name := by simp [Entry.paths, Table.get, hlookup]
    exact below_of_path ((hl.mem_paths he).mp hpath)
  · intro hbelow
    obtain ⟨path, hpath⟩ := hl.path_of_below he hbelow
    have hmem := (hl.mem_paths he).mpr hpath
    cases hlookup : e.reach.lookup name with
    | none => simp [Entry.paths, Table.get, hlookup] at hmem
    | some ways =>
      obtain ⟨before, after, hreach, -⟩ := List.lookup_eq_some_iff.mp hlookup
      simp [Entry.reaches, hreach]

theorem Linked.hasAncestor_iff (hl : h.Linked) {e : Entry} (he : e ∈ h.entries) {name : Text} :
    e.hasAncestor name = true ↔ name ≠ e.name ∧ h.Below e.name name := by
  simp [Entry.hasAncestor, hl.reaches_iff he]

/-- The descendants of a type are the other names below its own. -/
theorem Linked.hasDescendant_iff (hl : h.Linked) {e : Entry} (he : e ∈ h.entries) {name : Text} :
    e.hasDescendant name = true ↔ name ≠ e.name ∧ h.Below name e.name := by
  rw [Entry.hasDescendant, List.contains_iff_mem, hl.descendants_eq e he, List.mem_map]
  constructor
  · rintro ⟨lower, hmem, rfl⟩
    obtain ⟨hlower, hancestor⟩ := List.mem_filter.mp hmem
    obtain ⟨hne, hbelow⟩ := (hl.hasAncestor_iff hlower).mp hancestor
    exact ⟨hne.symm, hbelow⟩
  · rintro ⟨hne, hbelow⟩
    obtain ⟨lower, hlower, rfl, -⟩ := id hbelow
    exact ⟨lower, List.mem_filter.mpr ⟨hlower, (hl.hasAncestor_iff hlower).mpr ⟨hne.symm, hbelow⟩⟩,
      rfl⟩

theorem mapM_get_eq_ok {names : List Text} {types : List Entry}
    (hrun : names.mapM h.get = .ok types) {p : Text → Prop} :
    (∀ e ∈ types, p e.name) ↔ ∀ name ∈ names, p name := by
  constructor
  · intro hall name hname
    obtain ⟨e, he, hget⟩ := mapM_exists hrun hname
    exact (get_eq_ok hget).2 ▸ hall e he
  · intro hall e he
    obtain ⟨name, hname, hget⟩ := exists_of_mapM hrun he
    exact (get_eq_ok hget).2.symm ▸ hall name hname

/-- The nearest common ancestors of names are the lowest names above all of them. -/
theorem Linked.commonAncestorNames_iff (hl : h.Linked) {names heads : List Text}
    (hrun : h.commonAncestorNames names = .ok heads) {head : Text} :
    head ∈ heads ↔ names ≠ [] ∧ (∀ name ∈ names, h.Below name head) ∧
      ∀ other, (∀ name ∈ names, h.Below name other) → h.Below other head → other = head := by
  unfold commonAncestorNames at hrun
  split at hrun
  · next hempty =>
    obtain rfl := pure_eq_ok.mp hrun
    simp_all
  · next hempty =>
    have hne : names ≠ [] := by simpa using hempty
    obtain ⟨types, htypes, hrun⟩ := bind_eq_ok.mp hrun
    obtain rfl := pure_eq_ok.mp hrun
    have hcommon (e : Entry) : types.all (·.reaches e.name) = true ↔
        ∀ name ∈ names, h.Below name e.name := by
      rw [List.all_eq_true, ← mapM_get_eq_ok htypes]
      constructor
      all_goals
        intro hall t ht
        obtain ⟨_, _, hget⟩ := exists_of_mapM htypes ht
        simpa [hl.reaches_iff (get_eq_ok hget).1] using hall t ht
    simp only [List.mem_map, List.mem_filter, Bool.not_eq_true', List.any_eq_false, hcommon]
    constructor
    · rintro ⟨e, ⟨⟨he, hall⟩, hlowest⟩, rfl⟩
      refine ⟨hne, hall, fun other hother hbelow => ?_⟩
      obtain ⟨o, ho, rfl, -⟩ := id hbelow
      by_contra hneq
      refine hlowest o ⟨ho, hother⟩ ((hl.hasAncestor_iff ho).mpr ⟨fun heq => hneq heq.symm, hbelow⟩)
    · rintro ⟨-, hall, hlowest⟩
      obtain ⟨name, hname⟩ := List.exists_mem_of_ne_nil names hne
      obtain ⟨e, he, rfl⟩ := hl.below_declared (hall name hname)
      refine ⟨e, ⟨⟨he, hall⟩, fun o ho hancestor => ?_⟩, rfl⟩
      obtain ⟨hneq, hbelow⟩ := (hl.hasAncestor_iff ho.1).mp hancestor
      exact hneq (hlowest o.name ho.2 hbelow).symm

/-- Every common ancestor of names is above a nearest one. -/
theorem Linked.exists_nearest_name (hl : h.Linked) {names heads : List Text} (hne : names ≠ [])
    (hrun : h.commonAncestorNames names = .ok heads) {name : Text}
    (hname : ∀ n ∈ names, h.Below n name) : ∃ head ∈ heads, h.Below head name := by
  -- The later a common ancestor stands in the order, the fewer can be below it.
  induction hk : h.order.length - h.order.idxOf name using Nat.strongRecOn generalizing name with
  | ind k ih =>
    by_cases hmem : name ∈ heads
    · obtain ⟨n, hn⟩ := List.exists_mem_of_ne_nil names hne
      obtain ⟨e, he, rfl⟩ := hl.below_declared (hname n hn)
      exact ⟨e.name, hmem, below_of_path (.self he)⟩
    · rw [hl.commonAncestorNames_iff hrun] at hmem
      push Not at hmem
      obtain ⟨other, hother, hbelow, hneq⟩ := hmem hne hname
      have hlt := (hl.below_order hbelow).resolve_left (Ne.symm hneq)
      have hdeclared : h.order.idxOf other < h.order.length := by
        obtain ⟨o, ho, rfl, -⟩ := hbelow
        exact List.idxOf_lt_length_iff.mpr (hl.mem_order _ (mem_names.mpr ⟨o, ho, rfl⟩))
      obtain ⟨head, hhead, hbelow'⟩ := ih _ (by omega) hother rfl
      exact ⟨head, hhead, hl.below_trans hbelow' hbelow⟩

/-- The nearest common descendants of names are the highest names below all of them. -/
theorem Linked.commonDescendantNames_iff (hl : h.Linked) {names : List Text} {head : Text} :
    head ∈ h.commonDescendantNames names ↔ names ≠ [] ∧ (∀ name ∈ names, h.Below head name) ∧
      ∀ other, (∀ name ∈ names, h.Below other name) → h.Below head other → other = head := by
  unfold commonDescendantNames highest
  split
  · simp_all
  · next hempty =>
    have hne : names ≠ [] := by simpa using hempty
    have hcommon {e : Entry} (he : e ∈ h.entries) : names.all e.reaches = true ↔
        ∀ name ∈ names, h.Below e.name name := by
      simp only [List.all_eq_true, hl.reaches_iff he]
    simp only [List.mem_map, List.mem_filter, Bool.not_eq_true', List.any_eq_false,
      Bool.and_eq_true, decide_eq_true_eq]
    constructor
    · rintro ⟨e, ⟨⟨he, hall⟩, hhighest⟩, rfl⟩
      refine ⟨hne, (hcommon he).mp hall, fun other hother hbelow => ?_⟩
      obtain ⟨o, ho, rfl⟩ := hl.below_declared hbelow
      by_contra hneq
      exact hhighest o ⟨ho, (hcommon ho).mpr hother⟩
        ⟨hneq, (hl.hasDescendant_iff ho).mpr ⟨Ne.symm hneq, hbelow⟩⟩
    · rintro ⟨-, hall, hhighest⟩
      obtain ⟨name, hname⟩ := List.exists_mem_of_ne_nil names hne
      obtain ⟨e, he, rfl, -⟩ := hall name hname
      refine ⟨e, ⟨⟨he, (hcommon he).mpr hall⟩, fun o ho hother => ?_⟩, rfl⟩
      have hbelow := ((hl.hasDescendant_iff ho.1).mp hother.2).2
      exact hother.1 (hhighest o.name ((hcommon ho.1).mp ho.2) hbelow)

/-- Every common descendant of names is below a nearest one. -/
theorem Linked.exists_highest_name (hl : h.Linked) {names : List Text} (hne : names ≠ [])
    {name : Text} (hname : ∀ n ∈ names, h.Below name n) :
    ∃ head ∈ h.commonDescendantNames names, h.Below name head := by
  -- The earlier a common descendant stands in the order, the fewer can be above it.
  induction hk : h.order.idxOf name using Nat.strongRecOn generalizing name with
  | ind k ih =>
    by_cases hmem : name ∈ h.commonDescendantNames names
    · obtain ⟨n, hn⟩ := List.exists_mem_of_ne_nil names hne
      obtain ⟨e, he, rfl, -⟩ := hname n hn
      exact ⟨e.name, hmem, below_of_path (.self he)⟩
    · rw [hl.commonDescendantNames_iff] at hmem
      push Not at hmem
      obtain ⟨other, hother, hbelow, hneq⟩ := hmem hne hname
      have hlt := (hl.below_order hbelow).resolve_left hneq
      obtain ⟨head, hhead, hbelow'⟩ := ih _ (hk ▸ hlt) hother rfl
      exact ⟨head, hhead, hl.below_trans hbelow hbelow'⟩

end Hierarchy

end TypedBlocks
