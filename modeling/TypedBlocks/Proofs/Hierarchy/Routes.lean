import Mathlib.Data.List.Perm.Subperm
import TypedBlocks.Hierarchy.Query
import TypedBlocks.Proofs.Hierarchy.Names
import TypedBlocks.Proofs.Subtype.Decides

/-! The ways kept for an ancestor as a list. They are what the routes of declared parents compose
to, in depth-first order and without repetitions; the first of them is found by following, from each
type, the first declared parent from which the ancestor can be reached. -/
namespace TypedBlocks

/-! ### First occurrences -/

section FirstOccurrences

variable {α β : Type} [BEq α] [LawfulBEq α] [BEq β] [LawfulBEq β]

theorem nodup_eraseDups (xs : List α) : xs.eraseDups.Nodup := by
  induction hn : xs.length using Nat.strongRecOn generalizing xs with
  | ind n ih =>
    cases xs with
    | nil => simp
    | cons x xs =>
      rw [List.eraseDups_cons, List.nodup_cons, List.mem_eraseDups]
      refine ⟨by simp, ih _ ?_ _ rfl⟩
      rw [← hn]
      exact Nat.lt_succ_of_le (List.length_filter_le _ xs)

theorem eraseDups_of_nodup {xs : List α} (h : xs.Nodup) : xs.eraseDups = xs := by
  induction xs with
  | nil => rfl
  | cons x xs ih =>
    obtain ⟨hnew, hrest⟩ := List.nodup_cons.mp h
    have hfilter : xs.filter (fun y => !y == x) = xs := by
      rw [List.filter_eq_self]
      intro y hy
      simpa using fun heq : y = x => hnew (heq ▸ hy)
    rw [List.eraseDups_cons, hfilter, ih hrest]

theorem eraseDups_filter (p : α → Bool) (xs : List α) :
    (xs.filter p).eraseDups = xs.eraseDups.filter p := by
  induction hn : xs.length using Nat.strongRecOn generalizing xs with
  | ind n ih =>
    cases xs with
    | nil => simp
    | cons x xs =>
      have hrest := ih (xs.filter fun y => !y == x).length
        (by simpa [← hn] using Nat.lt_succ_of_le (List.length_filter_le _ _)) _ rfl
      rw [List.eraseDups_cons]
      by_cases hx : p x = true
      · rw [List.filter_cons_of_pos hx, List.filter_cons_of_pos hx, List.eraseDups_cons,
          ← hrest, List.filter_filter, List.filter_filter]
        simp only [Bool.and_comm]
      · rw [List.filter_cons_of_neg hx, List.filter_cons_of_neg hx, ← hrest, List.filter_filter]
        refine congrArg List.eraseDups (List.filter_congr fun y _ => ?_)
        by_cases hy : y = x
        · simp [hy, hx]
        · simp [hy]

/-- The image of a list has the first occurrences of the image of its first occurrences. -/
theorem eraseDups_map_eraseDups (f : α → β) (xs : List α) :
    (xs.eraseDups.map f).eraseDups = (xs.map f).eraseDups := by
  induction hn : xs.length using Nat.strongRecOn generalizing xs with
  | ind n ih =>
    cases xs with
    | nil => simp
    | cons x xs =>
      have hrest := ih (xs.filter fun y => !f y == f x).length
        (by simpa [← hn] using Nat.lt_succ_of_le (List.length_filter_le _ _)) _ rfl
      have hsame : (xs.filter fun y => !y == x).filter (fun y => !f y == f x) =
          xs.filter fun y => !f y == f x := by
        rw [List.filter_filter]
        refine List.filter_congr fun y _ => ?_
        by_cases hy : y = x <;> simp [hy]
      rw [List.eraseDups_cons, List.map_cons, List.map_cons, List.eraseDups_cons,
        List.eraseDups_cons, List.filter_map, List.filter_map]
      change f x :: (List.map f (((xs.filter fun y => !y == x).eraseDups).filter
        fun y => !f y == f x)).eraseDups =
          f x :: (List.map f (xs.filter fun y => !f y == f x)).eraseDups
      rw [← eraseDups_filter, hsame, hrest]

theorem eraseDups_append_congr {as as' bs bs' : List α} (ha : as.eraseDups = as'.eraseDups)
    (hb : bs.eraseDups = bs'.eraseDups) : (as ++ bs).eraseDups = (as' ++ bs').eraseDups := by
  have hmem (x : α) : as.elem x = as'.elem x := by
    rw [Bool.eq_iff_iff, List.elem_iff, List.elem_iff, ← List.mem_eraseDups, ha,
      List.mem_eraseDups]
  simp only [List.eraseDups_append, List.removeAll, eraseDups_filter, ha, hb, hmem]

theorem eraseDups_flatMap_congr {γ : Type} {xs : List γ} {f g : γ → List α}
    (h : ∀ x ∈ xs, (f x).eraseDups = (g x).eraseDups) :
    (xs.flatMap f).eraseDups = (xs.flatMap g).eraseDups := by
  induction xs with
  | nil => rfl
  | cons x xs ih =>
    obtain ⟨hx, hxs⟩ := List.forall_mem_cons.mp h
    exact eraseDups_append_congr hx (ih hxs)

omit [LawfulBEq α] in
theorem head?_eraseDups (xs : List α) : xs.eraseDups.head? = xs.head? := by
  cases xs with
  | nil => rfl
  | cons x xs => rw [List.eraseDups_cons, List.head?_cons, List.head?_cons]

end FirstOccurrences

/-! ### Routes -/

namespace Declaration

mutual

/-- An expression with the slots of the declaring type for its formal parameters. -/
def overSlots (d : Declaration) : TypeExpr → Template
  | ⟨name, params⟩ =>
    match d.paramIndex? name with
    | some i => .slot i
    | none => .app name (overSlotsAll d params)

def overSlotsAll (d : Declaration) : List TypeExpr → List Template
  | [] => []
  | p :: ps => overSlots d p :: overSlotsAll d ps

end

theorem overSlotsAll_eq_map (d : Declaration) (ts : List TypeExpr) :
    overSlotsAll d ts = ts.map d.overSlots := by
  induction ts with
  | nil => rfl
  | cons t ts ih => simp [overSlotsAll, ih]

/-- The arguments of a declared parent, with the given ones for the formal parameters. -/
def pass (d : Declaration) (args : List Template) (parent : TypeExpr) : List Template :=
  parent.params.map fun p => (d.overSlots p).plug args

end Declaration

/-- A path of declared parents: for each step the declaring type and the parent taken. -/
abbrev Route := List (Declaration × TypeExpr)

namespace Route

/-- What a route makes of the arguments of the type at its start. -/
def along (args : List Template) : Route → List Template
  | [] => args
  | (d, parent) :: route => along (d.pass args parent) route

/-- The routes from a type to an ancestor that visit at most `count` types, depth first, with
parents in the order in which they are declared. -/
def listWithin (decls : List Declaration) (ancestor : Text) : Nat → Text → List Route
  | 0, _ => []
  | count + 1, name =>
    (if name = ancestor then [[]] else []) ++
      match Declaration.find? decls name with
      | some d => d.parents.flatMap fun parent =>
        (listWithin decls ancestor count parent.name).map ((d, parent) :: ·)
      | none => []

/-- All routes from a type to an ancestor: none of them visits a type twice. -/
def list (decls : List Declaration) (name ancestor : Text) : List Route :=
  listWithin decls ancestor decls.length name

inductive Leads (decls : List Declaration) : Text → Route → Text → Prop
  | here {d : Declaration} (hd : d ∈ decls) : Leads decls d.name [] d.name
  | step {d : Declaration} (hd : d ∈ decls) {parent : TypeExpr} (hparent : parent ∈ d.parents)
      {route : Route} {ancestor : Text} (hrest : Leads decls parent.name route ancestor) :
      Leads decls d.name ((d, parent) :: route) ancestor

end Route

theorem Route.Leads.mono {decls decls' : List Declaration} (hsub : decls ⊆ decls') {name : Text}
    {route : Route} {ancestor : Text} (hroute : Leads decls name route ancestor) :
    Leads decls' name route ancestor := by
  induction hroute with
  | here hd => exact .here (hsub hd)
  | step hd hparent _ ih => exact .step (hsub hd) hparent ih

/-- The parameters of a type as those of an ancestor, by recursion on declared parents. A type is
its own ancestor; otherwise the first parent from which the ancestor can be reached takes its place,
with the actual parameters put for the formal ones. -/
inductive Follows (decls : List Declaration) (ancestor : Text) :
    TypeExpr → Option (List TypeExpr) → Prop
  | here {d : Declaration} (hd : d ∈ decls) (hname : d.name = ancestor) (args : List TypeExpr) :
      Follows decls ancestor ⟨d.name, args⟩ (some args)
  | parent {d : Declaration} (hd : d ∈ decls) (hname : d.name ≠ ancestor)
      {before after : List TypeExpr} {parent : TypeExpr}
      (hparents : d.parents = before ++ parent :: after)
      (hbefore : ∀ other ∈ before, ∀ route, ¬Route.Leads decls other.name route ancestor)
      {route : Route} (hroute : Route.Leads decls parent.name route ancestor)
      {args : List TypeExpr} {found : Option (List TypeExpr)}
      (hrest : Follows decls ancestor (d.instantiate args parent) found) :
      Follows decls ancestor ⟨d.name, args⟩ found
  | unrelated {d : Declaration} (hd : d ∈ decls)
      (hnone : ∀ route, ¬Route.Leads decls d.name route ancestor) (args : List TypeExpr) :
      Follows decls ancestor ⟨d.name, args⟩ none

theorem Follows.perm {decls decls' : List Declaration} (hperm : decls.Perm decls') {ancestor : Text}
    {t : TypeExpr} {found : Option (List TypeExpr)} (hfollows : Follows decls ancestor t found) :
    Follows decls' ancestor t found := by
  have hback {name : Text} (hnone : ∀ route, ¬Route.Leads decls name route ancestor)
      (route : Route) : ¬Route.Leads decls' name route ancestor :=
    fun hroute => hnone route (hroute.mono hperm.symm.subset)
  induction hfollows with
  | here hd hname args => exact .here (hperm.subset hd) hname args
  | parent hd hname hparents hbefore hroute _ ih =>
    exact .parent (hperm.subset hd) hname hparents
      (fun other hother => hback (hbefore other hother)) (hroute.mono hperm.subset) ih
  | unrelated hd hnone args => exact .unrelated (hperm.subset hd) (hback hnone) args

theorem Template.map_plug_slots (args : List Template) :
    (slots args.length).map (plug args) = args := by
  apply List.ext_getElem
  · simp
  · intro i hi hi'
    simp [slots, plug, hi']

namespace Hierarchy

variable {h : Hierarchy}

theorem argument_eq_overSlots {decls : List Declaration} {d : Declaration} {parent t : TypeExpr}
    {arg : Template} (hok : Declaration.argument decls d parent t = .ok arg) :
    arg = d.overSlots t := by
  induction t using TypeExpr.byParams generalizing arg with
  | mk name params ih =>
    unfold Declaration.argument at hok
    unfold Declaration.overSlots
    cases hi : d.paramIndex? name with
    | some i =>
      simp only [hi] at hok ⊢
      split at hok
      · exact (Except.ok.inj hok).symm
      · cases hok
    | none =>
      simp only [hi] at hok ⊢
      split at hok
      · cases hok
      · split at hok
        · cases hok
        · obtain ⟨args, hargs, hok⟩ := bind_eq_ok.mp hok
          obtain rfl := pure_eq_ok.mp hok
          rw [Declaration.arguments_eq_mapM] at hargs
          have hmap := map_eq_of_mapM (k := id) hargs fun p hp arg harg => ih p hp harg
          rw [List.map_id] at hmap
          rw [Declaration.overSlotsAll_eq_map, hmap]

theorem edge_eq_overSlots {decls : List Declaration} {d : Declaration} {parent : TypeExpr}
    {edge : Text × List Template} (hok : Declaration.edge decls d parent = .ok edge) :
    edge = (parent.name, parent.params.map d.overSlots) := by
  obtain ⟨_, -, -, hname, hargs⟩ := Declaration.edge_target hok
  rw [Declaration.arguments_eq_mapM] at hargs
  have hparams := map_eq_of_mapM (k := id) hargs fun p _ arg harg => argument_eq_overSlots harg
  rw [List.map_id] at hparams
  exact Prod.ext hname hparams

/-- The edges of a type are its declared parents over its own slots, in their order. -/
theorem Linked.edges_eq_map (hl : h.Linked) {e : Entry} (he : e ∈ h.entries) :
    e.edges = e.decl.parents.map fun parent =>
      (parent.name, parent.params.map e.decl.overSlots) := by
  have hmap := map_eq_of_mapM (k := id) (hl.edges_eq e he) fun _ _ _ => edge_eq_overSlots
  rwa [List.map_id] at hmap

theorem Linked.isEdge_of_parent (hl : h.Linked) {e : Entry} (he : e ∈ h.entries)
    {parent : TypeExpr} (hparent : parent ∈ e.decl.parents) :
    h.IsEdge e parent (parent.name, parent.params.map e.decl.overSlots) := by
  obtain ⟨edge, -, hok⟩ := mapM_exists (hl.edges_eq e he) hparent
  exact edge_eq_overSlots hok ▸ isEdge_of_edge hok

theorem decl_mem_iff {d : Declaration} : d ∈ h.decls ↔ ∃ e ∈ h.entries, e.decl = d :=
  List.mem_map

theorem Linked.find?_decl (hl : h.Linked) {e : Entry} (he : e ∈ h.entries) :
    Declaration.find? h.decls e.name = some e.decl := by
  refine find?_decl_of_mem ?_ (decl_mem_iff.mpr ⟨e, he, rfl⟩)
  have hnames : h.decls.map (·.name) = h.names := by simp [decls, names, Entry.name]
  rw [hnames]
  exact hl.names_nodup

/-- A declared parent is an earlier type with as many arguments as it takes, all of them over the
slots of the declaring type. -/
theorem Linked.parent_step (hl : h.Linked) {e : Entry} (he : e ∈ h.entries) {parent : TypeExpr}
    (hparent : parent ∈ e.decl.parents) :
    ∃ p ∈ h.entries, p.name = parent.name ∧ parent.params.length = p.arity ∧
      h.order.idxOf p.name < h.order.idxOf e.name ∧
      ∀ q ∈ parent.params, h.Shaped e.arity (e.decl.overSlots q) := by
  have hedge : (parent.name, parent.params.map e.decl.overSlots) ∈ e.edges := by
    rw [hl.edges_eq_map he]
    exact List.mem_map_of_mem hparent
  have hisEdge := hl.isEdge_of_parent he hparent
  obtain ⟨p, hp, hname, hlen⟩ := hisEdge.target
  refine ⟨p, hp, hname, by simpa using hlen, ?_, fun q hq => ?_⟩
  · rw [hname]
    exact hl.idxOf_parent_lt he hedge
  · exact hisEdge.shaped _ (List.mem_map_of_mem hq)

/-! ### What a route makes of arguments -/

theorem Linked.pass_slots (hl : h.Linked) {e : Entry} (he : e ∈ h.entries) {parent : TypeExpr}
    (hparent : parent ∈ e.decl.parents) :
    e.decl.pass (Template.slots e.arity) parent = parent.params.map e.decl.overSlots := by
  obtain ⟨_, _, _, _, _, hshaped⟩ := hl.parent_step he hparent
  exact List.map_congr_left fun q hq => (hshaped q hq).slotsBelow.plug_slots

theorem Linked.along_shaped (hl : h.Linked) {e : Entry} (he : e ∈ h.entries) {route : Route}
    {ancestor : Text} (hroute : Route.Leads h.decls e.name route ancestor) {n : Nat}
    {args : List Template} (hlen : args.length = e.arity) (hargs : ∀ t ∈ args, h.Shaped n t) :
    ∀ t ∈ Route.along args route, h.Shaped n t := by
  generalize hname : e.name = name at hroute
  induction hroute generalizing e args with
  | here => exact hargs
  | @step d hd parent hparent route ancestor _ ih =>
    obtain ⟨e', he', rfl⟩ := decl_mem_iff.mp hd
    obtain rfl := hl.entry_unique he he' hname
    obtain ⟨p, hp, hpname, harity, -, hshaped⟩ := hl.parent_step he hparent
    refine ih hp (by simpa [Declaration.pass] using harity) (fun t ht => ?_) hpname
    obtain ⟨q, hq, rfl⟩ := List.mem_map.mp ht
    exact Shaped.plug (hlen ▸ hshaped q hq) hargs

/-- A route passes arguments on as it passes on the slots of the type at its start. -/
theorem Linked.along_eq_map (hl : h.Linked) {e : Entry} (he : e ∈ h.entries) {route : Route}
    {ancestor : Text} (hroute : Route.Leads h.decls e.name route ancestor) {args : List Template}
    (hlen : args.length = e.arity) :
    Route.along args route =
      (Route.along (Template.slots e.arity) route).map (Template.plug args) := by
  generalize hname : e.name = name at hroute
  induction hroute generalizing e args with
  | here =>
    rw [← hlen]
    exact (Template.map_plug_slots args).symm
  | @step d hd parent hparent route ancestor hrest ih =>
    obtain ⟨e', he', rfl⟩ := decl_mem_iff.mp hd
    obtain rfl := hl.entry_unique he he' hname
    obtain ⟨p, hp, hpname, harity, -, -⟩ := hl.parent_step he hparent
    have hpass (args : List Template) : (e.decl.pass args parent).length = p.arity := by
      simpa [Declaration.pass] using harity
    have hslots : ∀ t ∈ Route.along (Template.slots p.arity) route, t.SlotsBelow p.arity := by
      intro t ht
      refine (hl.along_shaped hp (hpname ▸ hrest) (by simp) (fun u hu => ?_) t ht).slotsBelow
      obtain ⟨i, hi, rfl⟩ := List.mem_map.mp hu
      exact .slot (List.mem_range.mp hi)
    calc Route.along args ((e.decl, parent) :: route)
      _ = (Route.along (Template.slots p.arity) route).map
            (Template.plug (e.decl.pass args parent)) := ih hp (hpass args) hpname
      _ = (Route.along (Template.slots p.arity) route).map
            (Template.plug ((e.decl.pass (Template.slots e.arity) parent).map
              (Template.plug args))) := by
          rw [hl.pass_slots he hparent, List.map_map]
          rfl
      _ = ((Route.along (Template.slots p.arity) route).map
            (Template.plug (e.decl.pass (Template.slots e.arity) parent))).map
              (Template.plug args) := by
          rw [List.map_map]
          refine List.map_congr_left fun t ht => ?_
          exact ((hpass _ ▸ hslots t ht).plug_plug args).symm
      _ = (Route.along (Template.slots e.arity) ((e.decl, parent) :: route)).map
            (Template.plug args) := by
          rw [← ih hp (hpass _) hpname]
          rfl

/-! ### All routes -/

theorem Linked.leads_of_mem (hl : h.Linked) {e : Entry} (he : e ∈ h.entries) {count : Nat}
    {route : Route} {ancestor : Text}
    (hroute : route ∈ Route.listWithin h.decls ancestor count e.name) :
    Route.Leads h.decls e.name route ancestor := by
  induction count generalizing e route with
  | zero => cases hroute
  | succ count ih =>
    simp only [Route.listWithin, hl.find?_decl he, List.mem_append] at hroute
    rcases hroute with hroute | hroute
    · split at hroute
      · next hname =>
        obtain rfl := List.mem_singleton.mp hroute
        exact hname ▸ .here (decl_mem_iff.mpr ⟨e, he, rfl⟩)
      · cases hroute
    · obtain ⟨parent, hparent, hroute⟩ := List.mem_flatMap.mp hroute
      obtain ⟨rest, hrest, rfl⟩ := List.mem_map.mp hroute
      obtain ⟨p, hp, hpname, -⟩ := hl.parent_step he hparent
      exact .step (decl_mem_iff.mpr ⟨e, he, rfl⟩) hparent (hpname ▸ ih hp (hpname ▸ hrest))

theorem Linked.mem_of_leads (hl : h.Linked) {name : Text} {route : Route} {ancestor : Text}
    (hroute : Route.Leads h.decls name route ancestor) {count : Nat}
    (hcount : h.order.idxOf name < count) :
    route ∈ Route.listWithin h.decls ancestor count name := by
  induction hroute generalizing count with
  | here =>
    obtain ⟨count, rfl⟩ := Nat.exists_eq_add_one.mpr (Nat.zero_lt_of_lt hcount)
    simp [Route.listWithin]
  | @step d hd parent hparent route ancestor _ ih =>
    obtain ⟨e, he, rfl⟩ := decl_mem_iff.mp hd
    obtain ⟨count, rfl⟩ := Nat.exists_eq_add_one.mpr (Nat.zero_lt_of_lt hcount)
    obtain ⟨p, hp, hpname, -, hlt, -⟩ := hl.parent_step he hparent
    have hbefore : h.order.idxOf parent.name < count := by
      rw [← hpname]
      exact Nat.lt_of_lt_of_le hlt (Nat.le_of_lt_succ hcount)
    have hfind : Declaration.find? h.decls e.decl.name = some e.decl := hl.find?_decl he
    simp only [Route.listWithin, hfind, List.mem_append]
    exact .inr (List.mem_flatMap.mpr ⟨parent, hparent, List.mem_map_of_mem (ih hbefore)⟩)

theorem Linked.pathsOf_eq (hl : h.Linked) {e : Entry} (he : e ∈ h.entries) (ancestor : Text) :
    h.pathsOf e.name ancestor = e.paths ancestor := by
  rw [pathsOf, hl.find?_eq he]
  rfl

/-- The ways kept for an ancestor are those of its routes in their order, each at its first
occurrence. -/
theorem Linked.paths_eq_listWithin (hl : h.Linked) {e : Entry} (he : e ∈ h.entries)
    (ancestor : Text) {count : Nat} (hcount : h.order.idxOf e.name < count) :
    e.paths ancestor = ((Route.listWithin h.decls ancestor count e.name).map
      (Route.along (Template.slots e.arity))).eraseDups := by
  induction count generalizing e with
  | zero => exact absurd hcount (Nat.not_lt_zero _)
  | succ count ih =>
    rw [hl.paths_eq e he, hl.edges_eq_map he, List.flatMap_map]
    simp only [Route.listWithin, hl.find?_decl he, List.map_append, List.map_flatMap]
    refine eraseDups_append_congr ?_ (eraseDups_flatMap_congr fun parent hparent => ?_)
    · by_cases hname : e.name = ancestor
      · simp [hname, Route.along]
      · simp [hname, Ne.symm hname]
    · obtain ⟨p, hp, hpname, harity, hlt, -⟩ := hl.parent_step he hparent
      have hbefore := ih hp (Nat.lt_of_lt_of_le hlt (Nat.le_of_lt_succ hcount))
      rw [← hpname, hl.pathsOf_eq hp, hbefore, eraseDups_map_eraseDups, List.map_map, List.map_map]
      refine congrArg List.eraseDups (List.map_congr_left fun route hroute => ?_)
      have hpass : (e.decl.pass (Template.slots e.arity) parent).length = p.arity := by
        simpa [Declaration.pass] using harity
      rw [Function.comp_apply, Function.comp_apply, Template.plugAll_eq_map, Route.along,
        hl.along_eq_map hp (hl.leads_of_mem hp hroute) hpass, hl.pass_slots he hparent]

theorem Linked.idxOf_lt_length (hl : h.Linked) {e : Entry} (he : e ∈ h.entries) :
    h.order.idxOf e.name < h.decls.length := by
  obtain ⟨heads, hord, -⟩ := hl.ordered
  have hmem := hl.mem_order e.name (mem_names.mpr ⟨e, he, rfl⟩)
  have hlength : h.order.length ≤ h.names.length :=
    (List.subperm_of_subset hord.nodup hord.declared).length_le
  have hnames : h.names.length = h.decls.length := by simp [names, decls]
  exact Nat.lt_of_lt_of_le (List.idxOf_lt_length_of_mem hmem) (hnames ▸ hlength)

theorem Linked.mem_list_iff (hl : h.Linked) {e : Entry} (he : e ∈ h.entries) {route : Route}
    {ancestor : Text} : route ∈ Route.list h.decls e.name ancestor ↔
      Route.Leads h.decls e.name route ancestor :=
  ⟨hl.leads_of_mem he, fun hroute => hl.mem_of_leads hroute (hl.idxOf_lt_length he)⟩

theorem Linked.paths_eq_nil_iff (hl : h.Linked) {e : Entry} (he : e ∈ h.entries) {ancestor : Text} :
    e.paths ancestor = [] ↔ ∀ route, ¬Route.Leads h.decls e.name route ancestor := by
  rw [hl.paths_eq_listWithin he ancestor (hl.idxOf_lt_length he), ← List.head?_eq_none_iff,
    head?_eraseDups, List.head?_eq_none_iff, List.map_eq_nil_iff, List.eq_nil_iff_forall_not_mem]
  exact forall_congr' fun route => not_congr (hl.mem_list_iff he)

/-! ### The first route -/

theorem Linked.paramsFor_self (hl : h.Linked) {e : Entry} (he : e ∈ h.entries)
    {args : List TypeExpr} (hlen : args.length = e.arity) :
    h.paramsFor ⟨e.name, args⟩ e.name = .ok (some args) := by
  have hhead : (e.paths e.name).head? = some (Template.slots e.arity) := by
    rw [hl.paths_eq e he, head?_eraseDups, if_pos rfl]
    rfl
  rw [hl.paramsFor_eq he, hhead, Option.map_some, ← hlen, Template.map_fill_slots]

/-- The first declared parent from which the ancestor can be reached takes the place of the type. -/
theorem Linked.paramsFor_parent (hl : h.Linked) {e p : Entry} (he : e ∈ h.entries)
    (hp : p ∈ h.entries) {ancestor : Text} (hne : e.name ≠ ancestor) {before after : List TypeExpr}
    {parent : TypeExpr} (hparents : e.decl.parents = before ++ parent :: after)
    (hname : p.name = parent.name)
    (hbefore : ∀ other ∈ before, ∀ route, ¬Route.Leads h.decls other.name route ancestor)
    (hreach : p.paths ancestor ≠ []) {args : List TypeExpr} (hlen : args.length = e.arity) :
    h.paramsFor ⟨e.name, args⟩ ancestor =
      h.paramsFor (e.decl.instantiate args parent) ancestor := by
  have hisEdge := hl.isEdge_of_parent he (show parent ∈ e.decl.parents by simp [hparents])
  obtain ⟨path, paths, hpath⟩ := List.exists_cons_of_ne_nil hreach
  -- The parents before the first one that reaches the ancestor add no way to it.
  have hnone : ∀ other ∈ before, h.pathsOf other.name ancestor = [] := by
    intro other hother
    obtain ⟨o, ho, honame, -⟩ := hl.parent_step he
      (show other ∈ e.decl.parents by simp [hparents, hother])
    rw [← honame, hl.pathsOf_eq ho, hl.paths_eq_nil_iff ho, honame]
    exact hbefore other hother
  have hhead : (e.paths ancestor).head? =
      some (path.map (Template.plug (parent.params.map e.decl.overSlots))) := by
    rw [hl.paths_eq e he, head?_eraseDups, if_neg (Ne.symm hne), List.nil_append,
      hl.edges_eq_map he, List.flatMap_map, hparents, List.flatMap_append,
      List.flatMap_eq_nil_iff.mpr fun other hother => by rw [hnone other hother]; rfl,
      List.nil_append, List.flatMap_cons, ← hname, hl.pathsOf_eq hp, hpath, List.map_cons,
      Template.plugAll_eq_map]
    rfl
  have hfirst : h.Path p ancestor path :=
    (hl.mem_paths hp).mp (hpath ▸ List.mem_cons_self)
  have harity : (parent.params.map e.decl.overSlots).length = p.arity := by
    obtain ⟨p', hp', hname', harity⟩ := hisEdge.target
    rw [harity, hl.entry_unique hp' hp (hname'.trans hname.symm)]
  rw [hl.paramsFor_eq he, hhead, Option.map_some, hl.fill_step hfirst harity,
    ← hisEdge.fill args hlen, ← hname, hl.paramsFor_eq hp, hpath]
  rfl

theorem Linked.paramsFor_unrelated (hl : h.Linked) {e : Entry} (he : e ∈ h.entries)
    {ancestor : Text} (hnone : ∀ route, ¬Route.Leads h.decls e.name route ancestor)
    (args : List TypeExpr) : h.paramsFor ⟨e.name, args⟩ ancestor = .ok none := by
  rw [hl.paramsFor_eq he, (hl.paths_eq_nil_iff he).mpr hnone]
  rfl

theorem Linked.paths_ne_nil (hl : h.Linked) {e : Entry} (he : e ∈ h.entries) {route : Route}
    {ancestor : Text} (hroute : Route.Leads h.decls e.name route ancestor) :
    e.paths ancestor ≠ [] :=
  fun hnil => (hl.paths_eq_nil_iff he).mp hnil route hroute

theorem Linked.paramsFor_of_follows (hl : h.Linked) {ancestor : Text} {t : TypeExpr}
    {found : Option (List TypeExpr)} (hfollows : Follows h.decls ancestor t found) {e : Entry}
    (he : e ∈ h.entries) (hname : e.name = t.name) (hlen : t.params.length = e.arity) :
    h.paramsFor t ancestor = .ok found := by
  induction hfollows generalizing e with
  | @here d hd hself args =>
    obtain ⟨e', he', rfl⟩ := decl_mem_iff.mp hd
    obtain rfl := hl.entry_unique he he' hname
    exact hself ▸ hl.paramsFor_self he hlen
  | @parent d hd hne before after parent hparents hbefore route hroute args found _ ih =>
    obtain ⟨e', he', rfl⟩ := decl_mem_iff.mp hd
    obtain rfl := hl.entry_unique he he' hname
    obtain ⟨p, hp, hpname, harity, -⟩ := hl.parent_step he
      (show parent ∈ e.decl.parents by simp [hparents])
    have hreach := hl.paths_ne_nil hp (hpname ▸ hroute)
    have hrest := ih hp hpname (by simpa [Declaration.instantiate] using harity)
    exact (hl.paramsFor_parent he hp hne hparents hpname hbefore hreach hlen).trans hrest
  | @unrelated d hd hnone args =>
    obtain ⟨e', he', rfl⟩ := decl_mem_iff.mp hd
    exact hl.paramsFor_unrelated he' hnone args

theorem Linked.parent_unreached_iff (hl : h.Linked) {e : Entry} (he : e ∈ h.entries)
    {parent : TypeExpr} (hparent : parent ∈ e.decl.parents) {ancestor : Text} :
    (h.pathsOf parent.name ancestor).isEmpty = true ↔
      ∀ route, ¬Route.Leads h.decls parent.name route ancestor := by
  obtain ⟨p, hp, hname, -⟩ := hl.parent_step he hparent
  rw [← hname, hl.pathsOf_eq hp, List.isEmpty_iff, hl.paths_eq_nil_iff hp]

/-- Following the first parents always ends. -/
theorem Linked.exists_follows (hl : h.Linked) (ancestor : Text) {e : Entry} (he : e ∈ h.entries)
    (args : List TypeExpr) : ∃ found, Follows h.decls ancestor ⟨e.name, args⟩ found := by
  induction hk : h.order.idxOf e.name using Nat.strongRecOn generalizing e args with
  | ind k ih =>
    have hd : e.decl ∈ h.decls := decl_mem_iff.mpr ⟨e, he, rfl⟩
    by_cases hself : e.name = ancestor
    · exact ⟨_, .here hd hself args⟩
    cases hfind : e.decl.parents.find? fun parent => !(h.pathsOf parent.name ancestor).isEmpty with
    | none =>
      refine ⟨_, .unrelated hd (fun route hroute => ?_) args⟩
      generalize hname : e.decl.name = name at hroute
      cases hroute with
      | here => exact hself hname
      | @step d hd' parent hparent route _ hrest =>
        obtain ⟨e', he', rfl⟩ := decl_mem_iff.mp hd'
        obtain rfl := hl.entry_unique he he' hname
        have hempty := List.find?_eq_none.mp hfind parent hparent
        rw [Bool.not_eq_true, Bool.not_eq_false'] at hempty
        exact (hl.parent_unreached_iff he hparent).mp hempty route hrest
    | some parent =>
      obtain ⟨hreach, before, after, hparents, hbefore⟩ := List.find?_eq_some_iff_append.mp hfind
      have hparent : parent ∈ e.decl.parents := by simp [hparents]
      obtain ⟨p, hp, hpname, -, hlt, -⟩ := hl.parent_step he hparent
      obtain ⟨found, hfound⟩ := ih _ (hk ▸ hlt) hp
        (parent.params.map (TypeExpr.substitute (e.decl.assignment args))) rfl
      obtain ⟨route, hroute⟩ : ∃ route, Route.Leads h.decls parent.name route ancestor := by
        by_contra hnone
        rw [(hl.parent_unreached_iff he hparent).mpr (not_exists.mp hnone)] at hreach
        cases hreach
      refine ⟨found, .parent hd hself hparents (fun other hother => ?_) hroute ?_⟩
      · refine (hl.parent_unreached_iff he (by simp [hparents, hother])).mp ?_
        simpa using hbefore other hother
      · rw [Declaration.instantiate, ← hpname]
        exact hfound

theorem Linked.paramsFor_iff_follows (hl : h.Linked) {e : Entry} (he : e ∈ h.entries)
    {args : List TypeExpr} (hlen : args.length = e.arity) {ancestor : Text}
    {found : Option (List TypeExpr)} : h.paramsFor ⟨e.name, args⟩ ancestor = .ok found ↔
      Follows h.decls ancestor ⟨e.name, args⟩ found := by
  constructor
  · intro hok
    obtain ⟨found', hfollows⟩ := hl.exists_follows ancestor he args
    have hok' := hl.paramsFor_of_follows hfollows he rfl hlen
    rw [hok] at hok'
    exact Except.ok.inj hok' ▸ hfollows
  · exact fun hfollows => hl.paramsFor_of_follows hfollows he rfl hlen

theorem askNamed_text {α : Type} (question : Text → α) (given : Text) :
    askNamed question (.text given) = .ok (question (Text.lower given)) :=
  rfl

theorem Linked.lookup_text (hl : h.Linked) {e : Entry} (he : e ∈ h.entries) {given : Text}
    (hgiven : Text.lower given = e.name) : h.lookup (.text given) = .ok e := by
  rw [lookup, nameOf, hgiven, ok_bind, hl.get_eq he]

theorem Linked.askAncestor_text {α : Type} (hl : h.Linked) {e : Entry} (he : e ∈ h.entries)
    (question : TypeExpr → Text → Except Fault α) (args : List TypeExpr) (given : Text) :
    h.askAncestor question ⟨e.name, args⟩ (.text given) =
      question ⟨e.name, args⟩ (Text.lower given) := by
  rw [askAncestor, hl.get_eq he]
  rfl

/-- The types of an accepted hierarchy reach an ancestor as the routes of declared parents do: the
ways kept are what all routes compose to, depth first and without repetitions, and the first one is
that of the first declared parents, in whatever order the types are declared. The ancestor may be
asked for by its name in any case. -/
theorem paths_eq_routes {definition : Definition} {h : Hierarchy}
    (hdef : ofDefinition definition = .ok h) {e : Entry} (he : e ∈ h.entries) (ancestor : Text) :
    (∀ route, route ∈ Route.list h.decls e.name ancestor ↔
      Route.Leads h.decls e.name route ancestor) ∧
    e.paths ancestor = ((Route.list h.decls e.name ancestor).map
      (Route.along (Template.slots e.arity))).eraseDups ∧
    (e.paths ancestor = [] ↔ ∀ route, ¬Route.Leads h.decls e.name route ancestor) ∧
    ∀ args : List TypeExpr, args.length = e.arity →
      (∀ found, h.paramsFor ⟨e.name, args⟩ ancestor = .ok found ↔
        Follows h.decls ancestor ⟨e.name, args⟩ found) ∧
      (∀ definition' h', ofDefinition definition' = .ok h' → h'.decls.Perm h.decls →
        h'.paramsFor ⟨e.name, args⟩ ancestor = h.paramsFor ⟨e.name, args⟩ ancestor) ∧
      ∀ given, Text.lower given = ancestor →
        e.pathsNamed (.text given) = .ok (e.paths ancestor) ∧
        h.paramsForNamed ⟨e.name, args⟩ (.text given) = h.paramsFor ⟨e.name, args⟩ ancestor := by
  have hl := ofDefinition_linked hdef
  refine ⟨fun route => hl.mem_list_iff he,
    hl.paths_eq_listWithin he ancestor (hl.idxOf_lt_length he), hl.paths_eq_nil_iff he,
    fun args hlen => ⟨fun found => hl.paramsFor_iff_follows he hlen, ?_, ?_⟩⟩
  · intro definition' h' hdef' hperm
    have hl' := ofDefinition_linked hdef'
    obtain ⟨e', he', hdecl⟩ := decl_mem_iff.mp (hperm.mem_iff.mpr (decl_mem_iff.mpr ⟨e, he, rfl⟩))
    obtain ⟨found, hfollows⟩ := hl.exists_follows ancestor he args
    have hname : e'.name = e.name := congrArg Declaration.name hdecl
    have harity : args.length = e'.arity := hlen.trans (congrArg Declaration.arity hdecl).symm
    rw [(hl.paramsFor_iff_follows he hlen).mpr hfollows]
    exact hl'.paramsFor_of_follows (hfollows.perm hperm.symm) he' hname harity
  · rintro given rfl
    exact ⟨askNamed_text e.paths given, hl.askAncestor_text he h.paramsFor args given⟩

end Hierarchy

/-- Crates reach boxes in three ways, of which two are the same. -/
def crateEntries : List (Json.Value × Json.Value) := [
  typeEntry "dog" [] [],
  typeEntry "cat" [] [],
  typeEntry "box" [("x", .co)] [],
  typeEntry "pair" [("x", .co), ("y", .co)] ["box[x]"],
  typeEntry "crate" [("p", .co), ("q", .co)]
    ["box[pair[q, p]]", "pair[pair[q, p], p]", "box[dog]"]]

def crateHierarchy : Hierarchy where
  entries := [
    ⟨⟨"dog", [], []⟩, [], [("dog", [[]])], [], []⟩,
    ⟨⟨"cat", [], []⟩, [], [("cat", [[]])], [], []⟩,
    ⟨⟨"box", [⟨"x", .co⟩], []⟩, [], [("box", [[.slot 0]])], ["pair", "crate"], ["pair", "crate"]⟩,
    ⟨⟨"pair", [⟨"x", .co⟩, ⟨"y", .co⟩], [⟨"box", [⟨"x", []⟩]⟩]⟩, [("box", [.slot 0])],
      [("box", [[.slot 0]]), ("pair", [[.slot 0, .slot 1]])], ["crate"], ["crate"]⟩,
    ⟨⟨"crate", [⟨"p", .co⟩, ⟨"q", .co⟩], [⟨"box", [⟨"pair", [⟨"q", []⟩, ⟨"p", []⟩]⟩]⟩,
        ⟨"pair", [⟨"pair", [⟨"q", []⟩, ⟨"p", []⟩]⟩, ⟨"p", []⟩]⟩, ⟨"box", [⟨"dog", []⟩]⟩]⟩,
      [("box", [.app "pair" [.slot 1, .slot 0]]),
        ("pair", [.app "pair" [.slot 1, .slot 0], .slot 0]), ("box", [.app "dog" []])],
      [("box", [[.app "pair" [.slot 1, .slot 0]], [.app "dog" []]]),
        ("pair", [[.app "pair" [.slot 1, .slot 0], .slot 0]]), ("crate", [[.slot 0, .slot 1]])],
      [], []⟩]
  order := ["dog", "cat", "box", "pair", "crate"]

namespace Hierarchy

theorem crate_accepted : ofDefinition (.mapping crateEntries) = .ok crateHierarchy :=
  eq_ok_of_toOption (by decide +kernel)

/-- A crate of a dog and a cat is a box by its first parent, also where crates are declared before
their parents. -/
theorem crate_paths_eq_routes :
    ∃ e ∈ crateHierarchy.entries, e.name = "crate" ∧
    e.paths "box" = [[.app "pair" [.slot 1, .slot 0]], [.app "dog" []]] ∧
    ((Route.list crateHierarchy.decls "crate" "box").map (Route.along (Template.slots 2))) =
      [[.app "pair" [.slot 1, .slot 0]], [.app "pair" [.slot 1, .slot 0]], [.app "dog" []]] ∧
    Follows crateHierarchy.decls "box" ⟨"crate", [⟨"dog", []⟩, ⟨"cat", []⟩]⟩
      (some [⟨"pair", [⟨"cat", []⟩, ⟨"dog", []⟩]⟩]) ∧
    crateHierarchy.paramsForNamed ⟨"crate", [⟨"dog", []⟩, ⟨"cat", []⟩]⟩ (.text "BOX") =
      .ok (some [⟨"pair", [⟨"cat", []⟩, ⟨"dog", []⟩]⟩]) ∧
    ∃ h', ofDefinition (.mapping crateEntries.reverse) = .ok h' ∧
      h'.paramsFor ⟨"crate", [⟨"dog", []⟩, ⟨"cat", []⟩]⟩ "box" =
        .ok (some [⟨"pair", [⟨"cat", []⟩, ⟨"dog", []⟩]⟩]) := by
  obtain ⟨e, he, hname, harity⟩ : ∃ e ∈ crateHierarchy.entries, e.name = "crate" ∧ e.arity = 2 := by
    decide +kernel
  obtain ⟨-, hpaths, -, hparams⟩ := paths_eq_routes crate_accepted he "box"
  obtain ⟨hfollows, hreorder, hgiven⟩ := hparams [⟨"dog", []⟩, ⟨"cat", []⟩] harity.symm
  have hroutes : (Route.list crateHierarchy.decls "crate" "box").map
      (Route.along (Template.slots 2)) = [[.app "pair" [.slot 1, .slot 0]],
        [.app "pair" [.slot 1, .slot 0]], [.app "dog" []]] := by
    decide +kernel
  have hfound : crateHierarchy.paramsFor ⟨"crate", [⟨"dog", []⟩, ⟨"cat", []⟩]⟩ "box" =
      .ok (some [⟨"pair", [⟨"cat", []⟩, ⟨"dog", []⟩]⟩]) := eq_ok_of_toOption (by decide +kernel)
  have hreversed : (ofDefinition (.mapping crateEntries.reverse)).toOption.map decls =
      some crateHierarchy.decls.reverse := by
    decide +kernel
  obtain ⟨h', hh', hdecls⟩ := Option.map_eq_some_iff.mp hreversed
  have hdef' := eq_ok_of_toOption hh'
  have hbox := (hgiven "BOX" (by decide +kernel)).2
  rw [hname] at hpaths hfollows hreorder hbox
  rw [harity, hroutes] at hpaths
  refine ⟨e, he, hname, hpaths.trans (by decide +kernel), hroutes, (hfollows _).mp hfound,
    hbox.trans hfound, h', hdef', ?_⟩
  rw [hreorder _ h' hdef' (hdecls ▸ List.reverse_perm _), hfound]

end Hierarchy

end TypedBlocks
