import TypedBlocks.Hierarchy.Basic
import TypedBlocks.Proofs.Hierarchy.Valid

/-! Paths of declared parents. The ways kept for an ancestor are what the paths to it compose to. -/
namespace TypedBlocks

namespace Declaration

/-- The formal parameter names with the actual parameters that stand for them. -/
def assignment (d : Declaration) (actuals : List TypeExpr) : List (Text × TypeExpr) :=
  (d.params.map (·.name)).zip actuals

/-- A declared parent with actual parameters put for the formal names in its arguments. -/
def instantiate (d : Declaration) (actuals : List TypeExpr) (parent : TypeExpr) : TypeExpr :=
  ⟨parent.name, parent.params.map (TypeExpr.substitute (d.assignment actuals))⟩

theorem lookup_assignment (d : Declaration) (actuals : List TypeExpr) (name : Text) :
    (d.assignment actuals).lookup name = (d.paramIndex? name).bind (actuals[·]?) := by
  unfold assignment paramIndex?
  generalize d.params = params
  induction params generalizing actuals with
  | nil => simp
  | cons p params ih =>
    cases actuals with
    | nil => simp
    | cons a actuals =>
      by_cases heq : p.name = name
      · simp [heq, List.findIdx?_cons]
      · rw [List.map_cons, List.zip_cons_cons, Table.lookup_cons_of_ne (Ne.symm heq), ih,
          List.findIdx?_cons, beq_eq_false_iff_ne.mpr heq]
        cases params.findIdx? (·.name == name) <;> simp

theorem paramIndex?_lt {d : Declaration} {name : Text} {i : Nat}
    (hi : d.paramIndex? name = some i) : i < d.arity := by
  obtain ⟨hlt, -⟩ := List.findIdx?_eq_some_iff_getElem.mp hi
  exact hlt

theorem arguments_eq_mapM (decls : List Declaration) (d : Declaration) (parent : TypeExpr)
    (ts : List TypeExpr) :
    arguments decls d parent ts = ts.mapM (argument decls d parent) := by
  induction ts with
  | nil => simp [arguments, pure, Except.pure]
  | cons t ts ih => simp [arguments, ih]

end Declaration

namespace Hierarchy

variable {h : Hierarchy}

theorem find?_decls {name : Text} {target : Declaration}
    (hfind : Declaration.find? h.decls name = some target) :
    ∃ e ∈ h.entries, e.decl = target ∧ e.name = name := by
  obtain ⟨hmem, hname⟩ := Declaration.find?_name hfind
  obtain ⟨e, he, rfl⟩ := List.mem_map.mp hmem
  exact ⟨e, he, rfl, hname⟩

/-- A translated argument uses declared names and slots of the declaring type; filling it puts
parameters for names. -/
theorem argument_spec {d : Declaration} {parent t : TypeExpr} {arg : Template}
    (hok : Declaration.argument h.decls d parent t = .ok arg) :
    h.Shaped d.arity arg ∧ ∀ actuals : List TypeExpr, actuals.length = d.arity →
      arg.fill actuals = t.substitute (d.assignment actuals) := by
  induction t using TypeExpr.byParams generalizing arg with
  | mk name params ih =>
    unfold Declaration.argument at hok
    split at hok
    · next i hi =>
      have hlt := Declaration.paramIndex?_lt hi
      split at hok
      · next hnil =>
        obtain rfl : params = [] := by simpa using hnil
        obtain rfl := Except.ok.inj hok
        refine ⟨.slot hlt, fun actuals hlen => ?_⟩
        have hlt' : i < actuals.length := hlen ▸ hlt
        simp [Template.fill, TypeExpr.substitute, Declaration.lookup_assignment, hi, hlt']
      · simp at hok
    · next hi =>
      split at hok
      · simp at hok
      · next target htarget =>
        split at hok
        · simp at hok
        · next harity =>
          obtain ⟨args, hargs, hok⟩ := bind_eq_ok.mp hok
          obtain rfl := pure_eq_ok.mp hok
          rw [Declaration.arguments_eq_mapM] at hargs
          obtain ⟨e, he, rfl, rfl⟩ := find?_decls htarget
          constructor
          · refine .app he ?_ fun u hu => ?_
            · rw [length_eq_of_mapM hargs]
              exact Decidable.not_not.mp harity
            · obtain ⟨p, hp, hpu⟩ := exists_of_mapM hargs hu
              exact (ih p hp hpu).1
          · intro actuals hlen
            have hmap : args.map (Template.fill actuals) =
                params.map (TypeExpr.substitute (d.assignment actuals)) :=
              map_eq_of_mapM hargs fun p hp arg harg => (ih p hp harg).2 actuals hlen
            cases params with
            | nil =>
              simp only [List.map_nil, List.map_eq_nil_iff] at hmap
              simp [hmap, Template.fill, TypeExpr.substitute, Declaration.lookup_assignment, hi]
            | cons p params =>
              simp only [Template.fill, Template.fillAll_eq_map, hmap, TypeExpr.substitute,
                TypeExpr.substituteAll_eq_map, List.map_cons]

/-- A declared parent and the same parent over the slots of the declaring type. -/
structure IsEdge (h : Hierarchy) (e : Entry) (parent : TypeExpr) (edge : Text × List Template) :
    Prop where
  target : ∃ target ∈ h.entries, target.name = edge.1 ∧ edge.2.length = target.arity
  shaped : ∀ t ∈ edge.2, h.Shaped e.arity t
  fill : ∀ actuals : List TypeExpr, actuals.length = e.arity →
    ⟨edge.1, edge.2.map (Template.fill actuals)⟩ = e.decl.instantiate actuals parent

theorem isEdge_of_edge {e : Entry} {parent : TypeExpr} {edge : Text × List Template}
    (hok : Declaration.edge h.decls e.decl parent = .ok edge) : h.IsEdge e parent edge := by
  obtain ⟨target, htarget, harity, hhead, hargs⟩ := Declaration.edge_target hok
  rw [Declaration.arguments_eq_mapM] at hargs
  obtain ⟨te, hte, rfl, hname⟩ := find?_decls htarget
  refine ⟨⟨te, hte, hname.trans hhead.symm, ?_⟩, fun t ht => ?_, fun actuals hlen => ?_⟩
  · rw [length_eq_of_mapM hargs]
    exact harity
  · obtain ⟨p, -, hp⟩ := exists_of_mapM hargs ht
    exact (argument_spec hp).1
  · have hmap : edge.2.map (Template.fill actuals) =
        parent.params.map (TypeExpr.substitute (e.decl.assignment actuals)) :=
      map_eq_of_mapM hargs fun p _ arg harg => (argument_spec harg).2 actuals hlen
    rw [hmap, hhead, Declaration.instantiate]

theorem Linked.edge_of_parent (hl : h.Linked) {e : Entry} (he : e ∈ h.entries)
    {parent : TypeExpr} (hp : parent ∈ e.decl.parents) :
    ∃ edge ∈ e.edges, h.IsEdge e parent edge := by
  obtain ⟨edge, hedge, hok⟩ := mapM_exists (hl.edges_eq e he) hp
  exact ⟨edge, hedge, isEdge_of_edge hok⟩

theorem Linked.parent_of_edge (hl : h.Linked) {e : Entry} (he : e ∈ h.entries)
    {edge : Text × List Template} (hedge : edge ∈ e.edges) :
    ∃ parent ∈ e.decl.parents, h.IsEdge e parent edge := by
  obtain ⟨parent, hp, hok⟩ := exists_of_mapM (hl.edges_eq e he) hedge
  exact ⟨parent, hp, isEdge_of_edge hok⟩

/-- The arguments that a path of parents gives to the ancestor at its end, over the slots of the
type at its start. -/
inductive Path (h : Hierarchy) : Entry → Text → List Template → Prop
  | self {e : Entry} (he : e ∈ h.entries) : Path h e e.name (Template.slots e.arity)
  | step {e p : Entry} (he : e ∈ h.entries) {args : List Template}
      (hedge : (p.name, args) ∈ e.edges) {ancestor : Text} {path : List Template}
      (hpath : Path h p ancestor path) :
      Path h e ancestor (path.map (Template.plug args))

theorem Path.mem {e : Entry} {ancestor : Text} {path : List Template}
    (hp : h.Path e ancestor path) : e ∈ h.entries := by
  cases hp with
  | self he => exact he
  | step he => exact he

/-- The ways kept for an ancestor are those of the paths to it. -/
theorem Linked.mem_paths (hl : h.Linked) {e : Entry} (he : e ∈ h.entries) {ancestor : Text}
    {path : List Template} : path ∈ e.paths ancestor ↔ h.Path e ancestor path := by
  constructor
  · induction hk : h.order.idxOf e.name using Nat.strongRecOn generalizing e path with
    | ind k ih =>
      intro hmem
      rw [hl.paths_eq e he, List.mem_eraseDups, List.mem_append, List.mem_flatMap] at hmem
      rcases hmem with hown | ⟨edge, hedge, hmem⟩
      · split at hown
        · next hname =>
          obtain rfl := List.mem_singleton.mp hown
          subst hname
          exact .self he
        · exact absurd hown List.not_mem_nil
      · obtain ⟨_, _, hparent⟩ := hl.parent_of_edge he hedge
        obtain ⟨p, hp, hpname, -⟩ := hparent.target
        obtain ⟨rest, hrest, rfl⟩ := List.mem_map.mp hmem
        rw [← hpname, pathsOf, hl.find?_eq hp] at hrest
        have hlt : h.order.idxOf p.name < k := by
          rw [← hk, hpname]
          exact hl.idxOf_parent_lt he hedge
        rw [Template.plugAll_eq_map]
        refine .step he (p := p) ?_ (ih _ hlt hp rfl hrest)
        rw [hpname]
        exact hedge
  · intro hp
    induction hp with
    | self he => simp [hl.paths_eq _ he, List.mem_eraseDups]
    | @step e p he args hedge ancestor path hpath ih =>
      rw [hl.paths_eq e he, List.mem_eraseDups, List.mem_append, List.mem_flatMap]
      refine .inr ⟨(p.name, args), hedge, List.mem_map.mpr ⟨path, ?_, by simp⟩⟩
      simpa [pathsOf, hl.find?_eq hpath.mem] using ih hpath.mem

theorem Linked.allParamsFor_eq (hl : h.Linked) {e : Entry} (he : e ∈ h.entries)
    (as : List TypeExpr) (ancestor : Text) : h.allParamsFor ⟨e.name, as⟩ ancestor =
      .ok ((e.paths ancestor).map fun path => path.map (Template.fill as)) := by
  rw [allParamsFor, hl.get_eq he, funext (Template.fillAll_eq_map as)]
  rfl

theorem Linked.paramsFor_eq (hl : h.Linked) {e : Entry} (he : e ∈ h.entries)
    (as : List TypeExpr) (ancestor : Text) : h.paramsFor ⟨e.name, as⟩ ancestor =
      .ok ((e.paths ancestor).head?.map fun path => path.map (Template.fill as)) := by
  rw [paramsFor, hl.get_eq he, funext (Template.fillAll_eq_map as)]
  rfl

theorem Linked.viewAs_eq (hl : h.Linked) {e : Entry} (he : e ∈ h.entries)
    (as : List TypeExpr) (ancestor : Text) : h.viewAs ⟨e.name, as⟩ ancestor =
      .ok ((e.template? ancestor).map fun template => template.fill as) := by
  rw [viewAs, hl.paramsFor_eq he, Entry.template?]
  cases (e.paths ancestor).head? with
  | none => rfl
  | some path => simp [Template.fill, pure, Except.pure]

/-- A path leads to an earlier type, or is the type's own. -/
theorem Linked.path_order (hl : h.Linked) {e : Entry} {ancestor : Text} {path : List Template}
    (hp : h.Path e ancestor path) :
    (ancestor = e.name ∧ path = Template.slots e.arity) ∨
      h.order.idxOf ancestor < h.order.idxOf e.name := by
  induction hp with
  | self => exact .inl ⟨rfl, rfl⟩
  | @step e p he args hedge ancestor path _ ih =>
    have hlt : h.order.idxOf p.name < h.order.idxOf e.name := hl.idxOf_parent_lt he hedge
    rcases ih with ⟨rfl, -⟩ | hlt'
    · exact .inr hlt
    · exact .inr (Nat.lt_trans hlt' hlt)

theorem Linked.path_self (hl : h.Linked) {e : Entry} {path : List Template}
    (hp : h.Path e e.name path) : path = Template.slots e.arity := by
  rcases hl.path_order hp with ⟨-, hpath⟩ | hlt
  · exact hpath
  · exact absurd hlt (Nat.lt_irrefl _)

/-- A path ends at a declared type with as many arguments as it takes, all over the slots of the
type at its start. -/
theorem Linked.path_shaped (hl : h.Linked) {e : Entry} {ancestor : Text} {path : List Template}
    (hp : h.Path e ancestor path) :
    (∃ target ∈ h.entries, target.name = ancestor ∧ path.length = target.arity) ∧
      ∀ t ∈ path, h.Shaped e.arity t := by
  induction hp with
  | @self e he =>
    refine ⟨⟨e, he, rfl, by simp⟩, fun t ht => ?_⟩
    obtain ⟨i, hi, rfl⟩ := List.mem_map.mp ht
    exact .slot (List.mem_range.mp hi)
  | @step e p he args hedge ancestor path hpath ih =>
    obtain ⟨⟨target, htarget, hname, hlen⟩, hshaped⟩ := ih
    obtain ⟨_, _, hparent⟩ := hl.parent_of_edge he hedge
    obtain ⟨p', hp', hpname, hargs⟩ := hparent.target
    obtain rfl := hl.entry_unique hp' hpath.mem hpname
    refine ⟨⟨target, htarget, hname, by simpa using hlen⟩, fun t ht => ?_⟩
    obtain ⟨u, hu, rfl⟩ := List.mem_map.mp ht
    exact (hargs ▸ hshaped u hu).plug hparent.shaped

/-- A known type seen as an ancestor is known. -/
theorem Linked.view_valid (hl : h.Linked) {e target : Entry} {path : List Template}
    (hp : h.Path e target.name path) (ht : target ∈ h.entries) {as : List TypeExpr}
    (ha : h.Valid ⟨e.name, as⟩) : h.Valid ⟨target.name, path.map (Template.fill as)⟩ := by
  obtain ⟨hlen, hparams⟩ := (hl.valid_app_iff hp.mem).mp ha
  obtain ⟨⟨target', ht', hname, hlen'⟩, hshaped⟩ := hl.path_shaped hp
  obtain rfl := hl.entry_unique ht' ht hname
  refine .app ht (by simpa using hlen') fun p hp => ?_
  obtain ⟨t, ht, rfl⟩ := List.mem_map.mp hp
  exact (hshaped t ht).fill hlen hparams

/-- A known type with a parent's arguments put in is known. -/
theorem Linked.instantiate_valid (hl : h.Linked) {e : Entry} (he : e ∈ h.entries)
    {parent : TypeExpr} {edge : Text × List Template} (hedge : h.IsEdge e parent edge)
    {as : List TypeExpr} (ha : h.Valid ⟨e.name, as⟩) : h.Valid (e.decl.instantiate as parent) := by
  obtain ⟨hlen, hparams⟩ := (hl.valid_app_iff he).mp ha
  obtain ⟨p, hp, hname, hargs⟩ := hedge.target
  rw [← hedge.fill as hlen, ← hname]
  refine .app hp (by simpa using hargs) fun t ht => ?_
  obtain ⟨u, hu, rfl⟩ := List.mem_map.mp ht
  exact (hedge.shaped u hu).fill hlen hparams

/-- Filling along a path that starts with an edge: first the parent, then the rest of the path. -/
theorem Linked.fill_step (hl : h.Linked) {p : Entry} {ancestor : Text} {path args : List Template}
    (hp : h.Path p ancestor path) (hargs : args.length = p.arity) (as : List TypeExpr) :
    (path.map (Template.plug args)).map (Template.fill as) =
      path.map (Template.fill (args.map (Template.fill as))) := by
  apply Template.map_fill_plug
  intro t ht
  rw [hargs]
  exact ((hl.path_shaped hp).2 t ht).slotsBelow

end Hierarchy

end TypedBlocks
