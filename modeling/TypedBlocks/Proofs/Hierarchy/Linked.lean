import TypedBlocks.Proofs.Hierarchy.Downward
import TypedBlocks.Proofs.Text.Lower

/-! What holds of every hierarchy that is built from a definition. -/
namespace TypedBlocks

open Json (Value)

namespace Declaration

theorem readName_ne_star {v : Value} {name : Text} (h : readName v = .ok name) :
    name ≠ TypeExpr.star := by
  cases v with
  | text s =>
    simp only [readName] at h
    split at h
    · simp at h
    · split at h
      · simp at h
      · next hs =>
        obtain rfl := Except.ok.inj h
        intro hlower
        exact hs (Text.lower_eq_singleton (by decide) hlower)
  | _ => simp [readName] at h

theorem lower_of_readName {v : Value} {name : Text} (h : readName v = .ok name) :
    Text.lower name = name := by
  cases v with
  | text s =>
    simp only [readName] at h
    split at h
    · cases h
    · split at h
      · cases h
      · obtain rfl := Except.ok.inj h
        exact Text.lower_lower s
  | _ => simp [readName] at h

theorem read_name {name : Text} {v : Value} {d : Declaration} (h : read name v = .ok d) :
    d.name = name := by
  simp only [read, bind_eq_ok] at h
  obtain ⟨_, _, _, _, _, _, _, _, _, _, h⟩ := h
  obtain rfl := pure_eq_ok.mp h
  rfl

/-- The names read are distinct, new, and none of them is the wildcard's. -/
theorem readEntries_names {seen : List Text} {entries : List (Value × Value)}
    {decls : List Declaration} (h : readEntries seen entries = .ok decls) :
    (decls.map (·.name)).Nodup ∧
      ∀ name ∈ decls.map (·.name), name ∉ seen ∧ name ≠ TypeExpr.star := by
  induction entries generalizing seen decls with
  | nil =>
    obtain rfl := Except.ok.inj h
    simp
  | cons entry entries ih =>
    obtain ⟨key, v⟩ := entry
    simp only [readEntries, bind_eq_ok] at h
    obtain ⟨name, hname, h⟩ := h
    split at h
    · simp at h
    · next hnew =>
      simp only [bind_eq_ok] at h
      obtain ⟨d, hd, ds, hds, h⟩ := h
      obtain rfl := pure_eq_ok.mp h
      obtain ⟨hnodup, hrest⟩ := ih hds
      have hdname : d.name = name := read_name hd
      have hseen : name ∉ seen := by simpa using hnew
      rw [List.map_cons, hdname, List.nodup_cons, List.forall_mem_cons]
      refine ⟨⟨fun hmem => (hrest name hmem).1 List.mem_cons_self, hnodup⟩,
        ⟨hseen, readName_ne_star hname⟩, ?_⟩
      intro other hother
      exact ⟨fun hmem => (hrest other hother).1 (List.mem_cons_of_mem _ hmem),
        (hrest other hother).2⟩

theorem find?_name {decls : List Declaration} {name : Text} {d : Declaration}
    (h : find? decls name = some d) : d ∈ decls ∧ d.name = name :=
  ⟨List.mem_of_find?_eq_some h, by simpa using List.find?_some h⟩

/-- A parent that is written over the slots is declared and applied to as many arguments as it
takes. -/
theorem edge_target {decls : List Declaration} {d : Declaration} {parent : TypeExpr}
    {edge : Text × List Template} (h : Declaration.edge decls d parent = .ok edge) :
    ∃ target, find? decls parent.name = some target ∧ parent.params.length = target.arity ∧
      edge.1 = parent.name ∧ arguments decls d parent parent.params = .ok edge.2 := by
  unfold Declaration.edge at h
  split at h
  · simp at h
  · next target htarget =>
    split at h
    · simp at h
    · next harity =>
      obtain ⟨args, hargs, h⟩ := bind_eq_ok.mp h
      obtain rfl := pure_eq_ok.mp h
      exact ⟨target, htarget, by simpa using harity, rfl, hargs⟩

end Declaration

namespace Hierarchy

def decls (h : Hierarchy) : List Declaration :=
  h.entries.map (·.decl)

def pathsOf (h : Hierarchy) (name ancestor : Text) : List (List Template) :=
  ((h.find? name).map (·.paths ancestor)).getD []

/-- What linking makes of declarations. -/
structure Linked (h : Hierarchy) : Prop where
  names_nodup : h.names.Nodup
  star_notMem : TypeExpr.star ∉ h.names
  edges_eq : ∀ e ∈ h.entries, e.decl.edges h.decls = .ok e.edges
  ordered : ∃ heads, Ordered heads (· ∈ h.names) h.order ∧
    ∀ e ∈ h.entries, heads e.name = e.edges.map (·.1)
  mem_order : ∀ name ∈ h.names, name ∈ h.order
  paths_eq : ∀ e ∈ h.entries, ∀ ancestor, e.paths ancestor =
    ((if ancestor = e.name then [Template.slots e.arity] else []) ++
      e.edges.flatMap fun edge =>
        (h.pathsOf edge.1 ancestor).map (Template.plugAll edge.2)).eraseDups
  filled : ∀ e ∈ h.entries, e.reach.Filled
  children_eq : ∀ e ∈ h.entries, e.children = h.order.filter fun name =>
    (h.find? name).any (·.edges.any (·.1 == e.name))
  descendants_eq : ∀ e ∈ h.entries,
    e.descendants = (h.entries.filter (·.hasAncestor e.name)).map (·.name)

theorem find?_some {h : Hierarchy} {name : Text} {e : Entry} (he : h.find? name = some e) :
    e ∈ h.entries ∧ e.name = name :=
  ⟨List.mem_of_find?_eq_some he, by simpa using List.find?_some he⟩

theorem find?_of_mem {h : Hierarchy} (hn : h.names.Nodup) {e : Entry} (he : e ∈ h.entries) :
    h.find? e.name = some e := by
  obtain ⟨entries, order⟩ := h
  simp only [names] at hn he
  simp only [find?]
  induction entries with
  | nil => exact absurd he List.not_mem_nil
  | cons f fs ih =>
    rw [List.map_cons, List.nodup_cons] at hn
    rcases List.mem_cons.mp he with rfl | he
    · simp
    · have hne : f.name ≠ e.name := fun heq => hn.1 (heq ▸ List.mem_map.mpr ⟨e, he, rfl⟩)
      simp only [List.find?_cons, beq_eq_false_iff_ne.mpr hne]
      exact ih hn.2 he

theorem mem_names {h : Hierarchy} {name : Text} :
    name ∈ h.names ↔ ∃ e ∈ h.entries, e.name = name :=
  List.mem_map

/-- Parents come earlier in the order. -/
theorem Linked.idxOf_parent_lt {h : Hierarchy} (hl : h.Linked) {e : Entry} (he : e ∈ h.entries)
    {edge : Text × List Template} (hedge : edge ∈ e.edges) :
    h.order.idxOf edge.1 < h.order.idxOf e.name := by
  obtain ⟨heads, hord, hheads⟩ := hl.ordered
  apply hord.idxOf_lt (hl.mem_order e.name (mem_names.mpr ⟨e, he, rfl⟩))
  rw [hheads e he]
  exact List.mem_map.mpr ⟨edge, hedge, rfl⟩

/-- A declared type finds its own edges in a table made entry by entry. -/
theorem edges_lookup {decls : List Declaration} {f : Declaration → Except DefinitionFault
    (List (Text × List Template))} {edges : List (Text × List (Text × List Template))}
    (hn : (decls.map (·.name)).Nodup)
    (h : List.Forall₂ (fun d entry => (do return (d.name, ← f d)) = Except.ok entry) decls edges)
    {d : Declaration} (hd : d ∈ decls) :
    ∃ es, f d = .ok es ∧ edges.lookup d.name = some es := by
  induction h with
  | nil => exact absurd hd List.not_mem_nil
  | @cons first entry rest edges hfirst hrest ih =>
    obtain ⟨es, hes, hentry⟩ := bind_eq_ok.mp hfirst
    obtain rfl := pure_eq_ok.mp hentry
    rw [List.map_cons, List.nodup_cons] at hn
    rcases List.mem_cons.mp hd with rfl | hd
    · exact ⟨es, hes, by simp⟩
    · have hne : d.name ≠ first.name := fun heq => hn.1 (heq ▸ List.mem_map.mpr ⟨d, hd, rfl⟩)
      obtain ⟨es', hes', hlookup⟩ := ih hn.2 hd
      exact ⟨es', hes', by rw [Table.lookup_cons_of_ne hne, hlookup]⟩

theorem find?_declared {decls : List Declaration} {name : Text} :
    (∃ d, Declaration.find? decls name = some d) ↔ name ∈ decls.map (·.name) := by
  constructor
  · rintro ⟨d, hd⟩
    obtain ⟨hmem, rfl⟩ := Declaration.find?_name hd
    exact List.mem_map.mpr ⟨d, hmem, rfl⟩
  · intro hname
    obtain ⟨d, hd, rfl⟩ := List.mem_map.mp hname
    have hsome : (Declaration.find? decls d.name).isSome :=
      List.find?_isSome.mpr ⟨d, hd, by simp⟩
    exact Option.isSome_iff_exists.mp hsome

theorem find?_decl_of_mem {decls : List Declaration} (hn : (decls.map (·.name)).Nodup)
    {d : Declaration} (hd : d ∈ decls) : Declaration.find? decls d.name = some d := by
  obtain ⟨d', hd'⟩ := find?_declared.mpr (List.mem_map.mpr ⟨d, hd, rfl⟩)
  obtain ⟨hmem, hname⟩ := Declaration.find?_name hd'
  rw [hd', List.inj_on_of_nodup_map hn hmem hd hname]

section OfDeclarations

variable {decls : List Declaration} {edges : List (Text × List (Text × List Template))}
  {order : List Text}

theorem parentNames_declared (hn : (decls.map (·.name)).Nodup)
    (hedges : List.Forall₂
      (fun d entry => (do return (d.name, ← d.edges decls)) = Except.ok entry) decls edges)
    {name : Text} (hname : ∃ d, Declaration.find? decls name = some d) {parent : Text}
    (hparent : parent ∈ parentNames edges name) :
    ∃ d, Declaration.find? decls parent = some d := by
  obtain ⟨d, hd⟩ := hname
  obtain ⟨hmem, rfl⟩ := Declaration.find?_name hd
  obtain ⟨es, hes, hlookup⟩ := edges_lookup hn hedges hmem
  rw [parentNames, hlookup] at hparent
  obtain ⟨edge, hedge, rfl⟩ := List.mem_map.mp hparent
  obtain ⟨p, -, hp⟩ := exists_of_mapM hes hedge
  obtain ⟨target, htarget, -, hhead, -⟩ := Declaration.edge_target hp
  exact ⟨target, hhead ▸ htarget⟩

/-- The ways of a type in the linked table, composed from the ways of its parents. -/
theorem get_table (hn : (decls.map (·.name)).Nodup)
    (hord : Ordered (parentNames edges) (fun n => ∃ d, Declaration.find? decls n = some d) order)
    (hall : ∀ name ∈ decls.map (·.name), name ∈ order) {d : Declaration} (hd : d ∈ decls)
    (ancestor : Text) :
    Table.get (((tableOf decls edges order).lookup d.name).getD []) ancestor =
      if ancestor ∈ decls.map (·.name) then
        ((if ancestor = d.name then [Template.slots d.arity] else []) ++
          ((edges.lookup d.name).getD []).flatMap fun edge =>
            (Table.get (((tableOf decls edges order).lookup edge.1).getD []) ancestor).map
              (Template.plugAll edge.2)).eraseDups
      else [] := by
  have hfind := find?_decl_of_mem hn hd
  have hmem := hall d.name (List.mem_map.mpr ⟨d, hd, rfl⟩)
  rw [tableOf_lookup hord hmem hfind, Option.getD_some, Reach.get_sort,
    get_reachOf _ _ _ fun edge _ => hn.sublist (tableOf_keys_sublist _ _ _ edge.1)]

theorem decls_link (decls : List Declaration) (edges : List (Text × List (Text × List Template)))
    (order : List Text) : (link decls edges order).decls = decls := by
  simp [Hierarchy.decls, link, Tables.entry, Function.comp_def]

theorem names_link (decls : List Declaration) (edges : List (Text × List (Text × List Template)))
    (order : List Text) : (link decls edges order).names = decls.map (·.name) := by
  simp [names, link, Tables.entry, Entry.name, Function.comp_def]

theorem find?_link (hn : (decls.map (·.name)).Nodup) {d : Declaration} (hd : d ∈ decls) :
    (link decls edges order).find? d.name = some ((tablesOf decls edges order).entry edges d) :=
  find?_of_mem (e := (tablesOf decls edges order).entry edges d)
    (names_link decls edges order ▸ hn) (List.mem_map.mpr ⟨d, hd, rfl⟩)

theorem children_link (hn : (decls.map (·.name)).Nodup)
    (hord : Ordered (parentNames edges) (fun n => ∃ d, Declaration.find? decls n = some d) order)
    {e : Entry} (he : e ∈ (link decls edges order).entries) : e.children = order.filter fun name =>
      ((link decls edges order).find? name).any (·.edges.any (·.1 == e.name)) := by
  obtain ⟨d, -, rfl⟩ := List.mem_map.mp he
  refine (children_tablesOf edges hord d.name).trans (List.filter_congr fun name hname => ?_)
  obtain ⟨child, hchild, rfl⟩ := List.mem_map.mp (find?_declared.mp (hord.declared name hname))
  rw [find?_link hn hchild, Option.any_some, Bool.eq_iff_iff]
  simp [Tables.entry, parentNames, Entry.name]

theorem descendants_link (hn : (decls.map (·.name)).Nodup)
    (hord : Ordered (parentNames edges) (fun n => ∃ d, Declaration.find? decls n = some d) order)
    (hall : ∀ name ∈ decls.map (·.name), name ∈ order) {e : Entry}
    (he : e ∈ (link decls edges order).entries) : e.descendants =
      ((link decls edges order).entries.filter (·.hasAncestor e.name)).map (·.name) := by
  obtain ⟨d, -, rfl⟩ := List.mem_map.mp he
  refine (descendants_tablesOf edges hn hord d.name).trans ?_
  change _ = ((decls.map ((tablesOf decls edges order).entry edges)).filter
    (·.hasAncestor d.name)).map (·.name)
  rw [List.filter_map, List.filter_map, List.map_map]
  refine congrArg _ (List.filter_congr fun child hchild => ?_)
  have hmem := hall _ (List.mem_map.mpr ⟨child, hchild, rfl⟩)
  rw [Bool.eq_iff_iff]
  by_cases hself : d.name = child.name <;>
    simp [hmem, hself, ancestorsIn, Entry.hasAncestor, Entry.reaches, Tables.entry, Entry.name,
      tableOf]

theorem exists_link {h : Hierarchy} (hrun : ofDeclarations decls = .ok h) :
    ∃ edges order, h = link decls edges order := by
  simp only [ofDeclarations, bind_eq_ok] at hrun
  obtain ⟨edges, -, order, -, hlink⟩ := hrun
  exact ⟨edges, order, (pure_eq_ok.mp hlink).symm⟩

/-- Declarations that are accepted make a linked hierarchy. -/
theorem ofDeclarations_linked {h : Hierarchy} (hn : (decls.map (·.name)).Nodup)
    (hstar : TypeExpr.star ∉ decls.map (·.name)) (hrun : ofDeclarations decls = .ok h) :
    h.Linked := by
  simp only [ofDeclarations, bind_eq_ok] at hrun
  obtain ⟨edges, hedges, order, horder, hlink⟩ := hrun
  obtain rfl := pure_eq_ok.mp hlink
  rw [mapM_eq_ok] at hedges
  change parentsFirst (parentNames edges) _ = _ at horder
  obtain ⟨hord, hall⟩ := parentsFirst_ordered
    (fun name hname parent hparent => parentNames_declared hn hedges hname hparent)
    (fun name hname => find?_declared.mpr hname) horder
  have hnames := names_link decls edges order
  have hpaths (d : Declaration) (hd : d ∈ decls) (ancestor : Text) :
      (link decls edges order).pathsOf d.name ancestor =
        Table.get (((tableOf decls edges order).lookup d.name).getD []) ancestor := by
    rw [pathsOf, find?_link hn hd]
    rfl
  refine ⟨hnames ▸ hn, hnames ▸ hstar, ?_, ⟨parentNames edges, ?_, ?_⟩, ?_, ?_, ?_, ?_, ?_⟩
  · rw [decls_link]
    intro e he
    obtain ⟨d, hd, rfl⟩ := List.mem_map.mp he
    obtain ⟨es, hes, hlookup⟩ := edges_lookup hn hedges hd
    simpa [Tables.entry, hlookup] using hes
  · rw [hnames]
    exact hord.mono fun name hname => find?_declared.mp hname
  · intro e he
    obtain ⟨d, hd, rfl⟩ := List.mem_map.mp he
    rfl
  · rw [hnames]
    exact hall
  · intro e he ancestor
    obtain ⟨d, hd, rfl⟩ := List.mem_map.mp he
    have hparent (edge : Text × List Template) (hedge : edge ∈ (edges.lookup d.name).getD []) :
        ∃ p ∈ decls, p.name = edge.1 := by
      obtain ⟨p, hp⟩ := parentNames_declared hn hedges ⟨d, find?_decl_of_mem hn hd⟩
        (List.mem_map.mpr ⟨edge, hedge, rfl⟩)
      exact ⟨p, Declaration.find?_name hp⟩
    change Table.get (((tableOf decls edges order).lookup d.name).getD []) ancestor = _
    rw [get_table hn hord hall hd]
    split
    · congr 2
      apply List.flatMap_congr
      intro edge hedge
      obtain ⟨p, hp, hname⟩ := hparent edge hedge
      rw [← hname, hpaths p hp]
    · next hanc =>
      have hown : ancestor ≠ d.name := fun heq => hanc (heq ▸ List.mem_map.mpr ⟨d, hd, rfl⟩)
      have hnone (edge : Text × List Template) (hedge : edge ∈ (edges.lookup d.name).getD []) :
          (link decls edges order).pathsOf edge.1 ancestor = [] := by
        obtain ⟨p, hp, hname⟩ := hparent edge hedge
        rw [← hname, hpaths p hp, get_table hn hord hall hp, if_neg hanc]
      have hnil : ((edges.lookup d.name).getD []).flatMap (fun edge =>
          ((link decls edges order).pathsOf edge.1 ancestor).map (Template.plugAll edge.2)) =
          [] := by
        rw [List.flatMap_eq_nil_iff]
        intro edge hedge
        rw [hnone edge hedge, List.map_nil]
      simp [Tables.entry, Entry.name, hown, hnil]
  · intro e he
    obtain ⟨d, hd, rfl⟩ := List.mem_map.mp he
    exact tableOf_filled decls edges order d.name
  · exact fun e he => children_link hn hord he
  · exact fun e he => descendants_link hn hord hall he

end OfDeclarations

/-- A definition that is accepted is a mapping whose entries are read and then linked. -/
theorem exists_of_ofDefinition {definition : Definition} {h : Hierarchy}
    (hrun : ofDefinition definition = .ok h) :
    ∃ entries decls, definition = .mapping entries ∧
      Declaration.readEntries [] entries = .ok decls ∧ ofDeclarations decls = .ok h := by
  cases definition with
  | other v => simp [ofDefinition] at hrun
  | mapping entries =>
    obtain ⟨decls, hdecls, hrun⟩ := bind_eq_ok.mp hrun
    exact ⟨entries, decls, rfl, hdecls, hrun⟩

/-- Every hierarchy that a definition gives is linked. -/
theorem ofDefinition_linked {definition : Definition} {h : Hierarchy}
    (hrun : ofDefinition definition = .ok h) : h.Linked := by
  obtain ⟨entries, decls, rfl, hdecls, hrun⟩ := exists_of_ofDefinition hrun
  obtain ⟨hn, hnames⟩ := Declaration.readEntries_names hdecls
  exact ofDeclarations_linked hn (fun hmem => (hnames _ hmem).2 rfl) hrun

end Hierarchy

end TypedBlocks
