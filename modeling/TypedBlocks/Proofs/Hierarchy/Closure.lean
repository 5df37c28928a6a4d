import TypedBlocks.Proofs.Hierarchy.Cycle
import TypedBlocks.Proofs.Hierarchy.Names

/-! Ancestors, descendants and children as the declared parents give them. Types are linked with
parents first and listed as they are declared; whatever the two orders are, an ancestor is a name at
the end of a path of declared parents, and the lists that are filled while other types are linked
hold the same paths read from the end. -/
namespace TypedBlocks

namespace Entry

theorem mem_ancestors {e : Entry} {name : Text} :
    name ∈ e.ancestors ↔ e.hasAncestor name = true := by
  simp [ancestors, hasAncestor, reaches, and_comm]

end Entry

namespace Hierarchy

open Declaration (HasParent)

variable {h : Hierarchy} {x y : Text}

/-- The parents that a type declares are the ends of its edges. -/
theorem Linked.hasParent_iff (hl : h.Linked) {e : Entry} (he : e ∈ h.entries) :
    HasParent h.decls e.name y ↔ ∃ args, (y, args) ∈ e.edges := by
  have hheads : y ∈ e.edges.map (·.1) ↔ ∃ args, (y, args) ∈ e.edges := by simp
  rw [← hheads, Declaration.edges_heads (hl.edges_eq e he)]
  constructor
  · rintro ⟨d, hd, hname, hparent⟩
    obtain ⟨e', he', rfl⟩ := List.mem_map.mp hd
    rwa [← hl.entry_unique he' he hname]
  · exact fun hparent => ⟨e.decl, List.mem_map_of_mem he, rfl, hparent⟩

theorem declared_of_hasParent (hparent : HasParent h.decls x y) : ∃ e ∈ h.entries, e.name = x := by
  obtain ⟨d, hd, hname, -⟩ := hparent
  obtain ⟨e, he, rfl⟩ := List.mem_map.mp hd
  exact ⟨e, he, hname⟩

theorem declared_of_transGen (hsteps : Relation.TransGen (HasParent h.decls) x y) :
    ∃ e ∈ h.entries, e.name = x := by
  obtain ⟨_, hparent, -⟩ := Relation.TransGen.head'_iff.mp hsteps
  exact declared_of_hasParent hparent

/-- One name is below another if it is declared and leads there by declared parents. -/
theorem Linked.below_iff_reflTransGen (hl : h.Linked) :
    h.Below x y ↔ x ∈ h.names ∧ Relation.ReflTransGen (HasParent h.decls) x y := by
  constructor
  · rintro ⟨e, he, rfl, path, hpath⟩
    refine ⟨mem_names.mpr ⟨e, he, rfl⟩, ?_⟩
    induction hpath with
    | self _ => exact .refl
    | step he hedge hpath ih => exact .head ((hl.hasParent_iff he).mpr ⟨_, hedge⟩) (ih hpath.mem)
  · rintro ⟨hx, hsteps⟩
    induction hsteps using Relation.ReflTransGen.head_induction_on with
    | refl =>
      obtain ⟨e, he, rfl⟩ := mem_names.mp hx
      exact below_of_path (.self he)
    | head hparent _ ih =>
      obtain ⟨e, he, rfl⟩ := mem_names.mp hx
      obtain ⟨args, hedge⟩ := (hl.hasParent_iff he).mp hparent
      obtain ⟨parent, -, hisEdge⟩ := hl.parent_of_edge he hedge
      obtain ⟨p, hp, rfl, -⟩ := hisEdge.target
      obtain ⟨path, hpath⟩ := hl.path_of_below hp (ih (mem_names.mpr ⟨p, hp, rfl⟩))
      exact below_of_path (.step he hedge hpath)

theorem Linked.not_transGen_self (hl : h.Linked) :
    ¬Relation.TransGen (HasParent h.decls) x x := by
  have hlt (name parent : Text) (hparent : HasParent h.decls name parent) :
      h.order.idxOf parent < h.order.idxOf name := by
    obtain ⟨e, he, rfl⟩ := declared_of_hasParent hparent
    obtain ⟨args, hedge⟩ := (hl.hasParent_iff he).mp hparent
    exact hl.idxOf_parent_lt he hedge
  exact not_transGen_of_order hlt x

theorem Linked.eq_or_transGen_of_below (hl : h.Linked) (hbelow : h.Below x y) :
    y = x ∨ Relation.TransGen (HasParent h.decls) x y :=
  Relation.reflTransGen_iff_eq_or_transGen.mp (hl.below_iff_reflTransGen.mp hbelow).2

theorem Linked.below_of_transGen (hl : h.Linked)
    (hsteps : Relation.TransGen (HasParent h.decls) x y) : h.Below x y := by
  have hx := mem_names.mpr (declared_of_transGen hsteps)
  exact hl.below_iff_reflTransGen.mpr ⟨hx, hsteps.to_reflTransGen⟩

/-- The strict ancestors of a type are the names that its declared parents lead to. -/
theorem Linked.hasAncestor_iff_transGen (hl : h.Linked) {e : Entry} (he : e ∈ h.entries) :
    e.hasAncestor y = true ↔ Relation.TransGen (HasParent h.decls) e.name y := by
  rw [hl.hasAncestor_iff he]
  constructor
  · rintro ⟨hne, hbelow⟩
    exact (hl.eq_or_transGen_of_below hbelow).resolve_left hne
  · intro hsteps
    refine ⟨?_, hl.below_of_transGen hsteps⟩
    rintro rfl
    exact hl.not_transGen_self hsteps

theorem Linked.mem_descendants_iff_transGen (hl : h.Linked) {e : Entry} (he : e ∈ h.entries) :
    x ∈ e.descendants ↔ Relation.TransGen (HasParent h.decls) x e.name := by
  rw [hl.descendants_eq e he, List.mem_map]
  constructor
  · rintro ⟨lower, hmem, rfl⟩
    obtain ⟨hlower, hancestor⟩ := List.mem_filter.mp hmem
    exact (hl.hasAncestor_iff_transGen hlower).mp hancestor
  · intro hsteps
    obtain ⟨lower, hlower, rfl⟩ := declared_of_transGen hsteps
    have hancestor := (hl.hasAncestor_iff_transGen hlower).mpr hsteps
    exact ⟨lower, List.mem_filter.mpr ⟨hlower, hancestor⟩, rfl⟩

theorem Linked.descendants_sublist (hl : h.Linked) {e : Entry} (he : e ∈ h.entries) :
    e.descendants.Sublist h.names := by
  rw [hl.descendants_eq e he]
  exact List.filter_sublist.map _

/-- The ancestors of a type stand in declaration order. -/
theorem ofDefinition_ancestors_sublist {definition : Definition}
    (hdef : ofDefinition definition = .ok h) {e : Entry} (he : e ∈ h.entries) :
    e.ancestors.Sublist h.names := by
  obtain ⟨entries, decls, rfl, -, hrun⟩ := exists_of_ofDefinition hdef
  obtain ⟨edges, order, rfl⟩ := exists_link hrun
  rw [names_link]
  obtain ⟨d, -, rfl⟩ := List.mem_map.mp he
  exact List.filter_sublist.trans (tableOf_keys_sublist decls edges order d.name)

theorem Linked.children_nodup (hl : h.Linked) {e : Entry} (he : e ∈ h.entries) :
    e.children.Nodup := by
  obtain ⟨heads, hord, -⟩ := hl.ordered
  rw [hl.children_eq e he]
  exact hord.nodup.filter _

theorem Linked.children_declared (hl : h.Linked) {e : Entry} (he : e ∈ h.entries) :
    e.children ⊆ h.names := by
  obtain ⟨heads, hord, -⟩ := hl.ordered
  rw [hl.children_eq e he]
  exact fun name hname => hord.declared name (List.mem_filter.mp hname).1

/-- A type is a child of the heads of the parents that it declares. -/
theorem Linked.mem_children_iff (hl : h.Linked) {child e : Entry} (hchild : child ∈ h.entries)
    (he : e ∈ h.entries) :
    child.name ∈ e.children ↔ ∃ parent ∈ child.decl.parents, parent.name = e.name := by
  have hmem : child.name ∈ h.order := hl.mem_order child.name (mem_names.mpr ⟨child, hchild, rfl⟩)
  have hheads : (∃ parent ∈ child.decl.parents, parent.name = e.name) ↔
      e.name ∈ child.edges.map (·.1) := by
    rw [Declaration.edges_heads (hl.edges_eq child hchild), List.mem_map]
  rw [hheads, hl.children_eq e he, List.mem_filter, hl.find?_eq hchild]
  simp [hmem]

/-- One type is an ancestor of another exactly if that is a descendant of it, and exactly if a
nonempty path of declared parents leads from the second to the first. Neither list has the type
itself or a repetition, and both stand in declaration order. A type is a child of the heads of the
parents that it declares, once, and of nothing else. -/
theorem closure_of_parents {definition : Definition} {h : Hierarchy}
    (hdef : ofDefinition definition = .ok h) {x y : Entry} (hx : x ∈ h.entries)
    (hy : y ∈ h.entries) :
    (y.name ∈ x.ancestors ↔ x.name ∈ y.descendants) ∧
    (y.name ∈ x.ancestors ↔ Relation.TransGen (HasParent h.decls) x.name y.name) ∧
    (x.name ∉ x.ancestors ∧ x.ancestors.Nodup ∧ x.ancestors.Sublist h.names) ∧
    (y.name ∉ y.descendants ∧ y.descendants.Nodup ∧ y.descendants.Sublist h.names) ∧
    (x.name ∈ y.children ↔ ∃ parent ∈ x.decl.parents, parent.name = y.name) ∧
    y.children.Nodup ∧ y.children ⊆ h.names := by
  have hl := ofDefinition_linked hdef
  have hancestor (name : Text) :
      name ∈ x.ancestors ↔ Relation.TransGen (HasParent h.decls) x.name name :=
    Entry.mem_ancestors.trans (hl.hasAncestor_iff_transGen hx)
  have hsublist := ofDefinition_ancestors_sublist hdef hx
  have hsublist' := hl.descendants_sublist hy
  refine ⟨?_, hancestor y.name, ⟨?_, hl.names_nodup.sublist hsublist, hsublist⟩,
    ⟨?_, hl.names_nodup.sublist hsublist', hsublist'⟩, hl.mem_children_iff hx hy,
    hl.children_nodup hy, hl.children_declared hy⟩
  · rw [hancestor, hl.mem_descendants_iff_transGen hy]
  · rw [hancestor]
    exact hl.not_transGen_self
  · rw [hl.mem_descendants_iff_transGen hy]
    exact hl.not_transGen_self

end Hierarchy

/-- Two types with the same two parents, declared on either side of them; one of the two names a
parent twice. -/
def batDefinition : Definition := .mapping [
  typeEntry "bat" [] ["mammal", "flyer"],
  typeEntry "mammal" [] ["animal"],
  typeEntry "flyer" [] ["animal"],
  typeEntry "animal" [] [],
  typeEntry "griffin" [] ["flyer", "mammal", "flyer"]]

def batHierarchy : Hierarchy where
  entries := [
    ⟨⟨"bat", [], [⟨"mammal", []⟩, ⟨"flyer", []⟩]⟩, [("mammal", []), ("flyer", [])],
      [("bat", [[]]), ("mammal", [[]]), ("flyer", [[]]), ("animal", [[]])], [], []⟩,
    ⟨⟨"mammal", [], [⟨"animal", []⟩]⟩, [("animal", [])], [("mammal", [[]]), ("animal", [[]])],
      ["bat", "griffin"], ["bat", "griffin"]⟩,
    ⟨⟨"flyer", [], [⟨"animal", []⟩]⟩, [("animal", [])], [("flyer", [[]]), ("animal", [[]])],
      ["bat", "griffin"], ["bat", "griffin"]⟩,
    ⟨⟨"animal", [], []⟩, [], [("animal", [[]])],
      ["mammal", "flyer"], ["bat", "mammal", "flyer", "griffin"]⟩,
    ⟨⟨"griffin", [], [⟨"flyer", []⟩, ⟨"mammal", []⟩, ⟨"flyer", []⟩]⟩,
      [("flyer", []), ("mammal", []), ("flyer", [])],
      [("mammal", [[]]), ("flyer", [[]]), ("animal", [[]]), ("griffin", [[]])], [], []⟩]
  order := ["animal", "mammal", "flyer", "bat", "griffin"]

namespace Hierarchy

theorem bat_accepted : ofDefinition batDefinition = .ok batHierarchy :=
  eq_ok_of_toOption (by decide +kernel)

/-- The griffin leads to the animal in two ways, and each has the other in its list once. It names
a flyer twice as its parent and is its child once. -/
theorem griffin_closure_of_parents :
    ofDefinition batDefinition = .ok batHierarchy ∧
    ∃ griffin ∈ batHierarchy.entries, ∃ animal ∈ batHierarchy.entries,
      ∃ flyer ∈ batHierarchy.entries,
      (griffin.name = "griffin" ∧ animal.name = "animal" ∧ flyer.name = "flyer") ∧
      griffin.ancestors = ["mammal", "flyer", "animal"] ∧
      Relation.TransGen (Declaration.HasParent batHierarchy.decls) griffin.name animal.name ∧
      griffin.name ∈ animal.descendants ∧
      animal.descendants = ["bat", "mammal", "flyer", "griffin"] ∧
      griffin.name ∈ flyer.children ∧ flyer.children = ["bat", "griffin"] := by
  have hentries : ∃ griffin ∈ batHierarchy.entries, ∃ animal ∈ batHierarchy.entries,
      ∃ flyer ∈ batHierarchy.entries,
      (griffin.name = "griffin" ∧ animal.name = "animal" ∧ flyer.name = "flyer") ∧
      griffin.ancestors = ["mammal", "flyer", "animal"] ∧
      animal.descendants = ["bat", "mammal", "flyer", "griffin"] ∧
      flyer.children = ["bat", "griffin"] ∧
      animal.name ∈ griffin.ancestors ∧
      ∃ parent ∈ griffin.decl.parents, parent.name = flyer.name := by
    decide +kernel
  obtain ⟨griffin, hg, animal, ha, flyer, hf, hnames, hancestors, hdescendants, hchildren, hanimal,
    hparent⟩ := hentries
  obtain ⟨hdescendant, hpath, -⟩ := closure_of_parents bat_accepted hg ha
  obtain ⟨-, -, -, -, hchild, -⟩ := closure_of_parents bat_accepted hg hf
  exact ⟨bat_accepted, griffin, hg, animal, ha, flyer, hf, hnames, hancestors, hpath.mp hanimal,
    hdescendant.mp hanimal, hdescendants, hchild.mpr hparent, hchildren⟩

end Hierarchy

end TypedBlocks
