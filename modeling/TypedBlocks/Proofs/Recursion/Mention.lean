import Mathlib.Data.Finset.Card
import Mathlib.Logic.Relation
import Mathlib.Tactic.Ring
import TypedBlocks.Proofs.Recursion.Height

/-! Which types lead back to themselves. Where none does, the mentioned types can be ranked, and
names can be given costs that make the parts of every type lower than the type. -/
namespace TypedBlocks

namespace Declaration

/-- The names in an argument that do not stand for a parameter. -/
def typeNames (d : Declaration) (t : TypeExpr) : List Text :=
  (t.walk.map (·.name)).filter fun name => (d.paramIndex? name).isNone

def argumentNames (d : Declaration) (parent : TypeExpr) : List Text :=
  parent.params.flatMap d.typeNames

end Declaration

namespace Hierarchy

/-- The second name is the head of a parent of the first or stands in the arguments of one. -/
def Mentions (h : Hierarchy) (name other : Text) : Prop :=
  ∃ d ∈ h.decls, d.name = name ∧
    ∃ parent ∈ d.parents, other = parent.name ∨ other ∈ d.argumentNames parent

def LeadsTo (h : Hierarchy) : Text → Text → Prop :=
  Relation.ReflTransGen h.Mentions

/-- The arguments of a parent mention the declaring type itself or a type that leads back to it. -/
def LeadsBack (h : Hierarchy) (d : Declaration) : Prop :=
  ∃ parent ∈ d.parents, ∃ name ∈ d.argumentNames parent, h.LeadsTo name d.name

variable {h : Hierarchy}

theorem Linked.order_lt_of_parent (hl : h.Linked) {d : Declaration} (hd : d ∈ h.decls)
    {parent : TypeExpr} (hparent : parent ∈ d.parents) :
    h.order.idxOf parent.name < h.order.idxOf d.name := by
  obtain ⟨e, he, rfl⟩ := List.mem_map.mp hd
  obtain ⟨edge, hedge, hok⟩ := mapM_exists (hl.edges_eq e he) hparent
  obtain ⟨_, _, _, hhead, _⟩ := Declaration.edge_target hok
  rw [← hhead]
  exact hl.idxOf_parent_lt he hedge

/-- Going from parent to parent only, the types come earlier and earlier in the order; any other
way passes through the arguments of some parent. -/
theorem Linked.order_lt_or_argument (hl : h.Linked) {name other : Text}
    (hlead : Relation.TransGen h.Mentions name other) :
    h.order.idxOf other < h.order.idxOf name ∨
      ∃ d ∈ h.decls, ∃ parent ∈ d.parents, ∃ inner ∈ d.argumentNames parent,
        h.LeadsTo name d.name ∧ h.LeadsTo inner other := by
  induction hlead with
  | single hstep =>
    obtain ⟨d, hd, rfl, parent, hparent, rfl | hinner⟩ := hstep
    · exact .inl (hl.order_lt_of_parent hd hparent)
    · exact .inr ⟨d, hd, parent, hparent, _, hinner, .refl, .refl⟩
  | tail hlead hstep ih =>
    rcases ih with hlt | ⟨d, hd, parent, hparent, inner, hinner, hto, hfrom⟩
    · obtain ⟨d, hd, rfl, parent, hparent, rfl | hinner⟩ := hstep
      · exact .inl ((hl.order_lt_of_parent hd hparent).trans hlt)
      · exact .inr ⟨d, hd, parent, hparent, _, hinner, hlead.to_reflTransGen, .refl⟩
    · exact .inr ⟨d, hd, parent, hparent, inner, hinner, hto, hfrom.tail hstep⟩

theorem Linked.acyclic (hl : h.Linked) (hback : ∀ d ∈ h.decls, ¬h.LeadsBack d) (name : Text) :
    ¬Relation.TransGen h.Mentions name name := by
  intro hcycle
  rcases hl.order_lt_or_argument hcycle with
    hlt | ⟨d, hd, parent, hparent, inner, hinner, hto, hfrom⟩
  · exact Nat.lt_irrefl _ hlt
  · exact hback d hd ⟨parent, hparent, inner, hinner, hfrom.trans hto⟩

/-- Names that do not lead to themselves are ranked by how many names they lead to. -/
theorem exists_rank {r : Text → Text → Prop} (names : List Text)
    (hacyclic : ∀ name, ¬Relation.TransGen r name name) :
    ∃ rank : Text → ℕ, ∀ name, ∀ other ∈ names, r name other → rank other < rank name := by
  classical
  refine ⟨fun name => (names.toFinset.filter (Relation.TransGen r name)).card, ?_⟩
  intro name other hother hstep
  apply Finset.card_lt_card
  rw [Finset.ssubset_iff_of_subset]
  · refine ⟨other, ?_, ?_⟩
    · simpa [hother] using Relation.TransGen.single hstep
    · simpa using fun _ => hacyclic other
  · intro inner hinner
    simp only [Finset.mem_filter] at hinner ⊢
    exact ⟨hinner.1, .head hstep hinner.2⟩

theorem namesIn_of_argument {d : Declaration} {parent t : TypeExpr} {arg : Template}
    (hok : Declaration.argument h.decls d parent t = .ok arg) :
    arg.NamesIn fun name => name ∈ h.names ∧ name ∈ d.typeNames t := by
  induction t using TypeExpr.byParams generalizing arg with
  | mk name params ih =>
    unfold Declaration.argument at hok
    split at hok
    · split at hok
      · obtain rfl := Except.ok.inj hok
        exact .slot
      · simp at hok
    · next hnone =>
      split at hok
      · simp at hok
      · next target htarget =>
        split at hok
        · simp at hok
        · obtain ⟨args, hargs, hok⟩ := bind_eq_ok.mp hok
          obtain rfl := pure_eq_ok.mp hok
          rw [Declaration.arguments_eq_mapM] at hargs
          obtain ⟨e, he, rfl, rfl⟩ := find?_decls htarget
          refine .app ⟨mem_names.mpr ⟨e, he, rfl⟩, ?_⟩ fun u hu => ?_
          · refine List.mem_filter.mpr ⟨List.mem_map.mpr ⟨_, TypeExpr.self_mem_walk _, rfl⟩, ?_⟩
            exact Option.isNone_iff_eq_none.mpr hnone
          · obtain ⟨p, hp, hpu⟩ := exists_of_mapM hargs hu
            refine (ih p hp hpu).imp fun name hname => ⟨hname.1, ?_⟩
            obtain ⟨hmem, hformal⟩ := List.mem_filter.mp hname.2
            obtain ⟨v, hv, rfl⟩ := List.mem_map.mp hmem
            exact List.mem_filter.mpr
              ⟨List.mem_map.mpr ⟨v, TypeExpr.mem_walk_of_param hp hv, rfl⟩, hformal⟩

/-- What a type's edges mention is declared, and mentioned by the type. -/
theorem Linked.mentions_of_edge (hl : h.Linked) {e : Entry} (he : e ∈ h.entries)
    {edge : Text × List Template} (hedge : edge ∈ e.edges) :
    (edge.1 ∈ h.names ∧ h.Mentions e.name edge.1) ∧
      ∀ t ∈ edge.2, t.NamesIn fun name => name ∈ h.names ∧ h.Mentions e.name name := by
  have hd : e.decl ∈ h.decls := List.mem_map.mpr ⟨e, he, rfl⟩
  obtain ⟨parent, hparent, hok⟩ := exists_of_mapM (hl.edges_eq e he) hedge
  obtain ⟨target, htarget, -, hhead, hargs⟩ := Declaration.edge_target hok
  rw [Declaration.arguments_eq_mapM] at hargs
  obtain ⟨p, hp, -, hname⟩ := find?_decls htarget
  refine ⟨⟨mem_names.mpr ⟨p, hp, hname.trans hhead.symm⟩, e.decl, hd, rfl, parent, hparent,
    .inl hhead⟩, fun t ht => ?_⟩
  obtain ⟨arg, harg, hok⟩ := exists_of_mapM hargs ht
  refine (namesIn_of_argument hok).imp fun name hmem => ⟨hmem.1, e.decl, hd, rfl, parent, hparent,
    .inr (List.mem_flatMap.mpr ⟨arg, harg, hmem.2⟩)⟩

/-- Where no type leads back to itself, costs grow fast enough with the rank. -/
theorem Linked.exists_costs (hl : h.Linked) (hback : ∀ d ∈ h.decls, ¬h.LeadsBack d) :
    ∃ cost, h.Costs cost := by
  obtain ⟨rank, hrank⟩ := exists_rank h.names (hl.acyclic hback)
  obtain ⟨bound, hbound⟩ : ∃ bound, ∀ e ∈ h.entries, ∀ edge ∈ e.edges,
      greatest (Template.height fun _ => 1) edge.2 ≤ bound := by
    let most (edge : Text × List Template) : Nat := greatest (Template.height fun _ => 1) edge.2
    refine ⟨greatest most (h.entries.flatMap (·.edges)), fun e he edge hedge => ?_⟩
    exact le_greatest most (List.mem_flatMap.mpr ⟨e, he, hedge⟩)
  refine ⟨fun name => (bound + 1) ^ (rank name + 1), fun name => Nat.pow_pos (Nat.succ_pos _), ?_⟩
  intro e he edge hedge
  obtain ⟨⟨hname, hmention⟩, hargs⟩ := hl.mentions_of_edge he hedge
  have hcost {name : Text} (hmem : name ∈ h.names) (hm : h.Mentions e.name name) :
      (bound + 1) ^ (rank name + 1) ≤ (bound + 1) ^ rank e.name :=
    Nat.pow_le_pow_right (Nat.succ_pos _) (hrank e.name name hmem hm)
  have hheight : greatest (Template.height fun name => (bound + 1) ^ (rank name + 1)) edge.2 ≤
      bound * (bound + 1) ^ rank e.name := by
    rw [greatest_le_iff]
    intro t ht
    have hlow := ((hargs t ht).imp fun name hm => hcost hm.1 hm.2).height_le
    exact hlow.trans (Nat.mul_le_mul_right _
      ((le_greatest _ ht).trans (hbound e he edge hedge)))
  calc (bound + 1) ^ (rank edge.1 + 1) +
        greatest (Template.height fun name => (bound + 1) ^ (rank name + 1)) edge.2
      ≤ (bound + 1) ^ rank e.name + bound * (bound + 1) ^ rank e.name :=
        Nat.add_le_add (hcost hname hmention) hheight
    _ = (bound + 1) ^ (rank e.name + 1) := by ring

end Hierarchy

end TypedBlocks
