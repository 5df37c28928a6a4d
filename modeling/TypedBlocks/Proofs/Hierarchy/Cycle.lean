import Mathlib.Data.List.Chain
import Mathlib.Data.List.Perm.Subperm
import Mathlib.Logic.Relation
import TypedBlocks.Proofs.Subtype.Decides

/-! Parents that go round in a circle. The search for an order with parents first goes from child to
parent along a path that repeats no name. A parent that is on the path already closes a cycle; if
none ever does, all names come after their parents, and there is no cycle. -/
namespace TypedBlocks

namespace Declaration

variable {decls : List Declaration} {d : Declaration}

/-- The second name is the head of a parent that the type of the first name declares. -/
def HasParent (decls : List Declaration) (name parent : Text) : Prop :=
  ∃ d ∈ decls, d.name = name ∧ parent ∈ d.parents.map (·.name)

instance (name parent : Text) : Decidable (HasParent decls name parent) :=
  inferInstanceAs (Decidable (∃ d ∈ decls, d.name = name ∧ parent ∈ d.parents.map (·.name)))

/-- An argument made of parameters of the declaring type, which stand alone, and of declared types,
which have as many parameters as they take. A parameter hides a type of its name. -/
inductive WellApplied (decls : List Declaration) (d : Declaration) : TypeExpr → Prop
  | param {p : Param} (hp : p ∈ d.params) : WellApplied decls d ⟨p.name, []⟩
  | type {target : Declaration} (htarget : target ∈ decls)
      (hname : ∀ p ∈ d.params, p.name ≠ target.name) {params : List TypeExpr}
      (hlen : params.length = target.arity) (hparams : ∀ t ∈ params, WellApplied decls d t) :
      WellApplied decls d ⟨target.name, params⟩

/-- The parent is a declared type with as many arguments as it takes, all of them well applied. -/
def TakesParent (decls : List Declaration) (d : Declaration) (parent : TypeExpr) : Prop :=
  ∃ target ∈ decls, target.name = parent.name ∧ parent.params.length = target.arity ∧
    ∀ arg ∈ parent.params, WellApplied decls d arg

/-- An argument can be written over the slots of the declaring type exactly if it is well
applied. -/
theorem argument_ok_iff (hn : (decls.map (·.name)).Nodup) {parent t : TypeExpr} :
    (∃ arg, argument decls d parent t = .ok arg) ↔ WellApplied decls d t := by
  constructor
  · rintro ⟨arg, harg⟩
    induction t using TypeExpr.byParams generalizing arg with
    | mk name params ih =>
      rw [argument] at harg
      split at harg
      · next i hi =>
        split at harg
        · next hnil =>
          obtain ⟨hlt, hp, -⟩ := List.findIdx?_eq_some_iff_getElem.mp hi
          rw [List.isEmpty_iff.mp hnil, ← eq_of_beq hp]
          exact .param (List.getElem_mem hlt)
        · cases harg
      · next hnone =>
        split at harg
        · cases harg
        · next target htarget =>
          obtain ⟨hmem, rfl⟩ := find?_name htarget
          split at harg
          · cases harg
          · next hlen =>
            obtain ⟨args, hargs, -⟩ := bind_eq_ok.mp harg
            rw [arguments_eq_mapM] at hargs
            rw [paramIndex?, List.findIdx?_eq_none_iff] at hnone
            refine .type hmem (fun p hp => by simpa using hnone p hp) (by simpa using hlen) ?_
            intro t ht
            obtain ⟨arg, -, harg⟩ := mapM_exists hargs ht
            exact ih t ht arg harg
  · intro ht
    induction ht with
    | @param p hp =>
      obtain ⟨i, hi⟩ : ∃ i, d.paramIndex? p.name = some i := by
        rw [← Option.isSome_iff_exists, paramIndex?, List.findIdx?_isSome, List.any_eq_true]
        exact ⟨p, hp, beq_self_eq_true p.name⟩
      exact ⟨.slot i, by simp [argument, hi]⟩
    | @type target htarget hname params hlen _ ih =>
      have hnone : d.paramIndex? target.name = none := by
        rw [paramIndex?, List.findIdx?_eq_none_iff]
        exact fun p hp => beq_eq_false_iff_ne.mpr (hname p hp)
      obtain ⟨args, hargs, -⟩ := mapM_ok fun t ht => (ih t ht).imp fun _ harg => ⟨harg, trivial⟩
      rw [← arguments_eq_mapM] at hargs
      refine ⟨.app target.name args, ?_⟩
      simp [argument, hnone, Hierarchy.find?_decl_of_mem hn htarget, hlen, hargs, pure, Except.pure]

theorem edge_ok_iff (hn : (decls.map (·.name)).Nodup) {parent : TypeExpr} :
    (∃ edge, Declaration.edge decls d parent = .ok edge) ↔ TakesParent decls d parent := by
  constructor
  · rintro ⟨edge, hedge⟩
    obtain ⟨target, htarget, hlen, -, hargs⟩ := edge_target hedge
    obtain ⟨hmem, hname⟩ := find?_name htarget
    rw [arguments_eq_mapM] at hargs
    refine ⟨target, hmem, hname, hlen, fun t ht => ?_⟩
    obtain ⟨arg, -, harg⟩ := mapM_exists hargs ht
    exact (argument_ok_iff hn).mp ⟨arg, harg⟩
  · rintro ⟨target, htarget, hname, hlen, hall⟩
    obtain ⟨args, hargs, -⟩ := mapM_ok (f := argument decls d parent) fun t ht =>
      ((argument_ok_iff hn).mpr (hall t ht)).imp fun _ harg => ⟨harg, trivial⟩
    rw [← arguments_eq_mapM] at hargs
    refine ⟨(parent.name, args), ?_⟩
    simp [Declaration.edge, ← hname, Hierarchy.find?_decl_of_mem hn htarget, hlen, hargs, pure,
      Except.pure]

/-- The edges of a type lead to the heads of its parents. -/
theorem edges_heads {es : List (Text × List Template)} (hes : d.edges decls = .ok es) :
    es.map (·.1) = d.parents.map (·.name) := by
  refine map_eq_of_mapM hes fun parent _ edge hedge => ?_
  obtain ⟨_, -, -, hname, -⟩ := edge_target hedge
  exact hname

end Declaration

/-- The list goes from a name by single steps back to that name, and meets no name twice on the
way. -/
def IsCycle (step : Text → Text → Prop) (cycle : List Text) : Prop :=
  ∃ name between, cycle = name :: (between ++ [name]) ∧ (name :: between).Nodup ∧
    cycle.IsChain step

theorem transGen_of_isChain {step : Text → Text → Prop} {first last : Text} {between : List Text}
    (hchain : (first :: (between ++ [last])).IsChain step) : Relation.TransGen step first last := by
  induction between generalizing first with
  | nil => exact .single (List.isChain_pair.mp hchain)
  | cons next between ih =>
    obtain ⟨hstep, hchain⟩ := List.isChain_cons_cons.mp hchain
    exact .head hstep (ih hchain)

theorem IsCycle.transGen {step : Text → Text → Prop} {cycle : List Text} (h : IsCycle step cycle) :
    ∃ name, Relation.TransGen step name name := by
  obtain ⟨name, between, rfl, -, hchain⟩ := h
  exact ⟨name, transGen_of_isChain hchain⟩

theorem IsCycle.mono {step step' : Text → Text → Prop} {cycle : List Text} (h : IsCycle step cycle)
    (himp : ∀ a b, step a b → step' a b) : IsCycle step' cycle := by
  obtain ⟨name, between, rfl, hnodup, hchain⟩ := h
  exact ⟨name, between, rfl, hnodup, hchain.imp himp⟩

def DefinitionFault.ShowsCycle (step : Text → Text → Prop) (fault : DefinitionFault) : Prop :=
  ∃ cycle, fault = .cyclic cycle ∧ IsCycle step cycle

namespace Hierarchy

section Search

variable {heads : Text → List Text} {names path : List Text} {name : Text}

/-- The path leads to the name from child to parent, over names that are all different. -/
structure PathTo (heads : Text → List Text) (names path : List Text) (name : Text) : Prop where
  nodup : path.Nodup
  subset : ∀ n ∈ path, n ∈ names
  chain : (path ++ [name]).IsChain fun child parent => parent ∈ heads child

theorem PathTo.start (name : Text) : PathTo heads names [] name where
  nodup := List.nodup_nil
  subset := by simp
  chain := List.isChain_singleton name

theorem PathTo.next (h : PathTo heads names path name) (hname : name ∈ names)
    (hnew : name ∉ path) {parent : Text} (hparent : parent ∈ heads name) :
    PathTo heads names (path ++ [name]) parent where
  nodup := List.nodup_append.mpr ⟨h.nodup, List.nodup_singleton name, by
    rintro n hn _ hlast rfl
    exact hnew (List.mem_singleton.mp hlast ▸ hn)⟩
  subset := List.forall_mem_append.mpr ⟨h.subset, List.forall_mem_singleton.mpr hname⟩
  chain := by
    rw [List.isChain_append]
    refine ⟨h.chain, List.isChain_singleton parent, ?_⟩
    simpa using hparent

/-- The part of the path from a name on is a cycle if it leads to that name again. -/
theorem PathTo.isCycle (h : PathTo heads names path name) (hmem : name ∈ path) :
    IsCycle (fun child parent => parent ∈ heads child)
      (path.dropWhile (· ≠ name) ++ [name]) := by
  obtain ⟨before, between, rfl, hbefore⟩ := List.eq_append_cons_of_mem hmem
  have hdrop : (before ++ name :: between).dropWhile (· ≠ name) = name :: between := by
    rw [List.dropWhile_append_of_pos fun n hn => by
      simpa using fun heq : n = name => hbefore (heq ▸ hn)]
    simp
  rw [hdrop]
  refine ⟨name, between, rfl, (List.nodup_append.mp h.nodup).2.1, ?_⟩
  have hchain := h.chain
  rw [List.append_assoc] at hchain
  exact hchain.right_of_append

/-- A path of different names has room for as many steps as there are names, so a visit fails only
by closing a cycle. -/
theorem visit_failsWith_cycle (hclosed : ∀ name ∈ names, ∀ parent ∈ heads name, parent ∈ names)
    {fuel : Nat} (hpath : PathTo heads names path name) (hname : name ∈ names)
    (hfuel : names.length < fuel + path.length) (done : List Text) :
    FailsWith (DefinitionFault.ShowsCycle fun child parent => parent ∈ heads child)
      (visit heads fuel path done name) := by
  induction fuel generalizing path name done with
  | zero =>
    have hle : path.length ≤ names.length := (hpath.nodup.subperm hpath.subset).length_le
    omega
  | succ fuel ih =>
    unfold visit
    split
    · exact .ok done
    · split
      · next hmem => exact .error ⟨_, rfl, hpath.isCycle (by simpa using hmem)⟩
      · next hnew =>
        have hnext (parent : Text) (hparent : parent ∈ heads name) :=
          hpath.next hname (by simpa using hnew) hparent
        have hroom : names.length < fuel + (path ++ [name]).length := by
          rw [List.length_append, List.length_singleton]
          omega
        refine (FailsWith.foldlM (fun parent hparent done => ?_) done).bind fun _ _ => .ok _
        exact ih (hnext parent hparent) (hclosed name hname parent hparent) hroom done

theorem parentsFirst_failsWith_cycle
    (hclosed : ∀ name ∈ names, ∀ parent ∈ heads name, parent ∈ names) :
    FailsWith (DefinitionFault.ShowsCycle fun child parent => parent ∈ heads child)
      (parentsFirst heads names) := by
  refine FailsWith.foldlM (fun name hname done => ?_) []
  exact visit_failsWith_cycle hclosed (.start name) hname (by simp) done

end Search

section OfDeclarations

variable {decls : List Declaration} {edges : List (Text × List (Text × List Template))}

theorem mem_parentNames_iff (hn : (decls.map (·.name)).Nodup)
    (hedges : decls.mapM (fun d => do return (d.name, ← d.edges decls)) = .ok edges)
    {name parent : Text} :
    parent ∈ parentNames edges name ↔ Declaration.HasParent decls name parent := by
  constructor
  · intro hparent
    cases hlookup : edges.lookup name with
    | none => simp [parentNames, hlookup] at hparent
    | some es =>
      obtain ⟨before, after, rfl, -⟩ := List.lookup_eq_some_iff.mp hlookup
      obtain ⟨d, hd, hentry⟩ := exists_of_mapM hedges (y := (name, es)) (by simp)
      obtain ⟨es', hes, hentry⟩ := bind_eq_ok.mp hentry
      obtain ⟨rfl, rfl⟩ := Prod.mk.inj (pure_eq_ok.mp hentry)
      rw [parentNames, hlookup, Option.getD_some, Declaration.edges_heads hes] at hparent
      exact ⟨d, hd, rfl, hparent⟩
  · rintro ⟨d, hd, rfl, hparent⟩
    obtain ⟨es, hes, hlookup⟩ := edges_lookup hn (mapM_eq_ok.mp hedges) hd
    rw [parentNames, hlookup, Option.getD_some, Declaration.edges_heads hes]
    exact hparent

/-- Where all parents are declared and rightly applied, only a cycle keeps the declarations from
being linked. -/
theorem ofDeclarations_failsWith_cycle (hn : (decls.map (·.name)).Nodup)
    (htakes : ∀ d ∈ decls, ∀ parent ∈ d.parents, Declaration.TakesParent decls d parent) :
    FailsWith (DefinitionFault.ShowsCycle (Declaration.HasParent decls))
      (ofDeclarations decls) := by
  have hread (d : Declaration) (hd : d ∈ decls) :
      ∃ entry, (do return (d.name, ← d.edges decls) : Except DefinitionFault _) = .ok entry ∧
        True := by
    obtain ⟨es, hes, -⟩ := mapM_ok fun parent hparent =>
      ((Declaration.edge_ok_iff hn).mpr (htakes d hd parent hparent)).imp
        fun _ hedge => ⟨hedge, trivial⟩
    exact ⟨(d.name, es), by rw [Declaration.edges, hes]; rfl, trivial⟩
  obtain ⟨edges, hedges, -⟩ := mapM_ok hread
  have hclosed (name : Text) (_ : name ∈ decls.map (·.name)) (parent : Text)
      (hparent : parent ∈ parentNames edges name) : parent ∈ decls.map (·.name) := by
    obtain ⟨d, hd, -, hhead⟩ := (mem_parentNames_iff hn hedges).mp hparent
    obtain ⟨parent, hmem, rfl⟩ := List.mem_map.mp hhead
    obtain ⟨target, htarget, hname, -⟩ := htakes d hd parent hmem
    exact List.mem_map.mpr ⟨target, htarget, hname⟩
  rw [ofDeclarations, hedges, ok_bind]
  refine FailsWith.bind (fun fault hfault => ?_) fun order _ => .ok _
  obtain ⟨cycle, rfl, hcycle⟩ := parentsFirst_failsWith_cycle hclosed fault hfault
  exact ⟨cycle, rfl, hcycle.mono fun _ _ => (mem_parentNames_iff hn hedges).mp⟩

/-- The order of a linked hierarchy lists every declared name once, after its parents. -/
theorem ofDeclarations_order {h : Hierarchy} (hn : (decls.map (·.name)).Nodup)
    (hrun : ofDeclarations decls = .ok h) :
    h.order.Perm (decls.map (·.name)) ∧ ∀ name parent, Declaration.HasParent decls name parent →
      h.order.idxOf parent < h.order.idxOf name := by
  simp only [ofDeclarations, bind_eq_ok] at hrun
  obtain ⟨edges, hedges, order, horder, hlink⟩ := hrun
  obtain rfl := pure_eq_ok.mp hlink
  change parentsFirst (parentNames edges) _ = _ at horder
  obtain ⟨hord, hall⟩ := parentsFirst_ordered
    (fun name hname parent => parentNames_declared hn (mapM_eq_ok.mp hedges) hname)
    (fun name hname => find?_declared.mpr hname) horder
  refine ⟨(List.perm_ext_iff_of_nodup hord.nodup hn).mpr fun name => ⟨fun hname => ?_, hall name⟩,
    fun name parent hparent => ?_⟩
  · exact find?_declared.mp (hord.declared name hname)
  · obtain ⟨d, hd, rfl, -⟩ := id hparent
    exact hord.idxOf_lt (hall d.name (List.mem_map_of_mem hd))
      ((mem_parentNames_iff hn hedges).mpr hparent)

/-- Names in an order with parents first are on no cycle. -/
theorem not_transGen_of_order {step : Text → Text → Prop} {order : List Text}
    (hlt : ∀ name parent, step name parent → order.idxOf parent < order.idxOf name) (name : Text) :
    ¬ Relation.TransGen step name name := by
  have hdown : ∀ last, Relation.TransGen step name last → order.idxOf last < order.idxOf name := by
    intro last hsteps
    induction hsteps with
    | single hstep => exact hlt _ _ hstep
    | tail _ hstep ih => exact (hlt _ _ hstep).trans ih
  exact fun hsteps => Nat.lt_irrefl _ (hdown name hsteps)

end OfDeclarations

/-- For types whose parents are all declared and rightly applied, there is a cycle error exactly if
the heads of the parents go round in a circle. The error then shows such a circle; otherwise every
name is put into the order once, after its parents. -/
theorem cyclic_iff_circle {entries : List (Json.Value × Json.Value)} {decls : List Declaration}
    (hread : Declaration.readEntries [] entries = .ok decls)
    (htakes : ∀ d ∈ decls, ∀ parent ∈ d.parents, Declaration.TakesParent decls d parent) :
    ((∃ cycle, ofDefinition (.mapping entries) = .error (.cyclic cycle)) ↔
      ∃ name, Relation.TransGen (Declaration.HasParent decls) name name) ∧
    (∀ cycle, ofDefinition (.mapping entries) = .error (.cyclic cycle) →
      IsCycle (Declaration.HasParent decls) cycle) ∧
    ((∀ name, ¬ Relation.TransGen (Declaration.HasParent decls) name name) →
      ∃ h, ofDefinition (.mapping entries) = .ok h ∧ h.order.Perm (decls.map (·.name)) ∧
        ∀ name parent, Declaration.HasParent decls name parent →
          h.order.idxOf parent < h.order.idxOf name) := by
  have hn := (Declaration.readEntries_names hread).1
  have hrun : ofDefinition (.mapping entries) = ofDeclarations decls := by
    rw [ofDefinition, hread, ok_bind]
  have hfails := ofDeclarations_failsWith_cycle hn htakes
  have hcycle (cycle : List Text) (herror : ofDeclarations decls = .error (.cyclic cycle)) :
      IsCycle (Declaration.HasParent decls) cycle := by
    obtain ⟨_, heq, hcycle⟩ := hfails _ herror
    rwa [DefinitionFault.cyclic.inj heq]
  rw [hrun]
  refine ⟨⟨?_, ?_⟩, hcycle, fun hnone => ?_⟩
  · rintro ⟨cycle, herror⟩
    exact (hcycle cycle herror).transGen
  · rintro ⟨name, hsteps⟩
    cases hresult : ofDeclarations decls with
    | ok h => exact absurd hsteps (not_transGen_of_order (ofDeclarations_order hn hresult).2 name)
    | error fault =>
      obtain ⟨cycle, rfl, -⟩ := hfails fault hresult
      exact ⟨cycle, rfl⟩
  · cases hresult : ofDeclarations decls with
    | ok h => exact ⟨h, rfl, ofDeclarations_order hn hresult⟩
    | error fault =>
      obtain ⟨cycle, -, hcycle⟩ := hfails fault hresult
      obtain ⟨name, hsteps⟩ := hcycle.transGen
      exact absurd hsteps (hnone name)

end Hierarchy

/-- A shelf is a box of shelves, which is no circle. Left leads into a circle of middle and
right. -/
def circleEntries : List (Json.Value × Json.Value) := [
  typeEntry "box" [("x", .co)] [],
  typeEntry "shelf" [("y", .co)] ["box[box[shelf[y]]]"],
  typeEntry "left" [] ["middle"],
  typeEntry "middle" [] ["box[left]", "right"],
  typeEntry "right" [] ["middle"]]

def circleDeclarations : List Declaration := [
  ⟨"box", [⟨"x", .co⟩], []⟩,
  ⟨"shelf", [⟨"y", .co⟩], [⟨"box", [⟨"box", [⟨"shelf", [⟨"y", []⟩]⟩]⟩]⟩]⟩,
  ⟨"left", [], [⟨"middle", []⟩]⟩,
  ⟨"middle", [], [⟨"box", [⟨"left", []⟩]⟩, ⟨"right", []⟩]⟩,
  ⟨"right", [], [⟨"middle", []⟩]⟩]

namespace Hierarchy

/-- Parents can be seen to be rightly applied by writing them over the slots. -/
theorem takesParent_of_edges {decls : List Declaration} (hn : (decls.map (·.name)).Nodup)
    (hedges : ∀ d ∈ decls, ∀ parent ∈ d.parents, (d.edge decls parent).toOption.isSome) :
    ∀ d ∈ decls, ∀ parent ∈ d.parents, Declaration.TakesParent decls d parent := by
  intro d hd parent hparent
  obtain ⟨edge, hedge⟩ := Option.isSome_iff_exists.mp (hedges d hd parent hparent)
  exact (Declaration.edge_ok_iff hn).mp ⟨edge, eq_ok_of_toOption hedge⟩

/-- The circle is found from a type that is not on it. Without it the shelf, though declared first,
comes after the box. -/
theorem circle_cyclic_iff :
    Declaration.readEntries [] circleEntries = .ok circleDeclarations ∧
    (∃ cycle, ofDefinition (.mapping circleEntries) = .error (.cyclic cycle) ∧
      IsCycle (Declaration.HasParent circleDeclarations) cycle) ∧
    (ofDefinition (.mapping circleEntries)).mapError DefinitionFault.message =
      .error "The fulfills relation is cyclic: middle -> right -> middle" ∧
    ∃ h, ofDefinition (.mapping (circleEntries.take 2).reverse) = .ok h ∧
      h.order.Perm ["shelf", "box"] ∧
      h.order.idxOf ("box" : Text) < h.order.idxOf ("shelf" : Text) := by
  have hread : Declaration.readEntries [] circleEntries = .ok circleDeclarations :=
    eq_ok_of_toOption (by decide +kernel)
  have hshelf : Declaration.readEntries [] (circleEntries.take 2).reverse =
      .ok (circleDeclarations.take 2).reverse := eq_ok_of_toOption (by decide +kernel)
  have htakes := takesParent_of_edges (Declaration.readEntries_names hread).1 (by decide +kernel)
  have htakesShelf := takesParent_of_edges (Declaration.readEntries_names hshelf).1
    (by decide +kernel)
  have hthere : Declaration.HasParent circleDeclarations "middle" "right" := by decide +kernel
  have hback : Declaration.HasParent circleDeclarations "right" "middle" := by decide +kernel
  have hearlier : ∀ d ∈ (circleDeclarations.take 2).reverse, ∀ parent ∈ d.parents.map (·.name),
      (["box", "shelf"] : List Text).idxOf parent <
        (["box", "shelf"] : List Text).idxOf d.name := by
    decide +kernel
  have hlt (name parent : Text)
      (hparent : Declaration.HasParent (circleDeclarations.take 2).reverse name parent) :
      (["box", "shelf"] : List Text).idxOf parent < (["box", "shelf"] : List Text).idxOf name := by
    obtain ⟨d, hd, rfl, hhead⟩ := hparent
    exact hearlier d hd parent hhead
  obtain ⟨hcyclic, hcycle, -⟩ := cyclic_iff_circle hread htakes
  obtain ⟨cycle, herror⟩ := hcyclic.mpr ⟨"middle", .tail (.single hthere) hback⟩
  obtain ⟨h, hrun, hperm, hbefore⟩ := (cyclic_iff_circle hshelf htakesShelf).2.2
    (not_transGen_of_order hlt)
  refine ⟨hread, ⟨cycle, herror, hcycle cycle herror⟩, by decide +kernel, h, hrun, hperm, ?_⟩
  exact hbefore "shelf" "box" (by decide +kernel)

end Hierarchy

end TypedBlocks
