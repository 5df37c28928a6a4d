import Mathlib.Data.List.Perm.Basic
import TypedBlocks.Proofs.Hierarchy.Routes
import TypedBlocks.Proofs.Nearest.Unordered

/-! Types declared in another order. A search for an order of the names with parents first ends
well from every start if it does from one, since the parents of a type come before it in the order
that was found. What is linked then depends on the declarations alone: routes follow the parents as
each type lists them. -/
namespace TypedBlocks

open Json (Value)

namespace Declaration

variable {decls decls' : List Declaration}

/-- An entry of a definition reads as the declaration. -/
def Reads (entry : Value × Value) (d : Declaration) : Prop :=
  ∃ name, readName entry.1 = .ok name ∧ read name entry.2 = .ok d

/-- The entries are read one by one; only their names must not have been seen. -/
theorem readEntries_iff {seen : List Text} {entries : List (Value × Value)} :
    readEntries seen entries = .ok decls ↔ List.Forall₂ Reads entries decls ∧
      (decls.map (·.name)).Nodup ∧ ∀ d ∈ decls, d.name ∉ seen := by
  induction entries generalizing seen decls with
  | nil =>
    constructor
    · intro hrun
      obtain rfl := Except.ok.inj hrun
      simp
    · rintro ⟨hreads, -⟩
      cases hreads
      rfl
  | cons entry entries ih =>
    obtain ⟨key, v⟩ := entry
    constructor
    · intro hrun
      have hnames := readEntries_names hrun
      refine ⟨?_, hnames.1, fun d hd => (hnames.2 d.name (List.mem_map_of_mem hd)).1⟩
      simp only [readEntries, bind_eq_ok] at hrun
      obtain ⟨name, hname, hrun⟩ := hrun
      split at hrun
      · simp at hrun
      · simp only [bind_eq_ok] at hrun
        obtain ⟨d, hd, ds, hds, hrun⟩ := hrun
        obtain rfl := pure_eq_ok.mp hrun
        exact .cons ⟨name, hname, hd⟩ (ih.mp hds).1
    · rintro ⟨hreads, hnodup, hnew⟩
      cases hreads with
      | @cons _ d _ ds hfirst hrest =>
        obtain ⟨name, hname, hd⟩ := hfirst
        have hdname : d.name = name := read_name hd
        obtain ⟨hfresh, hnodup⟩ := List.nodup_cons.mp hnodup
        obtain ⟨hseen, hnew⟩ := List.forall_mem_cons.mp hnew
        have hrun : readEntries (name :: seen) entries = .ok ds := by
          refine ih.mpr ⟨hrest, hnodup, fun d' hd' hmem => ?_⟩
          rcases List.mem_cons.mp hmem with heq | hmem
          · exact hfresh (List.mem_map.mpr ⟨d', hd', heq.trans hdname.symm⟩)
          · exact hnew d' hd' hmem
        rw [hdname] at hseen
        simp only [readEntries, hname, hd, hrun, ok_bind]
        rw [if_neg (by simpa using hseen)]
        rfl

theorem lower_of_reads {entries : List (Value × Value)} {decls : List Declaration}
    (hreads : List.Forall₂ Reads entries decls) : ∀ d ∈ decls, Text.lower d.name = d.name := by
  induction hreads with
  | nil => simp
  | cons hfirst _ ih =>
    obtain ⟨name, hname, hd⟩ := hfirst
    refine List.forall_mem_cons.mpr ⟨?_, ih⟩
    rw [read_name hd]
    exact lower_of_readName hname

theorem readEntries_perm {entries entries' : List (Value × Value)}
    (hperm : entries.Perm entries') (hrun : readEntries [] entries = .ok decls) :
    ∃ decls', readEntries [] entries' = .ok decls' ∧ decls.Perm decls' := by
  obtain ⟨hreads, hnodup, -⟩ := readEntries_iff.mp hrun
  obtain ⟨decls', hreads', hdecls⟩ := List.perm_comp_forall₂ hperm.symm hreads
  refine ⟨decls', readEntries_iff.mpr ⟨hreads', ?_, by simp⟩, hdecls.symm⟩
  exact (hdecls.map (·.name)).nodup_iff.mpr hnodup

/-- Among declarations of different names, the order has no part in which one is found. -/
theorem find?_perm (hperm : decls.Perm decls') (hn : (decls.map (·.name)).Nodup) :
    find? decls = find? decls' := by
  have hn' : (decls'.map (·.name)).Nodup := (hperm.map (·.name)).nodup_iff.mp hn
  funext name
  cases hfind : find? decls name with
  | none =>
    cases hfind' : find? decls' name with
    | none => rfl
    | some d =>
      obtain ⟨hmem, rfl⟩ := find?_name hfind'
      rw [Hierarchy.find?_decl_of_mem hn (hperm.mem_iff.mpr hmem)] at hfind
      cases hfind
  | some d =>
    obtain ⟨hmem, rfl⟩ := find?_name hfind
    exact (Hierarchy.find?_decl_of_mem hn' (hperm.mem_iff.mp hmem)).symm

mutual

theorem argument_congr (hfind : find? decls = find? decls') (d : Declaration) (parent : TypeExpr) :
    ∀ t, argument decls d parent t = argument decls' d parent t
  | ⟨name, params⟩ => by
    simp only [argument, hfind, arguments_congr hfind d parent params]

theorem arguments_congr (hfind : find? decls = find? decls') (d : Declaration)
    (parent : TypeExpr) : ∀ ts, arguments decls d parent ts = arguments decls' d parent ts
  | [] => by simp only [arguments]
  | p :: ps => by
    simp only [arguments, argument_congr hfind d parent p, arguments_congr hfind d parent ps]

end

/-- The edges of a type depend only on what names stand for. -/
theorem edges_congr (hfind : find? decls = find? decls') (d : Declaration) :
    d.edges decls = d.edges decls' := by
  have hedge : edge decls d = edge decls' d := by
    funext parent
    simp only [edge, hfind, arguments_congr hfind]
  simp only [edges, hedge]

end Declaration

namespace Hierarchy

variable {h h' : Hierarchy} {decls decls' : List Declaration}

/-! ### An order is found -/

theorem foldlM_ok {α β ε : Type} {f : β → α → Except ε β} {xs : List α}
    (hstep : ∀ x ∈ xs, ∀ b, ∃ b', f b x = .ok b') (b : β) : ∃ b', xs.foldlM f b = .ok b' := by
  induction xs generalizing b with
  | nil => exact ⟨b, rfl⟩
  | cons x xs ih =>
    obtain ⟨hx, hxs⟩ := List.forall_mem_cons.mp hstep
    obtain ⟨mid, hmid⟩ := hx b
    obtain ⟨last, hlast⟩ := ih hxs mid
    exact ⟨last, bind_eq_ok.mpr ⟨mid, hmid, hlast⟩⟩

section Search

variable {heads : Text → List Text} {declared : Text → Prop} {rank : Text → Nat}
  (hrank : ∀ name, declared name → ∀ parent ∈ heads name,
    declared parent ∧ rank parent < rank name)

include hrank

/-- If every parent has a lower rank than its child, a visit closes no cycle. -/
theorem visit_ok {fuel : Nat} {path : List Text} {name : Text} (hname : declared name)
    (hfuel : rank name < fuel) (hpath : ∀ below ∈ path, rank name < rank below)
    (done : List Text) : ∃ done', visit heads fuel path done name = .ok done' := by
  induction fuel generalizing path name done with
  | zero => exact absurd hfuel (Nat.not_lt_zero _)
  | succ fuel ih =>
    have hnew : name ∉ path := fun hmem => Nat.lt_irrefl _ (hpath name hmem)
    have hparents (parent : Text) (hparent : parent ∈ heads name) (done : List Text) :
        ∃ done', visit heads fuel (path ++ [name]) done parent = .ok done' := by
      obtain ⟨hdeclared, hlt⟩ := hrank name hname parent hparent
      have hbelow : ∀ below ∈ path ++ [name], rank parent < rank below :=
        List.forall_mem_append.mpr ⟨fun below hmem => hlt.trans (hpath below hmem),
          List.forall_mem_singleton.mpr hlt⟩
      exact ih hdeclared (Nat.lt_of_lt_of_le hlt (Nat.le_of_lt_succ hfuel)) hbelow done
    unfold visit
    split
    · exact ⟨done, rfl⟩
    · rw [if_neg (by simpa using hnew)]
      obtain ⟨done', hdone'⟩ := foldlM_ok hparents done
      exact ⟨done' ++ [name], bind_eq_ok.mpr ⟨done', hdone', rfl⟩⟩

theorem parentsFirst_ok {names : List Text}
    (hnames : ∀ name ∈ names, declared name ∧ rank name ≤ names.length) :
    ∃ order, parentsFirst heads names = .ok order := by
  refine foldlM_ok (fun name hname done => ?_) []
  obtain ⟨hdeclared, hle⟩ := hnames name hname
  exact visit_ok hrank hdeclared (Nat.lt_succ_of_le hle) (by simp) done

end Search

theorem ofDeclarations_decls (hrun : ofDeclarations decls = .ok h) : h.decls = decls := by
  obtain ⟨edges, order, rfl⟩ := exists_link hrun
  exact decls_link decls edges order

/-- Declarations that are accepted in one order are accepted in every order. -/
theorem ofDeclarations_perm (hperm : decls.Perm decls') (hn : (decls.map (·.name)).Nodup)
    (hstar : TypeExpr.star ∉ decls.map (·.name)) (hrun : ofDeclarations decls = .ok h) :
    ∃ h', ofDeclarations decls' = .ok h' := by
  have hl := ofDeclarations_linked hn hstar hrun
  have hdecls := ofDeclarations_decls hrun
  have hfind := Declaration.find?_perm hperm hn
  have hn' : (decls'.map (·.name)).Nodup := (hperm.map (·.name)).nodup_iff.mp hn
  have hentry (d : Declaration) (hd : d ∈ decls') : ∃ e ∈ h.entries, e.decl = d := by
    rw [← decl_mem_iff, hdecls]
    exact hperm.mem_iff.mpr hd
  have hedges (d : Declaration) (hd : d ∈ decls') :
      ∃ entry, (do return (d.name, ← d.edges decls') : Except DefinitionFault _) = .ok entry ∧
        True := by
    obtain ⟨e, he, rfl⟩ := hentry d hd
    have hown := hl.edges_eq e he
    rw [hdecls, Declaration.edges_congr hfind] at hown
    exact ⟨(e.decl.name, e.edges), by rw [hown]; rfl, trivial⟩
  obtain ⟨edges, hrunEdges, -⟩ := mapM_ok hedges
  -- The order that was found for the first list ranks the names of the second.
  have hrank (name : Text) (hname : name ∈ h.names) (parent : Text)
      (hparent : parent ∈ parentNames edges name) :
      parent ∈ h.names ∧ h.order.idxOf parent < h.order.idxOf name := by
    obtain ⟨e, he, rfl⟩ := mem_names.mp hname
    have hd : e.decl ∈ decls' := hperm.mem_iff.mp (hdecls ▸ decl_mem_iff.mpr ⟨e, he, rfl⟩)
    obtain ⟨es, hes, hlookup⟩ := edges_lookup hn' (mapM_eq_ok.mp hrunEdges) hd
    rw [← Declaration.edges_congr hfind, ← hdecls, hl.edges_eq e he] at hes
    obtain rfl := Except.ok.inj hes
    have hnames : parentNames edges e.name = e.edges.map (·.1) := by
      rw [parentNames, Entry.name, hlookup, Option.getD_some]
    rw [hnames] at hparent
    obtain ⟨edge, hedge, rfl⟩ := List.mem_map.mp hparent
    obtain ⟨_, _, hisEdge⟩ := hl.parent_of_edge he hedge
    obtain ⟨p, hp, hpname, -⟩ := hisEdge.target
    exact ⟨mem_names.mpr ⟨p, hp, hpname⟩, hl.idxOf_parent_lt he hedge⟩
  have hcount (name : Text) (hname : name ∈ decls'.map (·.name)) :
      name ∈ h.names ∧ h.order.idxOf name ≤ (decls'.map (·.name)).length := by
    obtain ⟨d, hd, rfl⟩ := List.mem_map.mp hname
    obtain ⟨e, he, rfl⟩ := hentry d hd
    refine ⟨mem_names.mpr ⟨e, he, rfl⟩, ?_⟩
    rw [List.length_map, ← hperm.length_eq, ← hdecls]
    exact (hl.idxOf_lt_length he).le
  obtain ⟨order, horder⟩ := parentsFirst_ok hrank hcount
  exact ⟨_, bind_eq_ok.mpr ⟨edges, hrunEdges, bind_eq_ok.mpr ⟨order, horder, rfl⟩⟩⟩

/-! ### The same ways -/

theorem Route.listWithin_congr (hfind : Declaration.find? decls = Declaration.find? decls')
    (ancestor : Text) (count : Nat) (name : Text) :
    Route.listWithin decls ancestor count name = Route.listWithin decls' ancestor count name := by
  induction count generalizing name with
  | zero => rfl
  | succ count ih => simp only [Route.listWithin, hfind, ih]

/-- Linked hierarchies with the same declarations, in whatever order, are alike. -/
theorem alike_of_perm (hl : h.Linked) (hl' : h'.Linked) (hperm : h.decls.Perm h'.decls) :
    h.Alike h' := by
  have hnames (k : Hierarchy) : k.names = k.decls.map (·.name) := by
    simp only [names, Hierarchy.decls, List.map_map]
    rfl
  have hfind := Declaration.find?_perm hperm (hnames h ▸ hl.names_nodup)
  refine ⟨hl, hl', fun name => ?_⟩
  by_cases hname : name ∈ h.names
  · obtain ⟨e, he, rfl⟩ := mem_names.mp hname
    obtain ⟨e', he', hdecl⟩ :=
      decl_mem_iff.mp (hperm.mem_iff.mp (decl_mem_iff.mpr ⟨e, he, rfl⟩))
    have hsame : e'.name = e.name := congrArg Declaration.name hdecl
    have harity : e'.arity = e.arity := congrArg Declaration.arity hdecl
    have hpaths : e'.paths = e.paths := by
      funext ancestor
      rw [hl.paths_eq_listWithin he ancestor (hl.idxOf_lt_length he),
        hl'.paths_eq_listWithin he' ancestor (hl'.idxOf_lt_length he'), hsame, harity,
        Route.listWithin_congr hfind, hperm.length_eq]
    rw [hl.find?_eq he, ← hsame, hl'.find?_eq he']
    simp only [Option.map_some, hdecl, hpaths]
  · have hname' : name ∉ h'.names := by
      rw [hnames] at hname ⊢
      rwa [← (hperm.map (·.name)).mem_iff]
    have hnone {k : Hierarchy} (hk : name ∉ k.names) : k.find? name = none :=
      List.find?_eq_none.mpr fun e he heq => hk (mem_names.mpr ⟨e, he, by simpa using heq⟩)
    rw [hnone hname, hnone hname']

/-- A definition that is accepted is accepted with its entries in any order, and what it makes is
alike. -/
theorem ofDefinition_perm {entries entries' : List (Value × Value)}
    (hperm : entries.Perm entries') (hdef : ofDefinition (.mapping entries) = .ok h) :
    ∃ h', ofDefinition (.mapping entries') = .ok h' ∧ h.Alike h' := by
  obtain ⟨decls, hdecls, hrun⟩ := bind_eq_ok.mp hdef
  obtain ⟨decls', hdecls', hpermDecls⟩ := Declaration.readEntries_perm hperm hdecls
  obtain ⟨hn, hstar⟩ := Declaration.readEntries_names hdecls
  obtain ⟨h', hrun'⟩ := ofDeclarations_perm hpermDecls hn (fun hmem => (hstar _ hmem).2 rfl) hrun
  have hdef' : ofDefinition (.mapping entries') = .ok h' :=
    bind_eq_ok.mpr ⟨decls', hdecls', hrun'⟩
  refine ⟨h', hdef', alike_of_perm (ofDefinition_linked hdef) (ofDefinition_linked hdef') ?_⟩
  rw [ofDeclarations_decls hrun, ofDeclarations_decls hrun']
  exact hpermDecls

/-- The order in which types are declared does not matter. A definition is accepted exactly when it
is with its entries in another order; and then every type has the same ways, in the same order, to
every ancestor, every comparison of types gives the same verdict or the same fault, and every search
for nearest types of known types without wildcards that returns finds the same set. -/
theorem definition_unordered {entries entries' : List (Value × Value)}
    (hperm : entries.Perm entries') :
    ((∃ h, ofDefinition (.mapping entries) = .ok h) ↔
      ∃ h', ofDefinition (.mapping entries') = .ok h') ∧
    ∀ h h', ofDefinition (.mapping entries) = .ok h → ofDefinition (.mapping entries') = .ok h' →
      (∀ name ancestor, h.pathsOf name ancestor = h'.pathsOf name ancestor) ∧
      (∀ sub sup, h.fulfills sub sup = h'.fulfills sub sup) ∧
      ∀ types, (∀ t ∈ types, h.validate t = .ok () ∧ t.StarFree) →
        (∀ found found', h.commonAncestors types = .ok found →
          h'.commonAncestors types = .ok found' → ∀ t, t ∈ found ↔ t ∈ found') ∧
        ∀ found found', h.commonDescendants types = .ok found →
          h'.commonDescendants types = .ok found' → ∀ t, t ∈ found ↔ t ∈ found' := by
  refine ⟨⟨?_, ?_⟩, fun h h' hdef hdef' => ?_⟩
  · rintro ⟨h, hdef⟩
    obtain ⟨h', hdef', -⟩ := ofDefinition_perm hperm hdef
    exact ⟨h', hdef'⟩
  · rintro ⟨h', hdef'⟩
    obtain ⟨h, hdef, -⟩ := ofDefinition_perm hperm.symm hdef'
    exact ⟨h, hdef⟩
  · obtain ⟨k, hk, halike⟩ := ofDefinition_perm hperm hdef
    obtain rfl := Except.ok.inj (hk.symm.trans hdef')
    refine ⟨fun name ancestor => ?_, fun sub sup => by rw [halike.fulfills_eq],
      fun types htypes => ?_⟩
    · have hways := congrArg (Option.map fun view => view.2 ancestor) (halike.find name)
      simp only [Option.map_map, Function.comp_def] at hways
      simp only [pathsOf, hways]
    · have hground : ∀ t ∈ types, h.Ground t := fun t ht =>
        ⟨halike.linked.validate_eq_ok.mp (htypes t ht).1, (htypes t ht).2⟩
      have hsame (found found' : List TypeExpr) :=
        halike.nearest_same hground (fun _ => Iff.rfl) (allowance + TypeExpr.sizeAll types)
          (allowance + TypeExpr.sizeAll types) found found'
      exact ⟨fun found found' => (hsame found found').1, fun found found' => (hsame found found').2⟩

/-- Crates may be declared before the pairs and boxes that they are. -/
theorem crate_declared_first :
    crateEntries.Perm crateEntries.reverse ∧
    ∃ h, ofDefinition (.mapping crateEntries.reverse) = .ok h ∧
      h.pathsOf "crate" "box" = [[.app "pair" [.slot 1, .slot 0]], [.app "dog" []]] ∧
      h.fulfills (.built ⟨"crate", [⟨"dog", []⟩, ⟨"cat", []⟩]⟩)
        (.built ⟨"box", [⟨"dog", []⟩]⟩) = .ok true ∧
      ∀ found, h.commonDescendants [⟨"box", [⟨"dog", []⟩]⟩, ⟨"pair", [⟨"dog", []⟩, ⟨"cat", []⟩]⟩] =
        .ok found → ∀ t, t ∈ found ↔ t = ⟨"pair", [⟨"dog", []⟩, ⟨"cat", []⟩]⟩ := by
  have hperm : crateEntries.Perm crateEntries.reverse := (List.reverse_perm _).symm
  obtain ⟨haccepted, hsame⟩ := definition_unordered hperm
  obtain ⟨h, hdef⟩ := haccepted.mp ⟨_, crate_accepted⟩
  obtain ⟨hways, hfulfills, hnearest⟩ := hsame _ h crate_accepted hdef
  have hvalid : ∀ t ∈ [TypeExpr.mk "box" [⟨"dog", []⟩], ⟨"pair", [⟨"dog", []⟩, ⟨"cat", []⟩]⟩],
      crateHierarchy.validate t = .ok () ∧ t.StarFree :=
    List.forall_mem_cons.mpr ⟨⟨eq_ok_of_toOption (by decide +kernel), by decide +kernel⟩,
      List.forall_mem_singleton.mpr ⟨eq_ok_of_toOption (by decide +kernel), by decide +kernel⟩⟩
  have hrun : crateHierarchy.commonDescendants
      [⟨"box", [⟨"dog", []⟩]⟩, ⟨"pair", [⟨"dog", []⟩, ⟨"cat", []⟩]⟩] =
      .ok [⟨"pair", [⟨"dog", []⟩, ⟨"cat", []⟩]⟩] := eq_ok_of_toOption (by decide +kernel)
  refine ⟨hperm, h, hdef, ?_, ?_, fun found hfound t => ?_⟩
  · rw [← hways]
    decide +kernel
  · rw [← hfulfills]
    exact eq_ok_of_toOption (by decide +kernel)
  · rw [← (hnearest _ hvalid).2 _ found hrun hfound t, List.mem_singleton]

end Hierarchy

end TypedBlocks
