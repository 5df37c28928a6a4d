import TypedBlocks.Hierarchy.Query
import TypedBlocks.Proofs.Hierarchy.Names
import TypedBlocks.Proofs.Subtype.Ground

/-! Hierarchies that differ only in how their entries are arranged. Each name stands for the same
declaration and has the same ways to its ancestors in both, so both know the same types and compare
them alike, faults included. -/
namespace TypedBlocks.Hierarchy

/-- The same types are declared, each with the same ways to its ancestors. -/
structure Alike (h h' : Hierarchy) : Prop where
  linked : h.Linked
  linked' : h'.Linked
  find : ∀ name, (h.find? name).map (fun e => (e.decl, e.paths)) =
    (h'.find? name).map fun e => (e.decl, e.paths)

namespace Alike

variable {h h' : Hierarchy} {t : TypeExpr} {e : Entry}

theorem refl (hl : h.Linked) : h.Alike h :=
  ⟨hl, hl, fun _ => rfl⟩

theorem symm (halike : h.Alike h') : h'.Alike h :=
  ⟨halike.linked', halike.linked, fun name => (halike.find name).symm⟩

theorem entry (halike : h.Alike h') (he : e ∈ h.entries) :
    ∃ e' ∈ h'.entries, e'.decl = e.decl ∧ e'.paths = e.paths := by
  have hfind := halike.find e.name
  rw [halike.linked.find?_eq he] at hfind
  obtain ⟨e', hfind', heq⟩ := Option.map_eq_some_iff.mp hfind.symm
  obtain ⟨hdecl, hpaths⟩ := Prod.mk.inj heq
  exact ⟨e', (find?_some hfind').1, hdecl, hpaths⟩

/-- A step that looks a name up, and uses only its declaration and its ways, is the same step. -/
theorem get_bind (halike : h.Alike h') {α : Type} (name : Text)
    (next : Declaration → (Text → List (List Template)) → Except Fault α) :
    (h.get name >>= fun e => next e.decl e.paths) =
      (h'.get name >>= fun e => next e.decl e.paths) := by
  have hfind := halike.find name
  unfold get
  cases hname : h.find? name with
  | none =>
    rw [hname] at hfind
    rw [Option.map_eq_none_iff.mp hfind.symm]
  | some e =>
    rw [hname] at hfind
    obtain ⟨e', hname', heq⟩ := Option.map_eq_some_iff.mp hfind.symm
    obtain ⟨hdecl, hpaths⟩ := Prod.mk.inj heq
    rw [hname']
    simp only [ok_bind, hdecl, hpaths]

/-! ### The same types and views -/

theorem below_iff (halike : h.Alike h') {lower upper : Text} :
    h.Below lower upper ↔ h'.Below lower upper := by
  have himp {k k' : Hierarchy} (hk : k.Alike k') (hbelow : k.Below lower upper) :
      k'.Below lower upper := by
    obtain ⟨e, he, rfl, path, hpath⟩ := hbelow
    obtain ⟨e', he', hdecl, hpaths⟩ := hk.entry he
    refine ⟨e', he', congrArg Declaration.name hdecl, path, (hk.linked'.mem_paths he').mp ?_⟩
    rw [hpaths]
    exact (hk.linked.mem_paths he).mpr hpath
  exact ⟨himp halike, himp halike.symm⟩

theorem valid_iff (halike : h.Alike h') : h.Valid t ↔ h'.Valid t := by
  have himp {k k' : Hierarchy} (hk : k.Alike k') (ht : k.Valid t) : k'.Valid t := by
    induction ht with
    | wildcard => exact .wildcard
    | @app e he params hlen _ ih =>
      obtain ⟨e', he', hdecl, -⟩ := hk.entry he
      have hname : e.name = e'.name := congrArg Declaration.name hdecl.symm
      have harity : e.arity = e'.arity := congrArg Declaration.arity hdecl.symm
      rw [hname]
      exact .app he' (hlen.trans harity) ih
  exact ⟨himp halike, himp halike.symm⟩

theorem ground_iff (halike : h.Alike h') : h.Ground t ↔ h'.Ground t :=
  ⟨fun ht => ⟨halike.valid_iff.mp ht.valid, ht.starFree⟩,
    fun ht => ⟨halike.valid_iff.mpr ht.valid, ht.starFree⟩⟩

theorem paramsFor_eq (halike : h.Alike h') : h.paramsFor = h'.paramsFor := by
  funext t ancestor
  exact halike.get_bind t.name fun _ paths =>
    return (paths ancestor).head?.map (Template.fillAll t.params)

theorem allParamsFor_eq (halike : h.Alike h') : h.allParamsFor = h'.allParamsFor := by
  funext t ancestor
  exact halike.get_bind t.name fun _ paths =>
    return (paths ancestor).map (Template.fillAll t.params)

theorem paramsBelow_eq (halike : h.Alike h') : h.paramsBelow = h'.paramsBelow := by
  funext ancestor descendant actuals
  have hinner : (h.get descendant >>= fun e => pure ((e.paths ancestor).head?.map fun path =>
      Template.unfillAll (List.replicate e.arity none) path actuals)) =
      (h'.get descendant >>= fun e => pure ((e.paths ancestor).head?.map fun path =>
        Template.unfillAll (List.replicate e.arity none) path actuals)) :=
    halike.get_bind descendant fun d paths => pure ((paths ancestor).head?.map fun path =>
      Template.unfillAll (List.replicate d.arity none) path actuals)
  simp only [paramsBelow, hinner]
  exact halike.get_bind ancestor fun _ _ => _

theorem validate_eq (halike : h.Alike h') : h.validate = h'.validate := by
  have hnode : h.validateNode = h'.validateNode := by
    funext t
    unfold validateNode
    split
    · rfl
    · exact halike.get_bind t.name fun d _ =>
        if t.params.length = d.arity then .ok ()
        else .error (.type (.arity t.name t.params.length d.arity))
  funext t
  simp only [validate, hnode]

/-! ### The same comparisons -/

theorem subtypeWithin_eq (halike : h.Alike h') (depth : Nat) :
    h.subtypeWithin depth = h'.subtypeWithin depth := by
  induction depth with
  | zero => rfl
  | succ depth ih =>
    funext sub sup
    simp only [subtypeWithin, compareBy, halike.allParamsFor_eq, ih]
    split
    · rfl
    · exact halike.get_bind sup.name fun d _ => h'.allParamsFor sub sup.name >>= fun views =>
        views.anyM fun params =>
          fitByVariance (h'.subtypeWithin depth) d.params params sup.params

theorem fulfills_eq (halike : h.Alike h') : h.fulfills = h'.fulfills := by
  funext sub sup
  simp only [fulfills, accept, halike.validate_eq, isSubtype, halike.subtypeWithin_eq]

end Alike

end TypedBlocks.Hierarchy
