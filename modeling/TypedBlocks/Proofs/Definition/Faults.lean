import TypedBlocks.Proofs.Definition.Shape
import TypedBlocks.Proofs.Hierarchy.Reordered

/-! What can still be wrong with a definition of the right shape. The rules on the shape and the
readers agree but for one slip of the rules: they let pass a name with a line break after it, which
the readers refuse. All other faults of such a definition are of kinds that shape cannot tell. -/
namespace TypedBlocks

open Json (Value)

namespace Definition

def paramNames (body : Value) : List Value :=
  (itemsOf (Value.field (fieldsOf body) "params")).filterMap fun param =>
    Value.field? (fieldsOf param) "name"

def givenNames : Definition → List Value
  | .mapping entries => entries.map (·.1) ++ entries.flatMap fun entry => paramNames entry.2
  | .other _ => []

end Definition

namespace DefinitionFault

/-- Faults that the shape of a definition has no part in: names given twice, parents that are badly
written, undefined or wrongly applied, references to nothing, and cycles. -/
def isBeyondShape : DefinitionFault → Bool
  | .repeatedType _ | .repeatedParam _ _ | .undefinedParent _ _ | .parentArity _ _ _ _
  | .appliedParam _ _ _ | .unknownReference _ _ _ | .cyclic _ => true
  | .badParent _ (.malformed source cause) => !source.isEmpty && decide (cause ≠ .notText)
  | _ => false

/-- The fault is beyond shape, or it is about one of the names, which has a line break after it. -/
def Remains (names : List Value) (fault : DefinitionFault) : Prop :=
  fault.isBeyondShape = true ∨ ∃ s : Text, s.EndsInBreak ∧ .text s ∈ names ∧
    (fault = .badTypeName (.text s) ∨ ∃ type, fault = .badParamName type (.text s))

end DefinitionFault

/-! ### Bad parents -/

namespace TypeExpr

theorem shape_failsWith (cs : List CodePoint) : FailsWith (· ≠ Malformed.notText) (shape cs) := by
  intro cause hcause
  rintro rfl
  simp only [shape] at hcause
  split_ifs at hcause
  all_goals cases hcause

theorem splitArgs_failsWith (depth : Nat) (cs : List CodePoint) :
    FailsWith (· ≠ Malformed.notText) (splitArgs depth cs) := by
  induction cs generalizing depth with
  | nil =>
    rw [splitArgs]
    split
    · exact .ok _
    · exact .error (by simp)
  | cons c cs ih =>
    rw [splitArgs]
    split
    · exact (ih _).bind fun _ _ => .ok _
    split
    · split
      · exact .error (by simp)
      · exact (ih _).bind fun _ _ => .ok _
    split
    · exact (ih _).bind fun _ _ => .ok _
    · exact (ih _).bind fun _ _ => .ok _

theorem parseWithin_failsWith (depth : Nat) (cs : List CodePoint) :
    FailsWith (· ≠ Malformed.notText) (parseWithin depth cs) := by
  induction depth generalizing cs with
  | zero => exact .error (by simp)
  | succ depth ih =>
    refine (shape_failsWith cs).bind fun shape _ => ?_
    cases shape with
    | leaf name => exact .ok _
    | applied head inner =>
      refine (splitArgs_failsWith 0 inner).bind fun pieces _ => ?_
      exact (FailsWith.mapM fun piece _ => ih piece).bind fun params _ => .ok _

end TypeExpr

/-! ### Reading what has the right shape -/

namespace Declaration

open Definition (fieldsOf itemsOf paramNames)
open Definition.Shape

variable {names : List Value} {type : Text} {seen : List Text} {v : Value}

theorem readName_failsWith (hv : NameLike v) (hmem : v ∈ names) :
    FailsWith (DefinitionFault.Remains names) (readName v) := by
  obtain ⟨s, rfl, hs, hstar⟩ := hv
  intro fault hfault
  simp only [readName, if_neg hstar] at hfault
  split at hfault
  · next hname =>
    obtain rfl := Except.error.inj hfault
    exact .inr ⟨s, hs.resolve_left (by simpa using hname), hmem, .inl rfl⟩
  · cases hfault

theorem readParamName_failsWith (hv : NameLike v) (hmem : v ∈ names) :
    FailsWith (DefinitionFault.Remains names) (readParamName type seen v) := by
  obtain ⟨s, rfl, hs, hstar⟩ := hv
  have hlower : Text.lower s ≠ TypeExpr.star := fun heq =>
    hstar (Text.lower_eq_singleton (by decide) heq)
  intro fault hfault
  simp only [readParamName, if_neg hlower] at hfault
  split at hfault
  · next hname =>
    obtain rfl := Except.error.inj hfault
    exact .inr ⟨s, hs.resolve_left (by simpa using hname), hmem, .inr ⟨type, rfl⟩⟩
  · split at hfault
    · obtain rfl := Except.error.inj hfault
      exact .inl rfl
    · cases hfault

theorem readParam_failsWith (hv : ParamLike v)
    (hmem : ∀ n, Value.field? (fieldsOf v) "name" = some n → n ∈ names) :
    FailsWith (DefinitionFault.Remains names) (readParam type seen v) := by
  obtain ⟨fields, n, -, rfl, hn, hname, hu, s, rfl, hs⟩ := hv
  have hnameField : Value.field fields "name" = n := by rw [Value.field, hn, Option.getD_some]
  have hvarianceField : Value.field fields "variance" = .text s := by
    rw [Value.field, hu, Option.getD_some]
  obtain ⟨variance, hvariance⟩ := Variance.ofText?_of_fitsVariance hs
  rw [readParam, hnameField, hvarianceField]
  refine (readParamName_failsWith hname (hmem n hn)).bind fun name _ => ?_
  rw [show readVariance (.text s) (some type) (some name) = .ok variance by
    simp [readVariance, Variance.ofValue?, hvariance]]
  exact .ok _

theorem readParamItems_failsWith {items : List Value} (hitems : ∀ item ∈ items, ParamLike item)
    (hmem : ∀ item ∈ items, ∀ n, Value.field? (fieldsOf item) "name" = some n → n ∈ names) :
    FailsWith (DefinitionFault.Remains names) (readParamItems type seen items) := by
  induction items generalizing seen with
  | nil => exact .ok []
  | cons item items ih =>
    obtain ⟨hitem, hitems⟩ := List.forall_mem_cons.mp hitems
    obtain ⟨hfirst, hmem⟩ := List.forall_mem_cons.mp hmem
    refine (readParam_failsWith hitem hfirst).bind fun p _ => ?_
    exact (ih hitems hmem).bind fun ps _ => .ok _

theorem readParent_failsWith (hv : ParentLike v) :
    FailsWith (DefinitionFault.Remains names) (readParent type v) := by
  obtain ⟨s, rfl, hs⟩ := hv
  intro fault hfault
  simp only [readParent, TypeExpr.ofValue, TypeExpr.parse] at hfault
  cases hparse : TypeExpr.parseWithin (s.length + 1) s.toList with
  | ok t => simp [hparse] at hfault
  | error cause =>
    rw [hparse] at hfault
    obtain rfl := Except.error.inj hfault
    have hcause : cause ≠ .notText := TypeExpr.parseWithin_failsWith _ _ cause hparse
    left
    simp [DefinitionFault.isBeyondShape, hs, hcause]

theorem readBody_of_bodyLike (hv : BodyLike v) : readBody type v = .ok (fieldsOf v) := by
  obtain ⟨rfl | ⟨fields, rfl⟩, -⟩ := hv
  · rfl
  · rfl

theorem readItems_of_listLike {P : Value → Prop} (hv : ListLike P v) (fault : DefinitionFault) :
    readItems fault v = .ok (itemsOf v) := by
  obtain ⟨rfl | ⟨items, rfl⟩, -⟩ := hv
  · rfl
  · rfl

theorem read_failsWith (hv : BodyLike v) (hmem : ∀ n ∈ paramNames v, n ∈ names) :
    FailsWith (DefinitionFault.Remains names) (read type v) := by
  obtain ⟨-, hparams, hparents⟩ := id hv
  rw [read, readBody_of_bodyLike hv, ok_bind, readItems_of_listLike hparams, ok_bind]
  refine (readParamItems_failsWith hparams.2 fun item hitem n hn => ?_).bind fun params _ => ?_
  · exact hmem n (List.mem_filterMap.mpr ⟨item, hitem, hn⟩)
  · rw [readItems_of_listLike hparents, ok_bind]
    refine (FailsWith.mapM fun parent hparent => ?_).bind fun parents _ => .ok _
    exact readParent_failsWith (hparents.2 parent hparent)

theorem readEntries_failsWith {entries : List (Value × Value)}
    (hentries : ∀ entry ∈ entries, NameLike entry.1 ∧ BodyLike entry.2)
    (hmem : ∀ entry ∈ entries, entry.1 ∈ names ∧ ∀ n ∈ paramNames entry.2, n ∈ names) :
    FailsWith (DefinitionFault.Remains names) (readEntries seen entries) := by
  induction entries generalizing seen with
  | nil => exact .ok []
  | cons entry entries ih =>
    obtain ⟨key, v⟩ := entry
    obtain ⟨⟨hkey, hbody⟩, hentries⟩ := List.forall_mem_cons.mp hentries
    obtain ⟨⟨hkeyMem, hbodyMem⟩, hmem⟩ := List.forall_mem_cons.mp hmem
    refine (readName_failsWith hkey hkeyMem).bind fun name _ => ?_
    split
    · exact .error (.inl rfl)
    · refine (read_failsWith hbody hbodyMem).bind fun d _ => ?_
      exact (ih hentries hmem).bind fun ds _ => .ok _

/-! ### Names that were read -/

theorem exists_of_readName {name : Text} (h : readName v = .ok name) :
    ∃ s, v = .text s ∧ TypeExpr.isNameText s = true := by
  cases v with
  | text s =>
    refine ⟨s, rfl, ?_⟩
    by_contra hno
    simp [readName, Bool.not_eq_true _ ▸ hno] at h
  | _ => simp [readName] at h

theorem exists_of_readParamName {name : Text} (h : readParamName type seen v = .ok name) :
    ∃ s, v = .text s ∧ TypeExpr.isNameText s = true := by
  cases v with
  | text s =>
    refine ⟨s, rfl, ?_⟩
    by_contra hno
    simp [readParamName, Bool.not_eq_true _ ▸ hno] at h
  | _ => simp [readParamName] at h

theorem exists_of_readParam {p : Param} (h : readParam type seen v = .ok p) {n : Value}
    (hn : Value.field? (fieldsOf v) "name" = some n) :
    ∃ s, n = .text s ∧ TypeExpr.isNameText s = true := by
  cases v with
  | object fields =>
    obtain ⟨name, hname, -⟩ := bind_eq_ok.mp h
    rw [Value.field, show Value.field? fields "name" = some n from hn] at hname
    exact exists_of_readParamName hname
  | _ => simp [readParam] at h

theorem exists_of_readParamItems {items : List Value} {params : List Param}
    (h : readParamItems type seen items = .ok params) {item : Value} (hitem : item ∈ items) :
    ∃ seen p, readParam type seen item = .ok p := by
  induction items generalizing seen params with
  | nil => exact absurd hitem List.not_mem_nil
  | cons first items ih =>
    obtain ⟨p, hp, hrest⟩ := bind_eq_ok.mp h
    obtain ⟨ps, hps, -⟩ := bind_eq_ok.mp hrest
    rcases List.mem_cons.mp hitem with rfl | hitem
    · exact ⟨seen, p, hp⟩
    · exact ih hps hitem

theorem eq_fieldsOf_of_readBody {fields : List (Text × Value)}
    (h : readBody type v = .ok fields) : fields = fieldsOf v := by
  cases v with
  | object fs => exact (Except.ok.inj h).symm
  | _ =>
    simp only [readBody] at h
    split at h
    · exact (Except.ok.inj h).symm
    · cases h

theorem eq_itemsOf_of_readItems {fault : DefinitionFault} {items : List Value}
    (h : readItems fault v = .ok items) : items = itemsOf v := by
  cases v with
  | list vs => exact (Except.ok.inj h).symm
  | _ =>
    simp only [readItems] at h
    split at h
    · exact (Except.ok.inj h).symm
    · cases h

/-- Only names are read as names, whatever the shape of the rest. -/
theorem exists_of_read {d : Declaration} (h : read type v = .ok d) {n : Value}
    (hn : n ∈ paramNames v) : ∃ s, n = .text s ∧ TypeExpr.isNameText s = true := by
  simp only [read, bind_eq_ok] at h
  obtain ⟨fields, hfields, items, hitems, params, hparams, -⟩ := h
  obtain rfl := eq_fieldsOf_of_readBody hfields
  obtain rfl := eq_itemsOf_of_readItems hitems
  obtain ⟨item, hitem, hname⟩ := List.mem_filterMap.mp hn
  obtain ⟨seen, p, hp⟩ := exists_of_readParamItems hparams hitem
  exact exists_of_readParam hp hname

/-! ### Linking what was read -/

variable {decls : List Declaration}

mutual

theorem argument_failsWith (d : Declaration) (parent : TypeExpr) :
    ∀ t, FailsWith (·.isBeyondShape = true) (argument decls d parent t)
  | ⟨name, params⟩ => by
    rw [argument]
    split
    · split
      · exact .ok _
      · exact .error rfl
    · split
      · exact .error rfl
      · split
        · exact .error rfl
        · exact (arguments_failsWith d parent params).bind fun args _ => .ok _

theorem arguments_failsWith (d : Declaration) (parent : TypeExpr) :
    ∀ ts, FailsWith (·.isBeyondShape = true) (arguments decls d parent ts)
  | [] => .ok []
  | p :: ps => (argument_failsWith d parent p).bind fun _ _ =>
    (arguments_failsWith d parent ps).bind fun _ _ => .ok _

end

theorem edge_failsWith (d : Declaration) (parent : TypeExpr) :
    FailsWith (·.isBeyondShape = true) (edge decls d parent) := by
  rw [edge]
  split
  · exact .error rfl
  · split
    · exact .error rfl
    · exact (arguments_failsWith d parent parent.params).bind fun args _ => .ok _

end Declaration

namespace Hierarchy

open Definition (givenNames)

theorem visit_failsWith (heads : Text → List Text) (fuel : Nat) (path done : List Text)
    (name : Text) : FailsWith (·.isBeyondShape = true) (visit heads fuel path done name) := by
  induction fuel generalizing path done name with
  | zero =>
    rw [visit]
    split
    · exact .ok done
    · split <;> exact .error rfl
  | succ fuel ih =>
    rw [visit]
    split
    · exact .ok done
    · split
      · exact .error rfl
      · exact (FailsWith.foldlM (fun parent _ done => ih _ done parent) done).bind fun _ _ => .ok _

/-- Declarations that do not link have a fault that shape has no part in. -/
theorem ofDeclarations_failsWith (decls : List Declaration) :
    FailsWith (·.isBeyondShape = true) (ofDeclarations decls) := by
  have hedges (d : Declaration) : FailsWith (·.isBeyondShape = true) (d.edges decls) :=
    .mapM fun parent _ => Declaration.edge_failsWith d parent
  refine (FailsWith.mapM fun d _ => (hedges d).bind fun edges _ => .ok _).bind fun edges _ => ?_
  exact (FailsWith.foldlM (fun name _ done => visit_failsWith _ _ _ done name) []).bind
    fun order _ => .ok _

/-- All names given in a definition that is built are names. -/
theorem isNameText_of_ofDefinition {d : Definition} {h : Hierarchy}
    (hrun : ofDefinition d = .ok h) {n : Value} (hn : n ∈ d.givenNames) :
    ∃ s, n = .text s ∧ TypeExpr.isNameText s = true := by
  obtain ⟨entries, decls, rfl, hdecls, -⟩ := exists_of_ofDefinition hrun
  have hreads := (Declaration.readEntries_iff.mp hdecls).1
  have hread (entry : Value × Value) (hentry : entry ∈ entries) :
      ∃ d, Declaration.Reads entry d := by
    obtain ⟨i, hi, rfl⟩ := List.mem_iff_getElem.mp hentry
    have hi' : i < decls.length := hreads.length_eq ▸ hi
    exact ⟨decls[i], hreads.get hi hi'⟩
  rcases List.mem_append.mp hn with hn | hn
  · obtain ⟨entry, hentry, rfl⟩ := List.mem_map.mp hn
    obtain ⟨d, name, hname, -⟩ := hread entry hentry
    exact Declaration.exists_of_readName hname
  · obtain ⟨entry, hentry, hn⟩ := List.mem_flatMap.mp hn
    obtain ⟨d, name, -, hd⟩ := hread entry hentry
    exact Declaration.exists_of_read hd hn

theorem ofDefinition_failsWith {d : Definition} (hshape : d.violations = []) :
    FailsWith (DefinitionFault.Remains d.givenNames) (ofDefinition d) := by
  obtain ⟨entries, rfl, hentries⟩ := Definition.Shape.exists_of_violations hshape
  have hread : FailsWith (DefinitionFault.Remains (givenNames (.mapping entries)))
      (Declaration.readEntries [] entries) := by
    apply Declaration.readEntries_failsWith hentries
    intro entry hentry
    refine ⟨List.mem_append_left _ (List.mem_map_of_mem hentry), fun n hn => ?_⟩
    exact List.mem_append_right _ (List.mem_flatMap.mpr ⟨entry, hentry, hn⟩)
  exact hread.bind fun decls _ fault hfault => .inl (ofDeclarations_failsWith decls fault hfault)

/-- A definition without violations fails to build only for reasons that its shape has no part in,
or because a name in it has a line break after it. Without such a name only the former are left, and
with one it never builds. -/
theorem shaped_definition_faults (d : Definition) (hshape : d.violations = []) :
    (∀ fault, ofDefinition d = .error fault → fault.isBeyondShape = true ∨
      ∃ s : Text, s.EndsInBreak ∧ .text s ∈ d.givenNames ∧
        (fault = .badTypeName (.text s) ∨ ∃ type, fault = .badParamName type (.text s))) ∧
    ((∀ s : Text, .text s ∈ d.givenNames → ¬s.EndsInBreak) →
      ∀ fault, ofDefinition d = .error fault → fault.isBeyondShape = true) ∧
    ∀ s : Text, .text s ∈ d.givenNames → s.EndsInBreak →
      ∃ fault, ofDefinition d = .error fault := by
  refine ⟨ofDefinition_failsWith hshape, fun hnone fault hfault => ?_, fun s hmem hs => ?_⟩
  · rcases ofDefinition_failsWith hshape fault hfault with hbeyond | ⟨s, hs, hmem, -⟩
    · exact hbeyond
    · exact absurd hs (hnone s hmem)
  · cases hrun : ofDefinition d with
    | error fault => exact ⟨fault, rfl⟩
    | ok h =>
      obtain ⟨s', heq, hname⟩ := isNameText_of_ofDefinition hrun hmem
      obtain rfl := Value.text.inj heq
      rw [hs.not_isNameText] at hname
      cases hname

/-- A type with one parameter, which fulfills a type that is not there. -/
def boxed (param : Text) : Definition :=
  .mapping [(.text "Box", .object [
    ("params", .list [.object [("name", .text param), ("variance", .text "COVARIANT")]]),
    ("fulfills", .list [.text "cage[x]"])])]

/-- The missing parent is found where the parameter has a name, and otherwise the name is at
fault. -/
theorem boxed_faults :
    ((boxed "X").violations = [] ∧
      ∃ fault, ofDefinition (boxed "X") = .error fault ∧ fault.isBeyondShape = true) ∧
    (boxed "X\n").violations = [] ∧ ∃ fault, ofDefinition (boxed "X\n") = .error fault := by
  have hshape : (boxed "X").violations = [] := List.isEmpty_iff.mp (by decide +kernel)
  have hbreak : (boxed "X\n").violations = [] := List.isEmpty_iff.mp (by decide +kernel)
  refine ⟨⟨hshape, ?_⟩, hbreak, ?_⟩
  · have hfault : ofDefinition (boxed "X") = .error (.undefinedParent "box" "cage") := rfl
    refine ⟨_, hfault, (shaped_definition_faults _ hshape).2.1 (fun s hmem hs => ?_) _ hfault⟩
    have hname : TypeExpr.isNameText s = true := by
      rcases List.mem_pair.mp hmem with heq | heq
      all_goals
        obtain rfl := Value.text.inj heq
        decide
    rw [hs.not_isNameText] at hname
    cases hname
  · exact (shaped_definition_faults _ hbreak).2.2 "X\n" (List.mem_pair.mpr (.inr rfl))
      ⟨[CodePoint.char 'X'], by decide, rfl⟩

/-- A name with a line break after it has the right shape, and is refused all the same. -/
theorem line_break_slips :
    (Definition.mapping [(.text "dog\n", .object [])]).violations = [] ∧
      ∃ fault, ofDefinition (.mapping [(.text "dog\n", .object [])]) = .error fault ∧
        fault = .badTypeName (.text "dog\n") ∧ fault.isBeyondShape = false :=
  ⟨List.isEmpty_iff.mp (by decide +kernel), _, rfl, rfl, rfl⟩

end Hierarchy

end TypedBlocks
