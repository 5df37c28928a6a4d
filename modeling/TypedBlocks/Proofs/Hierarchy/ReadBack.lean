import TypedBlocks.Proofs.Hierarchy.Routes
import TypedBlocks.Proofs.Nearest.ReadOff

/-! Parameters seen as those of an ancestor and read back. Matching a template against the type that
comes from filling it gives back the parameter of every slot that occurs in it, wherever the slot
stands and however often, except for wildcards, which say nothing. -/
namespace TypedBlocks

namespace Template

mutual

/-- The slots that occur in a template, once for each place where they stand. -/
def occurring : Template → List Nat
  | .slot i => [i]
  | .app _ args => occurringAll args

def occurringAll : List Template → List Nat
  | [] => []
  | t :: ts => occurring t ++ occurringAll ts

end

/-- Every slot of a type occurs in its own template. -/
theorem occurringAll_slots (arity : Nat) : occurringAll (slots arity) = List.range arity := by
  unfold slots
  induction List.range arity with
  | nil => rfl
  | cons i rest ih => simp [occurringAll, occurring, ih]

/-- The parameters at the given slots that are no wildcards. -/
def readBack (slots : List Nat) (params : List TypeExpr) : List (Option TypeExpr) :=
  params.mapIdx fun i a => if i ∈ slots ∧ a.isWildcard = false then some a else none

variable {seen : List Nat} {params : List TypeExpr} {i : Nat}

theorem getElem?_readBack (slots : List Nat) (params : List TypeExpr) (i : Nat) :
    (readBack slots params)[i]? =
      params[i]?.map fun a => if i ∈ slots ∧ a.isWildcard = false then some a else none := by
  rw [readBack, List.getElem?_mapIdx]

@[simp]
theorem readBack_nil (params : List TypeExpr) :
    readBack [] params = List.replicate params.length none := by
  simp [readBack, List.mapIdx_eq_replicate_iff]

/-- A slot that holds a wildcard adds nothing. -/
theorem readBack_append_wildcard {a : TypeExpr} (ha : params[i]? = some a)
    (hwild : a.isWildcard = true) : readBack (seen ++ [i]) params = readBack seen params := by
  refine List.ext_getElem? fun j => ?_
  rw [getElem?_readBack, getElem?_readBack]
  by_cases hj : j = i
  · simp [hj, ha, hwild]
  · simp [hj]

/-- Binding a slot adds its parameter, unless it has been added before. -/
theorem bindSlot_readBack {a : TypeExpr} (ha : params[i]? = some a)
    (hwild : a.isWildcard = false) :
    bindSlot (readBack seen params) i a = readBack (seen ++ [i]) params := by
  have hown : (readBack seen params)[i]? = some (if i ∈ seen then some a else none) := by
    simp [getElem?_readBack, ha, hwild]
  refine List.ext_getElem? fun j => ?_
  by_cases hij : i = j
  · subst hij
    have hadded : (readBack (seen ++ [i]) params)[i]? = some (some a) := by
      simp [getElem?_readBack, ha, hwild]
    rw [hadded]
    by_cases hseen : i ∈ seen
    · exact getElem?_bindSlot_of_bound (by rw [hown, if_pos hseen])
    · exact getElem?_bindSlot_self (by rw [hown, if_neg hseen]) a
  · rw [getElem?_bindSlot_of_ne hij, getElem?_readBack, getElem?_readBack]
    simp [Ne.symm hij]

theorem unfillAll_fill {ts : List Template}
    (hts : ∀ t ∈ ts, ∀ seen, unfill (readBack seen params) t (t.fill params) =
      readBack (seen ++ t.occurring) params) (seen : List Nat) :
    unfillAll (readBack seen params) ts (ts.map (fill params)) =
      readBack (seen ++ occurringAll ts) params := by
  induction ts generalizing seen with
  | nil => simp [unfillAll, occurringAll]
  | cons t ts ih =>
    obtain ⟨hfirst, hrest⟩ := List.forall_mem_cons.mp hts
    rw [List.map_cons, unfillAll, hfirst seen, ih hrest, occurringAll, List.append_assoc]

end Template

namespace Hierarchy

open Template (readBack occurringAll)

variable {h : Hierarchy} {e : Entry} {params : List TypeExpr}

/-- Matching a template against what it is when filled adds the slots that occur in it. -/
theorem Linked.unfill_fill (hl : h.Linked) {t : Template} (ht : h.Shaped params.length t)
    (seen : List Nat) : t.unfill (readBack seen params) (t.fill params) =
      readBack (seen ++ t.occurring) params := by
  induction ht generalizing seen with
  | @slot i hi =>
    have ha : params[i]? = some params[i] := List.getElem?_eq_getElem hi
    have hfill : (Template.slot i).fill params = params[i] := by simp [Template.fill, hi]
    rw [Template.unfill, hfill, Template.occurring]
    cases hwild : params[i].isWildcard with
    | true => exact (Template.readBack_append_wildcard ha hwild).symm
    | false => exact Template.bindSlot_readBack ha hwild
  | @app e he args hlen hargs ih =>
    rw [Template.fill, Template.fillAll_eq_map, Template.unfill, Template.occurring,
      hl.app_not_wildcard he, if_neg (by simp)]
    exact Template.unfillAll_fill ih seen

/-- Along a path to an ancestor and back, the parameters of the slots on the path are kept. -/
theorem Linked.unfillAll_path (hl : h.Linked) {ancestor : Text} {path : List Template}
    (hpath : h.Path e ancestor path) (hlen : params.length = e.arity) :
    Template.unfillAll (List.replicate e.arity none) path (path.map (Template.fill params)) =
      readBack (occurringAll path) params := by
  have hshaped := (hl.path_shaped hpath).2
  rw [← hlen] at hshaped ⊢
  simpa using Template.unfillAll_fill (fun t ht => hl.unfill_fill (hshaped t ht)) []

/-- Let a known type be seen as an instance of an ancestor, or of its own head. Reading the
parameters of that view back gives one entry for each parameter of the type: the parameter itself,
if its slot occurs in the first way to the ancestor and it is not the wildcard, and else nothing.
Both types may be given by their names in any case. -/
theorem params_read_back {definition : Definition} {h : Hierarchy}
    (hdef : ofDefinition definition = .ok h) {e : Entry} (he : e ∈ h.entries) {ancestor : Text}
    (hreach : e.reaches ancestor = true) {args : List TypeExpr}
    (hargs : h.validate ⟨e.name, args⟩ = .ok ()) :
    ∃ template view entries, e.template? ancestor = some template ∧
      h.paramsFor ⟨e.name, args⟩ ancestor = .ok (some view) ∧
      h.paramsBelow ancestor e.name view = .ok (some entries) ∧ entries.length = e.arity ∧
      (∀ (i : Nat) (a : TypeExpr), args[i]? = some a → entries[i]? =
        some (if i ∈ template.occurring ∧ a.isWildcard = false then some a else none)) ∧
      ∀ above below, Text.lower above = ancestor → Text.lower below = e.name →
        e.templateNamed (.text above) = .ok (some template) ∧
        h.paramsForNamed ⟨e.name, args⟩ (.text above) = .ok (some view) ∧
        h.paramsBelowNamed (.text above) (.text below) (some view) = .ok (some entries) := by
  have hl := ofDefinition_linked hdef
  rw [hl.validate_eq_ok] at hargs
  have hlen := ((hl.valid_app_iff he).mp hargs).1
  obtain ⟨path, hfirst, hpath⟩ := hl.first_of_below he ((hl.reaches_iff he).mp hreach)
  obtain ⟨above, habove, rfl⟩ := hl.below_declared (below_of_path hpath)
  have htemplate : e.template? above.name = some (.app above.name path) := by
    rw [Entry.template?, hfirst]
    rfl
  have hview : h.paramsFor ⟨e.name, args⟩ above.name = .ok (some (path.map (Template.fill args))) :=
    (hl.paramsFor_eq_some he).mpr ⟨path, hfirst, rfl⟩
  have hback : h.paramsBelow above.name e.name (path.map (Template.fill args)) =
      .ok (some (readBack (occurringAll path) args)) :=
    (hl.paramsBelow_eq_some he habove).mpr ⟨path, hfirst, (hl.unfillAll_path hpath hlen).symm⟩
  refine ⟨_, _, _, htemplate, hview, hback, by simpa [readBack] using hlen, fun i a ha => ?_,
    fun given given' hgiven hgiven' => ⟨?_, ?_, ?_⟩⟩
  · rw [Template.getElem?_readBack, ha, Template.occurring]
    rfl
  · rw [Entry.templateNamed, askNamed_text, hgiven, htemplate]
  · rw [paramsForNamed, hl.askAncestor_text he, hgiven, hview]
  · rw [paramsBelowNamed, hl.lookup_text habove hgiven, ok_bind, hl.lookup_text he hgiven', ok_bind]
    exact hback

/-- A crate is a box of a pair of its parameters, the other way round. Of its parameters the one
with a wildcard inside is read back, and the one that is a wildcard is not. -/
theorem crate_read_back_box :
    crateHierarchy.paramsFor ⟨"crate", [⟨"box", [.wildcard]⟩, .wildcard]⟩ "box" =
      .ok (some [⟨"pair", [.wildcard, ⟨"box", [.wildcard]⟩]⟩]) ∧
    crateHierarchy.paramsBelow "box" "crate" [⟨"pair", [.wildcard, ⟨"box", [.wildcard]⟩]⟩] =
      .ok (some [some ⟨"box", [.wildcard]⟩, none]) ∧
    crateHierarchy.paramsBelowNamed (.text "Box") (.text "CRATE")
      (some [⟨"pair", [.wildcard, ⟨"box", [.wildcard]⟩]⟩]) =
        .ok (some [some ⟨"box", [.wildcard]⟩, none]) := by
  obtain ⟨e, he, hname, harity, hreach, hfirst⟩ : ∃ e ∈ crateHierarchy.entries, e.name = "crate" ∧
      e.arity = 2 ∧ e.reaches "box" = true ∧
      e.template? "box" = some (.app "box" [.app "pair" [.slot 1, .slot 0]]) := by
    decide +kernel
  have hargs : crateHierarchy.validate ⟨"crate", [⟨"box", [.wildcard]⟩, .wildcard]⟩ = .ok () :=
    eq_ok_of_toOption (by decide +kernel)
  have hview : crateHierarchy.paramsFor ⟨"crate", [⟨"box", [.wildcard]⟩, .wildcard]⟩ "box" =
      .ok (some [⟨"pair", [.wildcard, ⟨"box", [.wildcard]⟩]⟩]) :=
    eq_ok_of_toOption (by decide +kernel)
  obtain ⟨template, view, entries, htemplate, hview', hback, hlen, hentries, hgiven⟩ :=
    params_read_back crate_accepted he hreach (hname.symm ▸ hargs)
  obtain rfl : view = _ := by simpa [hname, hview] using hview'.symm
  obtain rfl : template = _ := by simpa [hfirst] using htemplate.symm
  have hbox : Text.lower "Box" = "box" := by decide +kernel
  have hcrate : Text.lower "CRATE" = "crate" := by decide +kernel
  refine ⟨hview, ?_⟩
  obtain ⟨x, y, rfl⟩ := List.length_eq_two.mp (hlen.trans harity)
  obtain rfl : x = some ⟨"box", [.wildcard]⟩ := Option.some.inj (hentries 0 _ rfl)
  obtain rfl : y = none := Option.some.inj (hentries 1 _ rfl)
  exact ⟨hname ▸ hback, (hgiven "Box" "CRATE" hbox (hcrate.trans hname.symm)).2.2⟩

end Hierarchy

end TypedBlocks
