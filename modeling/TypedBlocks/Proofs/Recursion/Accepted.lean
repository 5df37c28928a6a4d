import TypedBlocks.Hierarchy.Query
import TypedBlocks.Proofs.Recursion.Delivers
import TypedBlocks.Proofs.Recursion.Ends

/-! What can go wrong once the arguments of a question are accepted. Ancestors are written in
declared names over the slots of their owner, so all types that a question comes to are known, and
no fault is met on the way. What is left is a question whose nested questions go too deep, and they
do if types lead back to themselves. -/
namespace TypedBlocks

def Call.depth (call : Call) : Nat :=
  Hierarchy.allowance + TypeExpr.sizeAll call.types

namespace Hierarchy

variable {h : Hierarchy}

/-! ### Templates -/

theorem Shaped.namesIn (hl : h.Linked) {n : Nat} {t : Template} (ht : h.Shaped n t) :
    t.NamesIn (· ≠ TypeExpr.star) := by
  induction ht with
  | slot _ => exact .slot
  | app he _ _ ih => exact .app (hl.name_ne_star he) ih

theorem Linked.templates_shaped (hl : h.Linked) {e : Entry} (he : e ∈ h.entries)
    {row : Text × List Template} (hrow : row ∈ e.templates) {t : Template} (ht : t ∈ row.2) :
    h.Shaped e.arity t := by
  obtain ⟨name, -, rfl⟩ := List.mem_map.mp hrow
  obtain ⟨path, hpath, rfl⟩ := List.mem_map.mp ht
  obtain ⟨⟨target, htarget, rfl, hlen⟩, hshaped⟩ := hl.path_shaped ((hl.mem_paths he).mp hpath)
  exact .app htarget hlen hshaped

/-- A known type other than the wildcard has known views as each of its ancestors. -/
theorem Linked.allParamsFor_valid (hl : h.Linked) {t : TypeExpr} (ht : h.Valid t)
    (hstar : t ≠ .wildcard) (ancestor : Text) :
    ∃ rows, h.allParamsFor t ancestor = .ok rows ∧ ∀ row ∈ rows, h.Valid ⟨ancestor, row⟩ := by
  cases ht with
  | wildcard => exact absurd rfl hstar
  | @app e he as hlen has =>
    refine ⟨_, hl.allParamsFor_eq he as ancestor, fun row hrow => ?_⟩
    obtain ⟨path, hpath, rfl⟩ := List.mem_map.mp hrow
    have hpath := (hl.mem_paths he).mp hpath
    obtain ⟨⟨target, htarget, rfl, -⟩, -⟩ := hl.path_shaped hpath
    exact hl.view_valid hpath htarget (.app he hlen has)

/-! ### Questions that go too deep -/

/-- Calls are nested in the call, each in the one before, down to the given depth. -/
def NestedTo (h : Hierarchy) : Nat → Call → Prop
  | 0, _ => True
  | depth + 1, call => ∃ inner, h.Nests call inner ∧ NestedTo h depth inner

/-- The calls nested in a question from outside go on down to the depth that is allowed. -/
def TooDeep (h : Hierarchy) (call : Call) : Prop :=
  h.NestedTo call.depth call

/-- A step without faults lacks an answer only if one of the questions it puts does. -/
theorem Linked.exists_unanswered (hl : h.Linked) {α : Type} {P : α → Prop} {depth : Nat}
    {x : Inquiry α} (hx : x.Meets h.Known h.KnownAnswer P)
    (hrun : x.eval (h.answerWithin depth) = .error .unending) :
    ∃ inner, x.Puts h.Answers inner ∧ h.Known inner ∧
      h.answerWithin depth inner = .error .unending := by
  induction x with
  | done result =>
    cases result with
    | ok a => cases hrun
    | error => exact hx.elim
  | ask call next ih =>
    have hdelivers := hl.answerWithin_delivers hx.1 depth
    generalize hanswer : h.answerWithin depth call = outcome at hdelivers
    cases hdelivers with
    | unending => exact ⟨call, .here, hx.1, hanswer⟩
    | @result a ha =>
      rw [Inquiry.eval, hanswer, ok_bind] at hrun
      obtain ⟨inner, hput, hinner⟩ := ih a (hx.2 a ha) hrun
      exact ⟨inner, .later ⟨depth, hanswer⟩ hput, hinner⟩

/-- There is no answer at some depth exactly if nested calls go down that far. -/
theorem Linked.answerWithin_unending_iff (hl : h.Linked) {call : Call} (hcall : h.Known call)
    (depth : Nat) :
    h.answerWithin depth call = .error .unending ↔ h.NestedTo depth call := by
  induction depth generalizing call with
  | zero => simp [answerWithin_zero, NestedTo]
  | succ depth ih =>
    have hmeets := hl.inquire_known call hcall
    constructor
    · intro hrun
      rw [answerWithin_succ] at hrun
      obtain ⟨inner, hput, hknown, hinner⟩ := hl.exists_unanswered hmeets hrun
      exact ⟨inner, hput, (ih hknown).mp hinner⟩
    · rintro ⟨inner, hnests, hnested⟩
      have hknown : h.Known inner :=
        hmeets.puts (fun _ _ hinner ha => answers_of_step hl.inquire_known hinner ha) hnests
      have hinner := (ih hknown).mpr hnested
      have hdelivers := hl.answerWithin_delivers hcall (depth + 1)
      generalize hrun : h.answerWithin (depth + 1) call = outcome at hdelivers
      cases hdelivers with
      | unending => rfl
      | result =>
        rw [answerWithin_succ] at hrun
        obtain ⟨a, ha⟩ := answered_of_eval hrun hnests
        rw [hinner] at ha
        cases ha

theorem answer_eq (call : Call) : h.answer call = h.answerWithin call.depth call := by
  cases call with
  | subtype a b =>
    simp only [answer, isSubtype, answerWithin, Call.depth, Call.types, TypeExpr.sizeAll,
      Nat.add_assoc, Nat.add_zero]
  | ancestors types => rfl
  | descendants types => rfl

/-- There is a good answer, unless the calls nested in the question go too deep for one. -/
structure Concludes {α : Type} (h : Hierarchy) (call : Call) (P : α → Prop)
    (outcome : Except Fault α) : Prop where
  result : ¬h.TooDeep call → ∃ a, outcome = .ok a ∧ P a
  unending : h.TooDeep call → outcome = .error .unending

theorem Linked.answer_concludes (hl : h.Linked) {call : Call} (hcall : h.Known call) :
    h.Concludes call (h.KnownAnswer call) (h.answer call) := by
  have hdelivers := hl.answerWithin_delivers hcall call.depth
  have hunending := hl.answerWithin_unending_iff hcall call.depth
  rw [answer_eq]
  refine ⟨fun hshallow => ?_, hunending.mpr⟩
  generalize hrun : h.answerWithin call.depth call = outcome at hdelivers
  cases hdelivers with
  | unending => exact absurd (hunending.mp hrun) hshallow
  | result ha => exact ⟨_, rfl, ha⟩

/-- A question that ends at no depth goes too deep. -/
theorem Linked.tooDeep_of_not_ends (hl : h.Linked) {call : Call} (hcall : h.Known call)
    (hnever : ¬h.Ends call) : h.TooDeep call := by
  by_contra hshallow
  obtain ⟨a, ha, -⟩ := (hl.answer_concludes hcall).result hshallow
  exact hnever ⟨call.depth, a, answer_eq call ▸ ha⟩

/-! ### Arguments from outside -/

theorem Linked.accept_valid (hl : h.Linked) {arg : TypeArg} {t : TypeExpr}
    (haccept : h.accept arg = .ok t) : h.Valid t := by
  obtain ⟨u, -, haccept⟩ := bind_eq_ok.mp haccept
  obtain ⟨_, hvalid, hpure⟩ := bind_eq_ok.mp haccept
  obtain rfl := pure_eq_ok.mp hpure
  exact hl.validate_eq_ok.mp hvalid

theorem Linked.accept_all_valid (hl : h.Linked) {args : List TypeArg} {types : List TypeExpr}
    (haccept : args.mapM h.accept = .ok types) : ∀ t ∈ types, h.Valid t := by
  intro t ht
  obtain ⟨arg, -, harg⟩ := exists_of_mapM haccept ht
  exact hl.accept_valid harg

theorem Linked.fulfills_concludes (hl : h.Linked) {sub sup : TypeArg} {a b : TypeExpr}
    (hsub : h.accept sub = .ok a) (hsup : h.accept sup = .ok b) :
    h.Concludes (.subtype a b) (fun _ => True) (h.fulfills sub sup) := by
  rw [fulfills, hsub, ok_bind, hsup, ok_bind]
  exact hl.answer_concludes (known_subtype (hl.accept_valid hsub) (hl.accept_valid hsup))

/-- A search over arguments that are accepted concludes as it does over known types. -/
theorem Linked.accepted_concludes (hl : h.Linked) {args : List TypeArg} {types : List TypeExpr}
    (hargs : args.mapM h.accept = .ok types) {α : Type} {call : List TypeExpr → Call}
    {P : α → Prop} {search : List TypeExpr → Except Fault α}
    (hsearch : ∀ types, (∀ t ∈ types, h.Valid t) → h.Concludes (call types) P (search types)) :
    h.Concludes (call types) P (args.mapM h.accept >>= search) := by
  rw [hargs, ok_bind]
  exact hsearch types (hl.accept_all_valid hargs)

theorem Linked.nearestAncestors_concludes (hl : h.Linked) {args : List TypeArg}
    {types : List TypeExpr} (hargs : args.mapM h.accept = .ok types) :
    h.Concludes (.ancestors types) (fun found => ∀ u ∈ found, h.Valid u)
      (h.nearestAncestors args) :=
  hl.accepted_concludes hargs fun _ hknown => hl.answer_concludes hknown

theorem Linked.nearestDescendants_concludes (hl : h.Linked) {args : List TypeArg}
    {types : List TypeExpr} (hargs : args.mapM h.accept = .ok types) :
    h.Concludes (.descendants types) (fun found => ∀ u ∈ found, h.Valid u)
      (h.nearestDescendants args) :=
  hl.accepted_concludes hargs fun _ hknown => hl.answer_concludes hknown

/-- In every accepted hierarchy the templates of a type and its ancestors are made of declared names
applied to as many arguments as they take, and of slots of their owner; the wildcard's name is not
among them. So a known type other than the wildcard is seen as known types, and the wildcard, which
is not declared, is refused. A comparison or a search raises what an argument raises when it is read
or validated. Once all arguments are accepted there is a result, for a search one of known types,
unless questions are nested in the question down to the depth allowed; and that never happens to a
comparison where no parameter is contravariant. -/
theorem raises_only_on_arguments {definition : Definition} {h : Hierarchy}
    (hdef : ofDefinition definition = .ok h) :
    (∀ e ∈ h.entries, ∀ row ∈ e.templates, ∀ t ∈ row.2,
      h.Shaped e.arity t ∧ t.NamesIn (· ≠ TypeExpr.star)) ∧
    (∀ ancestor,
      (∀ t, h.validate t = .ok () → t ≠ .wildcard → ∃ rows,
        h.allParamsFor t ancestor = .ok rows ∧
        ∀ row ∈ rows, h.validate ⟨ancestor, row⟩ = .ok ()) ∧
      h.allParamsFor .wildcard ancestor = .error (.type (.undefined TypeExpr.star))) ∧
    (∀ sub sup,
      (∀ fault, h.accept sub = .error fault → h.fulfills sub sup = .error fault) ∧
      ∀ a, h.accept sub = .ok a →
        (∀ fault, h.accept sup = .error fault → h.fulfills sub sup = .error fault) ∧
        ∀ b, h.accept sup = .ok b →
          h.Concludes (.subtype a b) (fun _ => True) (h.fulfills sub sup)) ∧
    (∀ args,
      (∀ fault, args.mapM h.accept = .error fault →
        h.nearestAncestors args = .error fault ∧ h.nearestDescendants args = .error fault) ∧
      ∀ types, args.mapM h.accept = .ok types →
        h.Concludes (.ancestors types) (fun found => ∀ u ∈ found, h.validate u = .ok ())
          (h.nearestAncestors args) ∧
        h.Concludes (.descendants types) (fun found => ∀ u ∈ found, h.validate u = .ok ())
          (h.nearestDescendants args)) ∧
    (¬h.HasContra → ∀ a b, h.validate a = .ok () → h.validate b = .ok () →
      ¬h.TooDeep (.subtype a b)) := by
  have hl := ofDefinition_linked hdef
  simp only [hl.validate_eq_ok]
  refine ⟨fun e he row hrow t ht => ?_, fun ancestor => ⟨fun t ht hstar => ?_, ?_⟩,
    fun sub sup => ⟨fun fault hsub => ?_, fun a hsub => ⟨fun fault hsup => ?_, fun b hsup => ?_⟩⟩,
    fun args => ⟨fun fault hargs => ?_, fun types hargs => ?_⟩, fun hcontra a b ha hb hdeep => ?_⟩
  · have hshaped := hl.templates_shaped he hrow ht
    exact ⟨hshaped, hshaped.namesIn hl⟩
  · exact hl.allParamsFor_valid ht hstar ancestor
  · have hnone : h.find? TypeExpr.star = none := by
      rw [find?, List.find?_eq_none]
      exact fun e he => by simpa using hl.name_ne_star he
    simp [allParamsFor, get, hnone, TypeExpr.wildcard]
  · rw [fulfills, hsub, error_bind]
  · rw [fulfills, hsub, ok_bind, hsup, error_bind]
  · exact hl.fulfills_concludes hsub hsup
  · rw [nearestAncestors, nearestDescendants, hargs, error_bind, error_bind]
    exact ⟨rfl, rfl⟩
  · exact ⟨hl.nearestAncestors_concludes hargs, hl.nearestDescendants_concludes hargs⟩
  · obtain ⟨answer, hok⟩ := hl.isSubtype_ok hcontra ha hb
    have hunending := (hl.answer_concludes (known_subtype ha hb)).unending hdeep
    cases hok.symm.trans hunending

def textArg (text : Text) : TypeArg :=
  .value (.text text)

/-- Boxes are contravariant, and still a search about kennels gives known types; a box without its
parameter is refused. -/
theorem kennel_raises_only_on_arguments :
    ofDefinition kennelDefinition = .ok kennelHierarchy ∧
    ¬kennelHierarchy.TooDeep (.ancestors [⟨"kennel", []⟩, ⟨"box", [⟨"box", [⟨"animal", []⟩]⟩]⟩]) ∧
    (∃ found, kennelHierarchy.nearestAncestors [textArg "Kennel", textArg "box[box[animal]]"] =
      .ok found ∧ ∀ u ∈ found, kennelHierarchy.validate u = .ok ()) ∧
    ∃ fault, kennelHierarchy.accept (textArg "box") = .error fault ∧
      kennelHierarchy.fulfills (textArg "box") (textArg "kennel") = .error fault := by
  obtain ⟨-, -, hcompare, hsearch, -⟩ := raises_only_on_arguments kennel_accepted
  have hargs : [textArg "Kennel", textArg "box[box[animal]]"].mapM kennelHierarchy.accept =
      .ok [⟨"kennel", []⟩, ⟨"box", [⟨"box", [⟨"animal", []⟩]⟩]⟩] :=
    eq_ok_of_toOption (by decide +kernel)
  have hfound : (kennelHierarchy.nearestAncestors
      [textArg "Kennel", textArg "box[box[animal]]"]).toOption.isSome := by decide +kernel
  have hconcludes := ((hsearch _).2 _ hargs).1
  have hshallow : ¬kennelHierarchy.TooDeep
      (.ancestors [⟨"kennel", []⟩, ⟨"box", [⟨"box", [⟨"animal", []⟩]⟩]⟩]) := by
    intro hdeep
    rw [hconcludes.unending hdeep] at hfound
    cases hfound
  have hrefused : (kennelHierarchy.accept (textArg "box")).mapError (fun _ => ()) = .error () := by
    decide +kernel
  obtain ⟨fault, hfault, -⟩ := exists_of_mapError hrefused
  exact ⟨kennel_accepted, hshallow, hconcludes.result hshallow, fault, hfault,
    (hcompare _ _).1 fault hfault⟩

/-- All arguments are accepted, and the comparison and both searches do not end: each comes back to
the question it started from. -/
theorem loop_raises_afterwards :
    ofDefinition loopDefinition = .ok loopHierarchy ∧
    (∀ text ∈ (["loop", "twin", "sink[loop]", "sink[twin]"] : List Text),
      ∃ t, loopHierarchy.accept (textArg text) = .ok t) ∧
    loopHierarchy.fulfills (textArg "loop") (textArg "sink[loop]") = .error .unending ∧
    loopHierarchy.nearestAncestors [textArg "loop", textArg "twin"] = .error .unending ∧
    loopHierarchy.nearestDescendants [textArg "sink[loop]", textArg "sink[twin]"] =
      .error .unending := by
  have hl := ofDefinition_linked loop_accepted
  have hself : loopHierarchy.Nests (.subtype ⟨"loop", []⟩ ⟨"sink", [⟨"loop", []⟩]⟩)
      (.subtype ⟨"loop", []⟩ ⟨"sink", [⟨"loop", []⟩]⟩) := Inquiry.Puts.here
  have hdown : loopHierarchy.Nests (.ancestors [⟨"loop", []⟩, ⟨"twin", []⟩])
      (.descendants [⟨"sink", [⟨"loop", []⟩]⟩, ⟨"sink", [⟨"twin", []⟩]⟩]) := Inquiry.Puts.here
  have hup : loopHierarchy.Nests
      (.descendants [⟨"sink", [⟨"loop", []⟩]⟩, ⟨"sink", [⟨"twin", []⟩]⟩])
      (.ancestors [⟨"loop", []⟩, ⟨"twin", []⟩]) := Inquiry.Puts.here
  have haccept : ∀ text ∈ (["loop", "twin", "sink[loop]", "sink[twin]"] : List Text),
      (loopHierarchy.accept (textArg text)).toOption.isSome := by decide +kernel
  have hloop : loopHierarchy.accept (textArg "loop") = .ok ⟨"loop", []⟩ :=
    eq_ok_of_toOption (by decide +kernel)
  have hsink : loopHierarchy.accept (textArg "sink[loop]") = .ok ⟨"sink", [⟨"loop", []⟩]⟩ :=
    eq_ok_of_toOption (by decide +kernel)
  have htypes : [textArg "loop", textArg "twin"].mapM loopHierarchy.accept =
      .ok [⟨"loop", []⟩, ⟨"twin", []⟩] := eq_ok_of_toOption (by decide +kernel)
  have hsinks : [textArg "sink[loop]", textArg "sink[twin]"].mapM loopHierarchy.accept =
      .ok [⟨"sink", [⟨"loop", []⟩]⟩, ⟨"sink", [⟨"twin", []⟩]⟩] :=
    eq_ok_of_toOption (by decide +kernel)
  have hknown := known_subtype (hl.accept_valid hloop) (hl.accept_valid hsink)
  have hcompare := hl.tooDeep_of_not_ends hknown (not_ends_of_cycle (.single hself))
  have hsearch := hl.tooDeep_of_not_ends (hl.accept_all_valid htypes)
    (not_ends_of_cycle (.head hdown (.single hup)))
  have hsearch' := hl.tooDeep_of_not_ends (hl.accept_all_valid hsinks)
    (not_ends_of_cycle (.head hup (.single hdown)))
  refine ⟨loop_accepted, fun text htext => ?_,
    (hl.fulfills_concludes hloop hsink).unending hcompare,
    (hl.nearestAncestors_concludes htypes).unending hsearch,
    (hl.nearestDescendants_concludes hsinks).unending hsearch'⟩
  obtain ⟨t, ht⟩ := Option.isSome_iff_exists.mp (haccept text htext)
  exact ⟨t, eq_ok_of_toOption ht⟩

end Hierarchy

end TypedBlocks
