import TypedBlocks.Proofs.Recursion.Mention
import TypedBlocks.Proofs.Subtype.Decides

/-! Which calls of the recursion come to an end. All of them do where no type leads back to itself;
comparisons also do where no parameter is contravariant. Otherwise a call can be nested in
itself. -/
namespace TypedBlocks

namespace Call

/-- Comparisons come before searches, lower types before higher ones. -/
def measure (cost : Text → Nat) (call : Call) : Nat × Nat :=
  ((!call.compares).toNat, greatest (TypeExpr.height cost) call.types)

end Call

namespace Hierarchy

variable {h : Hierarchy}

theorem Costs.height_pos {cost : Text → Nat} (hcost : h.Costs cost) (t : TypeExpr) :
    0 < t.height cost := by
  obtain ⟨name, params⟩ := t
  rw [TypeExpr.height_mk]
  exact Nat.add_pos_left (hcost.pos name) _

/-- Nested calls are smaller than the calls they are nested in. -/
theorem Costs.within_lt {cost : Text → Nat} (hcost : h.Costs cost) (hl : h.Linked)
    {call call' : Call} (hwithin : h.Within call call') :
    Prod.Lex (· < ·) (· < ·) (call'.measure cost) (call.measure cost) := by
  have hlower {ts us : List TypeExpr} (hne : ts ≠ []) (hus : ∀ u ∈ us, ∃ t ∈ ts, h.Part t u) :
      greatest (TypeExpr.height cost) us < greatest (TypeExpr.height cost) ts := by
    apply greatest_lt hne fun t _ => hcost.height_pos t
    intro u hu
    obtain ⟨t, ht, hpart⟩ := hus u hu
    exact ⟨t, ht, hcost.part_lt hl hpart⟩
  cases hwithin with
  | @params a b x y _ _ hax hby =>
    have hx : ∃ t ∈ [a, b], h.Part t x := ⟨a, by simp, hax⟩
    have hy : ∃ t ∈ [a, b], h.Part t y := ⟨b, by simp, .inner hby y.self_mem_walk⟩
    refine .right _ (hlower (List.cons_ne_nil _ _) ?_)
    exact List.forall_mem_cons.mpr ⟨hx, List.forall_mem_singleton.mpr hy⟩
  | @swapped _ a b x y _ _ hax hby =>
    have hx : ∃ t ∈ [a, b], h.Part t x := ⟨a, by simp, hax⟩
    have hy : ∃ t ∈ [a, b], h.Part t y := ⟨b, by simp, .inner hby y.self_mem_walk⟩
    refine .right _ (hlower (List.cons_ne_nil _ _) ?_)
    exact List.forall_mem_cons.mpr ⟨hy, List.forall_mem_singleton.mpr hx⟩
  | candidates hcall =>
    apply Prod.Lex.left
    rw [hcall]
    exact Nat.zero_lt_one
  | column hcall hcall' hne hparts =>
    simp only [Call.measure, hcall, hcall']
    exact .right _ (hlower hne fun u hu => (hparts u hu).2)

/-- With costs that make parts lower, every call on known types ends. -/
theorem Costs.ends {cost : Text → Nat} (hcost : h.Costs cost) (hl : h.Linked) (call : Call)
    (hcall : h.Known call) : h.Ends call := by
  apply ends_of_acc hl.inquire_known hcall
  have hwf : WellFounded fun call call' : Call =>
      Prod.Lex (· < ·) (· < ·) (call.measure cost) (call'.measure cost) :=
    InvImage.wf (Call.measure cost) (WellFounded.prod_lex Nat.lt_wfRel.wf Nat.lt_wfRel.wf)
  induction call using hwf.induction with
  | _ call ih =>
    refine Acc.intro call fun inner hnests => ?_
    have hwithin := hl.within_of_nests hcall hnests
    exact ih inner (hcost.within_lt hl hwithin) hwithin.known

/-- Without contravariant parameters the second type of a comparison gets smaller. -/
theorem Linked.compare_ends (hl : h.Linked) (hcontra : ¬h.HasContra) {sub sup : TypeExpr}
    (hsub : h.Valid sub) (hsup : h.Valid sup) : h.Ends (.subtype sub sup) := by
  have hknown {a b : TypeExpr} (ha : h.Valid a) (hb : h.Valid b) : h.Known (.subtype a b) :=
    List.forall_mem_cons.mpr ⟨ha, List.forall_mem_singleton.mpr hb⟩
  apply ends_of_acc hl.inquire_known (hknown hsub hsup)
  induction hsize : sup.size using Nat.strongRecOn generalizing sub sup with
  | ind size ih =>
    refine Acc.intro _ fun inner hnests => ?_
    cases hl.within_of_nests (hknown hsub hsup) hnests with
    | @params _ _ x y hx hy _ hby =>
      obtain ⟨name, params⟩ := sup
      exact ih y.size (hsize ▸ TypeExpr.size_lt_of_mem hby) hx hy rfl
    | swapped hhas => exact absurd hhas hcontra
    | candidates hcall => simp [Call.compares] at hcall
    | column hcall => simp [Call.compares] at hcall

/-- A comparison returns at a depth above its cost, if the comparisons nested in one cost less. -/
theorem Linked.subtypeWithin_ok (hl : h.Linked) (cost : TypeExpr → TypeExpr → Nat)
    (hcost : ∀ a b x y, h.Part a x → y ∈ b.params →
      cost x y < cost a b ∧ (h.HasContra → cost y x < cost a b))
    {depth : Nat} {sub sup : TypeExpr} (hsub : h.Valid sub) (hsup : h.Valid sup)
    (hdepth : cost sub sup < depth) : ∃ answer, h.subtypeWithin depth sub sup = .ok answer := by
  induction depth generalizing sub sup with
  | zero => exact absurd hdepth (Nat.not_lt_zero _)
  | succ depth ih =>
    let cheaper (call : Call) : Prop := ∃ x y, call = .subtype x y ∧ h.Valid x ∧ h.Valid y ∧
      cost x y < depth
    have hmeets : (h.inquire (.subtype sub sup)).Meets cheaper (fun _ _ => True)
        fun _ => True := by
      apply hl.compareBy_meets hsub hsup
      intro x y hx hy hpart hmem
      obtain ⟨hlt, hswapped⟩ := hcost sub sup x y hpart hmem
      exact ⟨Inquiry.meets_put (.subtype x y) ⟨x, y, rfl, hx, hy, by omega⟩, fun hhas =>
        Inquiry.meets_put (.subtype y x) ⟨y, x, rfl, hy, hx, by have := hswapped hhas; omega⟩⟩
    have hanswer (call : Call) (hcall : cheaper call) :
        ∃ a, h.answerWithin depth call = .ok a ∧ True := by
      obtain ⟨x, y, rfl, hx, hy, hlt⟩ := hcall
      obtain ⟨answer, hrun⟩ := ih hx hy hlt
      exact ⟨answer, hrun, trivial⟩
    obtain ⟨answer, hrun⟩ := hmeets.eval_ok hanswer
    exact ⟨answer, (answerWithin_succ h depth (.subtype sub sup)).trans hrun⟩

/-- Without contravariant parameters comparisons answer: the second type gets smaller. -/
theorem Linked.isSubtype_ok (hl : h.Linked) (hcontra : ¬h.HasContra) {sub sup : TypeExpr}
    (hsub : h.Valid sub) (hsup : h.Valid sup) : ∃ answer, h.isSubtype sub sup = .ok answer := by
  refine hl.subtypeWithin_ok (fun _ b => b.size) (fun a b x y _ hmem => ?_) hsub hsup
    (by simp only [allowance]; omega)
  obtain ⟨name, params⟩ := b
  exact ⟨TypeExpr.size_lt_of_mem hmem, fun hhas => absurd hhas hcontra⟩

/-- In every hierarchy a call on known types, be it a comparison or a search for nearest common
ancestors or descendants, ends at some depth unless calls are nested in it without end. This never
happens where no type leads back to itself through the arguments of a parent, nor to comparisons
where no parameter is contravariant. -/
theorem recursion_ends {definition : Definition} {h : Hierarchy}
    (hdef : ofDefinition definition = .ok h) :
    (∀ call : Call, (∀ t ∈ call.types, h.validate t = .ok ()) →
      ((∃ depth answer, h.answerWithin depth call = .ok answer) ↔
        ¬∃ chain : ℕ → Call, chain 0 = call ∧ ∀ n, h.Nests (chain n) (chain (n + 1)))) ∧
    ((∀ d ∈ h.decls, ¬h.LeadsBack d) →
      (∀ sub sup, h.validate sub = .ok () → h.validate sup = .ok () →
        ∃ depth answer, h.subtypeWithin depth sub sup = .ok answer) ∧
      (∀ types, (∀ t ∈ types, h.validate t = .ok ()) →
        (∃ depth found, h.ancestorsWithin depth types = .ok found) ∧
        (∃ depth found, h.descendantsWithin depth types = .ok found))) ∧
    (¬h.HasContra → ∀ sub sup, h.validate sub = .ok () → h.validate sup = .ok () →
      ∃ depth answer, h.subtypeWithin depth sub sup = .ok answer) := by
  have hl := ofDefinition_linked hdef
  simp only [hl.validate_eq_ok]
  refine ⟨fun call hcall => ends_iff_no_chain hl.inquire_known hcall, fun hback => ?_,
    fun hcontra sub sup hsub hsup => hl.compare_ends hcontra hsub hsup⟩
  obtain ⟨cost, hcost⟩ := hl.exists_costs hback
  refine ⟨fun sub sup hsub hsup => ?_, fun types htypes => ⟨?_, ?_⟩⟩
  · exact hcost.ends hl (.subtype sub sup)
      (List.forall_mem_cons.mpr ⟨hsub, List.forall_mem_singleton.mpr hsup⟩)
  · exact hcost.ends hl (.ancestors types) htypes
  · exact hcost.ends hl (.descendants types) htypes

/-- A name leads only to names of a list that holds all that its members mention. -/
theorem not_leadsTo {closed : List Text}
    (hclosed : ∀ d ∈ h.decls, d.name ∈ closed → ∀ parent ∈ d.parents,
      parent.name ∈ closed ∧ ∀ inner ∈ d.argumentNames parent, inner ∈ closed)
    {name other : Text} (hname : name ∈ closed) (hother : other ∉ closed) :
    ¬h.LeadsTo name other := by
  intro hlead
  have hall : other ∈ closed := by
    clear hother
    induction hlead with
    | refl => exact hname
    | tail _ hstep ih =>
      obtain ⟨d, hd, rfl, parent, hparent, rfl | hinner⟩ := hstep
      · exact (hclosed d hd ih parent hparent).1
      · exact (hclosed d hd ih parent hparent).2 _ hinner
  exact hother hall

end Hierarchy

/-- A kennel takes boxes that take dogs; nothing in its parent leads back to it. -/
def kennelDefinition : Definition := .mapping [
  typeEntry "animal" [] [],
  typeEntry "dog" [] ["animal"],
  typeEntry "box" [("x", .contra)] [],
  typeEntry "kennel" [] ["box[box[dog]]"]]

def kennelHierarchy : Hierarchy where
  entries := [
    ⟨⟨"animal", [], []⟩, [], [("animal", [[]])], ["dog"], ["dog"]⟩,
    ⟨⟨"dog", [], [⟨"animal", []⟩]⟩, [("animal", [])], [("animal", [[]]), ("dog", [[]])], [], []⟩,
    ⟨⟨"box", [⟨"x", .contra⟩], []⟩, [], [("box", [[.slot 0]])], ["kennel"], ["kennel"]⟩,
    ⟨⟨"kennel", [], [⟨"box", [⟨"box", [⟨"dog", []⟩]⟩]⟩]⟩,
      [("box", [.app "box" [.app "dog" []]])],
      [("box", [[.app "box" [.app "dog" []]]]), ("kennel", [[]])], [], []⟩]
  order := ["animal", "dog", "box", "kennel"]

namespace Hierarchy

theorem kennel_accepted : ofDefinition kennelDefinition = .ok kennelHierarchy :=
  eq_ok_of_toOption (by decide +kernel)

theorem kennel_not_leadsBack : ∀ d ∈ kennelHierarchy.decls, ¬kennelHierarchy.LeadsBack d := by
  have hargs : ∀ d ∈ kennelHierarchy.decls, ∀ parent ∈ d.parents,
      ∀ name ∈ d.argumentNames parent, name ∈ (["dog", "animal", "box"] : List Text) ∧
        d.name ∉ (["dog", "animal", "box"] : List Text) := by
    decide +kernel
  rintro d hd ⟨parent, hparent, name, hname, hlead⟩
  obtain ⟨hin, hout⟩ := hargs d hd parent hparent name hname
  exact not_leadsTo (by decide +kernel) hin hout hlead

/-- The search for what a kennel and a box of boxes of animals have in common ends. -/
theorem kennel_search_ends :
    (∀ d ∈ kennelHierarchy.decls, ¬kennelHierarchy.LeadsBack d) ∧
    (∀ t ∈ ([⟨"kennel", []⟩, ⟨"box", [⟨"box", [⟨"animal", []⟩]⟩]⟩] : List TypeExpr),
      kennelHierarchy.validate t = .ok ()) ∧
    ∃ depth found, kennelHierarchy.ancestorsWithin depth
      [⟨"kennel", []⟩, ⟨"box", [⟨"box", [⟨"animal", []⟩]⟩]⟩] = .ok found := by
  have hvalid : ∀ t ∈ ([⟨"kennel", []⟩, ⟨"box", [⟨"box", [⟨"animal", []⟩]⟩]⟩] : List TypeExpr),
      kennelHierarchy.validate t = .ok () := by
    intro t ht
    apply eq_ok_of_toOption
    revert t
    decide +kernel
  exact ⟨kennel_not_leadsBack, hvalid,
    (((recursion_ends kennel_accepted).2.1 kennel_not_leadsBack).2 _ hvalid).1⟩

end Hierarchy

/-- Types whose parents take the types that declare them. -/
def loopDefinition : Definition := .mapping [
  typeEntry "sink" [("x", .contra)] [],
  typeEntry "loop" [] ["sink[sink[loop]]"],
  typeEntry "twin" [] ["sink[sink[twin]]"]]

def loopHierarchy : Hierarchy where
  entries := [
    ⟨⟨"sink", [⟨"x", .contra⟩], []⟩, [], [("sink", [[.slot 0]])],
      ["loop", "twin"], ["loop", "twin"]⟩,
    ⟨⟨"loop", [], [⟨"sink", [⟨"sink", [⟨"loop", []⟩]⟩]⟩]⟩,
      [("sink", [.app "sink" [.app "loop" []]])],
      [("sink", [[.app "sink" [.app "loop" []]]]), ("loop", [[]])], [], []⟩,
    ⟨⟨"twin", [], [⟨"sink", [⟨"sink", [⟨"twin", []⟩]⟩]⟩]⟩,
      [("sink", [.app "sink" [.app "twin" []]])],
      [("sink", [[.app "sink" [.app "twin" []]]]), ("twin", [[]])], [], []⟩]
  order := ["sink", "loop", "twin"]

namespace Hierarchy

theorem loop_accepted : ofDefinition loopDefinition = .ok loopHierarchy :=
  eq_ok_of_toOption (by decide +kernel)

/-- Comparing the type with a sink of itself, and searching for what two such types or sinks of
them have in common, comes back to the same question at every depth. -/
theorem loop_never_ends :
    ofDefinition loopDefinition = .ok loopHierarchy ∧
    (∀ t ∈ ([⟨"loop", []⟩, ⟨"twin", []⟩, ⟨"sink", [⟨"loop", []⟩]⟩, ⟨"sink", [⟨"twin", []⟩]⟩] :
      List TypeExpr), loopHierarchy.validate t = .ok ()) ∧
    (¬∃ depth answer,
      loopHierarchy.subtypeWithin depth ⟨"loop", []⟩ ⟨"sink", [⟨"loop", []⟩]⟩ = .ok answer) ∧
    (¬∃ depth found,
      loopHierarchy.ancestorsWithin depth [⟨"loop", []⟩, ⟨"twin", []⟩] = .ok found) ∧
    ¬∃ depth found, loopHierarchy.descendantsWithin depth
      [⟨"sink", [⟨"loop", []⟩]⟩, ⟨"sink", [⟨"twin", []⟩]⟩] = .ok found := by
  have hself : loopHierarchy.Nests (.subtype ⟨"loop", []⟩ ⟨"sink", [⟨"loop", []⟩]⟩)
      (.subtype ⟨"loop", []⟩ ⟨"sink", [⟨"loop", []⟩]⟩) := Inquiry.Puts.here
  have hdown : loopHierarchy.Nests (.ancestors [⟨"loop", []⟩, ⟨"twin", []⟩])
      (.descendants [⟨"sink", [⟨"loop", []⟩]⟩, ⟨"sink", [⟨"twin", []⟩]⟩]) := Inquiry.Puts.here
  have hup : loopHierarchy.Nests
      (.descendants [⟨"sink", [⟨"loop", []⟩]⟩, ⟨"sink", [⟨"twin", []⟩]⟩])
      (.ancestors [⟨"loop", []⟩, ⟨"twin", []⟩]) := Inquiry.Puts.here
  refine ⟨loop_accepted, fun t ht => ?_, not_ends_of_cycle (.single hself),
    not_ends_of_cycle (.head hdown (.single hup)), not_ends_of_cycle (.head hup (.single hdown))⟩
  apply eq_ok_of_toOption
  revert t
  decide +kernel

end Hierarchy

end TypedBlocks
