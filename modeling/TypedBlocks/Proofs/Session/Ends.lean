import TypedBlocks.Proofs.Recursion.Delivers
import TypedBlocks.Proofs.Session.Recall
import TypedBlocks.Proofs.Workspace.Ring

/-! The flow ends where links form no ring. Leaving out the connection by which a block was entered
keeps the recursion from turning back, so it goes along a walk, and in a workspace without rings no
walk is longer than there are connections. What is left to blame for an answer that does not come
is a question about types. -/
namespace TypedBlocks

/-! ### Blame -/

structure Excused {α : Type} (excuse : Prop) (x : Except Fault α) : Prop where
  excuse_of : x = .error .unending → excuse

namespace Excused

variable {α β : Type} {excuse : Prop}

theorem ok (a : α) : Excused excuse (.ok a) :=
  ⟨nofun⟩

theorem bind {x : Except Fault α} {f : α → Except Fault β} (hx : Excused excuse x)
    (hf : ∀ a, Excused excuse (f a)) : Excused excuse (x >>= f) := by
  cases x with
  | error fault =>
    refine ⟨?_⟩
    rintro ⟨⟩
    exact hx.excuse_of rfl
  | ok a => exact hf a

theorem mapM {f : α → Except Fault β} (hf : ∀ a, Excused excuse (f a)) (xs : List α) :
    Excused excuse (xs.mapM f) := by
  induction xs with
  | nil => exact ok []
  | cons x xs ih =>
    rw [List.mapM_cons]
    exact (hf x).bind fun y => ih.bind fun ys => ok (y :: ys)

theorem forM {f : α → Except Fault Unit} (hf : ∀ a, Excused excuse (f a)) (xs : List α) :
    Excused excuse (xs.forM f) := by
  induction xs with
  | nil => exact ok ()
  | cons x xs ih => exact (hf x).bind fun _ => ih

theorem anyM {f : α → Except Fault Bool} (hf : ∀ a, Excused excuse (f a)) (xs : List α) :
    Excused excuse (xs.anyM f) := by
  induction xs with
  | nil => exact ok false
  | cons x xs ih =>
    rw [List.anyM_cons]
    apply (hf x).bind
    intro found
    cases found with
    | true => exact ok true
    | false => exact ih

theorem eval {answer : (call : Call) → Except Fault call.Answer} {x : Inquiry α} {P : α → Prop}
    (hx : x.Meets (fun _ => True) (fun _ _ => True) P)
    (hanswer : ∀ call, Excused excuse (answer call)) : Excused excuse (x.eval answer) := by
  induction x with
  | done result =>
    cases result with
    | ok a => exact ok a
    | error => exact hx.elim
  | ask call next ih => exact (hanswer call).bind fun a => ih a (hx.2 a trivial)

end Excused

namespace Hierarchy

variable {h : Hierarchy}

def Silent (h : Hierarchy) : Prop :=
  ∃ call, h.answer call = .error .unending

theorem answer_excused (call : Call) : Excused h.Silent (h.answer call) :=
  ⟨fun hcall => ⟨call, hcall⟩⟩

theorem isSubtype_excused (a b : TypeExpr) : Excused h.Silent (h.isSubtype a b) :=
  answer_excused (.subtype a b)

theorem commonAncestors_excused (types : List TypeExpr) :
    Excused h.Silent (h.commonAncestors types) :=
  answer_excused (.ancestors types)

theorem keepNearest_excused (types : List TypeExpr) :
    Excused h.Silent (keepNearest h.isSubtype types) := by
  rw [isSubtype_eq_put, ← eval_keepNearest]
  refine .eval (keepNearest_meets (G := fun _ => True) (fun a b _ _ => ?_) fun _ _ => trivial)
    answer_excused
  exact Inquiry.meets_put (.subtype a b) trivial

theorem get_excused {excuse : Prop} (name : Text) : Excused excuse (h.get name) := by
  unfold get
  split
  · exact .ok _
  · exact ⟨nofun⟩

end Hierarchy

namespace Scene

variable {s : Scene} {depth block c : Nat} {generic : Text} {skip : Option Nat} {α β : Type}

theorem readCheck_excused {excuse : Prop} (text : Text) : Excused excuse (s.readCheck text) := by
  unfold readCheck
  split
  · exact ⟨nofun⟩
  · apply Excused.bind
    · refine Excused.forM (fun t => ?_) _
      unfold validateNode
      split
      · split
        · exact .ok ()
        · exact ⟨nofun⟩
      · apply (Hierarchy.get_excused _).bind
        intro e
        split
        · exact .ok ()
        · exact ⟨nofun⟩
    · exact fun _ => .ok _

theorem paramsUnder_excused {excuse : Prop} (head : Text) (t : TypeExpr) :
    Excused excuse (s.paramsUnder head t) := by
  unfold paramsUnder
  split
  · exact .ok _
  · apply Excused.bind
    · exact (Hierarchy.get_excused _).bind fun _ => .ok _
    · intro found
      cases found with
      | some params => exact .ok _
      | none =>
        apply (Hierarchy.get_excused _).bind
        intro e
        split
        · apply Excused.bind
          · exact (Hierarchy.get_excused _).bind fun _ =>
              (Hierarchy.get_excused _).bind fun _ => .ok _
          · exact fun _ => .ok _
        · exact .ok _

theorem locate_excused {excuse : Prop} (generic : Text) (pattern actual : TypeExpr) :
    Excused excuse (s.locate generic pattern actual) := by
  induction pattern using TypeExpr.byParams generalizing actual with
  | mk name params ih =>
    have hall (ps as : List TypeExpr) (hps : ∀ p ∈ ps, p ∈ params) :
        Excused excuse (s.locateAll generic ps as) := by
      induction ps generalizing as with
      | nil =>
        rw [locateAll]
        · exact .ok []
        · simp
      | cons p ps ihp =>
        cases as with
        | nil =>
          rw [locateAll]
          · exact .ok []
          · simp
        | cons a as =>
          obtain ⟨hp, hps⟩ := List.forall_mem_cons.mp hps
          rw [locateAll]
          exact (ih p hp a).bind fun first => (ihp as hps).bind fun rest => .ok _
    cases params with
    | nil =>
      rw [locate]
      exact .ok _
    | cons p ps =>
      rw [locate]
      split
      · exact .ok _
      · split
        · exact .ok _
        · apply (paramsUnder_excused name actual).bind
          intro found
          cases found with
          | none => exact .ok _
          | some params =>
            cases params with
            | nil => exact .ok _
            | cons a as =>
              have hparts := hall (p :: ps) (a :: as) fun _ hp => hp
              rwa [locateAll] at hparts

theorem gather_excused (check : TypeExpr) (generic : Text) (types : List TypeExpr) :
    Excused s.hierarchy.Silent (s.gather check generic types) := by
  induction types with
  | nil => exact .ok none
  | cons t ts ih =>
    rw [gather]
    apply (locate_excused generic check t).bind
    intro parts
    simp only
    split
    · exact ih
    · exact (Hierarchy.commonAncestors_excused _).bind fun found => ih.bind fun rest => .ok _

theorem unify_excused (said : List (List TypeExpr)) :
    Excused s.hierarchy.Silent (s.unify said) := by
  have hjoin (as bs : List TypeExpr) : Excused s.hierarchy.Silent (s.join as bs) :=
    (Excused.mapM Hierarchy.commonAncestors_excused _).bind fun found => .ok _
  have hall (as : List TypeExpr) (rest : List (List TypeExpr)) :
      Excused s.hierarchy.Silent (s.joinAll as rest) := by
    induction rest generalizing as with
    | nil => exact Hierarchy.keepNearest_excused as
    | cons bs rest ih =>
      rw [joinAll]
      apply (hjoin as bs).bind
      intro joined
      split
      · exact .ok []
      · exact ih joined
  cases said with
  | nil => exact .ok _
  | cons as rest => exact hall as rest

/-! ### Levels apart from faults -/

/-- Computations that may run out of levels, which is not one of the faults. -/
abbrev Levelled := OptionT (Except Fault)

/-- The plain recursion, with a lack of levels told apart from questions about types that are not
answered. -/
def unfoldWithin (s : Scene) : Nat → Nat → Text → Option Nat → Levelled (List TypeExpr)
  | 0, _, _, _ => failure
  | depth + 1, block, generic, skip =>
    match s.bindings.find? block generic with
    | some t => pure [t]
    | none => s.resolveLinks (s.unfoldWithin depth) block generic skip

/-- The levels are enough for the outcome, and if there is none, a question about types is to
blame. -/
def Ends (s : Scene) (x : Levelled α) (outcome : Except Fault α) : Prop :=
  x.run = some <$> outcome ∧
    (outcome = .error .unending → ∃ call, s.hierarchy.answer call = .error .unending)

def ending (s : Scene) : Lockstep Levelled (Except Fault) where
  rel := s.Ends
  admits := Excused s.hierarchy.Silent
  pure a := ⟨rfl, nofun⟩
  bind := by
    rintro α β x y f g ⟨hrun, hexcuse⟩ hfg
    obtain rfl : x = (some <$> y : Except Fault (Option α)) := hrun
    cases y with
    | error fault =>
      refine ⟨rfl, ?_⟩
      rintro ⟨⟩
      exact hexcuse rfl
    | ok a => exact hfg a
  lift := by
    intro α x hx
    cases x with
    | error fault => exact ⟨rfl, hx.excuse_of⟩
    | ok a => exact ⟨rfl, nofun⟩
  read := by
    intro α β x f g hx hfg
    cases x with
    | error fault =>
      refine ⟨rfl, ?_⟩
      rintro ⟨⟩
      exact hx.excuse_of rfl
    | ok a => exact hfg a rfl

theorem ending_admits : s.ending.Admits s where
  readCheck := s.ending.read (readCheck_excused _)
  gather := gather_excused
  unify := unify_excused
  common children parents :=
    .anyM (fun c => .anyM (fun p => (Hierarchy.commonAncestors_excused [c, p]).bind fun _ => .ok _)
      parents) children
  fulfilled children parents :=
    .anyM (fun c => .anyM (Hierarchy.isSubtype_excused c) parents) children

/-! ### Without rings -/

section Forest

variable (howned : ∀ c b, c ∈ s.workspace.connectionsOf b → s.workspace.owner? c = some b)
  (hforest : s.workspace.Forest)

include howned hforest

/-- Along a trail each link that is followed uses up one level, and one connection. -/
theorem unfoldWithin_ends {passed : List Nat} {more : Nat}
    (htrail : s.workspace.Trail passed block skip)
    (hdepth : s.workspace.connections.length < depth + passed.length)
    (hmore : (s.workspace.connections.map Workspace.extent).sum < more + passed.length) :
    s.Ends (s.unfoldWithin depth block generic skip) (s.resolveWithin more block generic skip) := by
  induction depth generalizing passed block generic skip more with
  | zero =>
    have hlength := htrail.length_le_connections
    omega
  | succ depth ih =>
    have hlength := htrail.length_le
    obtain ⟨more, rfl⟩ := Nat.exists_eq_add_one_of_ne_zero (show more ≠ 0 by omega)
    rw [unfoldWithin, resolveWithin]
    cases s.bindings.find? block generic with
    | some t =>
      refine ⟨rfl, fun hfault => ?_⟩
      cases hfault
    | none =>
      apply ending_admits.resolveLinks
      intro c hc hskip peer b g hasks
      obtain ⟨text, t, htext, hread⟩ := hasks.read
      have hpos : 0 < text.length := t.size_pos.trans_le (size_le_of_readCheck hread)
      apply ih (htrail.on hforest (howned c block hc) hskip htext hpos hasks.target hasks.asked.1)
      · rw [List.length_cons]
        omega
      · rw [List.length_cons]
        omega

theorem Query.run_ends (q : s.Query α) (hdepth : s.workspace.connections.length < depth) :
    s.Ends (q.run (s.unfoldWithin depth)) (q.run (s.resolveWithin s.depth)) := by
  apply q.lockstep ending_admits
  intro b g k
  have hscene := s.depth_eq
  apply unfoldWithin_ends howned hforest (.start s.workspace b k)
  · exact hdepth
  · rw [List.length_nil]
    omega

end Forest

/-- In a workspace whose links form no ring of blocks, with any bindings, each step of the flow and
each question from outside ends: with more levels than there are connections the recursion never
lacks one, and its outcome is the answer. If there is no answer, the fault is with a question about
types. -/
theorem flow_ends (s : Scene)
    (howned : ∀ c b, c ∈ s.workspace.connectionsOf b → s.workspace.owner? c = some b)
    (hback : ∀ c d, s.workspace.target? c = some d → s.workspace.target? d = some c)
    (hacyclic : s.workspace.Acyclic) (depth : Nat)
    (hdepth : s.workspace.connections.length < depth) :
    (∀ a b, s.Ends (s.takes (s.unfoldWithin depth) a b) (s.compatible a b)) ∧
    (∀ c, s.Ends (s.typesThrough (s.unfoldWithin depth) c) (s.typesAt c)) ∧
    (∀ block generic skip, s.Ends (s.unfoldWithin depth block generic skip)
      ((s.resolve block generic skip).run' [])) ∧
    (∀ c generic, s.Ends (s.contribution (s.unfoldWithin depth) c generic)
      ((s.contribution s.resolve c generic).run' [])) := by
  have hforest := hacyclic.forest hback
  have hquery {α : Type} (q : s.Query α) :
      s.Ends (q.run (s.unfoldWithin depth)) ((q.run s.resolve).run' []) := by
    rw [q.run_resolve]
    exact q.run_ends howned hforest hdepth
  exact ⟨fun a b => hquery (.verdict s a b), fun c => hquery (.check s c),
    fun block generic skip => hquery (.types s block generic skip),
    fun c generic => hquery (.said s c generic)⟩

/-- A type that is handed on by two blocks in a row. -/
def relay : Scene where
  hierarchy := { entries := [⟨⟨"dog", [], []⟩, [], [("dog", [[]])], [], []⟩], order := ["dog"] }
  pattern := none
  bindings := []
  workspace := {
    blocks := [
      { label := "dog", output := some 0 },
      { label := "hand on", inputs := [1], output := some 2 },
      { label := "hand on", inputs := [3], output := some 4 }]
    connections := [
      ⟨0, .output, some "dog", some 1⟩,
      ⟨1, .input "x", some "u", some 0⟩,
      ⟨1, .output, some "u", some 3⟩,
      ⟨2, .input "x", some "v", some 2⟩,
      ⟨2, .output, some "v", none⟩] }

theorem relay_owned (c b : Nat) (hc : c ∈ relay.workspace.connectionsOf b) :
    relay.workspace.owner? c = some b := by
  have hall : ∀ b < 3, ∀ c ∈ relay.workspace.connectionsOf b,
      relay.workspace.owner? c = some b := by decide +kernel
  rcases Nat.lt_or_ge b 3 with hb | hb
  · exact hall b hb c hc
  · have hnone : relay.workspace.block? b = none := List.getElem?_eq_none hb
    simp [Workspace.connectionsOf, hnone] at hc

theorem relay_back (c d : Nat) (hcd : relay.workspace.target? c = some d) :
    relay.workspace.target? d = some c := by
  have hall : ∀ link ∈ relay.workspace.allLinks,
      relay.workspace.target? link.2 = some link.1 := by decide +kernel
  exact hall (c, d) (Workspace.mem_allLinks.mpr hcd)

theorem relay_acyclic : relay.workspace.Acyclic :=
  (Workspace.forest_iff_acyclic relay_back).mp
    (Workspace.forest_of_closed [(0, 1), (1, 0), (2, 3), (3, 2), (0, 3), (3, 0)]
      (by decide +kernel) (by decide +kernel) (by decide +kernel))

theorem relay_ends :
    (∀ c b, c ∈ relay.workspace.connectionsOf b → relay.workspace.owner? c = some b) ∧
    (∀ c d, relay.workspace.target? c = some d → relay.workspace.target? d = some c) ∧
    relay.workspace.Acyclic ∧ relay.workspace.connections.length < 6 ∧
    (relay.typesThrough (relay.unfoldWithin 6) 4).run = .ok (some [⟨"dog", []⟩]) := by
  have htypes : relay.typesAt 4 = .ok [⟨"dog", []⟩] := eq_ok_of_toOption (by decide +kernel)
  have hends := (flow_ends relay relay_owned relay_back relay_acyclic 6 (by decide)).2.1 4
  rw [htypes] at hends
  exact ⟨relay_owned, relay_back, relay_acyclic, by decide, hends.1⟩

end Scene

end TypedBlocks
