import TypedBlocks.Proofs.Session.Assigned
import TypedBlocks.Proofs.Session.Recall

/-! Blocks in series. A check shared by the output and the one input of every block hands the types
of its generics on from one end of the series to the other, up or down; the free end has no say. -/
namespace TypedBlocks

open Json (Value)

namespace Scene

variable {s : Scene} {σ : List (Text × TypeExpr)} {t u : TypeExpr} {g : Text} {place : Place}
  {n i c d x y b : Nat} {block near far out inp : Nat → Nat}

/-- A connection of a block whose check reads as the expression. -/
def CheckAt (s : Scene) (c block : Nat) (place : Place) (t : TypeExpr) : Prop :=
  ∃ text target, s.workspace.connection? c = some ⟨block, place, some text, target⟩ ∧
    s.readCheck text = .ok t

/-- Blocks without bindings that have an output and one input, both with the same check, each input
linked to the output of the next block. -/
structure Series (s : Scene) (t : TypeExpr) (n : Nat) (block out inp : Nat → Nat) : Prop where
  connections : ∀ i < n, s.workspace.connectionsOf (block i) = [out i, inp i]
  output : ∀ i < n, s.CheckAt (out i) (block i) .output t
  input : ∀ i < n, ∃ name, s.CheckAt (inp i) (block i) (.input name) t
  linked : ∀ i, i + 1 < n → s.workspace.target? (inp i) = some (out (i + 1)) ∧
    s.workspace.target? (out (i + 1)) = some (inp i)
  unbound : ∀ i < n, ∀ g, s.bindings.find? (block i) g = none

/-- One direction of a series: each block has a near connection, linked to the far one of the block
before. -/
structure Row (s : Scene) (t : TypeExpr) (n : Nat) (block near far : Nat → Nat) : Prop where
  connections : ∀ i < n, s.workspace.connectionsOf (block i) = [near i, far i] ∨
    s.workspace.connectionsOf (block i) = [far i, near i]
  distinct : ∀ i < n, near i ≠ far i
  nearCheck : ∀ i < n, ∃ place, s.CheckAt (near i) (block i) place t
  farCheck : ∀ i < n, ∃ place, s.CheckAt (far i) (block i) place t
  linked : ∀ i, i + 1 < n → s.workspace.target? (near (i + 1)) = some (far i) ∧
    s.workspace.target? (far i) = some (near (i + 1))
  unbound : ∀ i < n, ∀ g, s.bindings.find? (block i) g = none

/-! ### One link, one block -/

theorem CheckAt.formed (hc : s.CheckAt c b place t) : s.Formed t := by
  obtain ⟨text, target, -, hread⟩ := hc
  exact (readCheck_eq_ok hread).1

theorem CheckAt.star_notMem (hc : s.CheckAt c b place t) : TypeExpr.star ∉ s.generics t := by
  obtain ⟨text, target, -, hread⟩ := hc
  exact star_notMem_generics hread

theorem CheckAt.place_eq (hc : s.CheckAt c b place t) : s.workspace.place? c = some place := by
  obtain ⟨text, target, hc, -⟩ := hc
  rw [Workspace.place?, hc]
  rfl

/-- What a connection says is what its check makes of the types of its peer. -/
theorem CheckAt.contribution {ask : Nat → Text → Option Nat → Except Fault (List TypeExpr)}
    {place' : Place} {types : List TypeExpr} {said : Option (List TypeExpr)}
    (hc : s.CheckAt c b place t) (hpeer : s.workspace.target? c = some d)
    (hd : s.CheckAt d x place' u) (hg : g ∈ s.generics t)
    (hexpand : s.expand (ask x · (some d)) u = .ok types)
    (hgather : s.gather t g types = .ok said) :
    s.contribution ask c g = .ok (said.map (·.eraseDups)) := by
  obtain ⟨text, target, hc, hread⟩ := hc
  obtain ⟨text', target', hd, hread'⟩ := hd
  obtain rfl : target = some d := (check?_of_connection hc).2.2.symm.trans hpeer
  have hmentions := mentions_of_mem_generics hg
  unfold Scene.contribution
  rw [hc]
  simp only [hd, readCheck_eq_lift, hread, hread', hexpand, hgather, hmentions, liftM, monadLift,
    ok_bind]
  rfl

theorem unify_singleton (u : TypeExpr) : s.unify [[u]] = .ok [u] :=
  keepNearest_singleton _ u

section Pair

variable {said : Option (List TypeExpr)}
  (hcs : s.workspace.connectionsOf b = [x, y] ∨ s.workspace.connectionsOf b = [y, x])
  (hfind : s.bindings.find? b g = none)
  (hx : s.contribution (s.resolveWithin s.depth) x g = .ok said)

include hcs hfind hx

/-- Of two connections the one that is not skipped tells the generic. -/
theorem resolve_other (hne : x ≠ y) :
    s.resolveWithin s.depth b g (some y) = s.unify said.toList := by
  rw [resolveWithin_depth hfind, resolveLinks]
  rcases hcs with hcs | hcs <;>
    simp [hcs, contributions, hne.symm, hx, pure, Except.pure, liftM, monadLift]

/-- Of two connections the one that has a say tells the generic. -/
theorem resolve_both (hy : s.contribution (s.resolveWithin s.depth) y g = .ok none) :
    s.resolveWithin s.depth b g none = s.unify said.toList := by
  rw [resolveWithin_depth hfind, resolveLinks]
  rcases hcs with hcs | hcs <;>
    simp [hcs, contributions, hx, hy, pure, Except.pure, liftM, monadLift]

end Pair

/-! ### Along a row -/

namespace Row

variable (hl : s.hierarchy.Linked) (hrow : s.Row t n block near far)

include hl hrow

/-- Beyond a free end nothing is known: no far connection has a say. -/
theorem far_silent (hfree : s.workspace.target? (far (n - 1)) = none) (hi : i < n)
    (hg : g ∈ s.generics t) :
    s.contribution (s.resolveWithin s.depth) (far i) g = .ok none := by
  -- from the last block back to the first
  obtain ⟨k, hk⟩ : ∃ k, i + k + 1 = n := ⟨n - i - 1, by omega⟩
  induction k generalizing i g with
  | zero =>
    obtain rfl : i = n - 1 := by omega
    exact contribution_of_free hfree
  | succ k ih =>
    have hnext : i + 1 < n := by omega
    obtain ⟨place, hfar⟩ := hrow.farCheck i hi
    obtain ⟨place', hnear⟩ := hrow.nearCheck (i + 1) hnext
    -- the next block knows no generic, so its check is told with wildcards for all of them
    let blank := (s.generics t).map (·, TypeExpr.wildcard)
    have hblank : s.Replaces blank := by
      intro g u hlookup
      have hg := mem_of_lookup_map_const hlookup
      exact ⟨isGeneric_of_mem_generics hg, fun heq => hfar.star_notMem (heq ▸ hg)⟩
    have hask (g : Text) (hg : g ∈ s.generics t) :
        s.resolveWithin s.depth (block (i + 1)) g (some (near (i + 1))) =
          pure [TypeExpr.substitute blank ⟨g, []⟩] := by
      rw [resolve_other (hrow.connections _ hnext).symm (hrow.unbound _ hnext g)
        (ih hnext hg (by omega)) (hrow.distinct _ hnext).symm, TypeExpr.substitute,
        lookup_map_const hg]
      rfl
    exact hfar.contribution (hrow.linked i hnext).2 hnear hg
      (expand_substitute hl hblank hfar.formed hask)
      (gather_substitute_wildcard hl hblank hfar.formed hg (lookup_map_const hg _))

variable (hσ : s.Assigns σ t) (hsource : s.workspace.target? (near 0) = some c)
  (hc : s.CheckAt c b place (t.substitute σ))

include hσ

/-- Through its far connection a block hands on the type of the source. -/
theorem expand_far (hi : i < n)
    (hnear : ∀ g u, σ.lookup g = some u →
      s.contribution (s.resolveWithin s.depth) (near i) g = .ok (some [u])) :
    s.expand (s.resolveWithin s.depth (block i) · (some (far i))) t = .ok [t.substitute σ] := by
  obtain ⟨place', hfar⟩ := hrow.farCheck i hi
  refine expand_substitute hl (hσ.replaces hfar.star_notMem) hfar.formed fun g hg => ?_
  rw [resolve_other (hrow.connections i hi) (hrow.unbound i hi g) (hnear g _ (hσ.lookup hg))
    (hrow.distinct i hi)]
  exact unify_singleton _

include hsource hc

/-- Every near connection tells what the source at the first one says. -/
theorem near_tells (hi : i < n) (hlookup : σ.lookup g = some u) :
    s.contribution (s.resolveWithin s.depth) (near i) g = .ok (some [u]) := by
  induction i generalizing g u with
  | zero =>
    obtain ⟨place', hnear⟩ := hrow.nearCheck 0 hi
    have hreplaces := hσ.replaces hnear.star_notMem
    have hg : g ∈ s.generics t := hσ.mem_generics hlookup
    have hvalid : s.hierarchy.Valid (t.substitute σ) :=
      valid_substitute hl hreplaces hnear.formed fun g hg => (hσ.ground hl (hσ.lookup hg)).valid
    exact hnear.contribution hsource hc hg (expand_of_valid hl hvalid)
      (gather_substitute hl hreplaces hnear.formed hg hlookup (hσ.ground hl hlookup))
  | succ i ih =>
    have hprev : i < n := by omega
    obtain ⟨place', hnear⟩ := hrow.nearCheck (i + 1) hi
    obtain ⟨place'', hfar⟩ := hrow.farCheck i hprev
    have hreplaces := hσ.replaces hnear.star_notMem
    have hg : g ∈ s.generics t := hσ.mem_generics hlookup
    exact hnear.contribution (hrow.linked i hi).1 hfar hg
      (hrow.expand_far hl hσ hprev fun g u hlookup => ih hprev hlookup)
      (gather_substitute hl hreplaces hnear.formed hg hlookup (hσ.ground hl hlookup))

/-- Every block has each generic stand for the type that the source has in its place. -/
theorem typesOf (hfree : s.workspace.target? (far (n - 1)) = none) (hi : i < n)
    (hlookup : σ.lookup g = some u) : s.typesOf (block i) g = .ok [u] := by
  have hg : g ∈ s.generics t := hσ.mem_generics hlookup
  rw [typesOf_eq, resolve_both (hrow.connections i hi) (hrow.unbound i hi g)
    (hrow.near_tells hl hσ hsource hc hi hlookup) (hrow.far_silent hl hfree hi hg)]
  exact unify_singleton u

end Row

/-! ### Verdicts at the ends -/

section Verdict

variable {ask : Nat → Text → Option Nat → Except Fault (List TypeExpr)} {place' : Place}

theorem CheckAt.parentTakes (hc : s.CheckAt c b place t) (hd : s.CheckAt d x place' u) :
    s.parentTakes ask c d = s.judge ask c b t d x u := by
  obtain ⟨text, target, hc, hread⟩ := hc
  obtain ⟨text', target', hd, hread'⟩ := hd
  unfold Scene.parentTakes
  simp only [hc, hd, readCheck_eq_lift, hread, hread', liftM, monadLift, ok_bind]

theorem anyPair_singleton (relation : TypeExpr → TypeExpr → Except Fault Bool)
    (child parent : TypeExpr) : anyPair relation [child] [parent] = relation child parent := by
  simp only [anyPair, List.anyM]
  rcases relation child parent with _ | _ | _ <;> rfl

/-- With one type on each side, and no more lenience than the parent's check allows, the verdict is
whether the child's type is below the parent's. -/
theorem judge_single {parent child : TypeExpr}
    (hparent : s.expand (ask b · (some c)) t = .ok [parent])
    (hchild : s.expand (ask x · (some d)) u = .ok [child])
    (hstrict : s.isGenericLeaf t = true → s.boundByInputsOnly ask b t.name = .ok false) :
    s.judge ask c b t d x u = s.hierarchy.isSubtype child parent := by
  unfold judge
  rw [hparent, ok_bind, hchild, ok_bind]
  split
  · next hwild =>
    have hany : (child.isWildcard || parent.isWildcard) = true := by
      simp only [List.contains_cons, List.contains_nil, Bool.or_false, Bool.or_eq_true,
        beq_iff_eq] at hwild
      rcases hwild with rfl | rfl <;> simp [TypeExpr.wildcard, TypeExpr.isWildcard]
    have hdepth : Hierarchy.allowance + child.size + parent.size =
        999 + child.size + parent.size + 1 := by
      unfold Hierarchy.allowance
      omega
    rw [Hierarchy.isSubtype, hdepth, Hierarchy.subtypeWithin, Hierarchy.compareBy, if_pos hany]
  · have hpair := anyPair_singleton s.hierarchy.isSubtype child parent
    simp only [List.isEmpty_cons, Bool.or_false, Bool.false_eq_true, if_false]
    cases hleaf : s.isGenericLeaf t with
    | false => exact hpair
    | true =>
      simp only [hstrict hleaf, ok_bind, if_true, Bool.false_eq_true, if_false]
      exact hpair

end Verdict

namespace Series

variable (hseries : s.Series t n block out inp)

include hseries

theorem distinct (hi : i < n) : out i ≠ inp i := by
  intro heq
  obtain ⟨name, hinput⟩ := hseries.input i hi
  have hplace := (hseries.output i hi).place_eq.symm.trans (heq ▸ hinput.place_eq)
  cases hplace

theorem up : s.Row t n block out inp where
  connections i hi := .inl (hseries.connections i hi)
  distinct _ hi := hseries.distinct hi
  nearCheck i hi := ⟨_, hseries.output i hi⟩
  farCheck i hi := (hseries.input i hi).imp' _ fun _ h => h
  linked _ hi := (hseries.linked _ hi).symm
  unbound := hseries.unbound

theorem down : s.Row t n (fun i => block (n - 1 - i)) (fun i => inp (n - 1 - i))
    (fun i => out (n - 1 - i)) where
  connections i hi := .inr (hseries.connections _ (by omega))
  distinct i hi := (hseries.distinct (by omega)).symm
  nearCheck i hi := (hseries.input _ (by omega)).imp' _ fun _ h => h
  farCheck i hi := ⟨_, hseries.output _ (by omega)⟩
  linked i hi := by
    have heq : n - 1 - i = n - 1 - (i + 1) + 1 := by omega
    rw [heq]
    exact hseries.linked _ (by omega)
  unbound i hi := hseries.unbound _ (by omega)

/-- Once its output has a say about them, a block is not lenient about its generics. -/
theorem strict (hi : i < n) {types : List TypeExpr}
    {ask : Nat → Text → Option Nat → Except Fault (List TypeExpr)}
    (htells : s.contribution ask (out i) g = .ok (some types)) :
    s.boundByInputsOnly ask (block i) g = .ok false := by
  have houter : (s.workspace.place? (out i)).any (·.isOuter) = true := by
    rw [(hseries.output i hi).place_eq]
    rfl
  rw [boundByInputsOnly, hseries.unbound i hi, hseries.connections i hi]
  simp only [outerSilent, houter, if_true, htells, ok_bind]
  rfl

variable (hl : s.hierarchy.Linked) (hσ : s.Assigns σ t) (hn : 0 < n)

include hl hσ hn

theorem valid_check : s.hierarchy.Valid (t.substitute σ) := by
  have hfirst := hseries.output 0 hn
  exact valid_substitute hl (hσ.replaces hfirst.star_notMem) hfirst.formed
    fun g hg => (hσ.ground hl (hσ.lookup hg)).valid

theorem compatible_last (hsource : s.workspace.target? (out 0) = some c)
    (hc : s.CheckAt c b place (t.substitute σ)) (hd : s.CheckAt d x .output u)
    (hu : s.hierarchy.Valid u) :
    s.compatible (inp (n - 1)) d = s.hierarchy.isSubtype u (t.substitute σ) := by
  have hlast : n - 1 < n := by omega
  have htells (g : Text) (v : TypeExpr) (hlookup : σ.lookup g = some v) :=
    hseries.up.near_tells hl hσ hsource hc hlast hlookup
  obtain ⟨name, hinput⟩ := hseries.input (n - 1) hlast
  rw [compatible_eq, takes, hinput.place_eq]
  refine (hinput.parentTakes hd).trans (judge_single (hseries.up.expand_far hl hσ hlast htells)
    (expand_of_valid hl hu) fun hleaf => ?_)
  -- a check that is one generic: the output of the block tells it
  obtain ⟨g, params⟩ := t
  simp only [isGenericLeaf, Bool.and_eq_true, List.isEmpty_iff, Bool.not_eq_true'] at hleaf
  obtain ⟨⟨rfl, hwild⟩, hgeneric⟩ := hleaf
  have hg : g ∈ s.generics ⟨g, []⟩ := mem_generics (TypeExpr.self_mem_walk _) hwild hgeneric
  exact hseries.strict hlast (htells g _ (hσ.lookup hg))

theorem compatible_first {name : Text} (hsource : s.workspace.target? (inp (n - 1)) = some c)
    (hc : s.CheckAt c b place (t.substitute σ)) (hd : s.CheckAt d x (.input name) u)
    (hu : s.hierarchy.Valid u) :
    s.compatible d (out 0) = s.hierarchy.isSubtype (t.substitute σ) u := by
  have hlast : n - 1 < n := by omega
  have htells (g : Text) (v : TypeExpr) (hlookup : σ.lookup g = some v) :=
    hseries.down.near_tells hl hσ hsource hc hlast hlookup
  have hchildren := hseries.down.expand_far hl hσ hlast htells
  rw [Nat.sub_self] at hchildren
  rw [compatible_eq, takes, hd.place_eq]
  refine (hd.parentTakes (hseries.output 0 hn)).trans (judge_single (expand_of_valid hl hu)
    hchildren fun hleaf => ?_)
  rw [isGenericLeaf_of_valid hl hu] at hleaf
  cases hleaf

end Series

end Scene

namespace Session

variable {s : Session} {scene : Scene}

theorem explicitTypes_of_typesOf (hscene : s.scene = .ok scene) {block : Nat} {v : Value} {g : Text}
    (hname : nameOf v = .ok g) {u : TypeExpr} (hu : u.StarFree)
    (htypes : scene.typesOf block g = .ok [u]) : s.explicitTypes block v = .ok [u] := by
  simp [explicitTypes, explicitOf, hscene, hname, htypes, hu.isWildcard]

/-- A verdict that is a question about known types is not wrapped. -/
theorem check_of_compatible (hl : scene.hierarchy.Linked) (hscene : s.scene = .ok scene) {a b : Nat}
    {child parent : TypeExpr} (hchild : scene.hierarchy.Valid child)
    (hparent : scene.hierarchy.Valid parent)
    (hverdict : scene.compatible a b = scene.hierarchy.isSubtype child parent) :
    s.check a b = scene.hierarchy.isSubtype child parent := by
  rw [check, verdict_eq hscene, hverdict]
  have hdelivers := hl.isSubtype_delivers hchild hparent
  generalize scene.hierarchy.isSubtype child parent = verdict at hdelivers
  cases hdelivers <;> rfl

/-- Blocks in series hand on the types of their generics from the linked end to the free one. Every
block comes to the same explicit types, and the verdict at the free end is the one that the source
itself would give. -/
theorem series_hands_on {definition : Definition}
    (hdef : Hierarchy.ofDefinition definition = .ok scene.hierarchy) (hscene : s.scene = .ok scene)
    {check : TypeExpr} {σ : List (Text × TypeExpr)} (hσ : scene.Assigns σ check) {n : Nat}
    (hn : 0 < n) {block out inp : Nat → Nat} (hseries : scene.Series check n block out inp) :
    (∀ c b name, scene.CheckAt c b (.input name) (check.substitute σ) →
      scene.workspace.target? (out 0) = some c → scene.workspace.target? (inp (n - 1)) = none →
      (∀ i < n, ∀ v g u, nameOf v = .ok g → σ.lookup g = some u →
        s.explicitTypes (block i) v = .ok [u]) ∧
      ∀ d b y, scene.CheckAt d b .output y → scene.hierarchy.validate y = .ok () →
        s.check (inp (n - 1)) d = scene.hierarchy.isSubtype y (check.substitute σ)) ∧
    (∀ c b, scene.CheckAt c b .output (check.substitute σ) →
      scene.workspace.target? (inp (n - 1)) = some c → scene.workspace.target? (out 0) = none →
      (∀ i < n, ∀ v g u, nameOf v = .ok g → σ.lookup g = some u →
        s.explicitTypes (block i) v = .ok [u]) ∧
      ∀ d b name y, scene.CheckAt d b (.input name) y → scene.hierarchy.validate y = .ok () →
        s.check d (out 0) = scene.hierarchy.isSubtype (check.substitute σ) y) := by
  have hl := Hierarchy.ofDefinition_linked hdef
  have hvalid := hseries.valid_check hl hσ hn
  constructor
  · intro c b name hc hsource hfree
    refine ⟨fun i hi v g u hname hlookup => ?_, fun d b y hd hy => ?_⟩
    · exact explicitTypes_of_typesOf hscene hname (hσ.types g u hlookup).2
        (hseries.up.typesOf hl hσ hsource hc hfree hi hlookup)
    · have hy := hl.validate_eq_ok.mp hy
      exact check_of_compatible hl hscene hy hvalid
        (hseries.compatible_last hl hσ hn hsource hc hd hy)
  · intro c b hc hsource hfree
    refine ⟨fun i hi v g u hname hlookup => ?_, fun d b name y hd hy => ?_⟩
    · have hfree' : scene.workspace.target? (out (n - 1 - (n - 1))) = none := by
        rw [Nat.sub_self, hfree]
      have hi' : n - 1 - i < n := by omega
      have htypes := hseries.down.typesOf hl hσ hsource hc hfree' hi' hlookup
      rw [show n - 1 - (n - 1 - i) = i by omega] at htypes
      exact explicitTypes_of_typesOf hscene hname (hσ.types g u hlookup).2 htypes
    · have hy := hl.validate_eq_ok.mp hy
      exact check_of_compatible hl hscene hvalid hy
        (hseries.compatible_first hl hσ hn hsource hc hd hy)

/-- Two blocks with a nested and repeated generic, below one block and above another. The first of
them is linked to the block above or the second to the block below. -/
def relay (top bottom : Text) (above : Bool) : Session where
  hierarchy := some pairHierarchy
  workspace := {
    blocks := [
      { label := "top", inputs := [0] },
      { label := "first", output := some 1, inputs := [2] },
      { label := "second", output := some 3, inputs := [4] },
      { label := "bottom", output := some 5 }]
    connections := [
      ⟨0, .input "a", some top, if above then some 1 else none⟩,
      ⟨1, .output, some "pair[flipped[g, h], g]", if above then some 0 else none⟩,
      ⟨1, .input "a", some "pair[flipped[g, h], g]", some 3⟩,
      ⟨2, .output, some "pair[flipped[g, h], g]", some 2⟩,
      ⟨2, .input "a", some "pair[flipped[g, h], g]", if above then none else some 5⟩,
      ⟨3, .output, some bottom, if above then none else some 4⟩] }

def linkedAbove : Session :=
  relay "pair[flipped[dog, animal], dog]" "flipped[animal, flipped[animal, dog]]" true

def linkedBelow : Session :=
  relay "pair[pair[animal, dog], dog]" "pair[flipped[dog, animal], dog]" false

def relayCheck : TypeExpr :=
  ⟨"pair", [⟨"flipped", [⟨"g", []⟩, ⟨"h", []⟩]⟩, ⟨"g", []⟩]⟩

def relayTypes : List (Text × TypeExpr) :=
  [("g", ⟨"dog", []⟩), ("h", ⟨"animal", []⟩)]

section Relay

/-- Blocks over pairs, with every other name a generic. -/
def pairScene (workspace : Workspace) : Scene :=
  ⟨pairHierarchy, none, [], workspace⟩

variable (w : Workspace)

theorem pairScene_akin : (pairScene w).Akin (pairScene {}) :=
  ⟨rfl, rfl⟩

theorem pairScene_reads {text : Text} {t : TypeExpr}
    (hread : ((pairScene {}).readCheck text).toOption = some t) :
    (pairScene w).readCheck text = .ok t := by
  rw [(pairScene_akin w).readCheck]
  exact eq_ok_of_toOption hread

theorem relayTypes_assigns : (pairScene w).Assigns relayTypes relayCheck where
  keys g := by
    have hgenerics : (pairScene {}).generics relayCheck = [(↑"g" : Text), ↑"h", ↑"g"] := by
      decide +kernel
    have heq : (pairScene w).generics relayCheck = (pairScene {}).generics relayCheck := by
      simp only [Scene.generics, (pairScene_akin w).isGeneric]
    rw [heq, hgenerics, List.lookup_isSome_iff]
    simp [relayTypes, or_comm]
  types g u hlookup := by
    have hmem := Scene.mem_of_lookup hlookup
    simp only [relayTypes, List.mem_cons, List.not_mem_nil, or_false, Prod.mk.injEq] at hmem
    have hknown : pairHierarchy.validate ⟨"dog", []⟩ = .ok () ∧
        pairHierarchy.validate ⟨"animal", []⟩ = .ok () :=
      ⟨eq_ok_of_toOption (by decide +kernel), eq_ok_of_toOption (by decide +kernel)⟩
    rcases hmem with ⟨rfl, rfl⟩ | ⟨rfl, rfl⟩
    · exact ⟨hknown.1, by decide⟩
    · exact ⟨hknown.2, by decide⟩

theorem relay_series (top bottom : Text) (above : Bool) :
    (pairScene (relay top bottom above).workspace).Series relayCheck 2 (· + 1) (2 * · + 1)
      (2 * · + 2) := by
  have hread := pairScene_reads (relay top bottom above).workspace
    (show ((pairScene {}).readCheck "pair[flipped[g, h], g]").toOption = some relayCheck by
      decide +kernel)
  have hcases (i : Nat) (hi : i < 2) : i = 0 ∨ i = 1 := by omega
  constructor
  · intro i hi
    rcases hcases i hi with rfl | rfl <;> rfl
  · intro i hi
    rcases hcases i hi with rfl | rfl <;> exact ⟨_, _, rfl, hread⟩
  · intro i hi
    rcases hcases i hi with rfl | rfl <;> exact ⟨_, _, _, rfl, hread⟩
  · intro i hi
    obtain rfl : i = 0 := by omega
    exact ⟨rfl, rfl⟩
  · intro i hi g
    rfl

end Relay

/-- What is above two blocks, or what is below them, is known to both and judged at the other
end. -/
theorem relay_hands_on :
    (linkedAbove.explicitTypes 2 (.text "H") = .ok [⟨"animal", []⟩] ∧
      linkedAbove.check 4 5 = .ok true) ∧
    linkedBelow.explicitTypes 1 (.text "G") = .ok [⟨"dog", []⟩] ∧
      linkedBelow.check 0 1 = .ok true := by
  constructor
  · obtain ⟨htypes, hcheck⟩ := (series_hands_on (s := linkedAbove) Hierarchy.pair_accepted rfl
      (relayTypes_assigns _) (by decide) (relay_series _ _ _)).1 0 0 "a"
      ⟨_, _, rfl, pairScene_reads _ (by decide +kernel)⟩ rfl rfl
    have hbelow := hcheck 5 3
      ⟨"flipped", [⟨"animal", []⟩, ⟨"flipped", [⟨"animal", []⟩, ⟨"dog", []⟩]⟩]⟩
      ⟨_, _, rfl, pairScene_reads _ (by decide +kernel)⟩ (eq_ok_of_toOption (by decide +kernel))
    exact ⟨htypes 1 (by decide) _ "h" _ (eq_ok_of_toOption (by decide +kernel)) rfl,
      hbelow.trans (eq_ok_of_toOption (by decide +kernel))⟩
  · obtain ⟨htypes, hcheck⟩ := (series_hands_on (s := linkedBelow) Hierarchy.pair_accepted rfl
      (relayTypes_assigns _) (by decide) (relay_series _ _ _)).2 5 3
      ⟨_, _, rfl, pairScene_reads _ (by decide +kernel)⟩ rfl rfl
    have habove := hcheck 0 0 "a"
      ⟨"pair", [⟨"pair", [⟨"animal", []⟩, ⟨"dog", []⟩]⟩, ⟨"dog", []⟩]⟩
      ⟨_, _, rfl, pairScene_reads _ (by decide +kernel)⟩ (eq_ok_of_toOption (by decide +kernel))
    exact ⟨htypes 0 (by decide) _ "g" _ (eq_ok_of_toOption (by decide +kernel)) rfl,
      habove.trans (eq_ok_of_toOption (by decide +kernel))⟩

end Session

end TypedBlocks
