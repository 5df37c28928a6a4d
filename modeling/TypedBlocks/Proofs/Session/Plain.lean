import TypedBlocks.Proofs.Nearest.Between
import TypedBlocks.Proofs.Session.Known

/-! Blocks whose checks are types or single generics, with links that have a type at one end. What a
verdict on such a link computes: no question about a generic leads to another one. -/
namespace TypedBlocks

namespace Scene

variable {s : Scene} {block a b c d x : Nat} {g : Text} {skip : Option Nat} {t u v : TypeExpr}

/-! ### Types and generics as checks -/

def typeAt? (s : Scene) (c : Nat) : Option TypeExpr :=
  (s.workspace.check? c).bind fun text => (s.readCheck text).toOption

def GenericAt (s : Scene) (c : Nat) (g : Text) : Prop :=
  s.typeAt? c = some ⟨g, []⟩ ∧ s.isGeneric g = true

/-- The checks of two connections are not both generics. -/
def Anchored (s : Scene) (a b : Nat) : Prop :=
  ∀ g g', s.GenericAt a g → ¬s.GenericAt b g'

/-- No connection has been replaced, every check is a known type or a generic, and no block hands on
a generic both through its output and through its previous connection. -/
structure Plain (s : Scene) : Prop where
  present : ∀ c b, s.workspace.owner? c = some b → c ∈ s.workspace.connectionsOf b
  checks : ∀ c text, s.workspace.check? c = some text → ∃ t, s.readCheck text = .ok t ∧
    (s.hierarchy.Ground t ∨ ∃ g, t = ⟨g, []⟩ ∧ s.isGeneric g = true ∧ g ≠ TypeExpr.star)
  outer : ∀ c d g, s.GenericAt c g → s.GenericAt d g →
    s.workspace.owner? c = s.workspace.owner? d → (s.workspace.place? c).any (·.isOuter) = true →
    (s.workspace.place? d).any (·.isOuter) = true → c = d

/-- Plain blocks without bindings, whose links are matched and have a type at one end. -/
structure Orderly (s : Scene) : Prop where
  plain : s.Plain
  matched : s.workspace.Matched
  unbound : s.bindings = []
  anchored : ∀ {x y}, s.workspace.target? x = some y → s.Anchored x y

theorem Anchored.symm (hanchored : s.Anchored a b) : s.Anchored b a :=
  fun g g' hb ha => hanchored g' g ha hb

/-- What the link of a connection says about a generic that is its check. -/
def said? (s : Scene) (g : Text) (x : Nat) : Option TypeExpr :=
  if s.typeAt? x = some ⟨g, []⟩ then (s.workspace.target? x).bind s.typeAt? else none

/-- What the links of a block say about a generic, apart from a skipped one. -/
def saidOf (s : Scene) (block : Nat) (g : Text) (skip : Option Nat) : List TypeExpr :=
  ((s.workspace.connectionsOf block).filter (skip ≠ some ·)).filterMap (s.said? g)

theorem said?_eq_some : s.said? g x = some v ↔ s.typeAt? x = some ⟨g, []⟩ ∧
    ∃ y, s.workspace.target? x = some y ∧ s.typeAt? y = some v := by
  unfold said?
  split
  · next heq => simp [heq, Option.bind_eq_some_iff]
  · next hne => simp [hne]

theorem mem_saidOf : v ∈ s.saidOf block g skip ↔
    ∃ x ∈ s.workspace.connectionsOf block, skip ≠ some x ∧ s.said? g x = some v := by
  simp [saidOf, and_assoc]

theorem typeAt?_eq (htext : s.workspace.check? c = some text) (hread : s.readCheck text = .ok t) :
    s.typeAt? c = some t := by
  rw [typeAt?, htext, Option.bind_some, hread]
  rfl

theorem Plain.typeAt? (hs : s.Plain) (ht : s.typeAt? c = some t) :
    s.hierarchy.Ground t ∨ ∃ g, s.GenericAt c g ∧ t = ⟨g, []⟩ ∧ g ≠ TypeExpr.star := by
  obtain ⟨text, htext, hread⟩ := Option.bind_eq_some_iff.mp ht
  obtain ⟨t', ht', hcases⟩ := hs.checks c text htext
  obtain rfl : t' = t := by simpa [ht', Except.toOption] using hread
  rcases hcases with hground | ⟨g, rfl, hgeneric, hstar⟩
  · exact .inl hground
  · exact .inr ⟨g, ⟨ht, hgeneric⟩, rfl, hstar⟩

theorem not_ground_of_generic (hl : s.hierarchy.Linked) (hg : s.isGeneric g = true)
    {params : List TypeExpr} : ¬s.hierarchy.Ground ⟨g, params⟩ := by
  intro hground
  obtain ⟨e, he, as, heq, -⟩ := hl.ground_cases hground
  obtain ⟨rfl, -⟩ := TypeExpr.mk.inj heq
  rw [isGeneric_entry hl he] at hg
  cases hg

theorem exists_connection_of_check {text : Text} (htext : s.workspace.check? c = some text) :
    ∃ block place, s.workspace.connection? c =
      some ⟨block, place, some text, s.workspace.target? c⟩ := by
  obtain ⟨bare, hbare, hcheck⟩ := Option.bind_eq_some_iff.mp htext
  rw [Workspace.connection?_eq_bare, hbare]
  obtain ⟨block, place, check, target⟩ := bare
  obtain rfl : check = some text := hcheck
  exact ⟨block, place, rfl⟩

/-- At the other end of the link of a generic there is a known type. -/
theorem Orderly.ground_of_said (hs : s.Orderly) (hg : s.isGeneric g = true)
    (hsaid : s.said? g x = some v) : s.hierarchy.Ground v := by
  obtain ⟨hx, y, hxy, hy⟩ := said?_eq_some.mp hsaid
  rcases hs.plain.typeAt? hy with hground | ⟨g', hg', -, -⟩
  · exact hground
  · exact absurd hg' (hs.anchored hxy g g' ⟨hx, hg⟩)

/-! ### What is computed -/

theorem mentions_of_ground (hl : s.hierarchy.Linked) (ht : s.hierarchy.Ground t)
    (hg : s.isGeneric g = true) : t.mentions g = false := by
  refine Bool.eq_false_iff.mpr fun hmentions => ?_
  obtain ⟨u, hu, hname⟩ := List.any_eq_true.mp hmentions
  obtain ⟨name, params⟩ := u
  obtain rfl : name = g := eq_of_beq hname
  exact not_ground_of_generic hl hg (ht.mem_walk hu)

/-- A known type stands for itself. -/
theorem expand_of_valid {m : Type → Type} [Monad m] [LawfulMonad m] (hl : s.hierarchy.Linked)
    {ask : Text → m (List TypeExpr)} (ht : s.hierarchy.Valid t) :
    s.expand ask t = pure [t] := by
  induction ht with
  | wildcard => simp [expand, TypeExpr.wildcard, TypeExpr.isWildcard]
  | @app e he params hlen hparams ih =>
    have hall (ps : List TypeExpr) (hps : ∀ p ∈ ps, p ∈ params) :
        s.expandAll ask ps = pure (ps.map ([·])) := by
      induction ps with
      | nil => rfl
      | cons p ps ihp =>
        have hp := hps p List.mem_cons_self
        simp [expandAll, ih p hp, ihp fun r hr => hps r (List.mem_cons_of_mem p hr)]
    simp [expand, TypeExpr.isWildcard, hl.name_ne_star he, isGeneric_entry hl he,
      hall params fun _ hp => hp, choices_singletons, List.eraseDups_cons]

theorem expand_of_generic {m : Type → Type} [Monad m] {ask : Text → m (List TypeExpr)}
    (hg : s.isGeneric g = true) (hstar : g ≠ TypeExpr.star) :
    s.expand ask ⟨g, []⟩ = ask g := by
  simp [expand, TypeExpr.isWildcard, hstar, hg]

/-- What a known type says about a generic is the type. -/
theorem gather_of_ground (hv : s.hierarchy.Ground v) :
    s.gather ⟨g, []⟩ g [v] = .ok (some [v]) := by
  have hwild := hv.starFree.isWildcard
  have hself : s.hierarchy.commonAncestors [v] = .ok [v] := by
    have hdepth : Hierarchy.allowance + TypeExpr.sizeAll [v] =
        999 + TypeExpr.sizeAll [v] + 1 := by
      unfold Hierarchy.allowance
      omega
    rw [Hierarchy.commonAncestors, hdepth, Hierarchy.ancestorsWithin]
    simp [Hierarchy.ancestorsBy, hwild, pure, Except.pure]
  simp [gather, locate, hwild, hself, pure, Except.pure]

variable {ask : Nat → Text → Option Nat → Recalling (List TypeExpr)}

theorem lift_ok_bind {α β : Type} (a : α) (k : α → Recalling β) :
    ((liftM (Except.ok a : Except Fault α) : Recalling α) >>= k) = k a :=
  rfl

theorem mentions_iff (hs : s.Plain) (hl : s.hierarchy.Linked) (hg : s.isGeneric g = true)
    (ht : s.typeAt? c = some t) : t.mentions g = true ↔ t = ⟨g, []⟩ := by
  rcases hs.typeAt? ht with hground | ⟨g', -, rfl, -⟩
  · constructor
    · intro hmentions
      rw [mentions_of_ground hl hground hg] at hmentions
      cases hmentions
    · rintro rfl
      exact absurd hground (not_ground_of_generic hl hg)
  · simp [TypeExpr.mentions, TypeExpr.walk_mk]

/-- The contribution of a connection is the type at the other end of its link. -/
theorem Orderly.contribution (hs : s.Orderly) (hl : s.hierarchy.Linked)
    (hg : s.isGeneric g = true) :
    s.contribution ask x g = pure ((s.said? g x).map ([·])) := by
  unfold Scene.contribution
  split
  · next above place text y hx =>
    obtain ⟨-, htext, htarget⟩ := check?_of_connection hx
    obtain ⟨t, ht, -⟩ := hs.plain.checks x text htext
    have hmine := typeAt?_eq htext ht
    have hmentions := mentions_iff hs.plain hl hg hmine
    split
    · next below place' text' target hy =>
      obtain ⟨-, htext', -⟩ := check?_of_connection hy
      obtain ⟨u, hread, -⟩ := hs.plain.checks y text' htext'
      have htheirs := typeAt?_eq htext' hread
      rw [readCheck_eq_lift text, readCheck_eq_lift text', ht, hread, lift_ok_bind]
      by_cases heq : t = ⟨g, []⟩
      · have hmentions := hmentions.mpr heq
        subst heq
        have hsaid : s.said? g x = some u := said?_eq_some.mpr ⟨hmine, y, htarget, htheirs⟩
        have hu := hs.ground_of_said hg hsaid
        simp only [hmentions, Bool.not_true, Bool.false_eq_true, if_false, lift_ok_bind,
          expand_of_valid hl hu.valid, pure_bind, gather_of_ground hu, hsaid]
        simp [List.eraseDups_cons]
      · have hnone : s.said? g x = none := by
          simp [said?, hmine, heq]
        have hsilent : t.mentions g = false := by
          simpa using mt hmentions.mp heq
        simp [hsilent, hnone]
    · next hunchecked =>
      have hnone : s.said? g x = none := by
        refine Option.eq_none_iff_forall_ne_some.mpr fun v hv => ?_
        obtain ⟨-, y', hy', hv⟩ := said?_eq_some.mp hv
        obtain rfl := Option.some.inj (htarget.symm.trans hy')
        obtain ⟨text', htext', -⟩ := Option.bind_eq_some_iff.mp hv
        obtain ⟨below, place', hy⟩ := exists_connection_of_check htext'
        exact hunchecked _ _ _ _ hy
      rw [hnone]
      rfl
  · next hfree =>
    have hnone : s.said? g x = none := by
      refine Option.eq_none_iff_forall_ne_some.mpr fun v hv => ?_
      obtain ⟨hx, y, hy, -⟩ := said?_eq_some.mp hv
      obtain ⟨text, htext, -⟩ := Option.bind_eq_some_iff.mp hx
      obtain ⟨above, place, hx⟩ := exists_connection_of_check htext
      rw [hy] at hx
      exact hfree _ _ _ _ hx
    rw [hnone]
    rfl

theorem Orderly.contributions (hs : s.Orderly) (hl : s.hierarchy.Linked)
    (hg : s.isGeneric g = true) (cs : List Nat) :
    s.contributions ask g skip cs =
      pure (((cs.filter (skip ≠ some ·)).filterMap (s.said? g)).map ([·])) := by
  induction cs with
  | nil => rfl
  | cons x cs ih =>
    rw [Scene.contributions]
    split
    · next hskip =>
      rw [ih]
      simp [hskip]
    · next hskip =>
      rw [hs.contribution hl hg, ih, pure_bind, pure_bind]
      cases hsaid : s.said? g x <;> simp [hskip, hsaid]

def outerSays (s : Scene) (block : Nat) (g : Text) : Bool :=
  (s.workspace.connectionsOf block).any fun x =>
    (s.workspace.place? x).any (·.isOuter) && (s.said? g x).isSome

theorem Orderly.boundByInputsOnly (hs : s.Orderly) (hl : s.hierarchy.Linked)
    (hg : s.isGeneric g = true) :
    s.boundByInputsOnly ask block g = pure (!s.outerSays block g) := by
  have hsilent (cs : List Nat) : s.outerSilent ask g cs =
      pure (!cs.any fun x => (s.workspace.place? x).any (·.isOuter) && (s.said? g x).isSome) := by
    induction cs with
    | nil => rfl
    | cons x cs ih =>
      rw [outerSilent]
      split
      · next houter =>
        rw [hs.contribution hl hg, pure_bind]
        cases hsaid : s.said? g x <;> simp [houter, hsaid, ih]
      · next hinner => simp [hinner, ih]
  rw [Scene.boundByInputsOnly, hs.unbound]
  exact hsilent _

/-- A generic stands for what the types at the other ends of its links are unified to. -/
theorem Orderly.run_resolve (hs : s.Orderly) (hl : s.hierarchy.Linked)
    (hg : s.isGeneric g = true) {k : List TypeExpr → Recalling Bool}
    {r : List TypeExpr → Except Fault Bool} (hk : ∀ types, k types = liftM (r types)) :
    (s.resolve block g skip >>= k).run' [] =
      s.unify ((s.saidOf block g skip).map ([·])) >>= r := by
  obtain ⟨n, hn⟩ : ∃ n, s.depth = n + 1 := 
    ⟨(s.workspace.connections.map Workspace.extent).sum + 1, by rw [depth_eq]; omega⟩
  have hlinks : s.resolveLinks (s.recallWithin n) block g skip =
      liftM (s.unify ((s.saidOf block g skip).map ([·]))) := by
    rw [resolveLinks, hs.contributions hl hg, pure_bind]
    rfl
  have hresolve : s.resolve block g skip [] =
      (s.unify ((s.saidOf block g skip).map ([·]))).map fun types =>
        (types, [((block, g, skip), types)]) := by
    rw [Scene.resolve, hn, recallWithin, recallIn, hs.unbound]
    change (s.resolveLinks (s.recallWithin n) block g skip >>= fun types => (do
      modify (((block, g, skip), types) :: ·)
      return types)) [] = _
    rw [hlinks]
    cases s.unify ((s.saidOf block g skip).map ([·])) <;> rfl
  change (fun result => result.1) <$> (s.resolve block g skip [] >>= fun result =>
    k result.1 result.2) = _
  rw [hresolve]
  cases s.unify ((s.saidOf block g skip).map ([·])) with
  | error fault => rfl
  | ok types =>
    change (fun result => result.1) <$> k types [((block, g, skip), types)] = r types
    rw [hk]
    cases r types <;> rfl

theorem contains_wildcard_of_ground {types : List TypeExpr}
    (htypes : ∀ t ∈ types, s.hierarchy.Ground t) : types.contains .wildcard = false := by
  refine Bool.eq_false_iff.mpr fun hmem => ?_
  have hwild := (htypes _ (List.contains_iff_mem.mp hmem)).starFree.isWildcard
  cases hwild

theorem isGenericLeaf_of_valid (hl : s.hierarchy.Linked) (ht : s.hierarchy.Valid t) :
    s.isGenericLeaf t = false := by
  cases ht with
  | wildcard => rfl
  | app he => simp [isGenericLeaf, isGeneric_entry hl he]

/-- The verdict on a generic parent and a known type. -/
theorem Orderly.judge_parent (hs : s.Orderly) (hl : s.hierarchy.Linked)
    (hg : s.isGeneric g = true) (hstar : g ≠ TypeExpr.star) (hv : s.hierarchy.Ground v) :
    (s.judge s.resolve c block ⟨g, []⟩ d b v).run' [] =
      s.unify ((s.saidOf block g (some c)).map ([·])) >>= fun parents =>
        if parents.contains .wildcard then .ok true
        else if s.outerSays block g then anyPair s.hierarchy.isSubtype [v] parents
        else anyPair s.haveCommonAncestor [v] parents := by
  unfold judge
  rw [expand_of_generic hg hstar]
  refine hs.run_resolve hl hg fun parents => ?_
  have hleaf : s.isGenericLeaf ⟨g, []⟩ = true := by
    simp [isGenericLeaf, TypeExpr.isWildcard, hstar, hg]
  rw [expand_of_valid hl hv.valid, pure_bind, hleaf, hs.boundByInputsOnly hl hg,
    contains_wildcard_of_ground (List.forall_mem_singleton.mpr hv)]
  simp only [Bool.or_false, List.isEmpty_cons, if_true, pure_bind]
  split
  · rfl
  · split
    · next hempty =>
      obtain rfl := List.isEmpty_iff.mp hempty
      cases s.outerSays block g <;> rfl
    · cases s.outerSays block g <;> rfl

/-- The verdict on a generic child and a known type. -/
theorem Orderly.judge_child (hs : s.Orderly) (hl : s.hierarchy.Linked)
    (hg : s.isGeneric g = true) (hstar : g ≠ TypeExpr.star) (hu : s.hierarchy.Ground u) :
    (s.judge s.resolve c b u d block ⟨g, []⟩).run' [] =
      s.unify ((s.saidOf block g (some d)).map ([·])) >>= fun children =>
        if children.contains .wildcard then .ok true
        else anyPair s.hierarchy.isSubtype children [u] := by
  unfold judge
  rw [expand_of_generic hg hstar, expand_of_valid hl hu.valid, pure_bind]
  refine hs.run_resolve hl hg fun children => ?_
  rw [isGenericLeaf_of_valid hl hu.valid,
    contains_wildcard_of_ground (List.forall_mem_singleton.mpr hu)]
  simp only [Bool.false_or, List.isEmpty_cons, Bool.false_eq_true, if_false, pure_bind]
  split
  · rfl
  · split
    · next hempty =>
      obtain rfl := List.isEmpty_iff.mp hempty
      rfl
    · rfl

/-- The verdict on two known types. -/
theorem judge_ground (hl : s.hierarchy.Linked) (hu : s.hierarchy.Ground u)
    (hv : s.hierarchy.Ground v) :
    (s.judge ask c b u d block v).run' [] = anyPair s.hierarchy.isSubtype [v] [u] := by
  unfold judge
  rw [expand_of_valid hl hu.valid, expand_of_valid hl hv.valid, pure_bind, pure_bind,
    isGenericLeaf_of_valid hl hu.valid,
    contains_wildcard_of_ground (List.forall_mem_singleton.mpr hu),
    contains_wildcard_of_ground (List.forall_mem_singleton.mpr hv)]
  simp only [List.isEmpty_cons, Bool.or_false, Bool.false_eq_true, if_false, pure_bind]
  cases anyPair s.hierarchy.isSubtype [v] [u] <;> rfl

theorem exists_pair {relation : TypeExpr → TypeExpr → Except Fault Bool}
    {children parents : List TypeExpr} (hrun : anyPair relation children parents = .ok true) :
    ∃ c ∈ children, ∃ p ∈ parents, relation c p = .ok true := by
  obtain ⟨c, hc, hrun⟩ := anyM_eq_ok_true hrun
  obtain ⟨p, hp, hrun⟩ := anyM_eq_ok_true hrun
  exact ⟨c, hc, p, hp, hrun⟩

theorem forall_pairs {relation : TypeExpr → TypeExpr → Except Fault Bool}
    {children parents : List TypeExpr} (hrun : anyPair relation children parents = .ok false) :
    ∀ c ∈ children, ∀ p ∈ parents, relation c p = .ok false :=
  fun c hc p hp => anyM_eq_ok_false.mp (anyM_eq_ok_false.mp hrun c hc) p hp

/-- Reading through all connections shows that they are plain. -/
theorem plain_of_reads (hl : s.hierarchy.Linked)
    (hpresent : ∀ c < s.workspace.connections.length, ∀ b ∈ s.workspace.owner? c,
      c ∈ s.workspace.connectionsOf b)
    (hchecks : ∀ c < s.workspace.connections.length, ∀ text ∈ s.workspace.check? c,
      ∃ t ∈ (s.readCheck text).toOption,
        ((s.hierarchy.validate t).toOption = some () ∧ t.StarFree) ∨
          (t.params = [] ∧ s.isGeneric t.name = true ∧ t.name ≠ TypeExpr.star))
    (houter : ∀ c < s.workspace.connections.length, ∀ d < s.workspace.connections.length,
      s.workspace.owner? c = s.workspace.owner? d →
      (s.workspace.place? c).any (·.isOuter) = true →
      (s.workspace.place? d).any (·.isOuter) = true → c = d) : s.Plain := by
  have hlt {c : Nat} {text : Text} (htext : s.workspace.check? c = some text) :
      c < s.workspace.connections.length := by
    obtain ⟨_, hbare, -⟩ := Option.bind_eq_some_iff.mp htext
    obtain ⟨_, hk, -⟩ := Option.map_eq_some_iff.mp hbare
    exact (List.getElem?_eq_some_iff.mp hk).1
  have hgeneric {c : Nat} {g : Text} (hc : s.GenericAt c g) :
      c < s.workspace.connections.length := by
    obtain ⟨_, htext, -⟩ := Option.bind_eq_some_iff.mp hc.1
    exact hlt htext
  constructor
  · intro c b hb
    obtain ⟨k, hk, -⟩ := Option.map_eq_some_iff.mp hb
    exact hpresent c (List.getElem?_eq_some_iff.mp hk).1 b hb
  · intro c text htext
    obtain ⟨t, ht, hcases⟩ := hchecks c (hlt htext) text htext
    refine ⟨t, eq_ok_of_toOption ht, hcases.imp (fun hground => ?_) fun hgeneric => ?_⟩
    · exact ⟨hl.validate_eq_ok.mp (eq_ok_of_toOption hground.1), hground.2⟩
    · obtain ⟨name, params⟩ := t
      obtain ⟨rfl, hname, hstar⟩ := hgeneric
      exact ⟨name, rfl, hname, hstar⟩
  · intro c d g hc hd
    exact houter c (hgeneric hc) d (hgeneric hd)

end Scene

end TypedBlocks
