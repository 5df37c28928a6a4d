import TypedBlocks.Proofs.Session.Flow
import TypedBlocks.Proofs.Workspace.Forest

/-! Where links form no ring, the verdict on a link of a block stays the same when other links of
the block are taken away, as long as these say nothing about an open generic of its check. -/
namespace TypedBlocks

theorem Place.sides_of_pairs {p q : Place} (hpairs : p.pairs q = true) :
    p.isParentSide = true ∧ q.isParentSide = false := by
  cases p <;> cases q <;> simp_all [Place.pairs, Place.isParentSide]

/-- One end of a link is on the parent side, the other one is an outer connection. -/
theorem Workspace.Joins.sides {w : Workspace} {a b : Nat} (hjoins : w.Joins a b) :
    (w.place? a).any (·.isParentSide) = true ∧ (w.place? b).any (·.isOuter) = true ∨
      (w.place? b).any (·.isParentSide) = true ∧ (w.place? a).any (·.isOuter) = true := by
  obtain ⟨-, p, q, hp, hq, hpairs⟩ := hjoins
  rcases hpairs with hpairs | hpairs
  · obtain ⟨hside, hother⟩ := Place.sides_of_pairs hpairs
    exact .inl (by simp [hp, hq, Place.isOuter, hside, hother])
  · obtain ⟨hside, hother⟩ := Place.sides_of_pairs hpairs
    exact .inr (by simp [hp, hq, Place.isOuter, hside, hother])

namespace Scene

variable {s : Scene} {block c d p q x : Nat} {generic : Text} {ends more : List Nat}
  {ask ask' : Nat → Text → Option Nat → Recalling (List TypeExpr)}

def cut (s : Scene) (ends : List Nat) : Scene :=
  { s with workspace := s.workspace.cut ends }

theorem akin_cut : (s.cut ends).Akin s :=
  ⟨rfl, rfl⟩

theorem akin_cuts : (s.cut ends).Akin (s.cut more) :=
  ⟨rfl, rfl⟩

/-- The depth allowed is a matter of the checks. -/
theorem depth_congr {s' : Scene} (hbare : ∀ x, s.workspace.bare? x = s'.workspace.bare? x) :
    s.depth = s'.depth := by
  have hchecks : s.workspace.connections.map (·.check) =
      s'.workspace.connections.map (·.check) := by
    have hcheck (s : Scene) (x : Nat) : (s.workspace.connections.map (·.check))[x]? =
        (s.workspace.bare? x).map (·.check) := by
      simp [Workspace.bare?, Workspace.connection?, Function.comp_def]
    exact List.ext_getElem? fun x => by rw [hcheck, hcheck, hbare]
  have hdepth (s : Scene) : s.depth = (s.workspace.connections.map (·.check)).foldl
      (fun n check => n + (check.map (·.length)).getD 0) 2 := by
    rw [List.foldl_map]
    rfl
  rw [hdepth, hdepth s', hchecks]

theorem depth_cut : (s.cut ends).depth = s.depth :=
  depth_congr fun _ => Workspace.bare?_cut

theorem not_parent_of_outer {place : Option Place} (houter : place.any (·.isOuter) = true) :
    place.any (·.isParentSide) ≠ true := by
  cases place <;> simp_all [Place.isOuter]

/-- The connection has no say about the generic, whatever other blocks answer. -/
def Silent (s : Scene) (c : Nat) (generic : Text) : Prop :=
  ∀ ask : Nat → Text → Option Nat → Recalling (List TypeExpr),
    s.contribution ask c generic = pure none

/-- A connection whose check is read, if it is linked, has no say about generics that do not occur
in it. -/
theorem silent_of_notMem
    (hread : ∀ peer text, s.workspace.target? c = some peer → s.workspace.check? c = some text →
      s.workspace.check? peer ≠ none → ∃ t, s.readCheck text = .ok t)
    (hgeneric : s.isGeneric generic = true) (hstar : generic ≠ TypeExpr.star)
    (hnone : generic ∉ s.genericsAt c) : s.Silent c generic := by
  refine fun ask => contribution_of_unmentioned fun peer text hpeer htext hother => ?_
  obtain ⟨t, ht⟩ := hread peer text hpeer htext hother
  refine ⟨t, ht, Bool.eq_false_iff.mpr fun hyes => hnone ?_⟩
  rw [genericsAt_eq htext ht]
  obtain ⟨u, hu, hname⟩ := List.any_eq_true.mp hyes
  obtain rfl := eq_of_beq hname
  exact mem_generics hu (by simp [TypeExpr.isWildcard, hstar]) hgeneric

/-- Connections of one block that share no open generic do not tell each other anything. -/
theorem silent_of_apart (hc : s.workspace.owner? c = some block)
    (hd : s.workspace.owner? d = some block)
    (hread : ∀ peer text, s.workspace.target? d = some peer → s.workspace.check? d = some text →
      s.workspace.check? peer ≠ none → ∃ t, s.readCheck text = .ok t)
    (hapart : ∀ g ∈ s.openGenerics c, g ∉ s.openGenerics d) :
    ∀ g ∈ s.openGenerics c, s.Silent d g := by
  intro g hg
  obtain ⟨hgeneric, hopen⟩ := List.mem_filter.mp hg
  obtain ⟨hname, hstar⟩ := isGeneric_of_mem_genericsAt hgeneric
  refine silent_of_notMem hread hname hstar fun hmem => hapart g hg ?_
  refine List.mem_filter.mpr ⟨hmem, ?_⟩
  rwa [hd, ← hc]

/-- The questions behind the links of a block, asked of the blocks that walks from it reach. -/
def Behind (s : Scene) (block b : Nat) (_generic : Text) (skip : Option Nat) : Prop :=
  ∃ x q, s.workspace.owner? x = some block ∧ s.workspace.Walk x q ∧
    s.workspace.owner? q = some b ∧ skip = some q

theorem contribution_cut (hx : x ∉ ends) (hy : ∀ y, s.workspace.target? x = some y → y ∉ ends) :
    (s.cut ends).contribution ask x generic = s.contribution ask x generic := by
  refine akin_cut.contribution ?_ fun peer _ => ⟨Workspace.bare?_cut, fun _ _ _ => rfl⟩
  rw [Workspace.connection?_eq_bare, Workspace.connection?_eq_bare]
  have htarget : (s.workspace.cut ends).target? x = s.workspace.target? x := by
    refine Option.ext fun y => ?_
    rw [Workspace.target?_cut_eq_some]
    exact ⟨fun h => h.1, fun h => ⟨h, hx, hy y h⟩⟩
  simp only [cut, Workspace.bare?_cut, htarget]

theorem contribution_cut_of_mem (hx : x ∈ ends) :
    (s.cut ends).contribution ask x generic = pure none :=
  contribution_of_free (Workspace.target?_cut_of_mem hx)

theorem contribution_congr_ask
    (hask : ∀ peer, s.workspace.target? x = some peer → ∀ block name,
      s.workspace.owner? peer = some block →
        ask block name (some peer) = ask' block name (some peer)) :
    s.contribution ask x generic = s.contribution ask' x generic :=
  Akin.contribution ⟨rfl, rfl⟩ rfl fun peer hpeer => ⟨rfl, hask peer hpeer⟩

section Forest

variable (howned : ∀ c b, c ∈ s.workspace.connectionsOf b → s.workspace.owner? c = some b)
  (hforest : s.workspace.Forest)

include hforest in
theorem notMem_of_walk (hends : ∀ d ∈ ends, s.workspace.owner? d = some block)
    (hx : s.workspace.owner? x = some block) (hwalk : s.workspace.Walk x q) : q ∉ ends :=
  fun hq => hforest x q hwalk ((hends q hq).trans hx.symm)

include hforest in
/-- Behind its links a block does not see which of them are there. -/
theorem contribution_behind (hends : ∀ d ∈ ends, s.workspace.owner? d = some block)
    (hagree : ∀ b g k, s.Behind block b g k → ask b g k = ask' b g k)
    (hx : s.workspace.owner? x = some block) (hwalk : s.workspace.Walk x q)
    (hd : s.workspace.owner? d = s.workspace.owner? q) (hne : d ≠ q) :
    (s.cut ends).contribution ask d generic = s.contribution ask' d generic := by
  have hon {y : Nat} (hy : s.workspace.target? d = some y) : s.workspace.Walk x y :=
    .on hwalk hd hne hy
  have hdends : d ∉ ends := fun hmem =>
    hforest x q hwalk (hd ▸ (hends d hmem).trans hx.symm)
  rw [contribution_cut hdends fun y hy => notMem_of_walk hforest hends hx (hon hy)]
  exact contribution_congr_ask fun peer hpeer b name hb =>
    hagree b name (some peer) ⟨x, peer, hx, hon hpeer, hb, rfl⟩

include howned hforest in
theorem alike_behind (hends : ∀ d ∈ ends, s.workspace.owner? d = some block) :
    (s.cut ends).Alike s (s.Behind block) := by
  rintro b g _ ⟨x, q, hx, hwalk, hq, rfl⟩
  refine ⟨rfl, fun _ ask ask' hagree => akin_cut.resolveLinks rfl fun d hd hskip => ?_⟩
  exact contribution_behind hforest hends hagree hx hwalk ((howned _ _ hd).trans hq.symm)
    fun heq => hskip (heq ▸ rfl)

include howned hforest in
theorem recall_behind {depth b : Nat} {g : Text} {k : Option Nat}
    (hends : ∀ d ∈ ends, s.workspace.owner? d = some block)
    (hmore : ∀ d ∈ more, s.workspace.owner? d = some block) (hbehind : s.Behind block b g k) :
    (s.cut ends).recallWithin depth b g k = (s.cut more).recallWithin depth b g k :=
  ((alike_behind howned hforest hends).recallWithin hbehind).trans
    ((alike_behind howned hforest hmore).recallWithin hbehind).symm

include hforest in
/-- A connection of the block itself says the same in both scenes, if it has its link in both or
nothing to say. -/
theorem contribution_near (hends : ∀ d ∈ ends, s.workspace.owner? d = some block)
    (hmore : ∀ d ∈ more, s.workspace.owner? d = some block)
    (hagree : ∀ b g k, s.Behind block b g k → ask b g k = ask' b g k)
    (hx : s.workspace.owner? x = some block)
    (hsame : (x ∈ ends ↔ x ∈ more) ∨ s.Silent x generic) :
    (s.cut ends).contribution ask x generic = (s.cut more).contribution ask' x generic := by
  have hstays {ends : List Nat} {ask : Nat → Text → Option Nat → Recalling (List TypeExpr)}
      (hends : ∀ d ∈ ends, s.workspace.owner? d = some block) (hmem : x ∉ ends) :
      (s.cut ends).contribution ask x generic = s.contribution ask x generic :=
    contribution_cut hmem fun y hy => notMem_of_walk hforest hends hx (.link hy)
  by_cases hin : x ∈ ends <;> by_cases hin' : x ∈ more
  · rw [contribution_cut_of_mem hin, contribution_cut_of_mem hin']
  · have hsilent := hsame.resolve_left fun hiff => hin' (hiff.mp hin)
    rw [contribution_cut_of_mem hin, hstays hmore hin', hsilent ask']
  · have hsilent := hsame.resolve_left fun hiff => hin (hiff.mpr hin')
    rw [contribution_cut_of_mem hin', hstays hends hin, hsilent ask]
  · rw [hstays hends hin, hstays hmore hin']
    exact contribution_congr_ask fun peer hpeer b name hb =>
      hagree b name (some peer) ⟨x, peer, hx, .link hpeer, hb, rfl⟩

/-- Taking away the links of some or of other connections of a block makes no difference to a
connection of the block: they are the same, or have nothing to say about its open generics. -/
structure NoMatter (s : Scene) (block c : Nat) (ends more : List Nat) : Prop where
  ends_owned : ∀ d ∈ ends, s.workspace.owner? d = some block
  more_owned : ∀ d ∈ more, s.workspace.owner? d = some block
  same : ∀ x, s.workspace.owner? x = some block → x ≠ c →
    (x ∈ ends ↔ x ∈ more) ∨ ∀ g ∈ s.openGenerics c, s.Silent x g

variable (hc : s.workspace.owner? c = some block) (hnone : s.NoMatter block c ends more)

include hc in
theorem mem_openGenerics (hgeneric : generic ∈ s.genericsAt c)
    (hopen : s.bindings.find? block generic = none) : generic ∈ s.openGenerics c :=
  List.mem_filter.mpr ⟨hgeneric, by simp [hc, hopen]⟩

include howned hforest hc hnone in
theorem recall_near {depth : Nat} (hgeneric : generic ∈ s.genericsAt c) :
    (s.cut ends).recallWithin depth block generic (some c) =
      (s.cut more).recallWithin depth block generic (some c) := by
  cases depth with
  | zero => rfl
  | succ depth =>
    refine recallWithin_congr rfl fun hfind => akin_cuts.resolveLinks rfl fun x hx hskip => ?_
    have hopen := mem_openGenerics hc hgeneric hfind
    have hxc : x ≠ c := fun heq => hskip (heq ▸ rfl)
    exact contribution_near hforest hnone.ends_owned hnone.more_owned
      (fun b g k => recall_behind howned hforest hnone.ends_owned hnone.more_owned) (howned _ _ hx)
      ((hnone.same x (howned _ _ hx) hxc).imp_right fun hsilent => hsilent generic hopen)

include howned hforest hc hnone in
theorem boundByInputsOnly_near {depth : Nat} (hgeneric : generic ∈ s.genericsAt c)
    (hparent : (s.workspace.place? c).any (·.isParentSide) = true) :
    (s.cut ends).boundByInputsOnly ((s.cut ends).recallWithin depth) block generic =
      (s.cut more).boundByInputsOnly ((s.cut more).recallWithin depth) block generic := by
  refine boundByInputsOnly_congr rfl rfl (fun x => ?_) fun hfind x hx houter => ?_
  · simp only [cut, Workspace.place?_cut]
  · have hopen := mem_openGenerics hc hgeneric hfind
    have hxc : x ≠ c := by
      rintro rfl
      exact absurd hparent (not_parent_of_outer (by simpa [cut] using houter))
    exact contribution_near hforest hnone.ends_owned hnone.more_owned
      (fun b g k => recall_behind howned hforest hnone.ends_owned hnone.more_owned) (howned _ _ hx)
      ((hnone.same x (howned _ _ hx) hxc).imp_right fun hsilent => hsilent generic hopen)

include howned hforest in
theorem boundByInputsOnly_behind {depth b : Nat}
    (hends : ∀ d ∈ ends, s.workspace.owner? d = some block)
    (hmore : ∀ d ∈ more, s.workspace.owner? d = some block)
    (hx : s.workspace.owner? x = some block) (hwalk : s.workspace.Walk x q)
    (hq : s.workspace.owner? q = some b)
    (hparent : (s.workspace.place? q).any (·.isParentSide) = true) :
    (s.cut ends).boundByInputsOnly ((s.cut ends).recallWithin depth) b generic =
      (s.cut more).boundByInputsOnly ((s.cut more).recallWithin depth) b generic := by
  refine boundByInputsOnly_congr rfl rfl (fun x => ?_) fun _ d hd houter => ?_
  · simp only [cut, Workspace.place?_cut]
  · have hdq : d ≠ q := by
      rintro rfl
      exact absurd hparent (not_parent_of_outer (by simpa [cut] using houter))
    have howner := (howned _ _ hd).trans hq.symm
    have hsame {ends : List Nat} (hends : ∀ d ∈ ends, s.workspace.owner? d = some block) :
        (s.cut ends).contribution ((s.cut ends).recallWithin depth) d generic =
          s.contribution (s.recallWithin depth) d generic :=
      contribution_behind hforest hends
        (fun _ _ _ => (alike_behind howned hforest hends).recallWithin) hx hwalk howner hdq
    exact (hsame hends).trans (hsame hmore).symm

include howned hforest hc hnone in
theorem resolve_near :
    ∀ b, (s.cut ends).workspace.owner? c = some b → ∀ g ∈ (s.cut ends).genericsAt c,
      (s.cut ends).resolve b g (some c) = (s.cut more).resolve b g (some c) := by
  intro b hb g hg
  obtain rfl : block = b := Option.some.inj (hc.symm.trans (Workspace.owner?_cut.symm.trans hb))
  rw [akin_cut.genericsAt Workspace.bare?_cut] at hg
  unfold resolve
  rw [depth_cut, depth_cut]
  exact recall_near howned hforest hc hnone hg

include howned hforest in
theorem resolve_behind (hends : ∀ d ∈ ends, s.workspace.owner? d = some block)
    (hmore : ∀ d ∈ more, s.workspace.owner? d = some block)
    (hx : s.workspace.owner? x = some block) (hwalk : s.workspace.Walk x q) :
    ∀ b, (s.cut ends).workspace.owner? q = some b → ∀ g ∈ (s.cut ends).genericsAt q,
      (s.cut ends).resolve b g (some q) = (s.cut more).resolve b g (some q) := by
  intro b hb g _
  unfold resolve
  rw [depth_cut, depth_cut]
  exact recall_behind howned hforest hends hmore
    ⟨x, q, hx, hwalk, Workspace.owner?_cut.symm.trans hb, rfl⟩

include howned hforest hc hnone in
/-- The verdict on a link of the block is the same in both scenes, with or without the link
itself. -/
theorem compatible_cut (hlink : s.workspace.target? c = some p)
    (hsides : (s.workspace.place? c).any (·.isParentSide) = true ∨
      (s.workspace.place? p).any (·.isParentSide) = true) :
    (s.cut ends).compatible c p = (s.cut more).compatible c p := by
  obtain ⟨hends, hmore, -⟩ := id hnone
  have hbare (x : Nat) : (s.cut ends).workspace.bare? x = (s.cut more).workspace.bare? x :=
    Workspace.bare?_cut.trans Workspace.bare?_cut.symm
  have hnear := resolve_near howned hforest hc hnone
  have hfar := resolve_behind howned hforest hends hmore hc (.link hlink)
  have hplace (ends : List Nat) : (s.cut ends).workspace.place? c = s.workspace.place? c :=
    Workspace.place?_cut
  unfold compatible
  refine congrArg (StateT.run' · []) ?_
  simp only [takes, hplace]
  cases hside : (s.workspace.place? c).any (·.isParentSide) with
  | true =>
    simp only [if_true]
    refine akin_cuts.parentTakes (List.forall_mem_cons.mpr ⟨⟨hbare c, hnear⟩,
      List.forall_mem_singleton.mpr ⟨hbare p, hfar⟩⟩) ?_
    intro b hb g hg
    obtain rfl : block = b := Option.some.inj (hc.symm.trans (Workspace.owner?_cut.symm.trans hb))
    rw [akin_cut.genericsAt Workspace.bare?_cut] at hg
    rw [depth_cut, depth_cut]
    exact boundByInputsOnly_near howned hforest hc hnone hg hside
  | false =>
    have hpside := hsides.resolve_left (by simp [hside])
    simp only [Bool.false_eq_true, if_false]
    refine akin_cuts.parentTakes (List.forall_mem_cons.mpr ⟨⟨hbare p, hfar⟩,
      List.forall_mem_singleton.mpr ⟨hbare c, hnear⟩⟩) ?_
    intro b hb g _
    rw [depth_cut, depth_cut]
    exact boundByInputsOnly_behind howned hforest hends hmore hc (.link hlink)
      (Workspace.owner?_cut.symm.trans hb) hpside

end Forest

end Scene

end TypedBlocks
