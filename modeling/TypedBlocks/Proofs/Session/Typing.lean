import TypedBlocks.Proofs.Session.Plain
import TypedBlocks.Proofs.Session.Reads
import TypedBlocks.Proofs.Session.Unify

/-! Verdicts as typing, for blocks whose checks are types or single generics and links that have a
type at one end. If the generics of the blocks can be given types under which every child fulfills
its parent, a verdict is in favour of a further link exactly if this is still so with it. -/
namespace TypedBlocks

/-- Hierarchies in which joining types one by one yields the nearest common ancestors of all. -/
structure Hierarchy.Joining (h : Hierarchy) : Prop where
  linked : h.Linked
  single : h.SinglePath
  variance : h.VarianceConsistent
  plain : ¬h.HasContra ∨ h.Flat
  meeting : h.Meeting

namespace Scene

variable {s s' : Scene} {block a b c d e f x y : Nat} {g : Text} {skip : Option Nat}
  {t u v w : TypeExpr} {ask : Nat → Text → Option Nat → Recalling (List TypeExpr)}

/-! ### What a generic may stand for -/

/-- A type at one end of a link suits the type at the other: the child's fulfills the parent's. -/
def Suits (s : Scene) (x : Nat) (mine theirs : TypeExpr) : Prop :=
  if (s.workspace.place? x).any (·.isParentSide) = true then s.hierarchy.Related theirs mine
  else s.hierarchy.Related mine theirs

/-- The links of a block, apart from a skipped one, allow a generic to stand for the type. -/
structure Allows (s : Scene) (block : Nat) (g : Text) (skip : Option Nat) (w : TypeExpr) :
    Prop where
  ground : s.hierarchy.Ground w
  suits : ∀ x ∈ s.workspace.connectionsOf block, skip ≠ some x → ∀ v, s.said? g x = some v →
    s.Suits x w v

theorem suits_parent (hx : (s.workspace.place? x).any (·.isParentSide) = true) :
    s.Suits x u v ↔ s.hierarchy.Related v u := by
  rw [Suits, if_pos hx]

theorem suits_outer (hx : (s.workspace.place? x).any (·.isOuter) = true) :
    s.Suits x u v ↔ s.hierarchy.Related u v := by
  rw [Suits, if_neg (not_parent_of_outer hx)]

/-- A connection of a block is an outer one or on the parent side. -/
theorem Orderly.sides (hs : s.Orderly) (hx : x ∈ s.workspace.connectionsOf block) :
    (s.workspace.place? x).any (·.isOuter) = true ∨
      (s.workspace.place? x).any (·.isParentSide) = true := by
  obtain ⟨k, hk, -⟩ := Option.map_eq_some_iff.mp (hs.matched.owned hx)
  cases hside : k.place.isParentSide <;>
    simp [Workspace.place?, hk, Place.isOuter, hside]

/-- With nothing from outside, a generic may stand for the types above all that is said. -/
theorem Orderly.allows_iff (hs : s.Orderly)
    (hinputs : ∀ x ∈ s.workspace.connectionsOf block, skip ≠ some x → ∀ v, s.said? g x = some v →
      (s.workspace.place? x).any (·.isOuter) ≠ true) :
    s.Allows block g skip w ↔ s.hierarchy.Ground w ∧
      ∀ v ∈ s.saidOf block g skip, s.hierarchy.Related v w := by
  have hsuits (x : Nat) (hx : x ∈ s.workspace.connectionsOf block) (hskip : skip ≠ some x)
      (v : TypeExpr) (hv : s.said? g x = some v) : s.Suits x w v ↔ s.hierarchy.Related v w :=
    suits_parent ((hs.sides hx).resolve_left (hinputs x hx hskip v hv))
  constructor
  · rintro ⟨hground, hall⟩
    refine ⟨hground, fun v hv => ?_⟩
    obtain ⟨x, hx, hskip, hv⟩ := mem_saidOf.mp hv
    exact (hsuits x hx hskip v hv).mp (hall x hx hskip v hv)
  · rintro ⟨hground, hall⟩
    exact ⟨hground, fun x hx hskip v hv =>
      (hsuits x hx hskip v hv).mpr (hall v (mem_saidOf.mpr ⟨x, hx, hskip, hv⟩))⟩

/-- Where nothing is said, a generic may stand for anything. -/
theorem allows_of_silent (hnil : s.saidOf block g skip = []) (hw : s.hierarchy.Ground w) :
    s.Allows block g skip w := by
  refine ⟨hw, fun x hx hskip v hv => ?_⟩
  have hmem := mem_saidOf.mpr ⟨x, hx, hskip, hv⟩
  rw [hnil] at hmem
  cases hmem

/-- Types are unified to the minimal ones above all of them, and each type above all of them is
above one of these. -/
theorem unify_spec (hj : s.hierarchy.Joining) {types joined : List TypeExpr} (hne : types ≠ [])
    (htypes : ∀ t ∈ types, s.hierarchy.Ground t)
    (hrun : s.unify (types.map ([·])) = .ok joined) :
    (∀ t, t ∈ joined ↔ s.hierarchy.NearestAbove types t) ∧
      s.hierarchy.CoveredBy types joined := by
  obtain ⟨hl, hsingle, hvar, hplain, hmeeting⟩ := hj
  obtain ⟨first, rest, rfl⟩ := List.exists_cons_of_ne_nil hne
  obtain ⟨hfirst, hrest⟩ := List.forall_mem_cons.mp htypes
  have hbounded : s.hierarchy.BoundedBy [first] [first] :=
    List.forall_mem_singleton.mpr ⟨hfirst, List.forall_mem_singleton.mpr (hl.related_refl hfirst)⟩
  have hcovered : s.hierarchy.CoveredBy [first] [first] :=
    fun u _ hup => ⟨first, List.mem_cons_self, hup first List.mem_cons_self⟩
  have hone := List.forall_mem_singleton.mpr hfirst
  exact ⟨fun t => joinAll_nearest hl hsingle hvar hplain hmeeting hone hrest hbounded hcovered
    (List.nodup_singleton first) hrun,
    joinAll_covered hl hsingle hvar hplain hmeeting hone hrest hbounded hcovered hrun⟩

/-- Two known types have a common ancestor exactly if something is above both. -/
theorem haveCommonAncestor_iff (hj : s.hierarchy.Joining) (hu : s.hierarchy.Ground u)
    (hv : s.hierarchy.Ground v) {found : Bool} (hrun : s.haveCommonAncestor u v = .ok found) :
    found = true ↔ ∃ z, s.hierarchy.Ground z ∧ s.hierarchy.Related u z ∧
      s.hierarchy.Related v z := by
  have hpair : ∀ t ∈ [u, v], s.hierarchy.Ground t :=
    List.forall_mem_cons.mpr ⟨hu, List.forall_mem_singleton.mpr hv⟩
  obtain ⟨above, habove, hrun⟩ := bind_eq_ok.mp hrun
  obtain rfl := pure_eq_ok.mp hrun
  have hmem (t : TypeExpr) : t ∈ above ↔ s.hierarchy.NearestAbove [u, v] t :=
    hj.linked.mem_ancestors_iff hj.single hj.variance hj.plain hj.meeting (by simp) hpair habove
  constructor
  · intro hsome
    obtain ⟨z, hz⟩ := List.exists_mem_of_ne_nil above (by simpa using hsome)
    obtain ⟨hground, hup, -⟩ := (hmem z).mp hz
    exact ⟨z, hground, hup u (by simp), hup v (by simp)⟩
  · rintro ⟨z, hz, huz, hvz⟩
    obtain ⟨r, hr, -⟩ := (hj.linked.searches_findAll hj.single hj.plain hj.variance _).1 _ _
      (by simp) hpair habove z hz (by simpa using ⟨huz, hvz⟩) (.inl hj.meeting)
    simpa using List.ne_nil_of_mem hr

section Verdicts

variable (hs : s.Orderly) (hj : s.hierarchy.Joining) (hg : s.isGeneric g = true)
  {joined : List TypeExpr} {fits : Bool}

include hs hg in
theorem Orderly.saidOf_ground : ∀ v ∈ s.saidOf block g skip, s.hierarchy.Ground v := by
  intro v hv
  obtain ⟨x, -, -, hv⟩ := mem_saidOf.mp hv
  exact hs.ground_of_said hg hv

include hs hj hg

/-- Where only inputs say what a generic is, it is enough that something is above all of them. -/
theorem Orderly.lenient_iff
    (hinputs : ∀ x ∈ s.workspace.connectionsOf block, skip ≠ some x → ∀ v, s.said? g x = some v →
      (s.workspace.place? x).any (·.isOuter) ≠ true)
    (hv : s.hierarchy.Ground v) (hnil : s.saidOf block g skip ≠ [])
    (hjoined : s.unify ((s.saidOf block g skip).map ([·])) = .ok joined)
    (hrun : anyPair s.haveCommonAncestor [v] joined = .ok fits) :
    fits = true ↔ ∃ w, s.Allows block g skip w ∧ s.hierarchy.Related v w := by
  obtain ⟨hnearest, hcovered⟩ := unify_spec hj hnil (hs.saidOf_ground hg) hjoined
  simp only [hs.allows_iff hinputs]
  cases fits with
  | true =>
    obtain ⟨_, hmem, r, hr, hcommon⟩ := exists_pair hrun
    obtain rfl := List.mem_singleton.mp hmem
    obtain ⟨hrground, hup, -⟩ := (hnearest r).mp hr
    obtain ⟨z, hz, hvz, hrz⟩ := (haveCommonAncestor_iff hj hv hrground hcommon).mp rfl
    refine ⟨fun _ => ⟨z, ⟨hz, fun t ht => ?_⟩, hvz⟩, fun _ => rfl⟩
    exact hj.linked.related_trans hj.variance (hs.saidOf_ground hg t ht) hrground hz (hup t ht) hrz
  | false =>
    refine ⟨fun hno => absurd hno Bool.false_ne_true, ?_⟩
    rintro ⟨w, ⟨hw, hup⟩, hvw⟩
    obtain ⟨r, hr, hrw⟩ := hcovered w hw hup
    have hnone := forall_pairs hrun v (List.mem_singleton_self v) r hr
    exact (haveCommonAncestor_iff hj hv ((hnearest r).mp hr).ground hnone).mpr ⟨w, hw, hvw, hrw⟩

/-- What is said from outside is above everything that is said, and a generic that may stand for
anything may stand for it. -/
theorem Orderly.allows_outer (hx : x ∈ s.workspace.connectionsOf block) (hskip : skip ≠ some x)
    (houter : (s.workspace.place? x).any (·.isOuter) = true) (hu : s.said? g x = some u)
    (hw : s.Allows block g skip w) :
    s.Allows block g skip u ∧ ∀ t ∈ s.saidOf block g skip, s.hierarchy.Related t u := by
  have hl := hj.linked
  have huground := hs.ground_of_said hg hu
  have hwu : s.hierarchy.Related w u := (suits_outer houter).mp (hw.suits x hx hskip u hu)
  -- Only `x` speaks from outside, and what the inputs say is below what the generic may stand for.
  have hsole {y : Nat} {t : TypeExpr} (hy : y ∈ s.workspace.connectionsOf block)
      (hout : (s.workspace.place? y).any (·.isOuter) = true) (ht : s.said? g y = some t) :
      t = u := by
    have heq : y = x := hs.plain.outer y x g ⟨(said?_eq_some.mp ht).1, hg⟩
      ⟨(said?_eq_some.mp hu).1, hg⟩
      ((hs.matched.owned hy).trans (hs.matched.owned hx).symm) hout houter
    exact Option.some.inj (ht.symm.trans (heq ▸ hu))
  have hup : ∀ t ∈ s.saidOf block g skip, s.hierarchy.Related t u := by
    intro t ht
    obtain ⟨y, hy, hskip, ht⟩ := mem_saidOf.mp ht
    rcases hs.sides hy with hout | hside
    · rw [hsole hy hout ht]
      exact hl.related_refl huground
    · have htw := (suits_parent hside).mp (hw.suits y hy hskip t ht)
      exact hl.related_trans hj.variance (hs.ground_of_said hg ht) hw.ground huground htw hwu
  refine ⟨⟨huground, fun y hy hskip t ht => ?_⟩, hup⟩
  rcases hs.sides hy with hout | hside
  · rw [suits_outer hout, hsole hy hout ht]
    exact hl.related_refl huground
  · exact (suits_parent hside).mpr (hup t (mem_saidOf.mpr ⟨y, hy, hskip, ht⟩))

/-- A generic that something is said about from outside stands for that and nothing else. -/
theorem Orderly.strict_iff (hparent : (s.workspace.place? c).any (·.isParentSide) = true)
    (hx : x ∈ s.workspace.connectionsOf block)
    (houter : (s.workspace.place? x).any (·.isOuter) = true) (hu : s.said? g x = some u)
    (hv : s.hierarchy.Ground v) (hnow : ∃ w, s.Allows block g (some c) w)
    (hjoined : s.unify ((s.saidOf block g (some c)).map ([·])) = .ok joined)
    (hrun : anyPair s.hierarchy.isSubtype [v] joined = .ok fits) :
    fits = true ↔ ∃ w, s.Allows block g (some c) w ∧ s.hierarchy.Related v w := by
  have hl := hj.linked
  have huground := hs.ground_of_said hg hu
  have hskip : some c ≠ some x := by
    rintro heq
    obtain rfl := Option.some.inj heq
    exact not_parent_of_outer houter hparent
  have hmem : u ∈ s.saidOf block g (some c) := mem_saidOf.mpr ⟨x, hx, hskip, hu⟩
  obtain ⟨w₀, hw₀⟩ := hnow
  obtain ⟨hallows, hup⟩ := hs.allows_outer hj hg hx hskip houter hu hw₀
  have hone (t : TypeExpr) : t ∈ joined ↔ t = u := by
    rw [(unify_spec hj (List.ne_nil_of_mem hmem) (hs.saidOf_ground hg) hjoined).1 t]
    constructor
    · intro hnearest
      exact (hnearest.nearest u huground hup (hnearest.above u hmem)).symm
    · rintro rfl
      exact ⟨huground, hup, fun z hz hzup hzu =>
        hl.related_antisymm hz huground hzu (hzup t hmem)⟩
  cases fits with
  | true =>
    obtain ⟨_, hv', r, hr, hsub⟩ := exists_pair hrun
    obtain rfl := List.mem_singleton.mp hv'
    obtain rfl := (hone r).mp hr
    exact ⟨fun _ => ⟨r, hallows, (hl.isSubtype_iff hj.plain hv.valid huground.valid).mp hsub⟩,
      fun _ => rfl⟩
  | false =>
    refine ⟨fun hno => absurd hno Bool.false_ne_true, ?_⟩
    rintro ⟨w, hw, hvw⟩
    have hno := forall_pairs hrun v (List.mem_singleton_self v) u ((hone u).mpr rfl)
    have hwu := (suits_outer houter).mp (hw.suits x hx hskip u hu)
    have hyes := (hl.isSubtype_iff hj.plain hv.valid huground.valid).mpr
      (hl.related_trans hj.variance hv hw.ground huground hvw hwu)
    rw [hno] at hyes
    cases hyes

variable (hstar : g ≠ TypeExpr.star)

include hstar

/-- A known type is accepted below a generic exactly if the generic can stand for a type above
it. -/
theorem Orderly.parent_iff (hparent : (s.workspace.place? c).any (·.isParentSide) = true)
    (hv : s.hierarchy.Ground v)
    (hnow : s.saidOf block g (some c) = [] ∨ ∃ w, s.Allows block g (some c) w)
    (hrun : (s.judge s.resolve c block ⟨g, []⟩ d b v).run' [] = .ok fits) :
    fits = true ↔ ∃ w, s.Allows block g (some c) w ∧ s.hierarchy.Related v w := by
  have hl := hj.linked
  rw [hs.judge_parent hl hg hstar hv] at hrun
  obtain ⟨joined, hjoined, hrun⟩ := bind_eq_ok.mp hrun
  by_cases hnil : s.saidOf block g (some c) = []
  · rw [hnil] at hjoined
    obtain rfl : [TypeExpr.wildcard] = joined := Except.ok.inj hjoined
    obtain rfl : true = fits := Except.ok.inj hrun
    exact ⟨fun _ => ⟨v, allows_of_silent hnil hv, hl.related_refl hv⟩, fun _ => rfl⟩
  obtain ⟨hnearest, hcovered⟩ := unify_spec hj hnil (hs.saidOf_ground hg) hjoined
  rw [contains_wildcard_of_ground fun t ht => ((hnearest t).mp ht).ground] at hrun
  simp only [Bool.false_eq_true, if_false] at hrun
  split at hrun
  · next houter =>
    obtain ⟨x, hx, hsays⟩ := List.any_eq_true.mp houter
    obtain ⟨houter, hsome⟩ := Bool.and_eq_true_iff.mp hsays
    obtain ⟨u, hu⟩ := Option.isSome_iff_exists.mp hsome
    exact hs.strict_iff hj hg hparent hx houter hu hv (hnow.resolve_left hnil) hjoined hrun
  · next hsilent =>
    refine hs.lenient_iff hj hg (fun x hx hskip u hu houter => hsilent ?_) hv hnil hjoined hrun
    exact List.any_eq_true.mpr ⟨x, hx, by simp [houter, hu]⟩

/-- A generic is accepted below a known type exactly if it can stand for a type below it. -/
theorem Orderly.child_iff (houter : (s.workspace.place? d).any (·.isOuter) = true)
    (hd : s.GenericAt d g) (hblock : s.workspace.owner? d = some block)
    (hu : s.hierarchy.Ground u)
    (hrun : (s.judge s.resolve c b u d block ⟨g, []⟩).run' [] = .ok fits) :
    fits = true ↔ ∃ w, s.Allows block g (some d) w ∧ s.hierarchy.Related w u := by
  have hl := hj.linked
  rw [hs.judge_child hl hg hstar hu] at hrun
  obtain ⟨joined, hjoined, hrun⟩ := bind_eq_ok.mp hrun
  by_cases hnil : s.saidOf block g (some d) = []
  · rw [hnil] at hjoined
    obtain rfl : [TypeExpr.wildcard] = joined := Except.ok.inj hjoined
    obtain rfl : true = fits := Except.ok.inj hrun
    exact ⟨fun _ => ⟨u, allows_of_silent hnil hu, hl.related_refl hu⟩, fun _ => rfl⟩
  have hinputs : ∀ x ∈ s.workspace.connectionsOf block, some d ≠ some x → ∀ v,
      s.said? g x = some v → (s.workspace.place? x).any (·.isOuter) ≠ true := by
    intro x hx hskip v hv hout
    have heq := hs.plain.outer d x g hd ⟨(said?_eq_some.mp hv).1, hg⟩
      (hblock.trans (hs.matched.owned hx).symm) houter hout
    exact hskip (heq ▸ rfl)
  simp only [hs.allows_iff hinputs]
  obtain ⟨hnearest, hcovered⟩ := unify_spec hj hnil (hs.saidOf_ground hg) hjoined
  rw [contains_wildcard_of_ground fun t ht => ((hnearest t).mp ht).ground] at hrun
  simp only [Bool.false_eq_true, if_false] at hrun
  have hsub {t : TypeExpr} (ht : s.hierarchy.Ground t) :=
    hl.isSubtype_iff hj.plain ht.valid hu.valid
  cases fits with
  | true =>
    obtain ⟨r, hr, _, hu', hru⟩ := exists_pair hrun
    obtain rfl := List.mem_singleton.mp hu'
    obtain ⟨hground, hup, -⟩ := (hnearest r).mp hr
    exact ⟨fun _ => ⟨r, ⟨hground, hup⟩, (hsub hground).mp hru⟩, fun _ => rfl⟩
  | false =>
    refine ⟨fun hno => absurd hno Bool.false_ne_true, ?_⟩
    rintro ⟨w, ⟨hw, hup⟩, hwu⟩
    obtain ⟨r, hr, hrw⟩ := hcovered w hw hup
    have hground := ((hnearest r).mp hr).ground
    have hno := forall_pairs hrun r hr u (List.mem_singleton_self u)
    have hyes := (hsub hground).mpr (hl.related_trans hj.variance hground hw hu hrw hwu)
    rw [hno] at hyes
    cases hyes

end Verdicts

/-- A known type is accepted below another one exactly if it fulfills it. -/
theorem judge_ground_iff (hj : s.hierarchy.Joining) (hu : s.hierarchy.Ground u)
    (hv : s.hierarchy.Ground v) {fits : Bool}
    (hrun : (s.judge ask c b u d block v).run' [] = .ok fits) :
    fits = true ↔ s.hierarchy.Related v u := by
  rw [judge_ground hj.linked hu hv] at hrun
  rw [← hj.linked.isSubtype_iff hj.plain hv.valid hu.valid]
  cases fits with
  | true =>
    obtain ⟨_, hv', _, hu', hsub⟩ := exists_pair hrun
    obtain rfl := List.mem_singleton.mp hv'
    obtain rfl := List.mem_singleton.mp hu'
    exact ⟨fun _ => hsub, fun _ => rfl⟩
  | false =>
    have hno := forall_pairs hrun v (List.mem_singleton_self v) u (List.mem_singleton_self u)
    simp [hno]

/-! ### Typing -/

/-- What a connection stands for, given types for the generics of all blocks. -/
inductive Stands (s : Scene) (types : Nat → Text → TypeExpr) (c : Nat) : TypeExpr → Prop
  | known {t : TypeExpr} (ht : s.typeAt? c = some t) (hground : s.hierarchy.Ground t) :
      Stands s types c t
  | generic {g : Text} {block : Nat} (hg : s.GenericAt c g)
      (hblock : s.workspace.owner? c = some block) : Stands s types c (types block g)

/-- At every link the child's type fulfills the parent's. -/
def Typing (s : Scene) (types : Nat → Text → TypeExpr) : Prop :=
  ∀ x y, s.workspace.target? x = some y → ∀ u v, s.Stands types x u → s.Stands types y v →
    s.hierarchy.Ground u ∧ s.hierarchy.Ground v ∧ s.Suits x u v

/-- The generics of the blocks can be given types that suit all links. -/
def Typable (s : Scene) : Prop :=
  ∃ types, s.Typing types

section Typing

variable {types : Nat → Text → TypeExpr}

theorem Relinked.typeAt? (hre : s.Relinked s') : s.typeAt? x = s'.typeAt? x := by
  rw [Scene.typeAt?, Scene.typeAt?, hre.check?, hre.akin.readCheck]

theorem Relinked.genericAt (hre : s.Relinked s') : s.GenericAt x g ↔ s'.GenericAt x g := by
  rw [GenericAt, GenericAt, hre.typeAt?, hre.akin.isGeneric]

theorem Relinked.plain (hre : s.Relinked s') (hs : s.Plain) : s'.Plain := by
  have howner (x : Nat) : s'.workspace.owner? x = s.workspace.owner? x := by
    rw [Workspace.owner?_eq_bare, Workspace.owner?_eq_bare, hre.bare]
  constructor
  · intro c b hc
    rw [← hre.connectionsOf]
    exact hs.present c b (howner c ▸ hc)
  · intro c text htext
    rw [← hre.akin.hierarchy, ← hre.akin.readCheck]
    simp only [← hre.akin.isGeneric]
    exact hs.checks c text (hre.check?.trans htext)
  · intro c d g hc hd hsame hcouter hdouter
    rw [howner, howner] at hsame
    rw [← hre.place?] at hcouter hdouter
    exact hs.outer c d g (hre.genericAt.mpr hc) (hre.genericAt.mpr hd) hsame hcouter hdouter

theorem Relinked.anchored (hre : s.Relinked s') (hs : s.Anchored a b) : s'.Anchored a b :=
  fun g g' ha hb => hs g g' (hre.genericAt.mpr ha) (hre.genericAt.mpr hb)

theorem Relinked.stands (hre : s.Relinked s') : s.Stands types x u ↔ s'.Stands types x u := by
  have howner : s.workspace.owner? x = s'.workspace.owner? x := by
    rw [Workspace.owner?_eq_bare, Workspace.owner?_eq_bare, hre.bare]
  constructor
  · rintro (⟨ht, hground⟩ | ⟨hg, hblock⟩)
    · exact .known (hre.typeAt? ▸ ht) (hre.akin.hierarchy ▸ hground)
    · exact .generic (hre.genericAt.mp hg) (howner ▸ hblock)
  · rintro (⟨ht, hground⟩ | ⟨hg, hblock⟩)
    · exact .known (hre.typeAt?.trans ht) (hre.akin.hierarchy ▸ hground)
    · exact .generic (hre.genericAt.mpr hg) (howner.trans hblock)

theorem Relinked.suits (hre : s.Relinked s') : s.Suits x u v ↔ s'.Suits x u v := by
  rw [Suits, Suits, hre.place?, hre.akin.hierarchy]

/-- The other end of a link sees it the other way round. -/
theorem suits_swap (hjoins : s.workspace.Joins x y) : s.Suits x u v ↔ s.Suits y v u := by
  rcases hjoins.sides with ⟨hparent, houter⟩ | ⟨hparent, houter⟩
  · rw [suits_parent hparent, suits_outer houter]
  · rw [suits_parent hparent, suits_outer houter]

/-- Fewer links are easier to give types to. -/
theorem Typable.mono (hs' : s'.Typable) (hre : s.Relinked s')
    (hlinks : ∀ x y, s.workspace.target? x = some y → s'.workspace.target? x = some y) :
    s.Typable := by
  obtain ⟨types, htyping⟩ := hs'
  refine ⟨types, fun x y hxy u v hu hv => ?_⟩
  rw [hre.suits, hre.akin.hierarchy]
  exact htyping x y (hlinks x y hxy) u v (hre.stands.mp hu) (hre.stands.mp hv)

theorem typable_of_free (hfree : ∀ c, s.workspace.target? c = none) : s.Typable :=
  ⟨fun _ _ => .wildcard, fun x y hxy => by simp [hfree] at hxy⟩

theorem stands_generic (hl : s.hierarchy.Linked) (he : s.GenericAt e g)
    (hblock : s.workspace.owner? e = some block) (hu : s.Stands types e u) :
    u = types block g := by
  rcases hu with ⟨ht, hground⟩ | ⟨hg, hblock'⟩
  · obtain rfl := Option.some.inj (he.1.symm.trans ht)
    exact absurd hground (not_ground_of_generic hl he.2)
  · obtain ⟨rfl, -⟩ := TypeExpr.mk.inj (Option.some.inj (he.1.symm.trans hg.1))
    obtain rfl := Option.some.inj (hblock.symm.trans hblock')
    rfl

theorem stands_known (hl : s.hierarchy.Linked) (hf : s.typeAt? f = some t)
    (ht : s.hierarchy.Ground t) (hu : s.Stands types f u) : u = t := by
  rcases hu with ⟨ht', -⟩ | ⟨hg, -⟩
  · exact Option.some.inj (ht'.symm.trans hf)
  · obtain rfl := Option.some.inj (hg.1.symm.trans hf)
    exact absurd ht (not_ground_of_generic hl hg.2)

def giving (types : Nat → Text → TypeExpr) (block : Nat) (g : Text) (w : TypeExpr) :
    Nat → Text → TypeExpr :=
  fun b name => if b = block ∧ name = g then w else types b name

theorem stands_giving (hu : s.Stands (giving types block g w) x u) :
    (u = w ∧ s.GenericAt x g ∧ s.workspace.owner? x = some block) ∨ s.Stands types x u := by
  rcases hu with ⟨ht, hground⟩ | @⟨name, b, hname, hb⟩
  · exact .inr (.known ht hground)
  · by_cases hsame : b = block ∧ name = g
    · obtain ⟨rfl, rfl⟩ := hsame
      exact .inl ⟨if_pos ⟨rfl, rfl⟩, hname, hb⟩
    · rw [giving, if_neg hsame]
      exact .inr (.generic hname hb)

/-- What a generic is given is allowed by the links. -/
theorem Orderly.allows_of_typing (hs : s.Orderly) (hg : s.isGeneric g = true)
    (htyping : s.Typing types) :
    s.saidOf block g skip = [] ∨ s.Allows block g skip (types block g) := by
  have hfits (x : Nat) (hx : x ∈ s.workspace.connectionsOf block) (v : TypeExpr)
      (hv : s.said? g x = some v) :
      s.hierarchy.Ground (types block g) ∧ s.Suits x (types block g) v := by
    obtain ⟨hmine, y, hxy, hy⟩ := said?_eq_some.mp hv
    obtain ⟨hground, -, hsuits⟩ := htyping x y hxy _ _
      (.generic ⟨hmine, hg⟩ (hs.matched.owned hx)) (.known hy (hs.ground_of_said hg hv))
    exact ⟨hground, hsuits⟩
  by_cases hnil : s.saidOf block g skip = []
  · exact .inl hnil
  · obtain ⟨v, hv⟩ := List.exists_mem_of_ne_nil _ hnil
    obtain ⟨x, hx, -, hv⟩ := mem_saidOf.mp hv
    exact .inr ⟨(hfits x hx v hv).1, fun x hx _ v hv => (hfits x hx v hv).2⟩

/-- The second scene has the links of the first, except that two connections are linked in place of
what they were linked to. -/
def LinkedIn (s s' : Scene) (e f : Nat) : Prop :=
  ∀ x y, s'.workspace.target? x = some y ↔ (x = e ∧ y = f) ∨ (x = f ∧ y = e) ∨
    (x ∉ [e, f] ∧ y ∉ [e, f] ∧ s.workspace.target? x = some y)

theorem LinkedIn.symm (hlinks : s.LinkedIn s' e f) : s.LinkedIn s' f e := by
  intro x y
  rw [hlinks x y, List.mem_pair, List.mem_pair, List.mem_pair, List.mem_pair]
  tauto

variable (hre : s.Relinked s') (hlinks : s.LinkedIn s' e f) (hjoins : s.workspace.Joins e f)

include hre hlinks hjoins

theorem typing_of_links
    (hnew : ∀ u v, s.Stands types e u → s.Stands types f v →
      s.hierarchy.Ground u ∧ s.hierarchy.Ground v ∧ s.Suits e u v)
    (hold : ∀ x y, x ∉ [e, f] → y ∉ [e, f] → s.workspace.target? x = some y →
      ∀ u v, s.Stands types x u → s.Stands types y v →
        s.hierarchy.Ground u ∧ s.hierarchy.Ground v ∧ s.Suits x u v) : s'.Typing types := by
  intro x y hxy u v hu hv
  rw [← hre.stands] at hu hv
  rw [← hre.suits, ← hre.akin.hierarchy]
  rcases (hlinks x y).mp hxy with ⟨rfl, rfl⟩ | ⟨rfl, rfl⟩ | ⟨hx, hy, hxy⟩
  · exact hnew u v hu hv
  · obtain ⟨hv, hu, hsuits⟩ := hnew v u hv hu
    exact ⟨hu, hv, (suits_swap hjoins).mp hsuits⟩
  · exact hold x y hx hy hxy u v hu hv

/-- A link between known types changes nothing for the generics. -/
theorem typable_iff_suits (hl : s.hierarchy.Linked) (htypable : s.Typable)
    (he : s.typeAt? e = some u) (hu : s.hierarchy.Ground u) (hf : s.typeAt? f = some v)
    (hv : s.hierarchy.Ground v) : s'.Typable ↔ s.Suits e u v := by
  constructor
  · rintro ⟨types, htyping⟩
    obtain ⟨-, -, hsuits⟩ := htyping e f ((hlinks e f).mpr (.inl ⟨rfl, rfl⟩)) u v
      (hre.stands.mp (.known he hu)) (hre.stands.mp (.known hf hv))
    exact hre.suits.mpr hsuits
  · intro hsuits
    obtain ⟨types, htyping⟩ := htypable
    refine ⟨types, typing_of_links hre hlinks hjoins (fun u' v' hu' hv' => ?_)
      fun x y _ _ hxy => htyping x y hxy⟩
    rw [stands_known hl he hu hu', stands_known hl hf hv hv']
    exact ⟨hu, hv, hsuits⟩

/-- A link without a check at one end changes nothing either. -/
theorem typable_of_unchecked (htypable : s.Typable)
    (hnone : s.typeAt? e = none ∨ s.typeAt? f = none) : s'.Typable := by
  obtain ⟨types, htyping⟩ := htypable
  refine ⟨types, typing_of_links hre hlinks hjoins (fun u v hu hv => ?_)
    fun x y _ _ hxy => htyping x y hxy⟩
  have hread {c : Nat} {t : TypeExpr} (ht : s.Stands types c t) : s.typeAt? c ≠ none := by
    rcases ht with ⟨ht, -⟩ | ⟨hg, -⟩
    · simp [ht]
    · simp [hg.1]
  exact absurd hnone (not_or.mpr ⟨hread hu, hread hv⟩)

/-- A link between a generic and a known type asks for a type that the other links of the generic
allow and that suits this one. -/
theorem Orderly.typable_iff_allows (hs : s.Orderly) (hl : s.hierarchy.Linked)
    (htypable : s.Typable) (he : s.GenericAt e g) (hblock : s.workspace.owner? e = some block)
    (hf : s.typeAt? f = some t) (ht : s.hierarchy.Ground t) :
    s'.Typable ↔ ∃ w, s.Allows block g (some e) w ∧ s.Suits e w t := by
  constructor
  · rintro ⟨types, htyping⟩
    obtain ⟨hground, -, hsuits⟩ := htyping e f ((hlinks e f).mpr (.inl ⟨rfl, rfl⟩)) _ t
      (hre.stands.mp (.generic he hblock)) (hre.stands.mp (.known hf ht))
    rw [← hre.akin.hierarchy] at hground
    rw [← hre.suits] at hsuits
    refine ⟨_, ⟨hground, fun x hx hskip v hv => ?_⟩, hsuits⟩
    obtain ⟨hmine, y, hxy, hy⟩ := said?_eq_some.mp hv
    have hxg : s.GenericAt x g := ⟨hmine, he.2⟩
    have hxe : x ≠ e := fun heq => hskip (heq ▸ rfl)
    have hxf : x ≠ f := by
      rintro rfl
      obtain rfl := Option.some.inj (hmine.symm.trans hf)
      exact not_ground_of_generic hl he.2 ht
    have hye : y ≠ e := by
      rintro rfl
      exact hs.anchored hxy g g hxg he
    by_cases hyf : y = f
    · -- The known type is already linked to another connection with the same generic.
      subst hyf
      obtain rfl := Option.some.inj (hf.symm.trans hy)
      rw [suits_swap hjoins] at hsuits
      exact (suits_swap (hs.matched.joins hxy)).mpr hsuits
    · have hlinked := (hlinks x y).mpr (.inr (.inr ⟨by simp [hxe, hxf], by simp [hye, hyf], hxy⟩))
      obtain ⟨-, -, hother⟩ := htyping x y hlinked _ v
        (hre.stands.mp (.generic hxg (hs.matched.owned hx)))
        (hre.stands.mp (.known hy (hs.ground_of_said he.2 hv)))
      exact hre.suits.mpr hother
  · rintro ⟨w, hallows, hsuits⟩
    obtain ⟨types, htyping⟩ := htypable
    -- A link at the generic has a known type at its other end, which the given type suits.
    have hown {x y : Nat} (hxe : x ≠ e) (hxy : s.workspace.target? x = some y)
        (hx : s.GenericAt x g) (hxblock : s.workspace.owner? x = some block) {v : TypeExpr}
        (hv : s.Stands (giving types block g w) y v) :
        s.hierarchy.Ground w ∧ s.hierarchy.Ground v ∧ s.Suits x w v := by
      rcases hv with ⟨hy, hground⟩ | ⟨hy, -⟩
      · refine ⟨hallows.ground, hground, hallows.suits x (hs.plain.present x block hxblock)
          (fun heq => hxe (Option.some.inj heq).symm) v ?_⟩
        exact said?_eq_some.mpr ⟨hx.1, y, hxy, hy⟩
      · exact absurd hy (hs.anchored hxy _ _ hx)
    refine ⟨giving types block g w, typing_of_links hre hlinks hjoins (fun u v hu hv => ?_) ?_⟩
    · rw [stands_generic hl he hblock hu, stands_known hl hf ht hv, giving, if_pos ⟨rfl, rfl⟩]
      exact ⟨hallows.ground, ht, hsuits⟩
    · intro x y hx hy hxy u v hu hv
      rcases stands_giving hu with ⟨rfl, hxg, hxblock⟩ | hu'
      · exact hown (by grind) hxy hxg hxblock hv
      · rcases stands_giving hv with ⟨rfl, hyg, hyblock⟩ | hv'
        · obtain ⟨hw, hu, hother⟩ := hown (by grind) (hs.matched.back hxy) hyg hyblock hu
          exact ⟨hu, hw, (suits_swap (hs.matched.joins hxy)).mpr hother⟩
        · exact htyping x y hxy u v hu' hv'

/-- A verdict is in favour of a link exactly if the links could then be given types. -/
theorem Orderly.parentTakes_iff (hs : s.Orderly) (hj : s.hierarchy.Joining)
    (htypable : s.Typable) (hanchored : s.Anchored e f)
    (hparent : (s.workspace.place? e).any (·.isParentSide) = true) {fits : Bool}
    (hrun : (s.parentTakes s.resolve e f).run' [] = .ok fits) : fits = true ↔ s'.Typable := by
  have hl := hj.linked
  have hread (c : Nat) : s.workspace.check? c = none → s.typeAt? c = none := by
    intro hnone
    rw [Scene.typeAt?, hnone, Option.bind_none]
  by_cases hunchecked : s.workspace.check? e = none ∨ s.workspace.check? f = none
  · rw [parentTakes_of_unchecked hunchecked] at hrun
    obtain rfl : true = fits := Except.ok.inj hrun
    exact ⟨fun _ => typable_of_unchecked hre hlinks hjoins htypable
      (hunchecked.imp (hread e) (hread f)), fun _ => rfl⟩
  obtain ⟨he, hf⟩ := not_or.mp hunchecked
  obtain ⟨text, htext⟩ := Option.ne_none_iff_exists'.mp he
  obtain ⟨text', htext'⟩ := Option.ne_none_iff_exists'.mp hf
  obtain ⟨k, hk, hcheck⟩ := Option.bind_eq_some_iff.mp htext
  obtain ⟨k', hk', hcheck'⟩ := Option.bind_eq_some_iff.mp htext'
  have hblock : s.workspace.owner? e = some k.block := by
    rw [Workspace.owner?_eq_bare, hk, Option.map_some]
  have hblock' : s.workspace.owner? f = some k'.block := by
    rw [Workspace.owner?_eq_bare, hk', Option.map_some]
  rw [parentTakes_of_checked hk hcheck hk' hcheck'] at hrun
  obtain ⟨u, hu, hrun⟩ := run_lift_bind hrun
  obtain ⟨v, hv, hrun⟩ := run_lift_bind hrun
  have hu := typeAt?_eq htext hu
  have hv := typeAt?_eq htext' hv
  rcases hs.plain.typeAt? hu with huground | ⟨g, hg, rfl, hstar⟩
  · rcases hs.plain.typeAt? hv with hvground | ⟨g, hg, rfl, hstar⟩
    · rw [judge_ground_iff hj huground hvground hrun,
        typable_iff_suits hre hlinks hjoins hl htypable hu huground hv hvground,
        suits_parent hparent]
    · have houter := (hjoins.sides.resolve_right fun hsides =>
        not_parent_of_outer hsides.2 hparent).2
      rw [hs.child_iff hj hg.2 hstar houter hg hblock' huground hrun,
        hs.typable_iff_allows hre hlinks.symm hjoins.symm hl htypable hg hblock' hu huground]
      simp only [suits_outer houter]
  · rcases hs.plain.typeAt? hv with hvground | ⟨g', hg', -, -⟩
    · obtain ⟨types, htyping⟩ := id htypable
      have hnow : s.saidOf k.block g (some e) = [] ∨ ∃ w, s.Allows k.block g (some e) w :=
        (hs.allows_of_typing hg.2 htyping).imp_right fun hallows => ⟨_, hallows⟩
      rw [hs.parent_iff hj hg.2 hstar hparent hvground hnow hrun,
        hs.typable_iff_allows hre hlinks hjoins hl htypable hg hblock hv hvground]
      simp only [suits_parent hparent]
    · exact absurd hg' (hanchored g g' hg)

omit hre hlinks hjoins in
/-- Where the links can be given types, a verdict is in favour of a further link exactly if they
could still be given types with it. -/
theorem Orderly.compatible_iff (hs : s.Orderly) (hj : s.hierarchy.Joining)
    (htypable : s.Typable) (hjoins : s.workspace.Joins a b) (hanchored : s.Anchored a b)
    {fits : Bool} (hrun : s.compatible a b = .ok fits) :
    fits = true ↔ (s.wired (s.workspace.connect a b)).Typable := by
  have hre : s.Relinked (s.wired (s.workspace.connect a b)) := relinked_connect hs.matched
  have hlinks : s.LinkedIn (s.wired (s.workspace.connect a b)) a b :=
    fun x y => hs.matched.target?_connect hjoins
  unfold compatible compatibleIn takes at hrun
  split at hrun
  · next hparent => exact hs.parentTakes_iff hre hlinks hjoins hj htypable hanchored hparent hrun
  · next hside =>
    have hparent := (hjoins.sides.resolve_left fun hsides => hside hsides.1).1
    exact hs.parentTakes_iff hre hlinks.symm hjoins.symm hj htypable hanchored.symm hparent hrun

end Typing

/-! ### Linking on -/

theorem Orderly.sound (hs : s.Orderly) (hl : s.hierarchy.Linked) : s.Sound :=
  ⟨hl, fun _ _ => hs.matched.owned, fun c text htext =>
    (hs.plain.checks c text htext).imp fun _ ht => ht.1, by simp [hs.unbound]⟩

/-- An accepted link leaves links that have a type at one end, and for which there are types. -/
theorem Orderly.connect (hs : s.Orderly) (hjoins : s.workspace.Joins a b)
    (hanchored : s.Anchored a b) : (s.wired (s.workspace.connect a b)).Orderly := by
  have hre : s.Relinked (s.wired (s.workspace.connect a b)) := relinked_connect hs.matched
  refine ⟨hre.plain hs.plain, hs.matched.connect hjoins, hs.unbound, fun {x y} hxy => ?_⟩
  rcases (hs.matched.target?_connect hjoins).mp hxy with ⟨rfl, rfl⟩ | ⟨rfl, rfl⟩ | ⟨-, -, hxy⟩
  · exact hre.anchored hanchored
  · exact hre.anchored hanchored.symm
  · exact hre.anchored (hs.anchored hxy)

/-- The verdict on a further link says whether there are types for the links with it. -/
theorem Orderly.compatible_delivers (hs : s.Orderly) (hj : s.hierarchy.Joining)
    (hforest : s.workspace.Forest) (htypable : s.Typable) (hjoins : s.workspace.Joins a b)
    (hanchored : s.Anchored a b) :
    Delivers s.hierarchy.Endless
      (fun fits => fits = true ↔ (s.wired (s.workspace.connect a b)).Typable)
      (s.compatible a b) := by
  have hdelivers : Delivers s.Endless (fun _ => True) (s.compatible a b) :=
    ((hs.sound hj.linked).takes_keeps a b).run'
  cases hrun : s.compatible a b with
  | ok fits => exact .result (hs.compatible_iff hj htypable hjoins hanchored hrun)
  | error fault =>
    rw [hrun] at hdelivers
    cases hdelivers with
    | unending hexcuse => exact .unending (hexcuse.resolve_left (not_not_intro hforest))

end Scene

end TypedBlocks
