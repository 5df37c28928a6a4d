import TypedBlocks.Proofs.Session.Frame

/-! What a verdict reads. A question about a generic of a block reads the links at the checks that
mention it, and leads to questions about the generics in the checks at the other ends. Links that
are not read do not matter; in particular a link is not read by the verdict on itself. -/
namespace TypedBlocks

namespace Scene

variable {s s' : Scene} {block a b c d x : Nat} {generic : Text} {skip : Option Nat}
  {ask ask' : Nat → Text → Option Nat → Recalling (List TypeExpr)}

/-- The connections whose links settle what a generic of a block stands for. -/
inductive Reads (s : Scene) : Nat → Text → Option Nat → Nat → Prop
  | here {block x : Nat} {generic : Text} {skip : Option Nat}
      (hx : x ∈ s.workspace.connectionsOf block) (hskip : skip ≠ some x)
      (hgeneric : generic ∈ s.genericsAt x) : Reads s block generic skip x
  | on {block x y b d : Nat} {generic g : Text} {skip : Option Nat}
      (hx : x ∈ s.workspace.connectionsOf block) (hskip : skip ≠ some x)
      (hgeneric : generic ∈ s.genericsAt x) (hy : s.workspace.target? x = some y)
      (hb : s.workspace.owner? y = some b) (hg : g ∈ s.genericsAt y)
      (hd : Reads s b g (some y) d) : Reads s block generic skip d

/-- The connections whose links the verdict on two connections depends on. -/
def ReadsFor (s : Scene) (a b d : Nat) : Prop :=
  ∃ c ∈ [a, b], ∃ block, s.workspace.owner? c = some block ∧
    ∃ g ∈ s.genericsAt c, s.Reads block g (some c) d

def wired (s : Scene) (w : Workspace) : Scene :=
  { s with workspace := w }

structure Relinked (s s' : Scene) : Prop where
  akin : s.Akin s'
  bindings : s.bindings = s'.bindings
  connectionsOf : ∀ b, s.workspace.connectionsOf b = s'.workspace.connectionsOf b
  bare : ∀ x, s.workspace.bare? x = s'.workspace.bare? x

/-- The checks of linked connections can be read, unless the other end has none. -/
def Vetted (s : Scene) : Prop :=
  ∀ c peer text, s.workspace.target? c = some peer → s.workspace.check? c = some text →
    s.workspace.check? peer ≠ none → ∃ t, s.readCheck text = .ok t

/-- What a connection says depends on its link, and on the answers about the generics at the other
end. -/
theorem Akin.contribution_of_generics (hakin : s.Akin s')
    (hread : s.workspace.connection? c = s'.workspace.connection? c)
    (hpeer : ∀ peer, s.workspace.target? c = some peer →
      s.workspace.bare? peer = s'.workspace.bare? peer ∧
      ∀ block, s.workspace.owner? peer = some block → ∀ name ∈ s.genericsAt peer,
        ask block name (some peer) = ask' block name (some peer)) :
    s.contribution ask c generic = s'.contribution ask' c generic := by
  unfold Scene.contribution
  rw [← hread]
  cases hk : s.workspace.connection? c with
  | none => rfl
  | some k =>
    obtain ⟨_, _, check, target⟩ := k
    cases check with
    | none => rfl
    | some text =>
      cases target with
      | none => rfl
      | some peer =>
        obtain ⟨hbare, hask⟩ := hpeer peer (by simp [Workspace.target?, hk])
        simp only [Workspace.connection?_eq_bare (x := peer), ← hbare]
        cases hp : s.workspace.bare? peer with
        | none => rfl
        | some l =>
          obtain ⟨block, _, peerCheck, _⟩ := l
          cases peerCheck with
          | none => rfl
          | some peerText =>
            have hblock := hask block (by rw [Workspace.owner?_eq_bare, hp, Option.map_some])
            have hcheck : s.workspace.check? peer = some peerText := by
              rw [Workspace.check?, hp, Option.bind_some]
            simp only [Option.map_some, readCheck_eq_lift, ← hakin.readCheck]
            refine lift_bind_congr fun t _ => ?_
            split
            · rfl
            · refine lift_bind_congr fun u hu => ?_
              rw [genericsAt_eq hcheck hu] at hblock
              rw [hakin.expand hblock]
              simp only [hakin.gather]

theorem Relinked.symm (hre : s.Relinked s') : s'.Relinked s :=
  ⟨⟨hre.akin.hierarchy.symm, hre.akin.pattern.symm⟩, hre.bindings.symm,
    fun b => (hre.connectionsOf b).symm, fun x => (hre.bare x).symm⟩

theorem Relinked.trans {s'' : Scene} (hre : s.Relinked s') (hre' : s'.Relinked s'') :
    s.Relinked s'' :=
  ⟨⟨hre.akin.hierarchy.trans hre'.akin.hierarchy, hre.akin.pattern.trans hre'.akin.pattern⟩,
    hre.bindings.trans hre'.bindings,
    fun b => (hre.connectionsOf b).trans (hre'.connectionsOf b),
    fun x => (hre.bare x).trans (hre'.bare x)⟩

theorem Relinked.connection? (hre : s.Relinked s')
    (htarget : s.workspace.target? x = s'.workspace.target? x) :
    s.workspace.connection? x = s'.workspace.connection? x := by
  rw [Workspace.connection?_eq_bare, Workspace.connection?_eq_bare, hre.bare, htarget]

theorem Relinked.check? (hre : s.Relinked s') : s.workspace.check? x = s'.workspace.check? x := by
  rw [Workspace.check?, Workspace.check?, hre.bare]

theorem Relinked.place? (hre : s.Relinked s') : s.workspace.place? x = s'.workspace.place? x := by
  rw [Workspace.place?_eq_bare, Workspace.place?_eq_bare, hre.bare]

/-- The links that a question reads are the same in two scenes. -/
def Unchanged (s s' : Scene) (block : Nat) (generic : Text) (skip : Option Nat) : Prop :=
  s.isGeneric generic = true ∧ generic ≠ TypeExpr.star ∧
    ∀ d, s.Reads block generic skip d → s.workspace.target? d = s'.workspace.target? d

section Unread

variable (hre : s.Relinked s') (hs : s.Vetted) (hs' : s'.Vetted)

include hre hs hs'

/-- A connection of the block says the same in both scenes: its link is read, or it has no say. -/
theorem Relinked.contribution (hsame : s.Unchanged s' block generic skip)
    (hagree : ∀ b g k, s.Unchanged s' b g k → ask b g k = ask' b g k)
    (hx : x ∈ s.workspace.connectionsOf block) (hskip : skip ≠ some x) :
    s.contribution ask x generic = s'.contribution ask' x generic := by
  obtain ⟨hgeneric, hstar, htarget⟩ := hsame
  by_cases hmem : generic ∈ s.genericsAt x
  · refine hre.akin.contribution_of_generics
      (hre.connection? (htarget x (.here hx hskip hmem))) fun y hy => ⟨hre.bare y, ?_⟩
    intro b hb g hg
    obtain ⟨hname, hne⟩ := isGeneric_of_mem_genericsAt hg
    exact hagree b g (some y) ⟨hname, hne, fun d hd =>
      htarget d (.on hx hskip hmem hy hb hg hd)⟩
  · have hmem' : generic ∉ s'.genericsAt x := by
      rwa [← hre.akin.genericsAt (hre.bare x)]
    rw [silent_of_notMem (hs x) hgeneric hstar hmem ask,
      silent_of_notMem (hs' x) (hre.akin.isGeneric ▸ hgeneric) hstar hmem' ask']

theorem Relinked.alike : s.Alike s' (s.Unchanged s') := by
  intro block generic skip hsame
  refine ⟨by rw [hre.bindings], fun _ ask ask' hagree => ?_⟩
  exact hre.akin.resolveLinks (hre.connectionsOf block) fun x hx hskip =>
    hre.contribution hs hs' hsame hagree hx hskip

theorem Relinked.resolve (hsame : s.Unchanged s' block generic skip) :
    s.resolve block generic skip = s'.resolve block generic skip := by
  unfold Scene.resolve
  rw [← depth_congr hre.bare]
  exact (hre.alike hs hs').recallWithin hsame

theorem Relinked.parentTakes
    (hparent : (s.workspace.place? a).any (·.isParentSide) = true)
    (hsame : ∀ c ∈ [a, b], ∀ block, s.workspace.owner? c = some block → ∀ g ∈ s.genericsAt c,
      s.Unchanged s' block g (some c)) :
    s.parentTakes s.resolve a b = s'.parentTakes s'.resolve a b := by
  refine hre.akin.parentTakes (fun c hc => ⟨hre.bare c, fun block hblock g hg =>
    hre.resolve hs hs' (hsame c hc block hblock g hg)⟩) fun block hblock g hg => ?_
  refine boundByInputsOnly_congr (by rw [hre.bindings]) (hre.connectionsOf block)
    (fun x => hre.place?) fun _ x hx houter => ?_
  have hne : some a ≠ some x := by
    rintro heq
    obtain rfl := Option.some.inj heq
    exact not_parent_of_outer houter hparent
  exact hre.contribution hs hs' (hsame a (by simp) block hblock g hg)
    (fun _ _ _ => hre.resolve hs hs') hx hne

/-- Scenes in which the links that a verdict reads are the same give the same verdict. -/
theorem Relinked.compatible (hjoins : s.workspace.Joins a b)
    (hsame : ∀ d, s.ReadsFor a b d → s.workspace.target? d = s'.workspace.target? d) :
    s.compatible a b = s'.compatible a b := by
  have hends : ∀ c ∈ [a, b], ∀ block, s.workspace.owner? c = some block →
      ∀ g ∈ s.genericsAt c, s.Unchanged s' block g (some c) := by
    intro c hc block hblock g hg
    obtain ⟨hname, hne⟩ := isGeneric_of_mem_genericsAt hg
    exact ⟨hname, hne, fun d hd => hsame d ⟨c, hc, block, hblock, g, hg, hd⟩⟩
  unfold Scene.compatible compatibleIn takes
  rw [← hre.place?]
  split
  · next hside => rw [hre.parentTakes hs hs' hside hends]
  · next hside =>
    have hother := (hjoins.sides.resolve_left fun hsides => hside hsides.1).1
    rw [hre.parentTakes hs hs' hother fun c hc => hends c (by simpa [or_comm] using hc)]

end Unread

/-! ### A link is not read by the verdict on itself -/

/-- What a question reads is on the block itself or where walks from it lead. -/
theorem Reads.walk (hw : s.workspace.Matched) (hreads : s.Reads block generic skip d) :
    s.workspace.owner? d = some block ∧ skip ≠ some d ∨
      ∃ x q, s.workspace.owner? x = some block ∧ skip ≠ some x ∧ s.workspace.Walk x q ∧
        s.workspace.owner? d = s.workspace.owner? q := by
  induction hreads with
  | here hx hskip hgeneric => exact .inl ⟨hw.owned hx, hskip⟩
  | @on block x y b d _ _ _ hx hskip _ hy hb _ _ ih =>
    refine .inr ⟨x, ?_⟩
    rcases ih with ⟨hd, -⟩ | ⟨x', q, hx', hne, hwalk, hd⟩
    · exact ⟨y, hw.owned hx, hskip, .link hy, hd.trans hb.symm⟩
    · exact ⟨q, hw.owned hx, hskip, (Workspace.Follows.link hy).append (hx'.trans hb.symm)
        (fun heq => hne (heq ▸ rfl)) hwalk, hd⟩

theorem relinked_connect (hw : s.workspace.Matched) :
    s.Relinked (s.wired (s.workspace.connect a b)) :=
  ⟨⟨rfl, rfl⟩, rfl, fun _ => (Workspace.connectionsOf_connect hw).symm, fun _ =>
    hw.bare?_connect.symm⟩

/-- Without a ring of blocks, the verdict on free connections does not read their own links once
they are linked. -/
theorem ReadsFor.ne_ends (hw : s.workspace.Matched) (hjoins : s.workspace.Joins a b)
    (ha : s.workspace.target? a = none) (hb : s.workspace.target? b = none)
    (hforest : (s.workspace.connect a b).Forest) (hreads : s.ReadsFor a b d) : d ∉ [a, b] := by
  have howner (x : Nat) : s.workspace.owner? x = (s.workspace.connect a b).owner? x := by
    rw [Workspace.owner?_eq_bare, Workspace.owner?_eq_bare, hw.bare?_connect]
  have htarget (x y : Nat) (hxy : s.workspace.target? x = some y) :
      (s.workspace.connect a b).target? x = some y := by
    have hyx := hw.back hxy
    exact (hw.target?_connect hjoins).mpr (.inr (.inr (by grind)))
  -- The end that is asked about is `c`, the other one `e`; its link leads to `c`.
  have hends {c e : Nat} (hlink : (s.workspace.connect a b).target? e = some c)
      (hne : s.workspace.owner? c ≠ s.workspace.owner? e) {block : Nat} {g : Text}
      (hc : s.workspace.owner? c = some block) (hreads : s.Reads block g (some c) d) :
      d ≠ c ∧ d ≠ e := by
    rcases hreads.walk hw with ⟨hd, hskip⟩ | ⟨x, q, hx, hskip, hwalk, hd⟩
    · exact ⟨fun heq => hskip (heq ▸ rfl), fun heq => hne (hc.trans (heq ▸ hd.symm))⟩
    · have hwalk := hwalk.mono howner htarget
      have hafter := (Workspace.Follows.link hlink).append (d := x)
        (by rw [← howner, ← howner, hx, hc]) (fun heq => hskip (heq ▸ rfl)) hwalk
      have haway := hforest x q hwalk
      have haway' := hforest e q hafter
      rw [← howner, ← howner] at haway haway'
      exact ⟨fun heq => haway (hd.symm.trans (heq ▸ hc.trans hx.symm)),
        fun heq => haway' (hd.symm.trans (heq ▸ rfl))⟩
  obtain ⟨c, hc, block, hblock, g, -, hreads⟩ := hreads
  simp only [List.mem_cons, List.not_mem_nil, or_false, not_or] at hc ⊢
  rcases hc with rfl | rfl
  · exact hends ((hw.target?_connect hjoins).mpr (.inr (.inl ⟨rfl, rfl⟩))) hjoins.1 hblock hreads
  · exact (hends ((hw.target?_connect hjoins).mpr (.inl ⟨rfl, rfl⟩)) hjoins.1.symm hblock
      hreads).symm

theorem compatible_comm (hjoins : s.workspace.Joins a b) : s.compatible a b = s.compatible b a := by
  unfold compatible compatibleIn takes
  rcases hjoins.sides with ⟨hparent, houter⟩ | ⟨hparent, houter⟩
  · rw [if_pos hparent, if_neg (not_parent_of_outer houter)]
  · rw [if_neg (not_parent_of_outer houter), if_pos hparent]

/-- A verdict in favour of a link has read the checks at its ends. -/
theorem Vetted.connect (hs : s.Vetted) (hw : s.workspace.Matched)
    (hjoins : s.workspace.Joins a b) (hfits : s.compatible a b = .ok true) :
    (s.wired (s.workspace.connect a b)).Vetted := by
  have hre : s.Relinked (s.wired (s.workspace.connect a b)) := relinked_connect hw
  intro c peer text hpeer htext hother
  rw [← hre.check?] at htext hother
  rw [← hre.akin.readCheck]
  rcases (hw.target?_connect hjoins).mp hpeer with ⟨rfl, rfl⟩ | ⟨rfl, rfl⟩ | ⟨-, -, hpeer⟩
  · exact exists_read_of_compatible hfits htext hother
  · exact exists_read_of_compatible ((compatible_comm hjoins).symm.trans hfits) htext hother
  · exact hs c peer text hpeer htext hother

/-- A verdict on free ends is the same once they are linked. -/
theorem compatible_connect (hw : s.workspace.Matched) (hs : s.Vetted)
    (hs' : (s.wired (s.workspace.connect a b)).Vetted) (hjoins : s.workspace.Joins a b)
    (ha : s.workspace.target? a = none) (hb : s.workspace.target? b = none)
    (hforest : (s.workspace.connect a b).Forest) :
    (s.wired (s.workspace.connect a b)).compatible a b = s.compatible a b := by
  have hre : s.Relinked (s.wired (s.workspace.connect a b)) := relinked_connect hw
  refine (hre.compatible hs hs' hjoins fun d hd => Option.ext fun y => ?_).symm
  have hne := hd.ne_ends hw hjoins ha hb hforest
  change s.workspace.target? d = some y ↔ (s.workspace.connect a b).target? d = some y
  rw [hw.target?_connect hjoins]
  have hback := @hw.back d y
  grind

end Scene

end TypedBlocks
