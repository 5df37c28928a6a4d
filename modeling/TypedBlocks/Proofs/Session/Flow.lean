import TypedBlocks.Proofs.Outcome
import TypedBlocks.Proofs.TypeExpr
import TypedBlocks.Proofs.Workspace.Links
import TypedBlocks.Session.Flow

/-! What answers of the flow depend on. Scenes with the same types answer a question alike if they
agree on the connections it reads and on the questions it leads to. -/
namespace TypedBlocks.Scene

/-- Scenes with the same types and the same generics. -/
structure Akin (s s' : Scene) : Prop where
  hierarchy : s.hierarchy = s'.hierarchy
  pattern : s.pattern = s'.pattern

def generics (s : Scene) (t : TypeExpr) : List Text :=
  (t.walk.filter fun u => !u.isWildcard && s.isGeneric u.name).map (·.name)

def genericsAt (s : Scene) (c : Nat) : List Text :=
  match s.workspace.check? c with
  | some text =>
    match s.readCheck text with
    | .ok t => s.generics t
    | .error _ => []
  | none => []

def openGenerics (s : Scene) (c : Nat) : List Text :=
  (s.genericsAt c).filter fun g =>
    (s.workspace.owner? c).all fun block => (s.bindings.find? block g).isNone

variable {s s' : Scene}

theorem mem_generics {t u : TypeExpr} (hu : u ∈ t.walk) (hwild : u.isWildcard = false)
    (hgeneric : s.isGeneric u.name = true) : u.name ∈ s.generics t :=
  List.mem_map_of_mem (List.mem_filter.mpr ⟨hu, by simp [hwild, hgeneric]⟩)

theorem generics_subset {name : Text} {params : List TypeExpr} {p : TypeExpr} (hp : p ∈ params) :
    s.generics p ⊆ s.generics ⟨name, params⟩ := by
  intro g hg
  obtain ⟨u, hu, rfl⟩ := List.mem_map.mp hg
  obtain ⟨hwalk, hleaf⟩ := List.mem_filter.mp hu
  exact List.mem_map_of_mem (List.mem_filter.mpr ⟨TypeExpr.mem_walk_of_param hp hwalk, hleaf⟩)

/-- Every part of a check that is read is valid. -/
theorem nodes_of_read {text : Text} {t : TypeExpr} (hread : s.readCheck text = .ok t) :
    ∀ u ∈ t.walk, s.validateNode t u = .ok () := by
  unfold readCheck at hread
  split at hread
  · cases hread
  · obtain ⟨_, hvalid, hpure⟩ := bind_eq_ok.mp hread
    obtain rfl := pure_eq_ok.mp hpure
    exact forM_eq_ok.mp hvalid

/-- In a valid check generics are leaves, so the wildcard's name stands for the wildcard only. -/
theorem star_notMem_generics {text : Text} {t : TypeExpr} (hread : s.readCheck text = .ok t) :
    TypeExpr.star ∉ s.generics t := by
  intro hstar
  obtain ⟨u, hu, hname⟩ := List.mem_map.mp hstar
  obtain ⟨hwalk, hleaf⟩ := List.mem_filter.mp hu
  have hparams : u.params.isEmpty = false := by
    simpa [TypeExpr.isWildcard, hname] using (Bool.and_eq_true_iff.mp hleaf).1
  have hnode := nodes_of_read hread u hwalk
  simp [validateNode, isGeneric, hname, hparams] at hnode

namespace Akin

theorem isGeneric (hakin : s.Akin s') : s.isGeneric = s'.isGeneric := by
  funext name
  simp only [Scene.isGeneric, hakin.hierarchy, hakin.pattern]

theorem readCheck (hakin : s.Akin s') : s.readCheck = s'.readCheck := by
  have hnode : s.validateNode = s'.validateNode := by
    funext whole t
    simp only [validateNode, hakin.isGeneric, hakin.hierarchy]
  funext text
  simp only [Scene.readCheck, validateCheck, hnode]

theorem locate (hakin : s.Akin s') (generic : Text) (pattern actual : TypeExpr) :
    s.locate generic pattern actual = s'.locate generic pattern actual := by
  have hunder : s.paramsUnder = s'.paramsUnder := by
    funext head t
    simp only [paramsUnder, hakin.hierarchy]
  induction pattern using TypeExpr.byParams generalizing actual with
  | mk name params ih =>
    have hall (ps as : List TypeExpr) (hps : ∀ p ∈ ps, p ∈ params) :
        s.locateAll generic ps as = s'.locateAll generic ps as := by
      induction ps generalizing as with
      | nil => simp [locateAll]
      | cons p ps ihp =>
        cases as with
        | nil => simp [locateAll]
        | cons a as =>
          simp only [locateAll, ih p (hps p List.mem_cons_self),
            ihp as fun r hr => hps r (List.mem_cons_of_mem p hr)]
    cases params with
    | nil => simp only [Scene.locate]
    | cons p ps =>
      simp only [Scene.locate, hunder, ih p List.mem_cons_self]
      have hrest (as : List TypeExpr) := hall ps as fun r hr => List.mem_cons_of_mem p hr
      simp only [hrest]

theorem gather (hakin : s.Akin s') (check : TypeExpr) (generic : Text) (types : List TypeExpr) :
    s.gather check generic types = s'.gather check generic types := by
  induction types with
  | nil => simp only [Scene.gather]
  | cons t ts ih => simp only [Scene.gather, hakin.locate, hakin.hierarchy, ih]

theorem unify (hakin : s.Akin s') (said : List (List TypeExpr)) : s.unify said = s'.unify said := by
  have hjoin : s.join = s'.join := by
    funext as bs
    simp only [join, hakin.hierarchy]
  have hall (as : List TypeExpr) (rest : List (List TypeExpr)) :
      s.joinAll as rest = s'.joinAll as rest := by
    induction rest generalizing as with
    | nil => simp only [joinAll, hakin.hierarchy]
    | cons bs rest ih => simp only [joinAll, hjoin, ih]
  cases said with
  | nil => rfl
  | cons as rest => exact hall as rest

theorem expand {m : Type → Type} [Monad m] (hakin : s.Akin s')
    {ask ask' : Text → m (List TypeExpr)} {t : TypeExpr}
    (hask : ∀ g ∈ s.generics t, ask g = ask' g) : s.expand ask t = s'.expand ask' t := by
  induction t using TypeExpr.byParams with
  | mk name params ih =>
    have hall (ps : List TypeExpr) (hps : ∀ p ∈ ps, p ∈ params) :
        s.expandAll ask ps = s'.expandAll ask' ps := by
      induction ps with
      | nil => simp only [expandAll]
      | cons p ps ihp =>
        have hp := hps p List.mem_cons_self
        have hfirst := ih p hp fun g hg => hask g (generics_subset hp hg)
        simp only [expandAll, hfirst, ihp fun r hr => hps r (List.mem_cons_of_mem p hr)]
    simp only [Scene.expand, hakin.isGeneric, hall params fun _ hp => hp]
    split
    · rfl
    · rename_i hwild
      split
      · rename_i hgeneric
        rw [← hakin.isGeneric] at hgeneric
        exact hask name (mem_generics (TypeExpr.self_mem_walk _) (by simpa using hwild) hgeneric)
      · rfl

theorem generics (hakin : s.Akin s') : s.generics = s'.generics := by
  funext t
  simp only [Scene.generics, hakin.isGeneric]

theorem genericsAt (hakin : s.Akin s') {c : Nat}
    (hbare : s.workspace.bare? c = s'.workspace.bare? c) : s.genericsAt c = s'.genericsAt c := by
  simp only [Scene.genericsAt, Workspace.check?, hbare, hakin.readCheck, hakin.generics]

theorem openGenerics (hakin : s.Akin s') (hbindings : s.bindings = s'.bindings) {c : Nat}
    (hbare : s.workspace.bare? c = s'.workspace.bare? c) :
    s.openGenerics c = s'.openGenerics c := by
  simp only [Scene.openGenerics, Workspace.owner?_eq_bare, hbare, hbindings,
    hakin.genericsAt hbare]

end Akin

/-! ### Contributions -/

theorem check?_of_connection {c block : Nat} {place : Place} {check : Option Text}
    {target : Option Nat} (hc : s.workspace.connection? c = some ⟨block, place, check, target⟩) :
    s.workspace.owner? c = some block ∧ s.workspace.check? c = check ∧
      s.workspace.target? c = target := by
  simp [Workspace.owner?, Workspace.check?, Workspace.bare?, Workspace.target?, hc]

section Contributions

variable {m : Type → Type} [Monad m] [MonadLiftT (Except Fault) m]
  {ask ask' : Nat → Text → Option Nat → m (List TypeExpr)} {c : Nat} {generic : Text}

omit [Monad m] in
theorem readCheck_eq_lift (text : Text) :
    (ReadsChecks.readCheck s text : m TypeExpr) = liftM (s.readCheck text) :=
  rfl

/-- A connection without a link has no say. -/
theorem contribution_of_free (hfree : s.workspace.target? c = none) :
    s.contribution ask c generic = pure none := by
  unfold contribution
  rw [Workspace.connection?_eq_bare, hfree]
  cases s.workspace.bare? c with
  | none => rfl
  | some k =>
    obtain ⟨block, place, check, target⟩ := k
    cases check <;> rfl

/-- A connection whose check is read and does not mention the generic has no say about it. The check
is not read if the connection at the other end has none. -/
theorem contribution_of_unmentioned [LawfulMonad m] [LawfulMonadLiftT (Except Fault) m]
    (hread : ∀ peer text, s.workspace.target? c = some peer → s.workspace.check? c = some text →
      s.workspace.check? peer ≠ none → ∃ t, s.readCheck text = .ok t ∧ t.mentions generic = false) :
    s.contribution ask c generic = pure none := by
  unfold contribution
  split
  · rename_i block place text peer hc
    split
    · rename_i peerBlock peerPlace peerText peerTarget hpeer
      obtain ⟨-, htext, htarget⟩ := check?_of_connection hc
      have hother : s.workspace.check? peer ≠ none := by simp [(check?_of_connection hpeer).2.1]
      obtain ⟨t, ht, hmentions⟩ := hread peer text htarget htext hother
      have hlift : (liftM (s.readCheck text) : m TypeExpr) = pure t := by
        rw [ht]
        exact liftM_pure t
      simp only [readCheck_eq_lift, hlift, pure_bind, hmentions, Bool.not_false, if_true]
    · rfl
  · rfl

theorem Akin.contribution (hakin : s.Akin s')
    (hread : s.workspace.connection? c = s'.workspace.connection? c)
    (hpeer : ∀ peer, s.workspace.target? c = some peer →
      s.workspace.bare? peer = s'.workspace.bare? peer ∧
      ∀ block name, s.workspace.owner? peer = some block →
        ask block name (some peer) = ask' block name (some peer)) :
    s.contribution ask c generic = s'.contribution ask' c generic := by
  unfold Scene.contribution
  rw [← hread]
  cases hk : s.workspace.connection? c with
  | none => rfl
  | some k =>
    obtain ⟨_, _, check, target⟩ := k
    cases check with
    | none => rfl
    | some text =>
      cases target with
      | none => rfl
      | some peer =>
        obtain ⟨hbare, hask⟩ := hpeer peer (by simp [Workspace.target?, hk])
        simp only [Workspace.connection?_eq_bare (x := peer), ← hbare]
        cases hp : s.workspace.bare? peer with
        | none => rfl
        | some l =>
          obtain ⟨block, _, peerCheck, _⟩ := l
          cases peerCheck with
          | none => rfl
          | some peerText =>
            have hblock := fun name =>
              hask block name (by rw [Workspace.owner?_eq_bare, hp, Option.map_some])
            have hexpand (t : TypeExpr) :
                s.expand (ask block · (some peer)) t = s'.expand (ask' block · (some peer)) t :=
              hakin.expand fun g _ => hblock g
            simp only [Option.map_some, readCheck_eq_lift, hakin.readCheck, hexpand, hakin.gather]

theorem contributions_congr {skip : Option Nat} {cs : List Nat}
    (hsaid : ∀ x ∈ cs, skip ≠ some x →
      s.contribution ask x generic = s'.contribution ask' x generic) :
    s.contributions ask generic skip cs = s'.contributions ask' generic skip cs := by
  induction cs with
  | nil => rfl
  | cons x xs ih =>
    have hrest := ih fun y hy => hsaid y (List.mem_cons_of_mem x hy)
    simp only [contributions, hrest]
    split
    · rfl
    · rename_i hskip
      rw [hsaid x List.mem_cons_self hskip]

theorem Akin.resolveLinks (hakin : s.Akin s') {block : Nat} {skip : Option Nat}
    (hof : s.workspace.connectionsOf block = s'.workspace.connectionsOf block)
    (hsaid : ∀ x ∈ s.workspace.connectionsOf block, skip ≠ some x →
      s.contribution ask x generic = s'.contribution ask' x generic) :
    s.resolveLinks ask block generic skip = s'.resolveLinks ask' block generic skip := by
  simp only [Scene.resolveLinks, ← hof, contributions_congr hsaid, hakin.unify]

theorem outerSilent_congr {cs : List Nat}
    (hplace : ∀ x, s.workspace.place? x = s'.workspace.place? x)
    (hsaid : ∀ x ∈ cs, (s.workspace.place? x).any (·.isOuter) = true →
      s.contribution ask x generic = s'.contribution ask' x generic) :
    s.outerSilent ask generic cs = s'.outerSilent ask' generic cs := by
  induction cs with
  | nil => rfl
  | cons x xs ih =>
    have hrest := ih fun y hy => hsaid y (List.mem_cons_of_mem x hy)
    simp only [outerSilent, ← hplace x, hrest]
    split
    · rename_i houter
      rw [hsaid x List.mem_cons_self houter]
    · rfl

theorem boundByInputsOnly_congr {block : Nat}
    (hbound : s.bindings.find? block generic = s'.bindings.find? block generic)
    (hof : s.workspace.connectionsOf block = s'.workspace.connectionsOf block)
    (hplace : ∀ x, s.workspace.place? x = s'.workspace.place? x)
    (hsaid : s.bindings.find? block generic = none → ∀ x ∈ s.workspace.connectionsOf block,
      (s.workspace.place? x).any (·.isOuter) = true →
      s.contribution ask x generic = s'.contribution ask' x generic) :
    s.boundByInputsOnly ask block generic = s'.boundByInputsOnly ask' block generic := by
  simp only [boundByInputsOnly, ← hbound, ← hof]
  cases hfind : s.bindings.find? block generic with
  | some t => rfl
  | none => exact outerSilent_congr hplace (hsaid hfind)

end Contributions

/-! ### Questions that lead to each other -/

abbrev Recalling := StateT Memo (Except Fault)

theorem lift_bind_congr {α β : Type} {x : Except Fault α} {f f' : α → Recalling β}
    (hf : ∀ a, x = .ok a → f a = f' a) :
    ((liftM x : Recalling α) >>= f) = ((liftM x : Recalling α) >>= f') := by
  cases x with
  | error fault => rfl
  | ok a =>
    funext memo
    change f a memo = f' a memo
    rw [hf a rfl]

/-- Two scenes settle the questions of a set in the same way, as far as they do not lead to other
questions of the set. -/
def Alike (s s' : Scene) (asked : Nat → Text → Option Nat → Prop) : Prop :=
  ∀ block generic skip, asked block generic skip →
    s.bindings.find? block generic = s'.bindings.find? block generic ∧
    (s.bindings.find? block generic = none →
      ∀ ask ask' : Nat → Text → Option Nat → Recalling (List TypeExpr),
        (∀ b g k, asked b g k → ask b g k = ask' b g k) →
        s.resolveLinks ask block generic skip = s'.resolveLinks ask' block generic skip)

theorem recallWithin_congr {depth block : Nat} {generic : Text} {skip : Option Nat}
    (hbound : s.bindings.find? block generic = s'.bindings.find? block generic)
    (hlinks : s.bindings.find? block generic = none →
      s.resolveLinks (s.recallWithin depth) block generic skip =
        s'.resolveLinks (s'.recallWithin depth) block generic skip) :
    s.recallWithin (depth + 1) block generic skip =
      s'.recallWithin (depth + 1) block generic skip := by
  simp only [recallIn, ← hbound]
  cases hfind : s.bindings.find? block generic with
  | some t => rfl
  | none => simp only [hlinks hfind]

/-- They then answer all of these alike, to any depth. -/
theorem Alike.recallWithin {asked : Nat → Text → Option Nat → Prop} (halike : s.Alike s' asked)
    {depth block : Nat} {generic : Text} {skip : Option Nat} (hasked : asked block generic skip) :
    s.recallWithin depth block generic skip = s'.recallWithin depth block generic skip := by
  induction depth generalizing block generic skip with
  | zero => rfl
  | succ depth ih =>
    obtain ⟨hbound, hlinks⟩ := halike block generic skip hasked
    exact recallWithin_congr hbound fun hfind => hlinks hfind _ _ fun b g k hbgk => ih hbgk

/-! ### Verdicts -/

theorem genericsAt_eq {c : Nat} {text : Text} {t : TypeExpr}
    (htext : s.workspace.check? c = some text) (hread : s.readCheck text = .ok t) :
    s.genericsAt c = s.generics t := by
  simp only [genericsAt, htext, hread]

theorem isGeneric_of_mem_genericsAt {c : Nat} {generic : Text}
    (hgeneric : generic ∈ s.genericsAt c) :
    s.isGeneric generic = true ∧ generic ≠ TypeExpr.star := by
  unfold genericsAt at hgeneric
  split at hgeneric
  · split at hgeneric
    · rename_i t ht
      refine ⟨?_, fun heq => star_notMem_generics ht (heq ▸ hgeneric)⟩
      obtain ⟨u, hu, rfl⟩ := List.mem_map.mp hgeneric
      exact (Bool.and_eq_true_iff.mp (List.mem_filter.mp hu).2).2
    · cases hgeneric
  · cases hgeneric

section Verdict

variable {ask ask' : Nat → Text → Option Nat → Recalling (List TypeExpr)} {parent child : Nat}

/-- Without a check everything is accepted. -/
theorem parentTakes_of_unchecked
    (hcheck : s.workspace.check? parent = none ∨ s.workspace.check? child = none) :
    s.parentTakes ask parent child = pure true := by
  unfold parentTakes
  rw [Workspace.connection?_eq_bare, Workspace.connection?_eq_bare]
  unfold Workspace.check? at hcheck
  split
  · rename_i hparent hchild
    obtain ⟨k, hk, hkeq⟩ := Option.map_eq_some_iff.mp hparent
    obtain ⟨l, hl, hleq⟩ := Option.map_eq_some_iff.mp hchild
    have hkcheck := congrArg Connection.check hkeq
    have hlcheck := congrArg Connection.check hleq
    simp only at hkcheck hlcheck
    simp [hk, hl, hkcheck, hlcheck] at hcheck
  · rfl

theorem parentTakes_of_checked {k l : Connection} {parentText childText : Text}
    (hparent : s.workspace.bare? parent = some k) (hparentText : k.check = some parentText)
    (hchild : s.workspace.bare? child = some l) (hchildText : l.check = some childText) :
    s.parentTakes ask parent child = (do
      let t ← liftM (s.readCheck parentText)
      let u ← liftM (s.readCheck childText)
      s.judge ask parent k.block t child l.block u) := by
  obtain ⟨above, _, _, _⟩ := k
  obtain ⟨below, _, _, _⟩ := l
  obtain rfl : _ = some parentText := hparentText
  obtain rfl : _ = some childText := hchildText
  unfold parentTakes
  rw [Workspace.connection?_eq_bare, Workspace.connection?_eq_bare, hparent, hchild]
  rfl

theorem Akin.judge (hakin : s.Akin s') {above below : Nat} {t u : TypeExpr}
    (hparents : ∀ g ∈ s.generics t, ask above g (some parent) = ask' above g (some parent))
    (hchildren : ∀ g ∈ s.generics u, ask below g (some child) = ask' below g (some child))
    (hlenient : ∀ g ∈ s.generics t,
      s.boundByInputsOnly ask above g = s'.boundByInputsOnly ask' above g) :
    s.judge ask parent above t child below u = s'.judge ask' parent above t child below u := by
  have hleaf : s.isGenericLeaf t = s'.isGenericLeaf t := by
    simp only [isGenericLeaf, hakin.isGeneric]
  have hcommon : s.haveCommonAncestor = s'.haveCommonAncestor := by
    funext a b
    simp only [haveCommonAncestor, hakin.hierarchy]
  have honly (hyes : s.isGenericLeaf t = true) :
      s.boundByInputsOnly ask above t.name = s'.boundByInputsOnly ask' above t.name := by
    simp only [isGenericLeaf, Bool.and_eq_true, Bool.not_eq_eq_eq_not, Bool.not_true] at hyes
    exact hlenient t.name (mem_generics (TypeExpr.self_mem_walk t) hyes.1.2 hyes.2)
  unfold Scene.judge
  rw [hakin.expand hparents, hakin.expand hchildren, ← hleaf, hcommon, hakin.hierarchy]
  cases hyes : s.isGenericLeaf t with
  | false => simp only [Bool.false_eq_true, if_false]
  | true => rw [honly hyes]

/-- What the verdict on a parent and a child depends on. -/
theorem Akin.parentTakes (hakin : s.Akin s')
    (hends : ∀ c ∈ [parent, child], s.workspace.bare? c = s'.workspace.bare? c ∧
      ∀ block, s.workspace.owner? c = some block → ∀ g ∈ s.genericsAt c,
        ask block g (some c) = ask' block g (some c))
    (hlenient : ∀ block, s.workspace.owner? parent = some block → ∀ g ∈ s.genericsAt parent,
      s.boundByInputsOnly ask block g = s'.boundByInputsOnly ask' block g) :
    s.parentTakes ask parent child = s'.parentTakes ask' parent child := by
  obtain ⟨hparent, hparents⟩ := hends parent (by simp)
  obtain ⟨hchild, hchildren⟩ := hends child (by simp)
  have hsame {c : Nat} (hbare : s.workspace.bare? c = s'.workspace.bare? c) :
      s.workspace.check? c = s'.workspace.check? c := by
    simp only [Workspace.check?, hbare]
  cases hp : s.workspace.check? parent with
  | none =>
    rw [parentTakes_of_unchecked (.inl hp), parentTakes_of_unchecked (.inl (hsame hparent ▸ hp))]
  | some parentText =>
    cases hc : s.workspace.check? child with
    | none =>
      rw [parentTakes_of_unchecked (.inr hc), parentTakes_of_unchecked (.inr (hsame hchild ▸ hc))]
    | some childText =>
      obtain ⟨k, hk, hparentText⟩ := Option.bind_eq_some_iff.mp hp
      obtain ⟨l, hl, hchildText⟩ := Option.bind_eq_some_iff.mp hc
      have howner {c : Nat} {k : Connection} (hk : s.workspace.bare? c = some k) :
          s.workspace.owner? c = some k.block := by
        rw [Workspace.owner?_eq_bare, hk, Option.map_some]
      rw [parentTakes_of_checked hk hparentText hl hchildText,
        parentTakes_of_checked (hparent ▸ hk) hparentText (hchild ▸ hl) hchildText,
        ← hakin.readCheck]
      refine lift_bind_congr fun t ht => lift_bind_congr fun u hu => hakin.judge ?_ ?_ ?_
      · exact genericsAt_eq hp ht ▸ hparents k.block (howner hk)
      · exact genericsAt_eq hc hu ▸ hchildren l.block (howner hl)
      · exact genericsAt_eq hp ht ▸ hlenient k.block (howner hk)

end Verdict

/-! ### What is known of blocks beside their connections -/

section Blocks

variable {a b c : Nat} {generic : Text} (hakin : s.Akin s') (hbindings : s.bindings = s'.bindings)
  (hconnections : s.workspace.connections = s'.workspace.connections)
  (hof : ∀ b, s.workspace.connectionsOf b = s'.workspace.connectionsOf b)

include hakin hbindings hconnections hof

/-- Answers do not depend on anything else that is known of the blocks. -/
theorem Akin.resolve : s.resolve = s'.resolve := by
  have hread (x : Nat) : s.workspace.connection? x = s'.workspace.connection? x := by
    simp only [Workspace.connection?, hconnections]
  have hbare (x : Nat) : s.workspace.bare? x = s'.workspace.bare? x := by
    simp only [Workspace.bare?, hread]
  have halike : s.Alike s' fun _ _ _ => True := by
    refine fun b g k _ => ⟨by rw [hbindings], fun _ ask ask' hagree =>
      hakin.resolveLinks (hof b) fun x _ _ => hakin.contribution (hread x) fun peer _ =>
        ⟨hbare peer, fun b' g' _ => hagree b' g' (some peer) trivial⟩⟩
  have hdepth : s.depth = s'.depth := by simp only [depth, hconnections]
  funext b g k
  unfold Scene.resolve
  rw [← hdepth]
  exact halike.recallWithin trivial

/-- Nor do verdicts. -/
theorem Akin.compatible : s.compatible a b = s'.compatible a b := by
  have hread (x : Nat) : s.workspace.connection? x = s'.workspace.connection? x := by
    simp only [Workspace.connection?, hconnections]
  have hbare (x : Nat) : s.workspace.bare? x = s'.workspace.bare? x := by
    simp only [Workspace.bare?, hread]
  have hplace (x : Nat) : s.workspace.place? x = s'.workspace.place? x := by
    simp only [Workspace.place?, hread]
  have hresolve := hakin.resolve hbindings hconnections hof
  have htakes (p q : Nat) : s.parentTakes s.resolve p q = s'.parentTakes s'.resolve p q := by
    rw [hresolve]
    refine hakin.parentTakes (fun x _ => ⟨hbare x, fun b _ g _ => rfl⟩) ?_
    intro b _ g _
    refine boundByInputsOnly_congr (by rw [hbindings]) (hof b) hplace fun _ x _ _ => ?_
    exact hakin.contribution (hread x) fun peer _ => ⟨hbare peer, fun b' g' _ => rfl⟩
  simp only [Scene.compatible, compatibleIn, takes, hplace, htakes]

theorem Akin.typesOf : s.typesOf b generic = s'.typesOf b generic := by
  simp only [Scene.typesOf, typesOfIn, hakin.resolve hbindings hconnections hof]

theorem Akin.typesAt : s.typesAt c = s'.typesAt c := by
  have hread : s.workspace.connection? c = s'.workspace.connection? c := by
    simp only [Workspace.connection?, hconnections]
  have hexpand (block : Nat) (t : TypeExpr) :
      s.expand (s.resolve block · none) t = s'.expand (s'.resolve block · none) t :=
    hakin.expand fun g _ => by rw [hakin.resolve hbindings hconnections hof]
  simp only [Scene.typesAt, typesAtIn, typesThrough, readCheck_eq_lift, hread, hakin.readCheck,
    hexpand]

end Blocks

theorem run_lift_bind {α β : Type} {x : Except Fault α} {f : α → Recalling β} {memo : Memo} {v : β}
    (hrun : ((liftM x : Recalling α) >>= f).run' memo = .ok v) :
    ∃ a, x = .ok a ∧ (f a).run' memo = .ok v := by
  cases x with
  | error fault => cases hrun
  | ok a => exact ⟨a, rfl, hrun⟩

/-- A verdict on two checks has read them. -/
theorem exists_read_of_parentTakes {ask : Nat → Text → Option Nat → Recalling (List TypeExpr)}
    {a b : Nat} {fits : Bool} {parentText childText : Text}
    (hrun : (s.parentTakes ask a b).run' [] = .ok fits)
    (ha : s.workspace.check? a = some parentText) (hb : s.workspace.check? b = some childText) :
    (∃ t, s.readCheck parentText = .ok t) ∧ ∃ u, s.readCheck childText = .ok u := by
  obtain ⟨k, hk, hparentText⟩ := Option.bind_eq_some_iff.mp ha
  obtain ⟨l, hl, hchildText⟩ := Option.bind_eq_some_iff.mp hb
  rw [parentTakes_of_checked hk hparentText hl hchildText] at hrun
  obtain ⟨t, ht, hrest⟩ := run_lift_bind hrun
  obtain ⟨u, hu, -⟩ := run_lift_bind hrest
  exact ⟨⟨t, ht⟩, u, hu⟩

theorem exists_read_of_compatible {c d : Nat} {fits : Bool} {text : Text}
    (hrun : s.compatible c d = .ok fits) (hc : s.workspace.check? c = some text)
    (hd : s.workspace.check? d ≠ none) : ∃ t, s.readCheck text = .ok t := by
  obtain ⟨other, hother⟩ := Option.ne_none_iff_exists'.mp hd
  unfold compatible compatibleIn takes at hrun
  split at hrun
  · exact (exists_read_of_parentTakes hrun hc hother).1
  · exact (exists_read_of_parentTakes hrun hother hc).2

end TypedBlocks.Scene
