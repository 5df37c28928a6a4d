import TypedBlocks.Proofs.Session.Flow

/-! Two runs of the flow side by side. The steps are written over any monad, so a relation between
the computations of two monads that is kept by returning, by going on and by reading an outcome is
kept by every step, as long as it holds between the answers that are put in. -/
namespace TypedBlocks.Scene

/-- A relation between computations that goes along with the steps they are made of. Only outcomes
that are admitted need to be read. -/
structure Lockstep (m n : Type → Type) [Monad m] [MonadLiftT (Except Fault) m] [Monad n]
    [MonadLiftT (Except Fault) n] where
  rel : {α : Type} → m α → n α → Prop
  admits : {α : Type} → Except Fault α → Prop
  pure {α : Type} (a : α) : rel (pure a) (pure a)
  bind {α β : Type} {x : m α} {y : n α} {f : α → m β} {g : α → n β} :
    rel x y → (∀ a, rel (f a) (g a)) → rel (x >>= f) (y >>= g)
  lift {α : Type} {x : Except Fault α} : admits x → rel (liftM x : m α) (liftM x : n α)
  read {α β : Type} {x : Except Fault α} {f : α → m β} {g : α → n β} :
    admits x → (∀ a, x = .ok a → rel (f a) (g a)) → rel (liftM x >>= f) (liftM x >>= g)

/-- A question that can come up: a generic in the check of a connection is asked of the block, with
the connection itself left out. -/
def Asked (s : Scene) (c block : Nat) (generic : Text) : Prop :=
  s.workspace.owner? c = some block ∧ generic ∈ s.genericsAt c

/-- What a connection asks at the other end of its link, once its own check is read. -/
structure Asks (s : Scene) (c peer block : Nat) (generic : Text) : Prop where
  target : s.workspace.target? c = some peer
  read : ∃ text t, s.workspace.check? c = some text ∧ s.readCheck text = .ok t
  asked : s.Asked peer block generic

namespace Lockstep

variable {m n : Type → Type} [Monad m] [MonadLiftT (Except Fault) m] [Monad n]
  [MonadLiftT (Except Fault) n] (R : Lockstep m n) {s : Scene} {c block : Nat} {generic : Text}
  {skip : Option Nat} {ask : Nat → Text → Option Nat → m (List TypeExpr)}
  {ask' : Nat → Text → Option Nat → n (List TypeExpr)}

/-- Checks are read alike in a scene, and all outcomes that the steps read are admitted. -/
structure Admits [ReadsChecks m] [ReadsChecks n] (s : Scene) : Prop where
  readCheck {α : Type} {text : Text} {f : TypeExpr → m α} {g : TypeExpr → n α} :
    (∀ t, s.readCheck text = .ok t → R.rel (f t) (g t)) →
      R.rel (ReadsChecks.readCheck s text >>= f) (ReadsChecks.readCheck s text >>= g)
  gather (check : TypeExpr) (generic : Text) (types : List TypeExpr) :
    R.admits (s.gather check generic types)
  unify (said : List (List TypeExpr)) : R.admits (s.unify said)
  common (children parents : List TypeExpr) :
    R.admits (anyPair s.haveCommonAncestor children parents)
  fulfilled (children parents : List TypeExpr) :
    R.admits (anyPair s.hierarchy.isSubtype children parents)

variable {R}

theorem admits_all (hall : ∀ {α : Type} (x : Except Fault α), R.admits x) : R.Admits s :=
  ⟨R.read (hall _), fun _ _ _ => hall _, fun _ => hall _, fun _ _ => hall _, fun _ _ => hall _⟩

variable (R) in
theorem expand {ask : Text → m (List TypeExpr)} {ask' : Text → n (List TypeExpr)} {t : TypeExpr}
    (hask : ∀ g ∈ s.generics t, R.rel (ask g) (ask' g)) :
    R.rel (s.expand ask t) (s.expand ask' t) := by
  induction t using TypeExpr.byParams with
  | mk name params ih =>
    have hall (ps : List TypeExpr) (hps : ∀ p ∈ ps, p ∈ params) :
        R.rel (s.expandAll ask ps) (s.expandAll ask' ps) := by
      induction ps with
      | nil =>
        rw [expandAll, expandAll]
        exact R.pure []
      | cons p ps ihp =>
        obtain ⟨hp, hps⟩ := List.forall_mem_cons.mp hps
        rw [expandAll, expandAll]
        exact R.bind (ih p hp fun g hg => hask g (generics_subset hp hg)) fun first =>
          R.bind (ihp hps) fun rest => R.pure (first :: rest)
    rw [Scene.expand, Scene.expand]
    split
    · exact R.pure [TypeExpr.wildcard]
    · next hwild =>
      split
      · next hgeneric =>
        exact hask name (mem_generics (TypeExpr.self_mem_walk _) (by simpa using hwild) hgeneric)
      · exact R.bind (hall params fun _ hp => hp) fun options => R.pure _

namespace Admits

variable [ReadsChecks m] [ReadsChecks n] (hs : R.Admits s)

include hs

theorem contribution
    (hask : ∀ peer block g, s.Asks c peer block g →
      R.rel (ask block g (some peer)) (ask' block g (some peer))) :
    R.rel (s.contribution ask c generic) (s.contribution ask' c generic) := by
  unfold Scene.contribution
  split
  · next hc =>
    obtain ⟨-, htext, hpeer⟩ := check?_of_connection hc
    split
    · next hp =>
      obtain ⟨hblock, hpeerText, -⟩ := check?_of_connection hp
      refine hs.readCheck fun check hcheck => ?_
      split
      · exact R.pure none
      · refine hs.readCheck fun peerCheck hpeerCheck =>
          R.bind (R.expand fun g hg => ?_) fun types =>
          R.read (hs.gather check generic types) fun said _ => R.pure _
        rw [← genericsAt_eq hpeerText hpeerCheck] at hg
        exact hask _ _ g ⟨hpeer, ⟨_, check, htext, hcheck⟩, hblock, hg⟩
    · exact R.pure none
  · exact R.pure none

theorem contributions {cs : List Nat}
    (hask : ∀ c ∈ cs, skip ≠ some c → ∀ peer block g, s.Asks c peer block g →
      R.rel (ask block g (some peer)) (ask' block g (some peer))) :
    R.rel (s.contributions ask generic skip cs) (s.contributions ask' generic skip cs) := by
  induction cs with
  | nil => exact R.pure []
  | cons c cs ih =>
    obtain ⟨hc, hcs⟩ := List.forall_mem_cons.mp hask
    rw [Scene.contributions, Scene.contributions]
    split
    · exact ih hcs
    · next hskip =>
      exact R.bind (hs.contribution (hc hskip)) fun said => R.bind (ih hcs) fun rest => R.pure _

theorem resolveLinks
    (hask : ∀ c ∈ s.workspace.connectionsOf block, skip ≠ some c → ∀ peer b g,
      s.Asks c peer b g → R.rel (ask b g (some peer)) (ask' b g (some peer))) :
    R.rel (s.resolveLinks ask block generic skip) (s.resolveLinks ask' block generic skip) :=
  R.bind (hs.contributions hask) fun said => R.lift (hs.unify said)

/-! ### Questions from outside -/

section Queries

variable (hask : ∀ c block g, s.Asked c block g →
  R.rel (ask block g (some c)) (ask' block g (some c)))

include hask

theorem outerSilent (cs : List Nat) :
    R.rel (s.outerSilent ask generic cs) (s.outerSilent ask' generic cs) := by
  induction cs with
  | nil => exact R.pure true
  | cons c cs ih =>
    rw [Scene.outerSilent, Scene.outerSilent]
    split
    · refine R.bind (hs.contribution fun peer block g hasks => hask peer block g hasks.asked)
        fun said => ?_
      cases said with
      | some types => exact R.pure false
      | none => exact ih
    · exact ih

theorem judge {parent above child below : Nat} {parentCheck childCheck : TypeExpr}
    (hparents : ∀ g ∈ s.generics parentCheck, s.Asked parent above g)
    (hchildren : ∀ g ∈ s.generics childCheck, s.Asked child below g) :
    R.rel (s.judge ask parent above parentCheck child below childCheck)
      (s.judge ask' parent above parentCheck child below childCheck) := by
  have hbound : R.rel (s.boundByInputsOnly ask above parentCheck.name)
      (s.boundByInputsOnly ask' above parentCheck.name) := by
    unfold boundByInputsOnly
    split
    · exact R.pure false
    · exact hs.outerSilent hask _
  have hverdict (children parents : List TypeExpr) (lenient : Bool) :
      R.rel (if lenient then (liftM (anyPair s.haveCommonAncestor children parents) : m Bool)
          else liftM (anyPair s.hierarchy.isSubtype children parents))
        (if lenient then (liftM (anyPair s.haveCommonAncestor children parents) : n Bool)
          else liftM (anyPair s.hierarchy.isSubtype children parents)) := by
    cases lenient with
    | true => exact R.lift (hs.common children parents)
    | false => exact R.lift (hs.fulfilled children parents)
  unfold Scene.judge
  refine R.bind (R.expand fun g hg => hask parent above g (hparents g hg)) fun parents =>
    R.bind (R.expand fun g hg => hask child below g (hchildren g hg)) fun children => ?_
  split
  · exact R.pure true
  split
  · exact R.pure false
  simp only
  split
  · exact R.bind hbound (hverdict children parents)
  · exact R.bind (R.pure false) (hverdict children parents)

theorem parentTakes (parent child : Nat) :
    R.rel (s.parentTakes ask parent child) (s.parentTakes ask' parent child) := by
  unfold Scene.parentTakes
  split
  · next hp hc =>
    obtain ⟨habove, hparentText, -⟩ := check?_of_connection hp
    obtain ⟨hbelow, hchildText, -⟩ := check?_of_connection hc
    apply hs.readCheck
    intro parentCheck hparent
    apply hs.readCheck
    intro childCheck hchild
    refine hs.judge hask (fun g hg => ⟨habove, ?_⟩) fun g hg => ⟨hbelow, ?_⟩
    · rwa [genericsAt_eq hparentText hparent]
    · rwa [genericsAt_eq hchildText hchild]
  · exact R.pure true

theorem takes (a b : Nat) : R.rel (s.takes ask a b) (s.takes ask' a b) := by
  unfold Scene.takes
  split
  · exact hs.parentTakes hask a b
  · exact hs.parentTakes hask b a

end Queries

end Admits

end Lockstep

end TypedBlocks.Scene
