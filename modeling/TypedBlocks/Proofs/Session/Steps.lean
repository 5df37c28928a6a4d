import TypedBlocks.Proofs.Outcome
import TypedBlocks.Session.Step

/-! What a command can do to a session. It takes a hierarchy, records a binding that is admitted,
removes one, or changes nothing but the workspace; checking links again is of the last kind. -/
namespace TypedBlocks.Session

open Json (Value)

variable {s t u : Session} {command : Command}

/-- What a session looks at, if this is its hierarchy. -/
def sceneUnder (s : Session) (h : Hierarchy) : Scene :=
  ⟨h, s.policy.pattern, s.bindings, s.workspace⟩

theorem scene_eq_ok {scene : Scene} : s.scene = .ok scene ↔
    ∃ h, s.hierarchy = some h ∧ scene = s.sceneUnder h := by
  unfold Session.scene known
  cases s.hierarchy with
  | none => simp
  | some h =>
    rw [ok_bind, pure_eq_ok]
    simp [sceneUnder, eq_comm]

def Moved (s t : Session) : Prop :=
  ∃ w, t = { s with workspace := w }

/-- What may have become of a session by a command. -/
inductive Becomes (s : Session) : Command → Session → Prop
  | moved {command : Command} {t : Session} (hmoved : s.Moved t) : Becomes s command t
  | loaded {source : Source} {built : Bool} {h : Hierarchy}
      (hread : s.readHierarchy source built = .ok h) :
      Becomes s (.load source built) { s with hierarchy := some h }
  | bound {block : Nat} {generic explicit : Value} {name : Text} {type : TypeExpr} {t : Session}
      (hadmitted : s.admitBinding generic explicit = .ok (name, type))
      (hmoved : Moved { s with bindings := s.bindings.set block name type } t) :
      Becomes s (.bind block generic explicit) t
  | unbound {block : Nat} {generic : Value} {name : Text} (hname : nameOf generic = .ok name) :
      Becomes s (.unbind block generic) { s with bindings := s.bindings.erase block name }

/-! ### Links that are checked again -/

theorem Moved.refl (s : Session) : s.Moved s :=
  ⟨s.workspace, rfl⟩

theorem Moved.trans (hst : s.Moved t) (htu : t.Moved u) : s.Moved u := by
  obtain ⟨w, rfl⟩ := hst
  obtain ⟨w', rfl⟩ := htu
  exact ⟨w', rfl⟩

theorem moved_disconnect (s : Session) (c : Nat) : s.Moved (s.disconnect c) :=
  ⟨_, rfl⟩

theorem moved_linkEnds (s : Session) (a b : Nat) : s.Moved (s.linkEnds a b) :=
  ⟨_, rfl⟩

theorem moved_dropUnfit (s : Session) (links : List (Nat × Nat)) :
    s.Moved (s.dropUnfit links).1 := by
  induction links generalizing s with
  | nil => exact .refl s
  | cons link rest ih =>
    rw [dropUnfit_cons]
    split
    · exact .refl s
    · exact (moved_disconnect s link.1).trans (ih _)
    · exact ih s

theorem moved_relink (s : Session) (links : List (Nat × Nat)) : s.Moved (s.relink links).1 := by
  induction links generalizing s with
  | nil => exact .refl s
  | cons link rest ih =>
    rw [relink_cons]
    split
    · exact .refl s
    · exact ih s
    · exact (moved_linkEnds s link.1 link.2).trans (ih _)

theorem moved_disconnectAll (s : Session) (links : List (Nat × Nat)) :
    s.Moved (s.disconnectAll links) := by
  induction links generalizing s with
  | nil => exact .refl s
  | cons link rest ih => exact (moved_disconnect s link.1).trans (ih _)

theorem moved_bumpRendered (s : Session) (block : Nat) : s.Moved (s.bumpRendered block) := by
  unfold bumpRendered
  split
  · exact ⟨_, rfl⟩
  · exact .refl s

theorem moved_revalidate (s : Session) (block : Nat) : s.Moved (s.revalidate block).1 := by
  have hdrop := moved_dropUnfit s (s.linksOf block)
  rw [revalidate_eq]
  split
  · next heq =>
    rw [heq] at hdrop
    exact hdrop
  · next t kept heq =>
    rw [heq] at hdrop
    have hagain : t.Moved (if t.policy.reconnect then (t.disconnectAll kept).relink kept
        else (t, .ok ())).1 := by
      split
      · exact (moved_disconnectAll t kept).trans (moved_relink _ kept)
      · exact .refl t
    simp only
    split
    · exact hdrop.trans hagain
    · exact (hdrop.trans hagain).trans (moved_bumpRendered _ block)

/-! ### One command -/

theorem becomes_step (s : Session) (command : Command) : s.Becomes command (s.step command).1 := by
  cases command with
  | load source built =>
    simp only [step]
    split
    · next hread => exact .loaded hread
    · exact .moved (.refl s)
  | addBlock plan =>
    simp only [step]
    split
    · exact .moved ⟨_, rfl⟩
    · exact .moved (.refl s)
  | addConnection block place check =>
    simp only [step]
    split
    · exact .moved ⟨_, rfl⟩
    · exact .moved (.refl s)
  | setCheck c check => exact .moved ⟨_, rfl⟩
  | connect a b =>
    simp only [step, connect_eq]
    split
    · exact .moved (moved_linkEnds s a b)
    · exact .moved (.refl s)
    · exact .moved (.refl s)
  | link a b => exact .moved (moved_linkEnds s a b)
  | disconnect c => exact .moved (moved_disconnect s c)
  | bind block generic explicit =>
    simp only [step, bind_eq]
    split
    · exact .moved (.refl s)
    · next hadmitted => exact .bound hadmitted (moved_revalidate _ block)
  | unbind block generic =>
    simp only [step, unbind]
    split
    · exact .moved (.refl s)
    · split
      · exact .moved (.refl s)
      · next hname =>
        split
        · exact .unbound hname
        · exact .moved (.refl s)

namespace Becomes

theorem policy (hst : s.Becomes command t) : t.policy = s.policy := by
  cases hst with
  | moved hmoved | bound _ hmoved =>
    obtain ⟨w, rfl⟩ := hmoved
    rfl
  | loaded | unbound => rfl

/-- Only loading takes another hierarchy. -/
theorem hierarchy (hst : s.Becomes command t) : t.hierarchy = s.hierarchy ∨
    ∃ source built h, command = .load source built ∧ s.readHierarchy source built = .ok h ∧
      t.hierarchy = some h := by
  cases hst with
  | moved hmoved | bound _ hmoved =>
    obtain ⟨w, rfl⟩ := hmoved
    exact .inl rfl
  | loaded hread => exact .inr ⟨_, _, _, rfl, hread, rfl⟩
  | unbound => exact .inl rfl

end Becomes

end TypedBlocks.Session
