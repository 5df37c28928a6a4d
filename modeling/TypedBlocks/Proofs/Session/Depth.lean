import Mathlib.Order.Monotone.Basic
import TypedBlocks.Proofs.Session.Lockstep
import TypedBlocks.Proofs.TypeExpr.Grammar
import TypedBlocks.Proofs.Workspace.Trail

/-! The depth a recursion needs. An outcome reached within some depth is the outcome within any
greater one. There are no more questions to come up than characters in all checks, and each level
of depth answers one more of them or adds nothing from there on: the depth of a scene is enough for
every recursion that ends. -/
namespace TypedBlocks.Scene

variable {s : Scene} {depth more block c : Nat} {generic : Text} {skip : Option Nat} {α : Type}

/-! ### More depth -/

/-- The first outcome is the second one, unless there is none for lack of depth. -/
def Approx (x y : Except Fault α) : Prop :=
  x = .error .unending ∨ x = y

theorem Approx.antisymm {x y : Except Fault α} (hxy : Approx x y) (hyx : Approx y x) : x = y := by
  rcases hxy with hx | heq
  · rcases hyx with hy | heq
    · exact hx.trans hy.symm
    · exact heq.symm
  · exact heq

def approx : Lockstep (Except Fault) (Except Fault) where
  rel := Approx
  admits _ := True
  pure _ := .inr rfl
  bind := by
    rintro α β x y f g (rfl | rfl) hfg
    · exact .inl rfl
    · cases x with
      | error fault => exact .inr rfl
      | ok a => exact hfg a
  lift _ := .inr rfl
  read := by
    intro α β x f g _ hfg
    cases x with
    | error fault => exact .inr rfl
    | ok a => exact hfg a rfl

theorem approx_admits : approx.Admits s :=
  Lockstep.admits_all fun _ => trivial

theorem resolveWithin_approx (hle : depth ≤ more) :
    Approx (s.resolveWithin depth block generic skip)
      (s.resolveWithin more block generic skip) := by
  induction depth generalizing more block generic skip with
  | zero => exact .inl rfl
  | succ depth ih =>
    obtain ⟨more, rfl⟩ := Nat.exists_eq_add_one_of_ne_zero (Nat.ne_zero_of_lt hle)
    rw [resolveWithin, resolveWithin]
    split
    · exact .inr rfl
    · exact approx_admits.resolveLinks fun _ _ _ _ _ _ _ => ih (Nat.le_of_succ_le_succ hle)

def same : Lockstep (Except Fault) (Except Fault) where
  rel x y := x = y
  admits _ := True
  pure _ := rfl
  bind := by
    rintro α β x _ f g rfl hfg
    rw [funext hfg]
  lift _ := rfl
  read := by
    intro α β x f g _ hfg
    cases x with
    | error fault => rfl
    | ok a => exact hfg a rfl

theorem same_admits : same.Admits s :=
  Lockstep.admits_all fun _ => trivial

theorem resolveWithin_succ_congr
    (hsame : ∀ c b g, s.Asked c b g →
      s.resolveWithin depth b g (some c) = s.resolveWithin more b g (some c)) :
    s.resolveWithin (depth + 1) block generic skip =
      s.resolveWithin (more + 1) block generic skip := by
  rw [resolveWithin, resolveWithin]
  split
  · rfl
  · exact same_admits.resolveLinks fun _ _ _ _ _ _ hasks => hsame _ _ _ hasks.asked

/-! ### Counting questions -/

theorem length_generics (t : TypeExpr) : (s.generics t).length ≤ t.size := by
  rw [generics, List.length_map, ← TypeExpr.length_walk]
  exact List.length_filter_le _ _

theorem size_le_of_readCheck {text : Text} {t : TypeExpr} (hread : s.readCheck text = .ok t) :
    t.size ≤ text.length := by
  unfold readCheck at hread
  split at hread
  · cases hread
  · next hparse =>
    obtain ⟨_, -, hread⟩ := bind_eq_ok.mp hread
    obtain rfl := pure_eq_ok.mp hread
    exact TypeExpr.size_le_of_parse hparse

theorem length_genericsAt (c : Nat) :
    (s.genericsAt c).length ≤ ((s.workspace.connections[c]?).map Workspace.extent).getD 0 := by
  unfold genericsAt
  split
  · next text htext =>
    split
    · next t hread =>
      obtain ⟨bare, hbare, hcheck⟩ := Option.bind_eq_some_iff.mp htext
      obtain ⟨k, hk, rfl⟩ := Option.map_eq_some_iff.mp hbare
      have hk : s.workspace.connections[c]? = some k := hk
      have hcheck : k.check = some text := hcheck
      simp only [hk, Workspace.extent, hcheck, Option.map_some, Option.getD_some]
      exact (length_generics t).trans (size_le_of_readCheck hread)
    · exact Nat.zero_le _
  · exact Nat.zero_le _

def questions (s : Scene) : Finset (Nat × Text) :=
  (Finset.range s.workspace.connections.length).biUnion fun c =>
    (s.genericsAt c).toFinset.image (c, ·)

theorem Asked.mem_questions (hasked : s.Asked c block generic) : (c, generic) ∈ s.questions := by
  obtain ⟨howner, hgeneric⟩ := hasked
  obtain ⟨k, hk, -⟩ := Option.map_eq_some_iff.mp howner
  have hlt : c < s.workspace.connections.length := (List.getElem?_eq_some_iff.mp hk).1
  simp only [questions, Finset.mem_biUnion, Finset.mem_range, Finset.mem_image, List.mem_toFinset]
  exact ⟨c, hlt, generic, hgeneric, rfl⟩

theorem card_questions_le :
    s.questions.card ≤ (s.workspace.connections.map Workspace.extent).sum := by
  rw [← s.workspace.sum_extent]
  refine Finset.card_biUnion_le.trans (Finset.sum_le_sum fun c _ => ?_)
  calc ((s.genericsAt c).toFinset.image (c, ·)).card
    _ ≤ (s.genericsAt c).toFinset.card := Finset.card_image_le
    _ ≤ (s.genericsAt c).length := List.toFinset_card_le _
    _ ≤ _ := length_genericsAt c

open scoped Classical in
noncomputable def answered (s : Scene) (depth : Nat) : Finset (Nat × Text) :=
  s.questions.filter fun q =>
    s.resolveWithin depth ((s.workspace.owner? q.1).getD 0) q.2 (some q.1) ≠ .error .unending

theorem mem_answered {q : Nat × Text} :
    q ∈ s.answered depth ↔ q ∈ s.questions ∧
      s.resolveWithin depth ((s.workspace.owner? q.1).getD 0) q.2 (some q.1) ≠
        .error .unending := by
  simp only [answered, Finset.mem_filter]

theorem Asked.mem_answered (hasked : s.Asked c block generic) :
    (c, generic) ∈ s.answered depth ↔
      s.resolveWithin depth block generic (some c) ≠ .error .unending := by
  simp only [Scene.mem_answered, hasked.mem_questions, hasked.1, Option.getD_some, true_and]

theorem card_answered_le :
    (s.answered depth).card ≤ (s.workspace.connections.map Workspace.extent).sum :=
  (Finset.card_le_card fun _ hq => (mem_answered.mp hq).1).trans card_questions_le

theorem answered_mono : Monotone s.answered := by
  intro depth more hle q hq
  rw [mem_answered] at hq ⊢
  rcases resolveWithin_approx hle with hnone | heq
  · exact absurd hnone hq.2
  · exact heq ▸ hq

/-- If no question is answered that was not before, then every answer is the same as before. -/
theorem resolveWithin_eq_of_card (hle : depth ≤ more)
    (hcard : (s.answered depth).card = (s.answered more).card)
    (hasked : s.Asked c block generic) :
    s.resolveWithin depth block generic (some c) = s.resolveWithin more block generic (some c) := by
  have heq : s.answered depth = s.answered more :=
    Finset.eq_of_subset_of_card_le (answered_mono hle) hcard.ge
  rcases resolveWithin_approx hle with hnone | hsame
  · have hmore : (c, generic) ∉ s.answered more := by
      rw [← heq, hasked.mem_answered]
      exact fun hne => hne hnone
    rw [hasked.mem_answered, not_not] at hmore
    exact hnone.trans hmore.symm
  · exact hsame

theorem card_answered_of_le (hle : (s.workspace.connections.map Workspace.extent).sum ≤ depth) :
    (s.answered depth).card =
      (s.answered (s.workspace.connections.map Workspace.extent).sum).card := by
  refine Nat.stabilises_of_monotone (fun _ _ hle => Finset.card_le_card (answered_mono hle))
    (fun _ => card_answered_le) (fun depth hcard => ?_) hle
  -- a level that adds nothing leaves the next one the same answers to start from
  have hnext (block : Nat) (generic : Text) (skip : Option Nat) :
      s.resolveWithin (depth + 1) block generic skip =
        s.resolveWithin (depth + 2) block generic skip :=
    resolveWithin_succ_congr fun _ _ _ => resolveWithin_eq_of_card (Nat.le_succ depth) hcard
  refine congrArg Finset.card (Finset.ext fun q => ?_)
  rw [mem_answered, mem_answered, hnext]

theorem depth_eq (s : Scene) :
    s.depth = 2 + (s.workspace.connections.map Workspace.extent).sum := by
  have hfold (ks : List Connection) (n : Nat) :
      ks.foldl (fun n c => n + (c.check.map (·.length)).getD 0) n =
        n + (ks.map Workspace.extent).sum := by
    induction ks generalizing n with
    | nil => rfl
    | cons k ks ih =>
      rw [List.foldl_cons, ih, List.map_cons, List.sum_cons, Nat.add_assoc]
      rfl
  exact hfold _ 2

/-- Beyond the depth of a scene nothing is gained. -/
theorem resolveWithin_of_depth_le (hle : s.depth ≤ more) :
    s.resolveWithin more block generic skip = s.resolveWithin s.depth block generic skip := by
  have hdepth := s.depth_eq
  obtain ⟨fewer, hfewer⟩ := Nat.exists_eq_add_one_of_ne_zero (show s.depth ≠ 0 by omega)
  obtain ⟨more, rfl⟩ := Nat.exists_eq_add_one_of_ne_zero (show more ≠ 0 by omega)
  rw [hfewer]
  refine (resolveWithin_succ_congr fun _ _ _ => resolveWithin_eq_of_card (by omega) ?_).symm
  exact (card_answered_of_le (by omega)).trans (card_answered_of_le (by omega)).symm

theorem resolveWithin_approx_depth :
    Approx (s.resolveWithin depth block generic skip)
      (s.resolveWithin s.depth block generic skip) := by
  rcases Nat.le_total depth s.depth with hle | hle
  · exact resolveWithin_approx hle
  · exact .inr (resolveWithin_of_depth_le hle)

end TypedBlocks.Scene
