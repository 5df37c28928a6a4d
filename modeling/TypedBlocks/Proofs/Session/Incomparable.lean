import TypedBlocks.Proofs.Session.Recall
import TypedBlocks.Proofs.Session.Unify

/-! Results that are told apart. A search for nearest types keeps only candidates of which none is
below another, and a generic is resolved by such a search, whatever way its resolution takes: no
type is listed twice, and no two are related, be there wildcards or not. -/
namespace TypedBlocks

open Nearest (ToldApart)

namespace Hierarchy

variable {h : Hierarchy} {depth : Nat} {types found : List TypeExpr}

/-- The common ancestors are told apart by the comparisons that one level less allows. -/
theorem ancestors_toldApart (hrun : h.ancestorsWithin (depth + 1) types = .ok found) :
    found.Pairwise (ToldApart (h.subtypeWithin depth)) := by
  rw [ancestorsWithin] at hrun
  rcases ancestorsBy_cases hrun with ⟨-, rfl⟩ | ⟨-, rfl⟩ | ⟨t, -, rfl⟩ | ⟨_, _, -, -, hkeep⟩
  · exact .nil
  · exact List.pairwise_singleton _ _
  · exact List.pairwise_singleton _ _
  · exact keepNearest_pairwise (nodup_eraseDups _) hkeep

theorem descendants_toldApart (hrun : h.descendantsWithin (depth + 1) types = .ok found) :
    found.Pairwise (ToldApart (h.subtypeWithin depth)) := by
  rw [descendantsWithin] at hrun
  rcases descendantsBy_cases hrun with ⟨-, rfl⟩ | ⟨-, rfl⟩ | ⟨t, -, rfl⟩ | ⟨_, -, hkeep⟩
  · exact .nil
  · exact List.pairwise_singleton _ _
  · exact List.pairwise_singleton _ _
  · exact (keepNearest_pairwise (nodup_eraseDups _) hkeep).imp fun htold =>
      ⟨htold.1, htold.2.2, htold.2.1⟩

/-- What one depth tells apart is never found to be related. -/
theorem not_isSubtype_of_told {a b : TypeExpr} (hab : h.subtypeWithin depth a b = .ok false) :
    h.isSubtype a b ≠ .ok true := by
  intro hyes
  exact absurd (Confirms.answer ⟨_, hyes⟩ hab) Bool.false_ne_true

end Hierarchy

namespace Scene

variable {s : Scene} {ask : Nat → Text → Option Nat → Except Fault (List TypeExpr)}
  {generic : Text} {skip : Option Nat} {found : List TypeExpr}

/-- A connection says nothing twice. -/
theorem contribution_nodup {c : Nat} {types : List TypeExpr}
    (hrun : s.contribution ask c generic = .ok (some types)) : types.Nodup := by
  unfold contribution at hrun
  split at hrun
  · split at hrun
    · obtain ⟨check, -, hrun⟩ := bind_eq_ok.mp hrun
      split at hrun
      · cases pure_eq_ok.mp hrun
      · obtain ⟨peerCheck, -, hrun⟩ := bind_eq_ok.mp hrun
        obtain ⟨expanded, -, hrun⟩ := bind_eq_ok.mp hrun
        obtain ⟨said, -, hrun⟩ := bind_eq_ok.mp hrun
        obtain ⟨gathered, -, rfl⟩ := Option.map_eq_some_iff.mp (pure_eq_ok.mp hrun)
        exact nodup_eraseDups gathered
    · cases pure_eq_ok.mp hrun
  · cases pure_eq_ok.mp hrun

theorem contributions_nodup {cs : List Nat} {said : List (List TypeExpr)}
    (hrun : s.contributions ask generic skip cs = .ok said) : ∀ types ∈ said, types.Nodup := by
  induction cs generalizing said with
  | nil =>
    obtain rfl := pure_eq_ok.mp hrun
    simp
  | cons c cs ih =>
    rw [contributions] at hrun
    by_cases hskip : skip = some c
    · rw [if_pos hskip] at hrun
      exact ih hrun
    · rw [if_neg hskip] at hrun
      obtain ⟨first, hfirst, hrun⟩ := bind_eq_ok.mp hrun
      obtain ⟨rest, hrest, hrun⟩ := bind_eq_ok.mp hrun
      obtain rfl := pure_eq_ok.mp hrun
      refine List.forall_mem_append.mpr ⟨fun types htypes => ?_, ih hrest⟩
      obtain rfl := Option.mem_toList.mp htypes
      exact contribution_nodup hfirst

/-- Joined from the left or left alone, contributions end in the nearest of them. -/
theorem joinAll_toldApart {as : List TypeExpr} {rest : List (List TypeExpr)} (has : as.Nodup)
    (hrun : s.joinAll as rest = .ok found) :
    found.Pairwise (ToldApart s.hierarchy.isSubtype) := by
  induction rest generalizing as with
  | nil => exact keepNearest_pairwise has hrun
  | cons bs rest ih =>
    obtain ⟨joined, hjoined, hrun⟩ := bind_eq_ok.mp hrun
    cases hempty : joined.isEmpty with
    | true =>
      simp only [hempty, if_true] at hrun
      obtain rfl := pure_eq_ok.mp hrun
      exact .nil
    | false =>
      simp only [hempty, Bool.false_eq_true, if_false] at hrun
      exact ih (join_nodup hjoined) hrun

theorem resolveWithin_toldApart {depth block : Nat}
    (hrun : s.resolveWithin depth block generic skip = .ok found) :
    found.Pairwise (ToldApart s.hierarchy.isSubtype) := by
  cases depth with
  | zero => simp [resolveWithin] at hrun
  | succ depth =>
    rw [resolveWithin] at hrun
    cases hfind : s.bindings.find? block generic with
    | some t =>
      simp only [hfind, Except.ok.injEq] at hrun
      subst hrun
      exact List.pairwise_singleton _ _
    | none =>
      simp only [hfind] at hrun
      obtain ⟨said, hsaid, hrun⟩ := bind_eq_ok.mp hrun
      cases said with
      | nil =>
        obtain rfl := Except.ok.inj hrun
        exact List.pairwise_singleton _ _
      | cons types rest =>
        exact joinAll_toldApart (contributions_nodup hsaid types List.mem_cons_self) hrun

/-- Nearest common ancestors and descendants, of any types, are all different, and none of them is
found to be below another: at some depth the comparisons say no, both ways, and at the usual depth
they never say yes. What a generic is resolved to, on any block and with any connection skipped, is
told apart by the comparisons at the usual depth. -/
theorem results_toldApart :
    (∀ (h : Hierarchy) (types found : List TypeExpr),
      h.commonAncestors types = .ok found ∨ h.commonDescendants types = .ok found →
      (found.Pairwise fun a b =>
        a ≠ b ∧ h.isSubtype a b ≠ .ok true ∧ h.isSubtype b a ≠ .ok true) ∧
      ∃ depth, found.Pairwise (ToldApart (h.subtypeWithin depth))) ∧
    ∀ (s : Scene) (block : Nat) (generic : Text) (skip : Option Nat) (found : List TypeExpr),
      (s.resolve block generic skip).run' [] = .ok found →
      found.Pairwise (ToldApart s.hierarchy.isSubtype) := by
  constructor
  · intro h types found hfound
    -- the usual depth is more than one level, whatever the types are
    obtain ⟨depth, hdepth⟩ : ∃ depth, Hierarchy.allowance + TypeExpr.sizeAll types = depth + 1 :=
      ⟨999 + TypeExpr.sizeAll types, by rw [Hierarchy.allowance]; omega⟩
    have htold : found.Pairwise (ToldApart (h.subtypeWithin depth)) := by
      rcases hfound with hrun | hrun
      · rw [Hierarchy.commonAncestors, hdepth] at hrun
        exact Hierarchy.ancestors_toldApart hrun
      · rw [Hierarchy.commonDescendants, hdepth] at hrun
        exact Hierarchy.descendants_toldApart hrun
    refine ⟨htold.imp fun hab => ?_, depth, htold⟩
    exact ⟨hab.1, Hierarchy.not_isSubtype_of_told hab.2.1, Hierarchy.not_isSubtype_of_told hab.2.2⟩
  · intro s block generic skip found hrun
    have hplain := (Query.types s block generic skip).run_resolve
    exact resolveWithin_toldApart (hplain.symm.trans hrun)

end Scene

/-- Animals that are alike in two ways, and pairs. -/
def poolDefinition : Definition := .mapping [
  typeEntry "swimmer" [] [],
  typeEntry "walker" [] [],
  typeEntry "duck" [] ["swimmer", "walker"],
  typeEntry "otter" [] ["swimmer", "walker"],
  typeEntry "pair" [("x", .co), ("y", .co)] []]

/-- A block that pairs a duck and an otter as animals of one kind, and takes a pair besides. -/
def poolScene : Scene where
  hierarchy := {
    entries := [
      ⟨⟨"swimmer", [], []⟩, [], [("swimmer", [[]])], ["duck", "otter"], ["duck", "otter"]⟩,
      ⟨⟨"walker", [], []⟩, [], [("walker", [[]])], ["duck", "otter"], ["duck", "otter"]⟩,
      ⟨⟨"duck", [], [⟨"swimmer", []⟩, ⟨"walker", []⟩]⟩, [("swimmer", []), ("walker", [])],
        [("swimmer", [[]]), ("walker", [[]]), ("duck", [[]])], [], []⟩,
      ⟨⟨"otter", [], [⟨"swimmer", []⟩, ⟨"walker", []⟩]⟩, [("swimmer", []), ("walker", [])],
        [("swimmer", [[]]), ("walker", [[]]), ("otter", [[]])], [], []⟩,
      ⟨⟨"pair", [⟨"x", .co⟩, ⟨"y", .co⟩], []⟩, [], [("pair", [[.slot 0, .slot 1]])], [], []⟩]
    order := ["swimmer", "walker", "duck", "otter", "pair"] }
  pattern := none
  bindings := []
  workspace := {
    blocks := [
      { label := "pair up", output := some 0, inputs := [1, 2, 3] },
      { label := "duck", output := some 4 },
      { label := "otter", output := some 5 }]
    connections := [
      ⟨0, .output, some "pair[t, t]", none⟩,
      ⟨0, .input "a", some "t", some 4⟩,
      ⟨0, .input "b", some "t", some 5⟩,
      ⟨0, .input "c", some "pair[t, u]", none⟩,
      ⟨1, .output, some "duck", some 1⟩,
      ⟨2, .output, some "otter", some 2⟩] }

namespace Scene

theorem pool_accepted : Hierarchy.ofDefinition poolDefinition = .ok poolScene.hierarchy :=
  eq_ok_of_toOption (by decide +kernel)

/-- The kinds that a duck and an otter share are told apart, as their ancestors and as what the
generic of the block is resolved to. -/
theorem pool_toldApart :
    Hierarchy.ofDefinition poolDefinition = .ok poolScene.hierarchy ∧
    poolScene.hierarchy.commonAncestors [⟨"duck", []⟩, ⟨"otter", []⟩] =
      .ok [⟨"swimmer", []⟩, ⟨"walker", []⟩] ∧
    poolScene.hierarchy.isSubtype ⟨"swimmer", []⟩ ⟨"walker", []⟩ ≠ .ok true ∧
    (poolScene.resolve 0 "t" none).run' [] = .ok [⟨"swimmer", []⟩, ⟨"walker", []⟩] ∧
    ToldApart poolScene.hierarchy.isSubtype ⟨"swimmer", []⟩ ⟨"walker", []⟩ := by
  have hfound : poolScene.hierarchy.commonAncestors [⟨"duck", []⟩, ⟨"otter", []⟩] =
      .ok [⟨"swimmer", []⟩, ⟨"walker", []⟩] := eq_ok_of_toOption (by decide +kernel)
  have hresolved : (poolScene.resolve 0 "t" none).run' [] =
      .ok [⟨"swimmer", []⟩, ⟨"walker", []⟩] := eq_ok_of_toOption (by decide +kernel)
  obtain ⟨hnearest, hbound⟩ := results_toldApart
  have hpair := List.pairwise_pair.mp (hnearest _ _ _ (.inl hfound)).1
  exact ⟨pool_accepted, hfound, hpair.2.1, hresolved,
    List.pairwise_pair.mp (hbound _ _ _ _ _ hresolved)⟩

end Scene

end TypedBlocks
