import Mathlib.Algebra.BigOperators.Fin
import Mathlib.Algebra.Order.BigOperators.Group.Finset
import TypedBlocks.Proofs.Workspace.Forest

/-! Ways from block to block, over one link after another. Without a ring of blocks no connection is
passed twice, so a way is not longer than all checks together. -/
namespace TypedBlocks.Workspace

variable {w : Workspace} {passed : List Nat} {block block' c peer : Nat} {entry : Option Nat}

/-- The connections passed, last first, on a way to a block that is entered by a connection of it
unless it starts there. All of them have checks with something in them. -/
structure Trail (w : Workspace) (passed : List Nat) (block : Nat) (entry : Option Nat) : Prop where
  nodup : passed.Nodup
  checked : ∀ c ∈ passed, ∃ text, w.check? c = some text ∧ 0 < text.length
  walks : ∀ c ∈ passed, ∃ q, entry = some q ∧ w.owner? q = some block ∧ w.Walk c q

theorem Trail.start (w : Workspace) (block : Nat) (entry : Option Nat) :
    w.Trail [] block entry where
  nodup := List.nodup_nil
  checked := by simp
  walks := by simp

/-- On over a link that is not the one by which the block was entered. -/
theorem Trail.on (htrail : w.Trail passed block entry) (hforest : w.Forest)
    (hc : w.owner? c = some block) (hnew : entry ≠ some c) {text : Text}
    (htext : w.check? c = some text) (hsome : 0 < text.length) (hpeer : w.target? c = some peer)
    (hblock : w.owner? peer = some block') : w.Trail (c :: passed) block' (some peer) where
  nodup := by
    refine List.nodup_cons.mpr ⟨fun hmem => ?_, htrail.nodup⟩
    obtain ⟨q, -, hq, hwalk⟩ := htrail.walks c hmem
    exact hforest c q hwalk (hq.trans hc.symm)
  checked := List.forall_mem_cons.mpr ⟨⟨text, htext, hsome⟩, htrail.checked⟩
  walks := by
    refine List.forall_mem_cons.mpr ⟨⟨peer, rfl, hblock, .link hpeer⟩, fun d hd => ?_⟩
    obtain ⟨q, rfl, hq, hwalk⟩ := htrail.walks d hd
    exact ⟨peer, rfl, hblock, hwalk.on (hc.trans hq.symm) (fun heq => hnew (heq ▸ rfl)) hpeer⟩

def extent (k : Connection) : Nat :=
  (k.check.map (·.length)).getD 0

theorem sum_extent (w : Workspace) :
    ∑ c ∈ Finset.range w.connections.length, ((w.connections[c]?).map extent).getD 0 =
      (w.connections.map extent).sum := by
  rw [Finset.sum_range, ← Fin.sum_univ_fun_getElem]
  simp

theorem Trail.one_le_extent (htrail : w.Trail passed block entry) (hc : c ∈ passed) :
    c < w.connections.length ∧ 1 ≤ ((w.connections[c]?).map extent).getD 0 := by
  obtain ⟨text, htext, hsome⟩ := htrail.checked c hc
  obtain ⟨bare, hbare, hcheck⟩ := Option.bind_eq_some_iff.mp htext
  obtain ⟨k, hk, rfl⟩ := Option.map_eq_some_iff.mp hbare
  have hk : w.connections[c]? = some k := hk
  have hcheck : k.check = some text := hcheck
  refine ⟨(List.getElem?_eq_some_iff.mp hk).1, ?_⟩
  simp only [hk, extent, hcheck, Option.map_some, Option.getD_some]
  exact hsome

theorem Trail.length_le (htrail : w.Trail passed block entry) :
    passed.length ≤ (w.connections.map extent).sum := by
  have hextent : ∀ c ∈ passed.toFinset, c ∈ Finset.range w.connections.length ∧
      1 ≤ ((w.connections[c]?).map extent).getD 0 := by
    intro c hc
    rw [Finset.mem_range]
    exact htrail.one_le_extent (List.mem_toFinset.mp hc)
  calc passed.length
    _ = ∑ c ∈ passed.toFinset, 1 := by
      rw [Finset.sum_const, smul_eq_mul, Nat.mul_one, List.toFinset_card_of_nodup htrail.nodup]
    _ ≤ ∑ c ∈ passed.toFinset, ((w.connections[c]?).map extent).getD 0 :=
      Finset.sum_le_sum fun c hc => (hextent c hc).2
    _ ≤ ∑ c ∈ Finset.range w.connections.length, ((w.connections[c]?).map extent).getD 0 :=
      Finset.sum_le_sum_of_subset fun c hc => (hextent c hc).1
    _ = (w.connections.map extent).sum := w.sum_extent

theorem Trail.length_le_connections (htrail : w.Trail passed block entry) :
    passed.length ≤ w.connections.length := by
  have hsub : passed ⊆ List.range w.connections.length := fun c hc =>
    List.mem_range.mpr (htrail.one_le_extent hc).1
  simpa using (htrail.nodup.subperm hsub).length_le

end TypedBlocks.Workspace
