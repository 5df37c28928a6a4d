import TypedBlocks.Proofs.Workspace.Links

/-! Walks along links that never turn back, and workspaces in which none returns to its block. -/
namespace TypedBlocks.Workspace

variable {w w' : Workspace} {c d p q : Nat}

/-- From a connection over its link, and on over the link of any other connection that may be taken
from the one arrived at, so often as one likes. -/
inductive Follows (w : Workspace) (onward : Nat → Nat → Prop) (c : Nat) : Nat → Prop where
  | link {p : Nat} : w.target? c = some p → w.Follows onward c p
  | on {q d p : Nat} : w.Follows onward c q → onward q d → d ≠ q → w.target? d = some p →
      w.Follows onward c p

/-- On through any connection of the block reached, one that has been replaced too. -/
abbrev Walk (w : Workspace) : Nat → Nat → Prop :=
  w.Follows fun q d => w.owner? d = w.owner? q

/-- Links form no ring of blocks. -/
def Forest (w : Workspace) : Prop :=
  ∀ c q, w.Walk c q → w.owner? q ≠ w.owner? c

/-- On from the end of one walk along another one. -/
theorem Follows.append {onward : Nat → Nat → Prop} (hwalk : w.Follows onward c q)
    (honward : onward q d) (hne : d ≠ q) (hon : w.Follows onward d p) : w.Follows onward c p := by
  induction hon with
  | link hp => exact hwalk.on honward hne hp
  | on _ honward' hne' hp ih => exact ih.on honward' hne' hp

/-- Walks stay possible when links are added. -/
theorem Walk.mono (howner : ∀ x, w.owner? x = w'.owner? x)
    (htarget : ∀ x y, w.target? x = some y → w'.target? x = some y) (hwalk : w.Walk c q) :
    w'.Walk c q := by
  induction hwalk with
  | link hp => exact .link (htarget _ _ hp)
  | on _ hd hne hp ih =>
    rw [howner, howner] at hd
    exact ih.on hd hne (htarget _ _ hp)

/-- With fewer links there is no ring of blocks either. -/
theorem Forest.mono {w' : Workspace} (hforest : w'.Forest)
    (hbare : ∀ x, w'.bare? x = w.bare? x)
    (hlinks : ∀ x y, w.target? x = some y → w'.target? x = some y) : w.Forest := by
  have howner (x : Nat) : w.owner? x = w'.owner? x := by
    rw [owner?_eq_bare, owner?_eq_bare, hbare]
  intro c q hwalk
  rw [howner, howner]
  exact hforest c q (hwalk.mono howner hlinks)

/-- All links, those of replaced connections too. -/
def allLinks (w : Workspace) : List (Nat × Nat) :=
  (List.range w.connections.length).filterMap fun c => (w.target? c).map (c, ·)

theorem mem_allLinks : (c, p) ∈ w.allLinks ↔ w.target? c = some p := by
  simp only [allLinks, List.mem_filterMap, List.mem_range, Option.map_eq_some_iff, Prod.mk.injEq]
  constructor
  · rintro ⟨x, -, y, hy, rfl, rfl⟩
    exact hy
  · intro hp
    obtain ⟨k, hk, -⟩ := Option.bind_eq_some_iff.mp hp
    exact ⟨c, (List.getElem?_eq_some_iff.mp hk).1, p, hp, rfl, rfl⟩

/-- A list of pairs that holds all links and is closed under walking on shows that there is no
ring. -/
theorem forest_of_closed (walks : List (Nat × Nat)) (hlinks : ∀ link ∈ w.allLinks, link ∈ walks)
    (hon : ∀ walk ∈ walks, ∀ link ∈ w.allLinks,
      w.owner? link.1 = w.owner? walk.2 → link.1 ≠ walk.2 → (walk.1, link.2) ∈ walks)
    (haway : ∀ walk ∈ walks, w.owner? walk.2 ≠ w.owner? walk.1) : w.Forest := by
  intro c q hwalk
  have hmem : (c, q) ∈ walks := by
    induction hwalk with
    | link hp => exact hlinks _ (mem_allLinks.mpr hp)
    | on _ howner hne hp ih => exact hon _ ih _ (mem_allLinks.mpr hp) howner hne
  exact haway _ hmem

end TypedBlocks.Workspace
