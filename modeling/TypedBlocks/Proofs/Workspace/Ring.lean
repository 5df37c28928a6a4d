import Mathlib.Data.List.Chain
import TypedBlocks.Proofs.Workspace.Forest

/-! Links as the edges of an undirected graph whose vertices are the blocks. Where each link goes
both ways, this graph has a ring exactly if some walk that never turns back returns to its block. -/
namespace TypedBlocks.Workspace

variable {w : Workspace} {c d p q x : Nat} {passed before after rest : List Nat}

def Leads (w : Workspace) (d c : Nat) : Prop :=
  ∃ p, w.target? c = some p ∧ w.owner? p = w.owner? d

/-- A ring of blocks, given by one connection for each of its links: the link of a connection leads
to the block of the one before it, and from the first it is round to the last. No block is met
twice, and no link is taken in both directions. -/
structure Ring (w : Workspace) (c : Nat) (rest : List Nat) : Prop where
  around : (c :: (rest ++ [c])).IsChain w.Leads
  blocks : ((c :: rest).map w.owner?).Nodup
  links : ∀ x ∈ c :: rest, ∀ y ∈ c :: rest, w.target? x = some y → x = y

/-- There are no rings, not even of one link or of two links between the same blocks. -/
def Acyclic (w : Workspace) : Prop :=
  ∀ c rest, ¬w.Ring c rest

/-! ### Walks with the connections they pass -/

/-- The connections passed on a walk, last first, and the one arrived at. -/
inductive Passes (w : Workspace) : List Nat → Nat → Prop
  | link {c p : Nat} : w.target? c = some p → w.Passes [c] p
  | on {passed : List Nat} {q d p : Nat} : w.Passes passed q → w.owner? d = w.owner? q → d ≠ q →
      w.target? d = some p → w.Passes (d :: passed) p

theorem Walk.exists_passes (hwalk : w.Walk c q) : ∃ passed, w.Passes passed q ∧ c ∈ passed := by
  induction hwalk with
  | link hp => exact ⟨[c], .link hp, List.mem_singleton_self c⟩
  | @on q d p _ howner hne hp ih =>
    obtain ⟨passed, hpassed, hc⟩ := ih
    exact ⟨d :: passed, hpassed.on howner hne hp, List.mem_cons_of_mem d hc⟩

theorem Passes.head (hpasses : w.Passes passed q) :
    ∃ c rest, passed = c :: rest ∧ w.target? c = some q := by
  cases hpasses with
  | link hp => exact ⟨_, [], rfl, hp⟩
  | on _ _ _ hp => exact ⟨_, _, rfl, hp⟩

/-- From `c` over its link and on by a connection other than the one arrived at. -/
def Onward (w : Workspace) (d c : Nat) : Prop :=
  ∃ p, w.target? c = some p ∧ w.owner? d = w.owner? p ∧ d ≠ p

theorem Onward.leads (hon : w.Onward d c) : w.Leads d c := by
  obtain ⟨p, hp, howner, -⟩ := hon
  exact ⟨p, hp, howner.symm⟩

theorem Passes.chain (hpasses : w.Passes passed q) : passed.IsChain w.Onward := by
  induction hpasses with
  | link => exact List.isChain_singleton _
  | @on passed q d p hpasses howner hne hp ih =>
    obtain ⟨c, rest, rfl, hc⟩ := hpasses.head
    exact List.isChain_cons_cons.mpr ⟨⟨q, hc, howner, hne⟩, ih⟩

theorem exists_of_isChain {R : Nat → Nat → Prop} {a y : Nat} {l : List Nat}
    (hchain : (a :: l).IsChain R) (hy : y ∈ l) : ∃ x ∈ a :: l, R x y := by
  induction l generalizing a with
  | nil => cases hy
  | cons b l ih =>
    obtain ⟨hab, hchain⟩ := List.isChain_cons_cons.mp hchain
    rcases List.mem_cons.mp hy with rfl | hy
    · exact ⟨a, List.mem_cons_self, hab⟩
    · obtain ⟨x, hx, hxy⟩ := ih hchain hy
      exact ⟨x, List.mem_cons_of_mem a hx, hxy⟩

/-- A walk that comes back to the block of a connection it has passed closes a ring. -/
theorem Passes.ring (hpasses : w.Passes (before ++ x :: after) p)
    (hback : ∀ a b, w.target? a = some b → w.target? b = some a)
    (hblocks : ((before ++ [x]).map w.owner?).Nodup) (howner : w.owner? p = w.owner? x) :
    w.Ring x before := by
  have hchain : (before ++ [x]).IsChain w.Onward := by
    have hall := hpasses.chain
    rw [List.append_cons] at hall
    exact hall.left_of_append
  obtain ⟨d, rest, hpassed, hd⟩ := hpasses.head
  obtain ⟨tail, htail⟩ : ∃ tail, before ++ [x] = d :: tail := by
    cases before with
    | nil => exact ⟨[], by rw [(List.cons.inj hpassed).1]; rfl⟩
    | cons e before => exact ⟨before ++ [x], by rw [(List.cons.inj hpassed).1]; rfl⟩
  have hsame {y z : Nat} (hy : y ∈ d :: tail) (hz : z ∈ d :: tail)
      (hyz : w.owner? y = w.owner? z) : y = z :=
    List.inj_on_of_nodup_map (htail ▸ hblocks) hy hz hyz
  have hmem {y : Nat} : y ∈ x :: before ↔ y ∈ d :: tail := by
    rw [← htail, List.mem_append, List.mem_cons, List.mem_singleton, or_comm]
  have hx : x ∈ d :: tail := hmem.mp List.mem_cons_self
  rw [htail] at hchain
  -- a link between two of the connections would be the way back at one of them
  have hturn {y z : Nat} (hy : y ∈ tail) (hz : z ∈ d :: tail) : w.target? y ≠ some z := by
    intro hyz
    obtain ⟨e, he, p', hp', hep, hne⟩ := exists_of_isChain hchain hy
    obtain rfl := Option.some.inj (hyz.symm.trans hp')
    exact hne (hsame he hz hep)
  constructor
  · rw [htail]
    exact List.isChain_cons_cons.mpr ⟨⟨p, hd, howner⟩, hchain.imp fun _ _ => Onward.leads⟩
  · have hperm : (x :: before).Perm (before ++ [x]) := (List.perm_append_singleton x before).symm
    exact (hperm.map w.owner?).nodup_iff.mpr hblocks
  · intro y hy z hz hyz
    rw [hmem] at hy hz
    rcases List.mem_cons.mp hy with rfl | hy
    · obtain rfl := Option.some.inj (hyz.symm.trans hd)
      obtain rfl := hsame hz hx howner
      rcases List.mem_cons.mp hz with heq | hz
      · exact heq.symm
      · exact absurd (hback _ _ hyz) (hturn hz List.mem_cons_self)
    · exact absurd hyz (hturn hy hz)

theorem Acyclic.passes (hacyclic : w.Acyclic)
    (hback : ∀ a b, w.target? a = some b → w.target? b = some a) (hpasses : w.Passes passed q) :
    (passed.map w.owner?).Nodup ∧ ∀ x ∈ passed, w.owner? q ≠ w.owner? x := by
  have haway {passed : List Nat} {q : Nat} (hpasses : w.Passes passed q)
      (hblocks : (passed.map w.owner?).Nodup) : ∀ x ∈ passed, w.owner? q ≠ w.owner? x := by
    intro x hx howner
    obtain ⟨before, after, rfl⟩ := List.append_of_mem hx
    refine hacyclic x before (hpasses.ring hback ?_ howner)
    rw [List.append_cons, List.map_append] at hblocks
    exact hblocks.of_append_left
  have hblocks : (passed.map w.owner?).Nodup := by
    induction hpasses with
    | link => exact List.nodup_singleton _
    | @on passed q d p hpasses howner _ _ ih =>
      rw [List.map_cons, List.nodup_cons]
      refine ⟨fun hmem => ?_, ih⟩
      obtain ⟨x, hx, hxd⟩ := List.mem_map.mp hmem
      exact haway hpasses ih x hx (howner.symm.trans hxd.symm)
  exact ⟨hblocks, haway hpasses hblocks⟩

theorem Acyclic.forest (hacyclic : w.Acyclic)
    (hback : ∀ a b, w.target? a = some b → w.target? b = some a) : w.Forest := by
  intro c q hwalk
  obtain ⟨passed, hpasses, hc⟩ := hwalk.exists_passes
  exact (hacyclic.passes hback hpasses).2 c hc

/-- Along a ring there is a walk, up to any of its connections. -/
theorem walk_of_leads (hchain : (before ++ [c]).IsChain w.Leads) (hnodup : (before ++ [c]).Nodup)
    (hlinks : ∀ x ∈ before ++ [c], ∀ y ∈ before ++ [c], w.target? x = some y → x = y) :
    ∀ d ∈ (before ++ [c]).head?, ∀ p, w.target? d = some p → w.Walk c p := by
  induction before with
  | nil =>
    rintro d ⟨⟩ p hp
    exact .link hp
  | cons e before ih =>
    rintro d ⟨⟩ p hp
    obtain ⟨hlead, hchain⟩ := List.isChain_cons.mp hchain
    obtain ⟨hnew, hnodup⟩ := List.nodup_cons.mp hnodup
    obtain ⟨h, hh⟩ : ∃ h, (before ++ [c]).head? = some h := by cases before <;> exact ⟨_, rfl⟩
    have hmem : h ∈ before ++ [c] := List.mem_of_mem_head? hh
    obtain ⟨q, hq, howner⟩ := hlead h hh
    have hwalk := ih hchain hnodup
      (fun x hx y hy => hlinks x (List.mem_cons_of_mem e hx) y (List.mem_cons_of_mem e hy))
      h hh q hq
    refine hwalk.on howner.symm (fun heq => ?_) hp
    have hsame := hlinks h (List.mem_cons_of_mem e hmem) e List.mem_cons_self (heq ▸ hq)
    exact hnew (hsame ▸ hmem)

theorem forest_iff_acyclic (hback : ∀ a b, w.target? a = some b → w.target? b = some a) :
    w.Forest ↔ w.Acyclic := by
  refine ⟨fun hforest c rest hring => ?_, fun hacyclic => hacyclic.forest hback⟩
  have hperm : (c :: rest).Perm (rest ++ [c]) := (List.perm_append_singleton c rest).symm
  obtain ⟨hlead, hchain⟩ := List.isChain_cons.mp hring.around
  obtain ⟨d, hd⟩ : ∃ d, (rest ++ [c]).head? = some d := by cases rest <;> exact ⟨_, rfl⟩
  obtain ⟨p, hp, howner⟩ := hlead d hd
  refine hforest c p (walk_of_leads hchain ?_ ?_ d hd p hp) howner
  · exact hperm.nodup_iff.mp (List.Nodup.of_map w.owner? hring.blocks)
  · intro x hx y hy
    exact hring.links x (hperm.mem_iff.mpr hx) y (hperm.mem_iff.mpr hy)

end TypedBlocks.Workspace
