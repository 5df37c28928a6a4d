import TypedBlocks.Proofs.Session.Revalidate
import TypedBlocks.Session.Step

/-! The sessions that commands lead to, if every link is vetted when it is made. -/
namespace TypedBlocks.Session

open Json (Value)

/-- A new session with any policy, and what further commands make of it, whether they succeed or
not. -/
inductive Reachable : Session → Prop where
  | start (policy : Policy) : Reachable { policy := policy }
  | step {s : Session} (command : Command) : Reachable s → (∀ a b, command ≠ .link a b) →
      Reachable (s.step command).1

variable {s : Session} {a b block : Nat}

theorem joins_of_canConnect (hrun : s.canConnect a b = .ok true) : s.workspace.Joins a b := by
  cases ha : s.workspace.connection? a with
  | none => simp [canConnect_eq, ha] at hrun
  | some ka =>
    cases hb : s.workspace.connection? b with
    | none => simp [canConnect_eq, ha, hb] at hrun
    | some kb =>
      have hpaired : ka.block ≠ kb.block ∧
          (ka.place.pairs kb.place = true ∨ kb.place.pairs ka.place = true) := by
        by_cases hside : ka.place.isParentSide = true
        · by_cases hno : ka.block = kb.block ∨ ka.place.pairs kb.place = false
          · simp [canConnect_eq, ha, hb, hside, hno] at hrun
          · simpa using ⟨fun heq => hno (.inl heq), .inl (by simpa using fun h => hno (.inr h))⟩
        · by_cases hno : ka.block = kb.block ∨ kb.place.pairs ka.place = false
          · simp [canConnect_eq, ha, hb, hside, hno] at hrun
          · simpa using ⟨fun heq => hno (.inl heq), .inr (by simpa using fun h => hno (.inr h))⟩
      exact ⟨by simpa [Workspace.owner?, ha, hb] using hpaired.1, ka.place, kb.place,
        by simp [Workspace.place?, ha], by simp [Workspace.place?, hb], hpaired.2⟩

theorem matched_bumpRendered (hw : s.workspace.Matched) :
    (s.bumpRendered block).workspace.Matched := by
  unfold bumpRendered
  split
  · exact hw.bump
  · exact hw

theorem matched_revalidate (hw : s.workspace.Matched) :
    (s.revalidate block).1.workspace.Matched := by
  have hcut {lost : List Nat} : (s.cut lost).workspace.Matched := hw.cut
  obtain ⟨lost, -, ⟨-, heq⟩ | ⟨-, heq⟩⟩ :=
    revalidate_eq_cut hw.twoWay (Prod.eta (s.revalidate block)).symm
  · rw [heq]
    exact hcut
  · rw [heq]
    exact matched_bumpRendered hcut

theorem matched_bind (hw : s.workspace.Matched) {generic explicit : Value} :
    (s.bind block generic explicit).1.workspace.Matched := by
  rw [bind_eq]
  split
  · exact hw
  · exact matched_revalidate hw

theorem matched_step (hw : s.workspace.Matched) {command : Command}
    (hvetted : ∀ a b, command ≠ .link a b) : (s.step command).1.workspace.Matched := by
  cases command with
  | load source built =>
    simp only [step]
    split <;> exact hw
  | addBlock plan =>
    simp only [step]
    cases hrun : s.workspace.addBlock plan with
    | error fault => exact hw
    | ok w => exact hw.addBlock hrun
  | addConnection block place check =>
    simp only [step]
    cases hrun : s.workspace.addConnection block place check with
    | error fault => exact hw
    | ok w => exact hw.addConnection hrun
  | setCheck c check => exact hw.setCheck
  | connect a b =>
    simp only [step, connect_eq]
    cases hrun : s.canConnect a b with
    | error fault => exact hw
    | ok fits =>
      cases fits with
      | false => exact hw
      | true => exact hw.connect (joins_of_canConnect hrun)
  | link a b => exact absurd rfl (hvetted a b)
  | disconnect c => exact hw.disconnect
  | bind block generic explicit => exact matched_bind hw
  | unbind block generic =>
    simp only [step, unbind]
    split
    · exact hw
    · split
      · exact hw
      · split <;> exact hw

/-- Whatever commands have done, links are matched. -/
theorem Reachable.matched (hreach : s.Reachable) : s.workspace.Matched := by
  induction hreach with
  | start policy => exact Workspace.matched_empty
  | step command _ hvetted ih => exact matched_step ih hvetted

theorem Reachable.run {commands : List Command} (hreach : s.Reachable)
    (hvetted : ∀ command ∈ commands, ∀ a b, command ≠ .link a b) : (s.run commands).Reachable := by
  induction commands generalizing s with
  | nil => exact hreach
  | cons command rest ih =>
    obtain ⟨hfirst, hrest⟩ := List.forall_mem_cons.mp hvetted
    exact ih (.step command hreach hfirst) hrest

/-- What commands without a forced link lead to from an empty session. -/
theorem reachable_of_run (commands : List Command)
    (hvetted : ∀ command ∈ commands, ∀ a b, command ≠ .link a b)
    (hrun : s = Session.run {} commands) : s.Reachable :=
  hrun ▸ (Reachable.start {}).run hvetted

/-! ### What is linked -/

def joinedKinds : List (String × String) :=
  [("input", "output"), ("input", "previous"), ("next", "previous")]

theorem pairs_iff_joinedKinds {p q : Place} :
    p.pairs q = true ↔ (p.kind, q.kind) ∈ joinedKinds := by
  cases p <;> cases q <;> simp [Place.pairs, Place.kind, joinedKinds]

/-- The end of a link that is on the parent side comes first in its kinds. -/
theorem kinds_of_pairs {p q : Place} (hpairs : p.pairs q = true ∨ q.pairs p = true) :
    if p.isParentSide then (p.kind, q.kind) ∈ joinedKinds else (q.kind, p.kind) ∈ joinedKinds := by
  rcases hpairs with hpairs | hpairs
  · rw [if_pos (Place.sides_of_pairs hpairs).1]
    exact pairs_iff_joinedKinds.mp hpairs
  · rw [if_neg (by simp [(Place.sides_of_pairs hpairs).2])]
    exact pairs_iff_joinedKinds.mp hpairs

/-- Whatever commands have done, short of linking without a check, and whether they succeeded or
not: links go both ways, so that no two of them share a connection, and every link joins connections
of different blocks at places of kinds that belong together. -/
theorem links_pair_up {policy : Policy} {commands : List Command}
    (hvetted : ∀ command ∈ commands, ∀ a b, command ≠ .link a b)
    (hrun : Session.run { policy := policy } commands = s) :
    (∀ a b, s.workspace.target? a = some b ↔ s.workspace.target? b = some a) ∧
    (∀ a b c, s.workspace.target? a = some c → s.workspace.target? b = some c → a = b) ∧
    ∀ a b, s.workspace.target? a = some b → ∃ ka kb, s.workspace.connection? a = some ka ∧
      s.workspace.connection? b = some kb ∧ ka.block ≠ kb.block ∧
      if ka.place.isParentSide then (ka.place.kind, kb.place.kind) ∈ joinedKinds
      else (kb.place.kind, ka.place.kind) ∈ joinedKinds := by
  have hw : s.workspace.Matched := hrun ▸ ((Reachable.start policy).run hvetted).matched
  refine ⟨fun a b => ⟨hw.back, hw.back⟩, fun a b c ha hb => ?_, fun a b hab => ?_⟩
  · exact Option.some.inj ((hw.back ha).symm.trans (hw.back hb))
  · obtain ⟨howner, p, q, hp, hq, hpairs⟩ := hw.joins hab
    obtain ⟨ka, hka, rfl⟩ := Option.map_eq_some_iff.mp hp
    obtain ⟨kb, hkb, rfl⟩ := Option.map_eq_some_iff.mp hq
    refine ⟨ka, kb, hka, hkb, fun heq => howner ?_, kinds_of_pairs hpairs⟩
    simp [Workspace.owner?, hka, hkb, heq]

/-- One link is made, the next one takes an end from it, and a third one no longer fits once a
generic is bound. -/
def swappedCommands : List Command := [
  .load (.mapping [(.text "animal", .object []),
    (.text "dog", .object [("fulfills", .list [.text "animal"])]),
    (.text "cat", .object [("fulfills", .list [.text "animal"])])]) false,
  .addBlock { label := "take", inputs := [("a", some "t"), ("b", some "animal")] },
  .addBlock { label := "dog", output := some "dog" },
  .addBlock { label := "cat", output := some "cat" },
  .connect 0 2, .connect 1 2, .connect 3 0, .bind 0 (.text "t") (.text "dog")]

theorem swapped_pair_up :
    (Session.run {} (swappedCommands.take 5)).workspace.links = [(0, 2), (2, 0)] ∧
    (Session.run {} (swappedCommands.take 7)).workspace.links =
      [(0, 3), (1, 2), (2, 1), (3, 0)] ∧
    (Session.run {} swappedCommands).workspace.links = [(1, 2), (2, 1)] ∧
    ∃ ka kb, (Session.run {} swappedCommands).workspace.connection? 2 = some ka ∧
      (Session.run {} swappedCommands).workspace.connection? 1 = some kb ∧ ka.block ≠ kb.block := by
  have hvetted : ∀ command ∈ swappedCommands, ∀ a b, command ≠ .link a b := by
    simp [swappedCommands]
  have hlink : (Session.run {} swappedCommands).workspace.target? 1 = some 2 := by decide +kernel
  obtain ⟨hback, -, hjoins⟩ := links_pair_up hvetted rfl
  obtain ⟨ka, kb, hka, hkb, hblocks, -⟩ := hjoins 2 1 ((hback 1 2).mp hlink)
  exact ⟨by decide +kernel, by decide +kernel, by decide +kernel, ka, kb, hka, hkb, hblocks⟩

end TypedBlocks.Session
