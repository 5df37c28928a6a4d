import TypedBlocks.Proofs.Session.Bumps
import TypedBlocks.Proofs.Session.Reachable
import TypedBlocks.Proofs.Subtype.Decides

/-! Which links of a block are sure to fit after a generic of the block has been bound. Every link
that stays fits the links before it; it fits all of them unless a link that shares an open generic
with it was lost, and another one comes after it. -/
namespace TypedBlocks.Session

open Json (Value)

variable {s t : Session} {scene : Scene} {block c d peer : Nat} {ends more : List Nat}

def openGenerics (s : Session) (c : Nat) : List Text :=
  match s.scene with
  | .ok scene => scene.openGenerics c
  | .error _ => []

/-- Connections whose checks share no open generic. -/
def Apart (s : Session) (c d : Nat) : Prop :=
  ∀ g ∈ s.openGenerics c, g ∉ s.openGenerics d

instance (s : Session) (c d : Nat) : Decidable (s.Apart c d) :=
  inferInstanceAs (Decidable (∀ g ∈ s.openGenerics c, g ∉ s.openGenerics d))

theorem workspace_of_scene (hscene : s.scene = .ok scene) : scene.workspace = s.workspace := by
  obtain ⟨h, -, heq⟩ := bind_eq_ok.mp hscene
  exact (congrArg Scene.workspace (pure_eq_ok.mp heq)).symm

theorem scene_cut (hscene : s.scene = .ok scene) : (s.cut ends).scene = .ok (scene.cut ends) := by
  obtain ⟨h, hknown, heq⟩ := bind_eq_ok.mp hscene
  obtain rfl := pure_eq_ok.mp heq
  have hcut : (s.cut ends).known = .ok h := hknown
  simp only [Session.scene, hcut, ok_bind]
  rfl

theorem verdict_eq (hscene : s.scene = .ok scene) : s.verdict c d = scene.compatible c d := by
  rw [verdict, hscene, ok_bind]

theorem check_eq_ok {fits : Bool} : s.check c d = .ok fits ↔ s.verdict c d = .ok fits := by
  unfold check naming
  cases s.verdict c d <;> simp

theorem openGenerics_cut : (s.cut ends).openGenerics c = s.openGenerics c := by
  unfold openGenerics
  cases hscene : s.scene with
  | error fault =>
    cases hhierarchy : s.hierarchy with
    | none => simp [scene, known, cut, hhierarchy]
    | some h => simp [scene, known, hhierarchy, pure, Except.pure] at hscene
  | ok scene =>
    rw [scene_cut hscene]
    exact Scene.akin_cut.openGenerics rfl Workspace.bare?_cut

/-! ### What a bump leaves as it is -/

theorem bumpRendered_cases (s : Session) (block : Nat) : s.bumpRendered block = s ∨
    s.bumpRendered block = { s with workspace := s.workspace.bump block } := by
  unfold bumpRendered
  split
  · exact .inr rfl
  · exact .inl rfl

theorem bumpRendered_cut : (s.bumpRendered block).cut ends = (s.cut ends).bumpRendered block := by
  have hsame : ((s.cut ends).policy.bump &&
      ((s.cut ends).workspace.block? block).any (·.rendered)) =
      (s.policy.bump && (s.workspace.block? block).any (·.rendered)) := rfl
  simp only [bumpRendered, hsame]
  split <;> rfl

theorem linksOf_bumpRendered : (s.bumpRendered block).linksOf d = s.linksOf d := by
  rw [← linksOf_unbumped, unbumped_bumpRendered, linksOf_unbumped]

theorem verdict_bumpRendered : (s.bumpRendered block).verdict c d = s.verdict c d := by
  rw [← verdict_unbumped, unbumped_bumpRendered, verdict_unbumped]

theorem openGenerics_unbumped : s.unbumped.openGenerics c = s.openGenerics c := by
  rw [openGenerics, openGenerics, scene_unbumped]
  cases s.scene with
  | error fault => rfl
  | ok scene => exact Scene.Akin.openGenerics ⟨rfl, rfl⟩ rfl rfl

theorem openGenerics_bumpRendered : (s.bumpRendered block).openGenerics c = s.openGenerics c := by
  rw [← openGenerics_unbumped, unbumped_bumpRendered, openGenerics_unbumped]

/-! ### Links that stay -/

section Stay

variable (hw : s.workspace.Matched) (hforest : s.workspace.Forest) (hscene : s.scene = .ok scene)
  (hjudged : ∀ link ∈ s.linksOf block, ∃ away fits,
    (s.cut away).verdict link.1 link.2 = .ok fits)

include hw hscene hjudged in
/-- Links that have been judged tell a connection of the block nothing if they share no open generic
with it. -/
theorem silent_of_apart (hc : s.workspace.owner? c = some block)
    (hd : d ∈ (s.linksOf block).map (·.1)) (hapart : s.Apart c d) :
    ∀ g ∈ scene.openGenerics c, scene.Silent d g := by
  have hworkspace := workspace_of_scene hscene
  have howner := owner_of_mem_linksOf hw hd
  obtain ⟨⟨_, peer⟩, hlink, rfl⟩ := List.mem_map.mp hd
  obtain ⟨away, fits, hverdict⟩ := hjudged _ hlink
  rw [verdict_eq (scene_cut hscene)] at hverdict
  have hopen (x : Nat) : s.openGenerics x = scene.openGenerics x := by
    simp only [openGenerics, hscene]
  simp only [Apart, hopen] at hapart
  refine Scene.silent_of_apart (hworkspace ▸ hc) (hworkspace ▸ howner) ?_ hapart
  intro peer' text hpeer htext hother
  obtain rfl : peer = peer' :=
    Option.some.inj ((mem_linksOf.mp hlink).2.symm.trans (hworkspace ▸ hpeer))
  have hcheck (x : Nat) : (scene.cut away).workspace.check? x = scene.workspace.check? x := by
    simp only [Workspace.check?, Scene.cut, Workspace.bare?_cut]
  rw [← Scene.akin_cut.readCheck]
  exact Scene.exists_read_of_compatible hverdict ((hcheck _).trans htext)
    fun hnone => hother ((hcheck _).symm.trans hnone)

include hw hforest hscene hjudged in
/-- The verdict on a link of the block is the same without these and without those links of the
block, if they differ in the link itself and in links that share no open generic with it only. -/
theorem verdict_cut (hlink : (c, peer) ∈ s.linksOf block)
    (hends : ∀ x ∈ ends, s.workspace.owner? x = some block)
    (hmore : ∀ x ∈ more, s.workspace.owner? x = some block)
    (hsame : ∀ x, x ≠ c → (x ∈ ends ↔ x ∈ more) ∨
      x ∈ (s.linksOf block).map (·.1) ∧ s.Apart c x) :
    (s.cut ends).verdict c peer = (s.cut more).verdict c peer := by
  have hworkspace := workspace_of_scene hscene
  obtain ⟨hc, htarget⟩ := mem_linksOf.mp hlink
  have howner := hw.owned hc
  rw [verdict_eq (scene_cut hscene), verdict_eq (scene_cut hscene)]
  have howned (x b : Nat) (hx : x ∈ s.workspace.connectionsOf b) : s.workspace.owner? x = some b :=
    hw.owned hx
  have hsides := (hw.joins htarget).sides.imp And.left And.left
  refine Scene.compatible_cut (hworkspace ▸ howned) (hworkspace ▸ hforest) (hworkspace ▸ howner)
    ⟨hworkspace ▸ hends, hworkspace ▸ hmore, fun x _ hne => ?_⟩ (hworkspace ▸ htarget)
    (hworkspace ▸ hsides)
  exact (hsame x hne).imp_right fun hx =>
    silent_of_apart hw hscene hjudged howner hx.1 hx.2

variable {lost : List Nat} (hsettled : s.Settled block lost) {before after : List (Nat × Nat)}
  (hsplit : (s.linksOf block).filter (·.1 ∉ lost) = before ++ (c, peer) :: after)

include hsplit in
theorem mem_of_split : (c, peer) ∈ s.linksOf block ∧ c ∉ lost ∧
    ∀ x ∈ after.map (·.1), x ∈ (s.linksOf block).map (·.1) := by
  have hmem : (c, peer) ∈ (s.linksOf block).filter (·.1 ∉ lost) := by
    rw [hsplit]
    simp
  obtain ⟨hlink, hstays⟩ := List.mem_filter.mp hmem
  refine ⟨hlink, of_decide_eq_true hstays, fun x hx => ?_⟩
  obtain ⟨later, hlater, rfl⟩ := List.mem_map.mp hx
  have hmem : later ∈ (s.linksOf block).filter (·.1 ∉ lost) := by
    rw [hsplit]
    simp [hlater]
  exact List.mem_map_of_mem (List.mem_filter.mp hmem).1

theorem Settled.judged (hsettled : s.Settled block lost) :
    ∀ link ∈ s.linksOf block, ∃ away fits, (s.cut away).verdict link.1 link.2 = .ok fits := by
  intro link hlink
  obtain ⟨away, fits, -, hverdict, -⟩ := hsettled.first link hlink
  exact ⟨away, fits, hverdict⟩

include hw hforest hscene hsettled hsplit

/-- A link that stays fits the ones before it. -/
theorem Settled.fits_before (hreconnect : s.policy.reconnect = true) :
    (s.cut (lost ++ after.map (·.1))).verdict c peer = .ok true := by
  obtain ⟨hlink, -, hafter⟩ := mem_of_split hsplit
  obtain ⟨away, haway, hverdict⟩ := hsettled.second hreconnect before c peer after hsplit
  rw [← hverdict]
  refine verdict_cut hw hforest hscene hsettled.judged hlink (fun x hx => ?_) (fun x hx => ?_)
    fun x hne => .inl ?_
  · exact owner_of_mem_linksOf hw
      ((List.mem_append.mp hx).elim (hsettled.only x) (hafter x))
  · rcases (haway x).mp hx with hx | rfl | hx
    · exact owner_of_mem_linksOf hw (hsettled.only x hx)
    · exact hw.owned (mem_linksOf.mp hlink).1
    · exact owner_of_mem_linksOf hw (hafter x hx)
  · rw [haway, List.mem_append]
    simp [hne]

/-- It fits all of them if the later ones share no open generic with it. -/
theorem Settled.fits_of_after (hreconnect : s.policy.reconnect = true)
    (hapart : ∀ x ∈ after.map (·.1), s.Apart c x) : (s.cut lost).verdict c peer = .ok true := by
  obtain ⟨hlink, -, hafter⟩ := mem_of_split hsplit
  rw [← hsettled.fits_before hw hforest hscene hsplit hreconnect]
  have hlost : ∀ x ∈ lost, s.workspace.owner? x = some block := fun x hx =>
    owner_of_mem_linksOf hw (hsettled.only x hx)
  refine verdict_cut hw hforest hscene hsettled.judged hlink hlost (fun x hx => ?_) fun x hne => ?_
  · exact (List.mem_append.mp hx).elim (hlost x) fun hx => owner_of_mem_linksOf hw (hafter x hx)
  · by_cases hx : x ∈ after.map (·.1)
    · exact .inr ⟨hafter x hx, hapart x hx⟩
    · exact .inl (by simp [hx])

/-- It also fits them if none of the lost ones shares an open generic with it. -/
theorem Settled.fits_of_lost (hapart : ∀ x ∈ lost, s.Apart c x) :
    (s.cut lost).verdict c peer = .ok true := by
  obtain ⟨hlink, hstays, -⟩ := mem_of_split hsplit
  obtain ⟨away, fits, haway, hverdict, hfits⟩ := hsettled.first (c, peer) hlink
  rw [← hfits hstays, ← hverdict]
  have hlost : ∀ x ∈ lost, s.workspace.owner? x = some block := fun x hx =>
    owner_of_mem_linksOf hw (hsettled.only x hx)
  refine verdict_cut hw hforest hscene hsettled.judged hlink hlost
    (fun x hx => hlost x (haway x hx)) fun x hne => ?_
  by_cases hx : x ∈ lost
  · exact .inr ⟨hsettled.only x hx, hapart x hx⟩
  · exact .inl ⟨fun h => absurd h hx, fun h => haway x h⟩

end Stay

/-- A binding that may be made leaves a session that knows its types. -/
theorem exists_scene_of_admitted {generic explicit : Value} {name : Text} {t : TypeExpr}
    (hadmitted : s.admitBinding generic explicit = .ok (name, t)) (bindings : Bindings) :
    ∃ scene, ({ s with bindings := bindings } : Session).scene = .ok scene := by
  obtain ⟨name, -, hadmitted⟩ := bind_eq_ok.mp hadmitted
  split at hadmitted
  · cases hadmitted
  · obtain ⟨scene, hscene, -⟩ := bind_eq_ok.mp hadmitted
    obtain ⟨h, hknown, -⟩ := bind_eq_ok.mp hscene
    have hsame : ({ s with bindings := bindings } : Session).known = .ok h := hknown
    exact ⟨_, by rw [Session.scene, hsame, ok_bind]; rfl⟩

theorem revalidate_accepts (hw : s.workspace.Matched) (hforest : s.workspace.Forest)
    (hscene : s.scene = .ok scene) (hrun : s.revalidate block = (t, .ok ()))
    {before after : List (Nat × Nat)}
    (hlinks : t.linksOf block = before ++ (c, peer) :: after) :
    (s.policy.reconnect = true → (t.disconnectAll after).check c peer = .ok true) ∧
    ((∀ link ∈ s.linksOf block, link ∉ t.linksOf block → t.Apart c link.1) →
      t.check c peer = .ok true) ∧
    (s.policy.reconnect = true → (∀ link ∈ after, t.Apart c link.1) →
      t.check c peer = .ok true) := by
  obtain ⟨lost, rfl, hsettled⟩ := revalidate_settled hw hrun
  have hstays : ((s.cut lost).bumpRendered block).linksOf block =
      (s.linksOf block).filter (·.1 ∉ lost) := by
    rw [linksOf_bumpRendered, linksOf_cut hw fun x hx =>
      owner_of_mem_linksOf hw (hsettled.only x hx)]
  have hsplit := hstays.symm.trans hlinks
  have hapart (x : Nat) : ((s.cut lost).bumpRendered block).Apart c x ↔ s.Apart c x := by
    simp only [Apart, openGenerics_bumpRendered, openGenerics_cut]
  have hdisconnect : ((s.cut lost).bumpRendered block).disconnectAll after =
      (s.cut (lost ++ after.map (·.1))).bumpRendered block := by
    have hmatched : ((s.cut lost).bumpRendered block).workspace.Matched :=
      matched_bumpRendered (s := s.cut lost) hw.cut
    conv_lhs => rw [← cut_nil (s := (s.cut lost).bumpRendered block),
      disconnectAll_cut hmatched.twoWay]
    rw [List.nil_append, bumpRendered_cut, cut_cut]
  simp only [check_eq_ok, hdisconnect, verdict_bumpRendered, hapart, hstays]
  refine ⟨hsettled.fits_before hw hforest hscene hsplit, fun hlost => ?_,
    fun hreconnect hafter => ?_⟩
  · refine hsettled.fits_of_lost hw hforest hscene hsplit fun x hx => ?_
    obtain ⟨link, hlink, rfl⟩ := List.mem_map.mp (hsettled.only x hx)
    exact hlost link hlink fun hmem => of_decide_eq_true (List.mem_filter.mp hmem).2 hx
  · exact hsettled.fits_of_after hw hforest hscene hsplit hreconnect
      (List.forall_mem_map.mpr hafter)

/-- For a link that stays attached to a block after a generic of the block was bound: it is accepted
once the links after it are taken away; it is accepted as things are if it shares no open generic
with a lost link, or none with a link after it. -/
theorem bind_accepts {s s' : Session} {block c peer : Nat} {generic explicit : Value}
    {before after : List (Nat × Nat)} (hreach : s.Reachable) (hforest : s.workspace.Forest)
    (hbind : s.bind block generic explicit = (s', .ok ()))
    (hlinks : s'.linksOf block = before ++ (c, peer) :: after) :
    (s.policy.reconnect = true → (s'.disconnectAll after).check c peer = .ok true) ∧
    ((∀ link ∈ s.linksOf block, link ∉ s'.linksOf block → s'.Apart c link.1) →
      s'.check c peer = .ok true) ∧
    (s.policy.reconnect = true → (∀ link ∈ after, s'.Apart c link.1) →
      s'.check c peer = .ok true) := by
  rw [bind_eq] at hbind
  cases hadmitted : s.admitBinding generic explicit with
  | error fault => simp [hadmitted] at hbind
  | ok admitted =>
    obtain ⟨name, t⟩ := admitted
    simp only [hadmitted] at hbind
    obtain ⟨scene, hscene⟩ := exists_scene_of_admitted hadmitted (s.bindings.set block name t)
    exact revalidate_accepts (s := { s with bindings := s.bindings.set block name t })
      hreach.matched hforest hscene hbind hlinks

/-! ### A link that stays and does not fit -/

def leaf (check : Text) : Command :=
  .addBlock { label := check, output := some check }

/-- A block takes two boxes and a pair whose contents are to agree with theirs, and a box of another
kind. -/
def mixCommands : List Command := [
  .load (.mapping [
    typeEntry "animal" [] [],
    typeEntry "dog" [] ["animal"],
    typeEntry "box" [("x", .co)] [],
    typeEntry "pair" [("x", .co), ("y", .co)] []]) false,
  .addBlock { label := "mix", inputs := [("u", some "box[u]"), ("a", some "box[t]"),
    ("b", some "box[t]"), ("c", some "pair[g, t]")] },
  leaf "box[dog]", leaf "box[animal]", leaf "box[dog]", leaf "pair[animal, animal]",
  .connect 0 4, .connect 1 5, .connect 3 7, .connect 2 6]

def mixSession : Session where
  hierarchy := some {
    entries := [
      ⟨⟨"animal", [], []⟩, [], [("animal", [[]])], ["dog"], ["dog"]⟩,
      ⟨⟨"dog", [], [⟨"animal", []⟩]⟩, [("animal", [])], [("animal", [[]]), ("dog", [[]])], [], []⟩,
      ⟨⟨"box", [⟨"x", .co⟩], []⟩, [], [("box", [[.slot 0]])], [], []⟩,
      ⟨⟨"pair", [⟨"x", .co⟩, ⟨"y", .co⟩], []⟩, [], [("pair", [[.slot 0, .slot 1]])], [], []⟩]
    order := ["animal", "dog", "box", "pair"] }
  workspace := {
    blocks := [
      { label := "mix", inputs := [0, 1, 2, 3] },
      { label := "box[dog]", output := some 4 },
      { label := "box[animal]", output := some 5 },
      { label := "box[dog]", output := some 6 },
      { label := "pair[animal, animal]", output := some 7 }]
    connections := [
      ⟨0, .input "u", some "box[u]", some 4⟩,
      ⟨0, .input "a", some "box[t]", some 5⟩,
      ⟨0, .input "b", some "box[t]", some 6⟩,
      ⟨0, .input "c", some "pair[g, t]", some 7⟩,
      ⟨1, .output, some "box[dog]", some 0⟩,
      ⟨2, .output, some "box[animal]", some 1⟩,
      ⟨3, .output, some "box[dog]", some 2⟩,
      ⟨4, .output, some "pair[animal, animal]", some 3⟩] }

/-- What is left of it once `g` is bound to `dog`: the pair is gone. -/
def mixBound : Session :=
  { mixSession.cut [3] with bindings := [((0, "g"), ⟨"dog", []⟩)] }

theorem mixSession_reachable : mixSession.Reachable :=
  reachable_of_run mixCommands (by simp [mixCommands, leaf]) (by decide +kernel)

theorem mixSession_forest : mixSession.workspace.Forest :=
  Workspace.forest_of_closed
    ((List.range 4).map (fun i => (i, i + 4)) ++ (List.range 4).flatMap fun i =>
      (i + 4, i) :: ((List.range 4).filter (· ≠ i)).map fun j => (i + 4, j + 4))
    (by decide +kernel) (by decide +kernel) (by decide +kernel)

theorem mixSession_bind :
    mixSession.bind 0 (.text "g") (.text "dog") = (mixBound, .ok ()) :=
  Prod.ext (by decide +kernel) (eq_ok_of_toOption (by decide +kernel))

/-- The box of the other kind shares no generic with the pair; the first of the two that do fits as
long as the second is not there, and the second fits anyway. -/
theorem mixBound_accepts :
    mixSession.Reachable ∧ mixSession.workspace.Forest ∧
    mixSession.bind 0 (.text "g") (.text "dog") = (mixBound, .ok ()) ∧
    mixBound.linksOf 0 = [(0, 4), (1, 5), (2, 6)] ∧ mixBound.Apart 0 3 ∧
    mixBound.check 0 4 = .ok true ∧
    (mixBound.disconnectAll [(2, 6)]).check 1 5 = .ok true ∧
    mixBound.check 2 6 = .ok true := by
  have hlinks : mixBound.linksOf 0 = [(0, 4), (1, 5), (2, 6)] := by decide +kernel
  have hsplit : mixBound.linksOf 0 = [] ++ (0, 4) :: [(1, 5), (2, 6)] := hlinks
  have hsplit' : mixBound.linksOf 0 = [(0, 4)] ++ (1, 5) :: [(2, 6)] := hlinks
  have hsplit'' : mixBound.linksOf 0 = [(0, 4), (1, 5)] ++ (2, 6) :: [] := hlinks
  have hother := bind_accepts mixSession_reachable mixSession_forest mixSession_bind hsplit
  have hfirst := bind_accepts mixSession_reachable mixSession_forest mixSession_bind hsplit'
  have hsecond := bind_accepts mixSession_reachable mixSession_forest mixSession_bind hsplit''
  exact ⟨mixSession_reachable, mixSession_forest, mixSession_bind, hlinks, by decide +kernel,
    hother.2.1 (by decide +kernel), hfirst.1 rfl, hsecond.2.2 rfl (by simp)⟩

/-- The first of the two boxes was accepted beside the pair and again when it was put back first; at
the end it is linked and does not fit. -/
theorem mixBound_not_accepted :
    mixSession.Reachable ∧ mixSession.workspace.Forest ∧
    mixSession.bind 0 (.text "g") (.text "dog") = (mixBound, .ok ()) ∧
    (1, 5) ∈ mixBound.linksOf 0 ∧ mixBound.check 1 5 = .ok false :=
  ⟨mixSession_reachable, mixSession_forest, mixSession_bind, by decide +kernel,
    eq_ok_of_toOption (by decide +kernel)⟩

end TypedBlocks.Session
