import TypedBlocks.Proofs.Session.Connects
import TypedBlocks.Proofs.Session.Steps

/-! Sessions that keep to one hierarchy. Every link was vetted under it and every binding is a type
it knows, so that links can be checked again at any time. -/
namespace TypedBlocks

namespace Workspace

variable {w w' w'' : Workspace}

/-- Every link is an old one, with the same checks at its ends. -/
def Retains (w w' : Workspace) : Prop :=
  ∀ c peer, w'.target? c = some peer → w.target? c = some peer ∧
    w'.check? c = w.check? c ∧ w'.check? peer = w.check? peer

theorem Retains.refl (w : Workspace) : w.Retains w :=
  fun _ _ hpeer => ⟨hpeer, rfl, rfl⟩

theorem Retains.trans (hfirst : w.Retains w') (hsecond : w'.Retains w'') : w.Retains w'' := by
  intro c peer hpeer
  obtain ⟨hpeer, hc, hother⟩ := hsecond c peer hpeer
  obtain ⟨hpeer, hc', hother'⟩ := hfirst c peer hpeer
  exact ⟨hpeer, hc.trans hc', hother.trans hother'⟩

theorem retains_cut {ends : List Nat} : w.Retains (w.cut ends) := by
  intro c peer hpeer
  simp only [check?, bare?_cut, and_self, and_true]
  exact (target?_cut_eq_some.mp hpeer).1

theorem exists_connection_of_target {c peer : Nat} (hpeer : w.target? c = some peer) :
    ∃ k, w.connection? c = some k ∧ k.target = some peer :=
  Option.bind_eq_some_iff.mp hpeer

/-- A new connection comes without a link. -/
theorem retains_of_append (hw : w.Matched) {new : Connection} (hfree : new.target = none)
    (hconnections : w'.connections = w.connections ++ [new]) : w.Retains w' := by
  have hold {x : Nat} {k : Connection} (hk : w.connection? x = some k) :
      w'.connection? x = w.connection? x := by
    rw [connection?, hconnections]
    exact List.getElem?_append_left (List.getElem?_eq_some_iff.mp hk).1
  intro c peer hpeer
  obtain ⟨k, hk, htarget⟩ := exists_connection_of_target hpeer
  have hc : w.connection? c = some k := by
    rw [connection?, hconnections, List.getElem?_append] at hk
    split at hk
    · exact hk
    · obtain rfl := List.mem_singleton.mp (List.mem_of_getElem? hk)
      rw [hfree] at htarget
      cases htarget
  have hlink : w.target? c = some peer := by rw [target?, hc, Option.bind_some, htarget]
  obtain ⟨l, hl, -⟩ := exists_connection_of_target (hw.back hlink)
  refine ⟨hlink, ?_, ?_⟩
  · simp only [check?, bare?, hold hc]
  · simp only [check?, bare?, hold hl]

theorem retains_addConnection (hw : w.Matched) {b : Nat} {place : Place} {check : Option Text}
    (hrun : w.addConnection b place check = .ok w') : w.Retains w' := by
  unfold addConnection at hrun
  split at hrun
  · obtain rfl := Except.ok.inj hrun
    exact .refl w
  · split at hrun
    · cases hrun
    · obtain rfl := Except.ok.inj hrun
      exact retains_of_append hw rfl rfl

theorem retains_addConnections {number : Workspace → Nat} {places : List (Place × Option Text)}
    (hw : w.Matched)
    (hrun : places.foldlM (fun w item => w.addConnection (number w) item.1 item.2) w = .ok w') :
    w.Retains w' := by
  induction places generalizing w with
  | nil =>
    obtain rfl := Except.ok.inj hrun
    exact .refl w
  | cons first rest ih =>
    rw [List.foldlM_cons] at hrun
    obtain ⟨next, hnext, hrest⟩ := bind_eq_ok.mp hrun
    exact (retains_addConnection hw hnext).trans (ih (hw.addConnection hnext) hrest)

theorem retains_addBlock (hw : w.Matched) {plan : BlockPlan} (hrun : w.addBlock plan = .ok w') :
    w.Retains w' := by
  have hadded := retains_addConnections (hw.newBlock plan.label plan.rendered) hrun
  exact fun c peer hpeer => hadded c peer hpeer

end Workspace

namespace Session

open Json (Value)

variable {s t : Session} {scene : Scene} {a b block : Nat}

/-- Sessions that keep the hierarchy they have taken first; links are vetted, and checks stay as
they are. -/
inductive Steady : Session → Prop where
  | start (policy : Policy) : Steady { policy := policy }
  | step {s : Session} (command : Command) : Steady s → (∀ a b, command ≠ .link a b) →
      (∀ c check, command ≠ .setCheck c check) →
      (∀ h, s.hierarchy = some h → (s.step command).1.hierarchy = some h) →
      Steady (s.step command).1

/-- What holds in a session that keeps to one hierarchy. -/
structure Guarded (s : Session) : Prop where
  matched : s.workspace.Matched
  idle : s.hierarchy = none → s.bindings = [] ∧ ∀ c, s.workspace.target? c = none
  linked : ∀ h, s.hierarchy = some h → h.Linked
  vetted : ∀ h, s.hierarchy = some h → (s.sceneUnder h).Vetted
  known : ∀ h, s.hierarchy = some h → ∀ entry ∈ s.bindings, h.Valid entry.2

/-- Links may go, and bindings of known types may come. -/
theorem Guarded.of_retains (hs : s.Guarded) (hhierarchy : t.hierarchy = s.hierarchy)
    (hpolicy : t.policy = s.policy)
    (hbindings : ∀ entry ∈ t.bindings, entry ∈ s.bindings ∨
      ∃ h, s.hierarchy = some h ∧ h.Valid entry.2)
    (hmatched : t.workspace.Matched) (hretains : s.workspace.Retains t.workspace) :
    t.Guarded where
  matched := hmatched
  idle := by
    intro hnone
    rw [hhierarchy] at hnone
    obtain ⟨hempty, hfree⟩ := hs.idle hnone
    refine ⟨List.eq_nil_iff_forall_not_mem.mpr fun entry hentry => ?_, fun c => ?_⟩
    · rcases hbindings entry hentry with hold | ⟨h, hh, -⟩
      · simp [hempty] at hold
      · simp [hnone] at hh
    · refine Option.eq_none_iff_forall_ne_some.mpr fun peer hpeer => ?_
      simpa [hfree c] using (hretains c peer hpeer).1
  linked h hh := hs.linked h (hhierarchy ▸ hh)
  vetted := by
    intro h hh c peer text hpeer htext hother
    obtain ⟨hold, hc, hpeerCheck⟩ := hretains c peer hpeer
    have hakin : (t.sceneUnder h).Akin (s.sceneUnder h) :=
      ⟨rfl, congrArg Policy.pattern hpolicy⟩
    rw [hakin.readCheck]
    exact hs.vetted h (hhierarchy ▸ hh) c peer text hold (hc.symm.trans htext)
      (hpeerCheck ▸ hother)
  known := by
    intro h hh entry hentry
    rw [hhierarchy] at hh
    rcases hbindings entry hentry with hold | ⟨h', hh', hvalid⟩
    · exact hs.known h hh entry hold
    · obtain rfl := Option.some.inj (hh'.symm.trans hh)
      exact hvalid

theorem Guarded.cut (hs : s.Guarded) (ends : List Nat) : (s.cut ends).Guarded :=
  hs.of_retains rfl rfl (fun _ => .inl) hs.matched.cut Workspace.retains_cut

theorem linked_of_readHierarchy {source : Source} {built : Bool} {h : Hierarchy}
    (hread : s.readHierarchy source built = .ok h) : h.Linked := by
  obtain ⟨d, hdefined⟩ : ∃ d, Hierarchy.ofDefinition d = .ok h := by
    cases built
    all_goals
      obtain ⟨d, -, hread⟩ := bind_eq_ok.mp hread
      cases hdefined : Hierarchy.ofDefinition d with
      | error fault => simp [hdefined] at hread
      | ok h' =>
        simp only [hdefined] at hread
        exact ⟨d, pure_eq_ok.mp hread ▸ hdefined⟩
  exact Hierarchy.ofDefinition_linked hdefined

/-- A hierarchy that comes first finds nothing to fit. -/
theorem Guarded.load (hs : s.Guarded) (hnone : s.hierarchy = none) {source : Source} {built : Bool}
    {h : Hierarchy} (hread : s.readHierarchy source built = .ok h) :
    ({ s with hierarchy := some h } : Session).Guarded := by
  obtain ⟨hempty, hfree⟩ := hs.idle hnone
  refine ⟨hs.matched, nofun, ?_, ?_, ?_⟩
  · intro h' hh'
    exact Option.some.inj hh' ▸ linked_of_readHierarchy hread
  · intro h' _ c peer text hpeer
    simp [sceneUnder, hfree c] at hpeer
  · intro h' _ entry hentry
    simp [hempty] at hentry

theorem Guarded.linkEnds (hs : s.Guarded) (hrun : s.canConnect a b = .ok true) :
    (s.linkEnds a b).Guarded := by
  have hjoins := joins_of_canConnect hrun
  obtain ⟨scene, hscene, hfits⟩ := bind_eq_ok.mp (check_eq_ok.mp (check_of_canConnect hrun))
  obtain ⟨h, hh, rfl⟩ := scene_eq_ok.mp hscene
  refine ⟨hs.matched.connect hjoins, ?_, hs.linked, ?_, hs.known⟩
  · intro hnone
    rw [show (s.linkEnds a b).hierarchy = s.hierarchy from rfl, hh] at hnone
    cases hnone
  · intro h' hh'
    obtain rfl := Option.some.inj (hh.symm.trans hh')
    exact (hs.vetted h hh).connect hs.matched hjoins hfits

theorem Guarded.revalidate (hs : s.Guarded) (block : Nat) : (s.revalidate block).1.Guarded := by
  obtain ⟨lost, -, ⟨-, heq⟩ | ⟨-, heq⟩⟩ :=
    revalidate_eq_cut hs.matched.twoWay (Prod.eta (s.revalidate block)).symm
  · rw [heq]
    exact hs.cut lost
  · rw [heq]
    rcases bumpRendered_cases (s.cut lost) block with hsame | hbump
    · rw [hsame]
      exact hs.cut lost
    · rw [hbump]
      exact (hs.cut lost).of_retains rfl rfl (fun _ => .inl) hs.matched.cut.bump (.refl _)

theorem validate_of_readBinding {generic : Text} {explicit : Value} {type : TypeExpr}
    (hread : readBinding scene generic explicit = .ok type) :
    scene.hierarchy.validate type = .ok () := by
  unfold readBinding at hread
  split at hread
  · cases hread
  · split at hread
    · cases hread
    · obtain ⟨_, hvalid, htype⟩ := bind_eq_ok.mp hread
      exact pure_eq_ok.mp htype ▸ hvalid

/-- What is admitted is a generic under the hierarchy in force and a type that can be read. -/
theorem read_of_admitted {generic explicit : Value} {name : Text} {type : TypeExpr}
    (hadmitted : s.admitBinding generic explicit = .ok (name, type)) :
    nameOf generic = .ok name ∧ ∃ h, s.hierarchy = some h ∧ name ≠ TypeExpr.star ∧
      (s.sceneUnder h).isGeneric name = true ∧
      readBinding (s.sceneUnder h) name explicit = .ok type := by
  unfold admitBinding at hadmitted
  obtain ⟨given, hgiven, hadmitted⟩ := bind_eq_ok.mp hadmitted
  split at hadmitted
  · cases hadmitted
  · next hstar =>
    obtain ⟨scene, hscene, hadmitted⟩ := bind_eq_ok.mp hadmitted
    obtain ⟨h, hh, rfl⟩ := scene_eq_ok.mp hscene
    split at hadmitted
    · cases hadmitted
    · next hgeneric =>
      obtain ⟨read, hread, hadmitted⟩ := bind_eq_ok.mp hadmitted
      obtain ⟨rfl, rfl⟩ := Prod.mk.inj (pure_eq_ok.mp hadmitted)
      exact ⟨hgiven, h, hh, hstar, by simpa using hgeneric, hread⟩

/-- A binding that is admitted is to a known type. -/
theorem valid_of_admitted (hs : s.Guarded) {generic explicit : Value} {name : Text}
    {type : TypeExpr} (hadmitted : s.admitBinding generic explicit = .ok (name, type)) :
    ∃ h, s.hierarchy = some h ∧ h.Valid type := by
  obtain ⟨-, h, hh, -, -, hread⟩ := read_of_admitted hadmitted
  exact ⟨h, hh, (hs.linked h hh).validate_eq_ok.mp (validate_of_readBinding hread)⟩

def withBinding (s : Session) (block : Nat) (name : Text) (type : TypeExpr) : Session :=
  { s with bindings := s.bindings.set block name type }

theorem Guarded.withBinding (hs : s.Guarded) {generic explicit : Value} {name : Text}
    {type : TypeExpr} (hadmitted : s.admitBinding generic explicit = .ok (name, type))
    (block : Nat) : (s.withBinding block name type).Guarded := by
  obtain ⟨h, hh, hvalid⟩ := valid_of_admitted hs hadmitted
  refine hs.of_retains rfl rfl (fun entry hentry => ?_) hs.matched (.refl _)
  rcases List.mem_cons.mp hentry with rfl | hold
  · exact .inr ⟨h, hh, hvalid⟩
  · exact .inl (List.mem_filter.mp hold).1

theorem Guarded.step (hs : s.Guarded) {command : Command} (hlink : ∀ a b, command ≠ .link a b)
    (hcheck : ∀ c check, command ≠ .setCheck c check)
    (hkeep : ∀ h, s.hierarchy = some h → (s.step command).1.hierarchy = some h) :
    (s.step command).1.Guarded := by
  cases command with
  | load source built =>
    simp only [Session.step] at hkeep ⊢
    cases hread : s.readHierarchy source built with
    | error fault => exact hs
    | ok h =>
      simp only [hread] at hkeep
      cases hold : s.hierarchy with
      | none => exact hs.load hold hread
      | some old =>
        have hsame : ({ s with hierarchy := some h } : Session) = s := by
          rw [hkeep old hold, ← hold]
        exact hsame ▸ hs
  | addBlock plan =>
    simp only [Session.step]
    cases hrun : s.workspace.addBlock plan with
    | error fault => exact hs
    | ok w =>
      exact hs.of_retains rfl rfl (fun _ => .inl) (hs.matched.addBlock hrun)
        (Workspace.retains_addBlock hs.matched hrun)
  | addConnection block place check =>
    simp only [Session.step]
    cases hrun : s.workspace.addConnection block place check with
    | error fault => exact hs
    | ok w =>
      exact hs.of_retains rfl rfl (fun _ => .inl) (hs.matched.addConnection hrun)
        (Workspace.retains_addConnection hs.matched hrun)
  | setCheck c check => exact absurd rfl (hcheck c check)
  | connect a b =>
    change (s.connect a b).1.Guarded
    rcases connect_cases (s := s) (a := a) (b := b) with heq | ⟨hrun, heq⟩
    · rw [heq]
      exact hs
    · rw [heq]
      exact hs.linkEnds hrun
  | link a b => exact absurd rfl (hlink a b)
  | disconnect c =>
    change (s.disconnect c).Guarded
    rw [← cut_nil (s := s), disconnect_cut hs.matched.twoWay]
    exact hs.cut _
  | bind block generic explicit =>
    change (s.bind block generic explicit).1.Guarded
    rw [bind_eq]
    split
    · exact hs
    · next hadmitted => exact (hs.withBinding hadmitted block).revalidate block
  | unbind block generic =>
    simp only [Session.step, unbind]
    split
    · exact hs
    · split
      · exact hs
      · split
        · refine hs.of_retains rfl rfl (fun entry hentry => .inl ?_) hs.matched (.refl _)
          exact (List.mem_filter.mp hentry).1
        · exact hs

theorem Steady.guarded (hsteady : s.Steady) : s.Guarded := by
  induction hsteady with
  | start policy =>
    exact ⟨Workspace.matched_empty, fun _ => ⟨rfl, fun _ => rfl⟩, nofun, nofun, nofun⟩
  | step command _ hlink hcheck hkeep ih => exact ih.step hlink hcheck hkeep

theorem hierarchy_step {command : Command} (hload : ∀ source built, command ≠ .load source built) :
    (s.step command).1.hierarchy = s.hierarchy := by
  rcases (becomes_step s command).hierarchy with hsame | ⟨source, built, _, heq, -⟩
  · exact hsame
  · exact absurd heq (hload source built)

theorem Steady.run {commands : List Command} (hsteady : s.Steady)
    (hcommands : ∀ command ∈ commands, (∀ a b, command ≠ .link a b) ∧
      (∀ c check, command ≠ .setCheck c check) ∧ ∀ source built, command ≠ .load source built) :
    (s.run commands).Steady := by
  induction commands generalizing s with
  | nil => exact hsteady
  | cons command rest ih =>
    obtain ⟨⟨hlink, hcheck, hload⟩, hrest⟩ := List.forall_mem_cons.mp hcommands
    have hkeep := hierarchy_step (s := s) hload
    exact ih (.step command hsteady hlink hcheck fun h hh => hkeep.trans hh) hrest

theorem steady_of_load (policy : Policy) (source : Source) (built : Bool) {commands : List Command}
    (hcommands : ∀ command ∈ commands, (∀ a b, command ≠ .link a b) ∧
      (∀ c check, command ≠ .setCheck c check) ∧ ∀ source built, command ≠ .load source built) :
    (Session.run { policy := policy } (.load source built :: commands)).Steady := by
  have hfirst : (Session.step { policy := policy } (.load source built)).1.Steady :=
    .step _ (.start policy) (by simp) (by simp) (by simp)
  exact hfirst.run hcommands

/-! ### Checking a link again -/

theorem Guarded.ready (hs : s.Guarded) {h : Hierarchy} (hh : s.hierarchy = some h) :
    (s.sceneUnder h).Ready where
  linked := hs.linked h hh
  owned _ _ hc := hs.matched.owned hc
  checks := by
    intro c peer text peerText hpeer htext hother
    exact ⟨hs.vetted h hh c peer text hpeer htext (by simp [hother]),
      hs.vetted h hh peer c peerText (hs.matched.back hpeer) hother (by simp [htext])⟩
  bindings := hs.known h hh

/-- Nothing stops a link from being judged again but a recursion that does not end, whichever links
are gone by then. -/
theorem Guarded.unending_of_verdict (hs : s.Guarded) {ends : List Nat} {c peer : Nat}
    (hlink : s.workspace.target? c = some peer) {fault : Fault}
    (hverdict : (s.cut ends).verdict c peer = .error fault) : fault = .unending := by
  cases hh : s.hierarchy with
  | none => simp [(hs.idle hh).2 c] at hlink
  | some h =>
    have hscene : (s.cut ends).scene = .ok ((s.cut ends).sceneUnder h) :=
      scene_eq_ok.mpr ⟨h, hh, rfl⟩
    -- The link may be one of those that are gone, so its checks are read off the session with it.
    have hcheck (x : Nat) :
        ((s.cut ends).sceneUnder h).workspace.check? x = s.workspace.check? x := by
      simp only [sceneUnder, Session.cut, Workspace.check?, Workspace.bare?_cut]
    have hkeeps := ((hs.cut ends).ready hh).takes_keeps (a := c) (b := peer) <| by
      intro text other htext hother
      rw [hcheck] at htext hother
      exact (hs.ready hh).checks c peer text other hlink htext hother
    have hdelivers : Delivers ((s.cut ends).sceneUnder h).Endless (fun _ => True)
        (((s.cut ends).sceneUnder h).compatible c peer) := hkeeps.run'
    rw [← verdict_eq hscene, hverdict] at hdelivers
    cases hdelivers with
    | unending _ => rfl

end Session

end TypedBlocks
