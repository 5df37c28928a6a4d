import TypedBlocks.Proofs.Session.Flow
import TypedBlocks.Session.Step

/-! How often blocks were bumped has no part in any answer. Sessions that differ in nothing else
answer all questions and all commands alike, and differ in nothing else afterwards. -/
namespace TypedBlocks

open Json (Value)

def Block.unbumped (k : Block) : Block :=
  { k with bumps := 0 }

theorem Block.unbumped_attach (k : Block) (place : Place) (c : Nat) :
    (k.attach place c).unbumped = k.unbumped.attach place c := by
  cases place <;> rfl

namespace Workspace

variable {w : Workspace} {a b c : Nat}

def unbumped (w : Workspace) : Workspace :=
  { w with blocks := w.blocks.map Block.unbumped }

theorem connection?_unbumped : w.unbumped.connection? c = w.connection? c :=
  rfl

theorem target?_unbumped : w.unbumped.target? c = w.target? c :=
  rfl

theorem block?_unbumped : w.unbumped.block? b = (w.block? b).map Block.unbumped := by
  simp [block?, unbumped]

theorem connectionsOf_unbumped : w.unbumped.connectionsOf b = w.connectionsOf b := by
  simp only [connectionsOf, block?_unbumped]
  cases w.block? b <;> rfl

theorem label_unbumped :
    (w.unbumped.block? b).map (·.label) = (w.block? b).map (·.label) := by
  simp [block?_unbumped, Function.comp_def, Block.unbumped]

theorem endpoint_unbumped : w.unbumped.endpoint c = w.endpoint c := by
  simp only [endpoint, connection?_unbumped, label_unbumped]

theorem unbumped_bump : (w.bump b).unbumped = w.unbumped := by
  have hblocks : (w.bump b).blocks.map Block.unbumped = w.blocks.map Block.unbumped := by
    apply List.ext_getElem?
    intro i
    simp only [bump, List.getElem?_map, List.getElem?_modify]
    cases w.blocks[i]? with
    | none => rfl
    | some k => by_cases hi : b = i <;> simp [hi, Block.unbumped]
  simp only [unbumped, hblocks]
  rfl

theorem disconnect_unbumped : w.unbumped.disconnect c = (w.disconnect c).unbumped := by
  unfold disconnect
  rw [target?_unbumped]
  cases w.target? c with
  | none => rfl
  | some peer =>
    have hpeer : (w.unbumped.setTarget c none).target? peer = (w.setTarget c none).target? peer :=
      rfl
    simp only [hpeer]
    split <;> rfl

theorem connect_unbumped : w.unbumped.connect a b = (w.connect a b).unbumped := by
  simp only [connect, target?_unbumped, disconnect_unbumped]
  split <;> rfl

theorem addConnection_unbumped {place : Place} {check : Option Text} :
    w.unbumped.addConnection b place check =
      (w.addConnection b place check).map Workspace.unbumped := by
  have hat : w.unbumped.connectionAt? b place = w.connectionAt? b place := by
    simp only [connectionAt?, connectionsOf_unbumped]
    rfl
  have hattach : w.unbumped.blocks.modify b (fun k => k.attach place w.connections.length) =
      (w.blocks.modify b fun k => k.attach place w.connections.length).map Block.unbumped := by
    apply List.ext_getElem?
    intro i
    simp only [unbumped, List.getElem?_map, List.getElem?_modify]
    cases w.blocks[i]? with
    | none => rfl
    | some k => by_cases hi : b = i <;> simp [hi, Block.unbumped_attach]
  unfold addConnection
  rw [block?_unbumped, hat]
  cases w.block? b with
  | none => rfl
  | some k =>
    simp only [Option.map_some]
    split
    · rfl
    · show Except.ok _ = Except.ok _
      rw [unbumped]
      congr 2

theorem addConnections_unbumped {places : List (Place × Option Text)} :
    places.foldlM (fun (w : Workspace) item =>
        w.addConnection w.blocks.length.pred item.1 item.2) w.unbumped =
      (places.foldlM (fun (w : Workspace) item =>
        w.addConnection w.blocks.length.pred item.1 item.2) w).map Workspace.unbumped := by
  induction places generalizing w with
  | nil => rfl
  | cons item rest ih =>
    have hlength : w.unbumped.blocks.length = w.blocks.length := by simp [unbumped]
    simp only [List.foldlM_cons, hlength, addConnection_unbumped]
    cases w.addConnection w.blocks.length.pred item.1 item.2 with
    | error fault => rfl
    | ok w' => exact ih

theorem addBlock_unbumped {plan : BlockPlan} :
    w.unbumped.addBlock plan = (w.addBlock plan).map Workspace.unbumped := by
  have hbare : ({ w.unbumped with blocks := w.unbumped.blocks ++
      [{ label := plan.label, rendered := plan.rendered }] } : Workspace) =
      unbumped { w with blocks := w.blocks ++
        [{ label := plan.label, rendered := plan.rendered }] } := by
    simp [unbumped, Block.unbumped]
  unfold addBlock
  rw [hbare]
  exact addConnections_unbumped

end Workspace

namespace Session

variable {s t : Session} {a b c block : Nat}

def unbumped (s : Session) : Session :=
  { s with workspace := s.workspace.unbumped }

theorem workspace_unbumped : s.unbumped.workspace = s.workspace.unbumped :=
  rfl

/-! ### Questions -/

theorem scene_unbumped : s.unbumped.scene =
    s.scene.map fun scene => { scene with workspace := scene.workspace.unbumped } := by
  cases hhierarchy : s.hierarchy <;>
    simp [scene, known, unbumped, hhierarchy, pure, Except.pure, Except.map]

theorem verdict_unbumped : s.unbumped.verdict a b = s.verdict a b := by
  rw [verdict, verdict, scene_unbumped]
  cases s.scene with
  | error fault => rfl
  | ok scene =>
    exact Scene.Akin.compatible ⟨rfl, rfl⟩ rfl rfl fun b => Workspace.connectionsOf_unbumped

theorem naming_unbumped {α : Type} {ends : List Nat} {x : Except Fault α} :
    s.unbumped.naming ends x = s.naming ends x := by
  cases x with
  | ok v => rfl
  | error fault =>
    have hends : ends.map s.workspace.unbumped.endpoint = ends.map s.workspace.endpoint :=
      List.map_congr_left fun c _ => Workspace.endpoint_unbumped
    simp only [naming, workspace_unbumped, hends]

theorem check_unbumped : s.unbumped.check a b = s.check a b := by
  simp only [check, naming_unbumped, verdict_unbumped]

theorem canConnect_unbumped : s.unbumped.canConnect a b = s.canConnect a b := by
  simp only [canConnect_eq, workspace_unbumped, Workspace.connection?_unbumped, check_unbumped]

theorem explicitTypes_unbumped {generic : Value} :
    s.unbumped.explicitTypes block generic = s.explicitTypes block generic := by
  rw [explicitTypes, explicitTypes, explicitOf_congr generic _ Workspace.label_unbumped,
    scene_unbumped]
  cases s.scene with
  | error fault => rfl
  | ok scene =>
    have htypes (name : Text) : Scene.typesOf { scene with workspace :=
        scene.workspace.unbumped } block name = scene.typesOf block name :=
      Scene.Akin.typesOf ⟨rfl, rfl⟩ rfl rfl fun b => Workspace.connectionsOf_unbumped
    simp only [Except.map, ok_bind, htypes]

theorem connectionTypes_unbumped : s.unbumped.connectionTypes c = s.connectionTypes c := by
  have htypes : (do (← s.unbumped.scene).typesAt c) = (do (← s.scene).typesAt c) := by
    rw [scene_unbumped]
    cases s.scene with
    | error fault => rfl
    | ok scene =>
      exact Scene.Akin.typesAt ⟨rfl, rfl⟩ rfl rfl fun b => Workspace.connectionsOf_unbumped
  simp only [connectionTypes_eq, naming_unbumped, workspace_unbumped,
    Workspace.connection?_unbumped, htypes]

/-! ### Commands -/

theorem disconnect_unbumped : s.unbumped.disconnect c = (s.disconnect c).unbumped := by
  simp only [disconnect, unbumped, Workspace.disconnect_unbumped]

theorem linkEnds_unbumped : s.unbumped.linkEnds a b = (s.linkEnds a b).unbumped := by
  simp only [linkEnds, unbumped, Workspace.connect_unbumped]

theorem linksOf_unbumped : s.unbumped.linksOf block = s.linksOf block := by
  simp only [linksOf, workspace_unbumped, Workspace.connectionsOf_unbumped,
    Workspace.target?_unbumped]

theorem dropUnfit_unbumped {links : List (Nat × Nat)} :
    s.unbumped.dropUnfit links = Prod.map unbumped id (s.dropUnfit links) := by
  induction links generalizing s with
  | nil => rfl
  | cons link rest ih =>
    obtain ⟨c, peer⟩ := link
    rw [dropUnfit_cons, dropUnfit_cons]
    rw [verdict_unbumped]
    cases s.verdict c peer with
    | error fault => rfl
    | ok fits =>
      cases fits with
      | false =>
        simp only [disconnect_unbumped]
        exact ih
      | true =>
        simp only [ih]
        rfl

theorem relink_unbumped {links : List (Nat × Nat)} :
    s.unbumped.relink links = Prod.map unbumped id (s.relink links) := by
  induction links generalizing s with
  | nil => rfl
  | cons link rest ih =>
    obtain ⟨c, peer⟩ := link
    rw [relink_cons, relink_cons]
    rw [verdict_unbumped]
    cases s.verdict c peer with
    | error fault => rfl
    | ok fits =>
      cases fits with
      | false => exact ih
      | true =>
        simp only [linkEnds_unbumped]
        exact ih

theorem disconnectAll_unbumped {links : List (Nat × Nat)} :
    s.unbumped.disconnectAll links = (s.disconnectAll links).unbumped := by
  induction links generalizing s with
  | nil => rfl
  | cons link rest ih =>
    show (s.unbumped.disconnect link.1).disconnectAll rest =
      ((s.disconnect link.1).disconnectAll rest).unbumped
    rw [disconnect_unbumped, ih]

theorem unbumped_unbumped : s.unbumped.unbumped = s.unbumped := by
  simp [unbumped, Workspace.unbumped, Block.unbumped, Function.comp_def]

/-- A bump is all that a block is told. -/
theorem unbumped_bumpRendered : (s.bumpRendered block).unbumped = s.unbumped := by
  unfold bumpRendered
  split
  · simp only [unbumped, Workspace.unbumped_bump]
  · rfl

/-- The same outcome, and sessions that differ in bumps only. -/
theorem revalidate_unbumped : Prod.map unbumped id (s.unbumped.revalidate block) =
    Prod.map unbumped id (s.revalidate block) := by
  rw [revalidate_eq, revalidate_eq]
  rw [linksOf_unbumped, dropUnfit_unbumped]
  cases s.dropUnfit (s.linksOf block) with
  | mk s' outcome =>
    cases outcome with
    | error fault => simp [unbumped_unbumped]
    | ok kept =>
      have hpolicy : s'.unbumped.policy = s'.policy := rfl
      simp only [Prod.map_apply, id_eq, hpolicy, disconnectAll_unbumped, relink_unbumped]
      cases s'.policy.reconnect with
      | false => simp [unbumped_bumpRendered, unbumped_unbumped]
      | true =>
        simp only [if_true]
        cases (s'.disconnectAll kept).relink kept with
        | mk s'' outcome =>
          cases outcome <;> simp [unbumped_bumpRendered, unbumped_unbumped]

theorem admitBinding_unbumped {generic explicit : Value} :
    s.unbumped.admitBinding generic explicit = s.admitBinding generic explicit := by
  simp only [admitBinding, scene_unbumped]
  cases nameOf generic with
  | error fault => rfl
  | ok name =>
    cases s.scene with
    | error fault => rfl
    | ok scene => rfl

theorem map_unbumped_of_eq {α : Type} {x y : Session × α} (heq : x = Prod.map unbumped id y) :
    Prod.map unbumped id x = Prod.map unbumped id y := by
  rw [heq, Prod.map_map]
  exact Prod.ext unbumped_unbumped rfl

theorem connect_unbumped :
    s.unbumped.connect a b = Prod.map unbumped id (s.connect a b) := by
  simp only [connect_eq, canConnect_unbumped, linkEnds_unbumped]
  split <;> rfl

theorem unbind_unbumped {generic : Value} :
    s.unbumped.unbind block generic = Prod.map unbumped id (s.unbind block generic) := by
  have hknown : s.unbumped.known = s.known := rfl
  have hbindings : s.unbumped.bindings = s.bindings := rfl
  simp only [unbind, hknown, hbindings]
  split
  · rfl
  · split
    · rfl
    · split <;> rfl

theorem bind_unbumped {generic explicit : Value} :
    Prod.map unbumped id (s.unbumped.bind block generic explicit) =
      Prod.map unbumped id (s.bind block generic explicit) := by
  simp only [bind_eq, admitBinding_unbumped]
  split
  · exact map_unbumped_of_eq rfl
  · next name type _ =>
    exact revalidate_unbumped (s := { s with bindings := s.bindings.set block name type })

/-- One command: the same reply, and sessions that differ in bumps only. -/
theorem step_unbumped (command : Command) : Prod.map unbumped id (s.unbumped.step command) =
    Prod.map unbumped id (s.step command) := by
  cases command with
  | load source built =>
    apply map_unbumped_of_eq
    have hread : s.unbumped.readHierarchy source built = s.readHierarchy source built := rfl
    simp only [step, hread]
    split <;> rfl
  | addBlock plan =>
    apply map_unbumped_of_eq
    simp only [step, workspace_unbumped, Workspace.addBlock_unbumped]
    cases s.workspace.addBlock plan with
    | error fault => rfl
    | ok w => simp [Except.map, unbumped, Workspace.unbumped]
  | addConnection block place check =>
    apply map_unbumped_of_eq
    simp only [step, workspace_unbumped, Workspace.addConnection_unbumped]
    cases s.workspace.addConnection block place check <;> rfl
  | setCheck c check => exact map_unbumped_of_eq rfl
  | connect a b => exact map_unbumped_of_eq connect_unbumped
  | link a b =>
    apply map_unbumped_of_eq
    simp only [step, linkEnds_unbumped]
    rfl
  | disconnect c =>
    apply map_unbumped_of_eq
    simp only [step, disconnect_unbumped]
    rfl
  | bind block generic explicit =>
    obtain ⟨hsession, houtcome⟩ := Prod.mk.inj (@bind_unbumped s block generic explicit)
    exact Prod.ext hsession (congrArg (Except.map fun _ => Reply.done) houtcome)
  | unbind block generic =>
    apply map_unbumped_of_eq
    simp only [step, unbind_unbumped]
    rfl

/-- Sessions that nobody can tell apart by asking or by giving one more command. -/
structure SameAnswers (s t : Session) : Prop where
  check : ∀ a b, s.check a b = t.check a b
  canConnect : ∀ a b, s.canConnect a b = t.canConnect a b
  explicitTypes : ∀ block generic, s.explicitTypes block generic = t.explicitTypes block generic
  connectionTypes : ∀ c, s.connectionTypes c = t.connectionTypes c
  binding : ∀ block generic, s.binding block generic = t.binding block generic
  typeNames : s.typeNames = t.typeNames
  target : ∀ c, s.workspace.target? c = t.workspace.target? c
  reply : ∀ command, (s.step command).2 = (t.step command).2

theorem sameAnswers_of_unbumped (heq : s.unbumped = t.unbumped) : s.SameAnswers t := by
  constructor
  · intro a b
    rw [← check_unbumped, heq, check_unbumped]
  · intro a b
    rw [← canConnect_unbumped, heq, canConnect_unbumped]
  · intro block generic
    rw [← explicitTypes_unbumped, heq, explicitTypes_unbumped]
  · intro c
    rw [← connectionTypes_unbumped, heq, connectionTypes_unbumped]
  · intro block generic
    show s.unbumped.binding block generic = t.unbumped.binding block generic
    rw [heq]
  · show s.unbumped.typeNames = t.unbumped.typeNames
    rw [heq]
  · intro c
    show s.unbumped.workspace.target? c = t.unbumped.workspace.target? c
    rw [heq]
  · intro command
    have hs := (Prod.mk.inj (step_unbumped (s := s) command)).2
    have ht := (Prod.mk.inj (step_unbumped (s := t) command)).2
    rw [heq] at hs
    exact hs.symm.trans ht

/-- Any number of commands. -/
theorem run_unbumped (heq : s.unbumped = t.unbumped) (commands : List Command) :
    (s.run commands).unbumped = (t.run commands).unbumped := by
  induction commands generalizing s t with
  | nil => exact heq
  | cons command rest ih =>
    have hs := (Prod.mk.inj (step_unbumped (s := s) command)).1
    have ht := (Prod.mk.inj (step_unbumped (s := t) command)).1
    rw [heq] at hs
    exact ih (hs.symm.trans ht)

end Session

end TypedBlocks
