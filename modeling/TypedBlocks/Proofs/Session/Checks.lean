import TypedBlocks.Proofs.Session.Bumps
import TypedBlocks.Proofs.Session.Recall
import TypedBlocks.Proofs.Session.Steps
import TypedBlocks.Session.Checker

/-! Checks that are kept. Under one hierarchy a text is always read alike, and a new hierarchy
starts with no checks; so each one that is kept is what reading its text anew comes to. A checker
goes through the same sessions as one that keeps nothing and gives the same replies and answers. -/
namespace TypedBlocks

open Json (Value)

variable {α β : Type}

/-! ### Work with kept checks -/

/-- Started with good checks, the work has this result and leaves good ones. -/
def Yields (good : Checks → Prop) (work : StateM Checks α) (result : α) : Prop :=
  ∀ checks, good checks → ∃ left, work checks = (result, left) ∧ good left

namespace Yields

variable {good : Checks → Prop}

theorem pure (a : α) : Yields good (pure a) a :=
  fun checks hgood => ⟨checks, rfl, hgood⟩

theorem bind {x : StateM Checks α} {a : α} {f : α → StateM Checks β} {b : β}
    (hx : Yields good x a) (hf : Yields good (f a) b) : Yields good (x >>= f) b := by
  intro checks hgood
  obtain ⟨left, hrun, hleft⟩ := hx checks hgood
  obtain ⟨last, hrest, hlast⟩ := hf left hleft
  refine ⟨last, ?_, hlast⟩
  rw [← hrest]
  exact congrArg (fun r : α × Checks => f r.1 r.2) hrun

theorem map {x : StateM Checks α} {a : α} (f : α → β) (hx : Yields good x a) :
    Yields good (f <$> x) (f a) := by
  rw [map_eq_pure_bind]
  exact hx.bind (pure (f a))

/-- What has gone wrong is not gone on with. -/
theorem bind_outcome {x : Scene.Reading α} {y : Except Fault α} {f : α → Scene.Reading β}
    {g : α → Except Fault β} (hx : Yields good x.run y)
    (hf : ∀ a, y = .ok a → Yields good (f a).run (g a)) :
    Yields good (x >>= f).run (y >>= g) := by
  rw [ExceptT.run_bind]
  refine hx.bind ?_
  cases y with
  | error fault => exact pure (Except.error fault)
  | ok a => exact hf a rfl

theorem map_outcome {x : Scene.Reading α} {y : Except Fault α} (f : α → β)
    (hx : Yields good x.run y) : Yields good (f <$> x).run (f <$> y) := by
  rw [map_eq_pure_bind, map_eq_pure_bind]
  exact hx.bind_outcome fun a _ => pure (Except.ok (f a))

end Yields

namespace Scene

variable {s : Scene} {text : Text} {checks : Checks}

/-- Every check that is kept is what reading its text anew comes to. -/
def Faithful (s : Scene) (checks : Checks) : Prop :=
  ∀ text t, checks.lookup text = some t → s.readCheck text = .ok t

theorem Faithful.cons (hchecks : s.Faithful checks) {t : TypeExpr}
    (hread : s.readCheck text = .ok t) : s.Faithful ((text, t) :: checks) := by
  intro text' t' hfind
  rw [List.lookup_cons] at hfind
  split at hfind
  · next hkey =>
    obtain rfl := eq_of_beq hkey
    cases hfind
    exact hread
  · exact hchecks text' t' hfind

theorem readThrough_run (s : Scene) (text : Text) (checks : Checks) :
    (s.readThrough text).run checks =
      match checks.lookup text with
      | some t => (.ok t, checks)
      | none =>
        match s.readCheck text with
        | .ok t => (.ok t, (text, t) :: checks)
        | .error fault => (.error fault, checks) := by
  change (match checks.lookup text with
    | some t => (pure t : Reading _)
    | none => _) checks = _
  cases checks.lookup text with
  | some t => rfl
  | none => cases s.readCheck text <;> rfl

/-- Reading through checks that are faithful is reading anew. -/
theorem readThrough_yields (s : Scene) (text : Text) :
    Yields s.Faithful (s.readThrough text).run (s.readCheck text) := by
  intro checks hchecks
  have hrun := s.readThrough_run text checks
  cases hfind : checks.lookup text with
  | some t =>
    simp only [hfind] at hrun
    exact ⟨checks, by rw [hrun, hchecks text t hfind], hchecks⟩
  | none =>
    cases hread : s.readCheck text with
    | ok t =>
      simp only [hfind, hread] at hrun
      exact ⟨_, hrun, hchecks.cons hread⟩
    | error fault =>
      simp only [hfind, hread] at hrun
      exact ⟨checks, hrun, hchecks⟩

/-- Reading through the kept checks side by side with reading anew. -/
def through (s : Scene) : Lockstep (StateT Memo Reading) Recalling where
  rel x y := ∀ table, Yields s.Faithful (x table).run (y table)
  admits _ := True
  pure a table := .pure (Except.ok (a, table))
  bind hx hf table := (hx table).bind_outcome fun r _ => hf r.1 r.2
  lift := by
    intro α x _ table
    cases x with
    | ok a => exact .pure (Except.ok (a, table))
    | error fault => exact .pure (Except.error fault)
  read := by
    intro α β x f g _ hfg table
    cases x with
    | ok a => exact hfg a rfl table
    | error fault => exact .pure (Except.error fault)

theorem through_admits (s : Scene) : s.through.Admits s where
  readCheck := by
    intro α text f g hfg table
    rw [readCheck_eq_lift]
    refine Yields.bind_outcome (y := s.readCheck text >>= fun t => .ok (t, table)) ?_ ?_
    · exact (s.readThrough_yields text).bind_outcome fun t _ => .pure (Except.ok (t, table))
    · intro r hr
      obtain ⟨t, hread, hr⟩ := bind_eq_ok.mp hr
      cases hr
      exact hfg t hread table
  gather _ _ _ := True.intro
  unify _ := True.intro
  common _ _ := True.intro
  fulfilled _ _ := True.intro

theorem recallIn_through (depth block : Nat) (generic : Text) (skip : Option Nat) :
    s.through.rel (s.recallIn depth block generic skip)
      (s.recallWithin depth block generic skip) := by
  induction depth generalizing block generic skip with
  | zero => exact fun table => .pure (Except.error Fault.unending)
  | succ depth ih =>
    intro table
    cases hfind : s.bindings.find? block generic with
    | some t =>
      simp only [recallIn, hfind]
      exact .pure (Except.ok ([t], table))
    | none =>
      have hlinks : s.through.rel (s.resolveLinks (s.recallIn depth) block generic skip)
          (s.resolveLinks (s.recallWithin depth) block generic skip) :=
        s.through_admits.resolveLinks fun _ _ _ peer b g _ => ih b g (some peer)
      rw [recallIn_of_unbound hfind, recallWithin, recallIn_of_unbound hfind]
      cases table.lookup (block, generic, skip) with
      | some types => exact .pure (Except.ok (types, table))
      | none => exact (hlinks table).bind_outcome fun r _ => .pure (Except.ok (r.1, _))

theorem Query.run_through (q : s.Query α) :
    Yields s.Faithful ((q.run (s.recallIn (m := Reading) s.depth)).run' []).run
      ((q.run s.resolve).run' []) :=
  (q.lockstep s.through_admits (recallIn_through s.depth) []).map_outcome Prod.fst

end Scene

namespace Session

variable {s t : Session}

/-- There is no hierarchy to be faithful to before one is taken. -/
def Faithful (s : Session) (checks : Checks) : Prop :=
  ∀ scene, s.scene = .ok scene → scene.Faithful checks

theorem faithful_eq {scene : Scene} (hscene : s.scene = .ok scene) :
    s.Faithful = scene.Faithful := by
  funext checks
  simp [Faithful, hscene]

theorem Faithful.congr {checks : Checks} (hchecks : s.Faithful checks)
    (hpolicy : t.policy = s.policy) (hhierarchy : t.hierarchy = s.hierarchy) :
    t.Faithful checks := by
  intro scene hscene text type hfind
  obtain ⟨h, hh, rfl⟩ := scene_eq_ok.mp hscene
  have hs : s.scene = .ok (s.sceneUnder h) := scene_eq_ok.mpr ⟨h, hhierarchy ▸ hh, rfl⟩
  have hakin : (t.sceneUnder h).Akin (s.sceneUnder h) := ⟨rfl, congrArg Policy.pattern hpolicy⟩
  rw [hakin.readCheck]
  exact hchecks _ hs text type hfind

theorem faithful_congr (hpolicy : t.policy = s.policy) (hhierarchy : t.hierarchy = s.hierarchy) :
    t.Faithful = s.Faithful :=
  funext fun _ => propext ⟨(·.congr hpolicy.symm hhierarchy.symm), (·.congr hpolicy hhierarchy)⟩

theorem Moved.faithful (hmoved : s.Moved t) : t.Faithful = s.Faithful := by
  obtain ⟨w, rfl⟩ := hmoved
  exact faithful_congr rfl rfl

theorem keeping_yields {question : Scene → Scene.Reading α} {plain : Scene → Except Fault α}
    (hasked : ∀ scene, Yields scene.Faithful (question scene).run (plain scene)) :
    Yields s.Faithful (s.keeping question) (s.scene >>= plain) := by
  unfold keeping
  cases hscene : s.scene with
  | error fault => exact .pure (Except.error fault)
  | ok scene =>
    rw [faithful_eq hscene]
    exact hasked scene

theorem vet_yields (s : Session) (a b : Nat) :
    Yields s.Faithful (s.vet a b) (s.verdict a b) :=
  keeping_yields fun scene => (Scene.Query.verdict scene a b).run_through

theorem typesOf_yields (s : Session) (block : Nat) (generic : Value) :
    Yields s.Faithful
      (s.keeping fun scene => do scene.typesOfIn block (← liftM (nameOf generic)))
      (do (← s.scene).typesOf block (← nameOf generic)) := by
  refine keeping_yields fun scene => ?_
  cases nameOf generic with
  | error fault => exact .pure (Except.error fault)
  | ok name => exact (Scene.Query.types scene block name none).run_through

theorem connectionTypesBy_yields (s : Session) (c : Nat) :
    Yields s.Faithful (s.connectionTypesBy (s.keeping (·.typesAtIn c)) c)
      (s.connectionTypes c) := by
  unfold connectionTypes connectionTypesBy
  split
  · exact .pure _
  · split
    · exact .pure _
    · exact (keeping_yields fun scene => (Scene.Query.check scene c).run_through).bind (.pure _)

theorem canConnectBy_yields (s : Session) (a b : Nat) :
    Yields s.Faithful (s.canConnectBy vet a b) (s.canConnect a b) := by
  have hvetted (refused : Bool) : Yields s.Faithful
      (if refused then pure (.ok false) else do return s.naming [a, b] (← s.vet a b))
      (if refused then .ok false else s.check a b) := by
    cases refused with
    | true => exact .pure _
    | false => exact (vet_yields s a b).bind (.pure _)
  rw [canConnect_eq]
  unfold canConnectBy
  split
  · exact hvetted _
  · exact .pure _

theorem dropUnfitBy_yields (s : Session) (links : List (Nat × Nat)) :
    Yields s.Faithful (s.dropUnfitBy vet links) (s.dropUnfit links) := by
  induction links generalizing s with
  | nil => exact .pure _
  | cons link rest ih =>
    obtain ⟨c, peer⟩ := link
    rw [dropUnfit_cons, dropUnfitBy]
    refine (vet_yields s c peer).bind ?_
    cases s.verdict c peer with
    | error fault => exact .pure _
    | ok fits =>
      cases fits with
      | false =>
        rw [← (moved_disconnect s c).faithful]
        exact ih (s.disconnect c)
      | true => exact (ih s).bind (.pure _)

theorem relinkBy_yields (s : Session) (links : List (Nat × Nat)) :
    Yields s.Faithful (s.relinkBy vet links) (s.relink links) := by
  induction links generalizing s with
  | nil => exact .pure _
  | cons link rest ih =>
    obtain ⟨c, peer⟩ := link
    rw [relink_cons, relinkBy]
    refine (vet_yields s c peer).bind ?_
    cases s.verdict c peer with
    | error fault => exact .pure _
    | ok fits =>
      cases fits with
      | false => exact ih s
      | true =>
        rw [← (moved_linkEnds s c peer).faithful]
        exact ih (s.linkEnds c peer)

theorem revalidateBy_yields (s : Session) (block : Nat) :
    Yields s.Faithful (s.revalidateBy vet block) (s.revalidate block) := by
  -- links come and go, but the checks stay faithful to every session on the way
  have hmoved := moved_dropUnfit s (s.linksOf block)
  rw [revalidate_eq, revalidateBy]
  refine (dropUnfitBy_yields s (s.linksOf block)).bind ?_
  revert hmoved
  rcases s.dropUnfit (s.linksOf block) with ⟨t, fault | kept⟩ <;> intro hmoved
  · exact .pure _
  · rw [← hmoved.faithful]
    simp only [reconnectBy]
    split
    · rw [← (moved_disconnectAll t kept).faithful]
      refine (relinkBy_yields (t.disconnectAll kept) kept).bind ?_
      rcases (t.disconnectAll kept).relink kept with ⟨u, fault | done⟩ <;> exact .pure _
    · exact .pure _

theorem bindBy_yields (s : Session) (block : Nat) (generic explicit : Value) :
    Yields s.Faithful (s.bindBy vet block generic explicit) (s.bind block generic explicit) := by
  rw [bind_eq, bindBy]
  cases s.admitBinding generic explicit with
  | error fault => exact .pure _
  | ok admitted =>
    obtain ⟨name, type⟩ := admitted
    have hsame : Faithful { s with bindings := s.bindings.set block name type } = s.Faithful :=
      faithful_congr rfl rfl
    rw [← hsame]
    exact revalidateBy_yields _ block

theorem connectBy_yields (s : Session) (a b : Nat) :
    Yields s.Faithful (s.connectBy vet a b) (s.connect a b) := by
  rw [connect_eq, connectBy]
  refine (canConnectBy_yields s a b).bind ?_
  rcases s.canConnect a b with fault | fits
  · exact .pure _
  · cases fits <;> exact .pure _

end Session

/-! ### Checkers -/

namespace Checker

variable {c d : Checker} {s t : Session}

/-- A checker whose session is the given one, with checks that are faithful to it. -/
structure Over (c : Checker) (s : Session) : Prop where
  session : c.session = s
  faithful : s.Faithful c.checks

namespace Over

variable (hc : c.Over s)

include hc

theorem ask {question : StateM Checks α} {a : α} (hyields : Yields s.Faithful question a) :
    (c.ask question).2 = a ∧ (c.ask question).1.Over s := by
  obtain ⟨left, hrun, hleft⟩ := hyields c.checks hc.faithful
  have hask : c.ask question = (⟨c.session, left⟩, a) :=
    congrArg (fun r : α × Checks => ((⟨c.session, r.2⟩ : Checker), r.1)) hrun
  rw [hask]
  exact ⟨rfl, hc.session, hleft⟩

theorem act {work : StateM Checks (Session × α)} {r : Session × α}
    (hyields : Yields s.Faithful work r)
    (hkept : ∀ checks, s.Faithful checks → r.1.Faithful checks) :
    (c.act work).2 = r.2 ∧ (c.act work).1.Over r.1 := by
  obtain ⟨left, hrun, hleft⟩ := hyields c.checks hc.faithful
  have hact : c.act work = (⟨r.1, left⟩, r.2) :=
    congrArg (fun r : (Session × α) × Checks => ((⟨r.1.1, r.2⟩ : Checker), r.1.2)) hrun
  rw [hact]
  exact ⟨rfl, rfl, hkept left hleft⟩

theorem check (a b : Nat) : (c.check a b).2 = s.check a b ∧ (c.check a b).1.Over s := by
  unfold Checker.check
  rw [hc.session]
  exact hc.ask ((Session.vet_yields s a b).map (s.naming [a, b]))

theorem canConnect (a b : Nat) :
    (c.canConnect a b).2 = s.canConnect a b ∧ (c.canConnect a b).1.Over s := by
  unfold Checker.canConnect
  rw [hc.session]
  exact hc.ask (Session.canConnectBy_yields s a b)

theorem explicitTypes (block : Nat) (generic : Value) :
    (c.explicitTypes block generic).2 = s.explicitTypes block generic ∧
      (c.explicitTypes block generic).1.Over s := by
  unfold Checker.explicitTypes
  rw [hc.session]
  exact hc.ask ((Session.typesOf_yields s block generic).map (s.explicitOf block generic))

theorem connectionTypes (connection : Nat) :
    (c.connectionTypes connection).2 = s.connectionTypes connection ∧
      (c.connectionTypes connection).1.Over s := by
  unfold Checker.connectionTypes
  rw [hc.session]
  exact hc.ask (Session.connectionTypesBy_yields s connection)

/-- Only a new hierarchy can make checks unfaithful, and then none is kept. -/
theorem step (command : Command) :
    (c.step command).2 = (s.step command).2 ∧ (c.step command).1.Over (s.step command).1 := by
  have hkept (hload : ∀ source built, command ≠ .load source built) (checks : Checks)
      (hchecks : s.Faithful checks) : (s.step command).1.Faithful checks := by
    have hbecomes := Session.becomes_step s command
    rcases hbecomes.hierarchy with hsame | ⟨source, built, _, rfl, -⟩
    · exact hchecks.congr hbecomes.policy hsame
    · exact absurd rfl (hload source built)
  obtain rfl := hc.session
  cases command with
  | load source built =>
    simp only [Checker.step, Session.step]
    cases c.session.readHierarchy source built with
    | ok h => exact ⟨rfl, rfl, by rintro _ _ _ _ ⟨⟩⟩
    | error fault => exact ⟨rfl, rfl, hc.faithful⟩
  | connect a b => exact hc.act (Session.connectBy_yields c.session a b) (hkept (by simp))
  | bind block generic explicit =>
    obtain ⟨houtcome, hover⟩ :=
      hc.act (Session.bindBy_yields c.session block generic explicit) (hkept (by simp))
    exact ⟨congrArg (Except.map fun _ => Reply.done) houtcome, hover⟩
  | addBlock | addConnection | setCheck | link | disconnect | unbind =>
    exact hc.act (.pure (c.session.step _)) (hkept (by simp))

theorem run (commands : List Command) : (c.run commands).Over (s.run commands) := by
  induction commands generalizing c s with
  | nil => exact hc
  | cons command rest ih => exact ih (hc.step command).2

end Over

/-- From the start on a checker is over the session that the same commands lead to. -/
theorem over_run (policy : Policy) (commands : List Command) :
    (run { session := { policy := policy } } commands).Over
      (Session.run { policy := policy } commands) :=
  Over.run ⟨rfl, by rintro _ ⟨⟩⟩ commands

/-- Checkers that nobody can tell apart by asking or by giving one more command. -/
structure SameAnswers (c d : Checker) : Prop where
  check : ∀ a b, (c.check a b).2 = (d.check a b).2
  canConnect : ∀ a b, (c.canConnect a b).2 = (d.canConnect a b).2
  explicitTypes : ∀ block generic,
    (c.explicitTypes block generic).2 = (d.explicitTypes block generic).2
  connectionTypes : ∀ x, (c.connectionTypes x).2 = (d.connectionTypes x).2
  binding : ∀ block generic, c.session.binding block generic = d.session.binding block generic
  typeNames : c.session.typeNames = d.session.typeNames
  target : ∀ x, c.session.workspace.target? x = d.session.workspace.target? x
  reply : ∀ command, (c.step command).2 = (d.step command).2

theorem Over.sameAnswers (hc : c.Over s) (hd : d.Over t) (hst : s.SameAnswers t) :
    c.SameAnswers d where
  check a b := by rw [(hc.check a b).1, (hd.check a b).1, hst.check]
  canConnect a b := by rw [(hc.canConnect a b).1, (hd.canConnect a b).1, hst.canConnect]
  explicitTypes block generic := by
    rw [(hc.explicitTypes block generic).1, (hd.explicitTypes block generic).1, hst.explicitTypes]
  connectionTypes x := by
    rw [(hc.connectionTypes x).1, (hd.connectionTypes x).1, hst.connectionTypes]
  binding block generic := by rw [hc.session, hd.session, hst.binding]
  typeNames := by rw [hc.session, hd.session, hst.typeNames]
  target x := by rw [hc.session, hd.session, hst.target]
  reply command := by rw [(hc.step command).1, (hd.step command).1, hst.reply]

end Checker

end TypedBlocks
