import TypedBlocks.Proofs.Session.Binding
import TypedBlocks.Proofs.Session.Typing

/-! Links made one after another, each vetted when it is made. Later links can matter to an earlier
one only through the links its verdict reads. Where checks are types or single generics and every
link has a type at one end, all links stay accepted, and the order in which they are made does not
matter. -/
namespace TypedBlocks.Session

variable {s t : Session} {scene : Scene} {links before after : List (Nat × Nat)}
  {a b c p x y : Nat}

/-- Connects pairs one after another; those that do not fit are left out. -/
def connectAll (s : Session) (links : List (Nat × Nat)) : Session :=
  s.run (links.map fun link => .connect link.1 link.2)

def Accepts (s : Session) : List (Nat × Nat) → Prop
  | [] => True
  | (a, b) :: rest => s.canConnect a b = .ok true ∧ (s.linkEnds a b).Accepts rest

def linkAll (s : Session) (links : List (Nat × Nat)) : Session :=
  links.foldl (fun s link => s.linkEnds link.1 link.2) s

theorem connect_of_canConnect (hrun : s.canConnect a b = .ok true) :
    (s.connect a b).1 = s.linkEnds a b := by
  simp only [connect_eq, hrun]

theorem connect_cases : (s.connect a b).1 = s ∨
    s.canConnect a b = .ok true ∧ (s.connect a b).1 = s.linkEnds a b := by
  by_cases hrun : s.canConnect a b = .ok true
  · exact .inr ⟨hrun, connect_of_canConnect hrun⟩
  · left
    rw [connect_eq]
    split
    · contradiction
    · rfl
    · rfl

theorem Accepts.connectAll_eq (haccepts : s.Accepts links) :
    s.connectAll links = s.linkAll links := by
  induction links generalizing s with
  | nil => rfl
  | cons link rest ih =>
    change (s.connect link.1 link.2).1.connectAll rest = (s.linkEnds link.1 link.2).linkAll rest
    rw [connect_of_canConnect haccepts.1, ih haccepts.2]

/-- What every accepted link keeps holds after all of them. -/
theorem connectAll_induction {P : Session → Prop} (hstart : P s)
    (hstep : ∀ t, ∀ link ∈ links, P t → t.canConnect link.1 link.2 = .ok true →
      P (t.linkEnds link.1 link.2)) : P (s.connectAll links) := by
  induction links generalizing s with
  | nil => exact hstart
  | cons link rest ih =>
    change P ((s.connect link.1 link.2).1.connectAll rest)
    refine ih ?_ fun t later hlater => hstep t later (List.mem_cons_of_mem _ hlater)
    rcases connect_cases (s := s) (a := link.1) (b := link.2) with heq | ⟨hrun, heq⟩
    · rwa [heq]
    · rw [heq]
      exact hstep s link List.mem_cons_self hstart hrun

/-- A link is vetted if its ends may be joined; otherwise it is refused. -/
theorem canConnect_cases : s.workspace.Joins a b ∧ s.canConnect a b = s.check a b ∨
    ¬s.workspace.Joins a b ∧ s.canConnect a b = .ok false := by
  unfold Workspace.Joins
  rw [canConnect_eq]
  simp only [Workspace.owner?, Workspace.place?]
  cases s.workspace.connection? a with
  | none => simp
  | some ka =>
    cases s.workspace.connection? b with
    | none => simp
    | some kb =>
      obtain ⟨_, place, _, _⟩ := ka
      obtain ⟨_, other, _, _⟩ := kb
      cases place <;> cases other <;> simp [Place.isParentSide, Place.pairs] <;> tauto

/-- Connections that may be linked pass the check. -/
theorem check_of_canConnect (hrun : s.canConnect a b = .ok true) : s.check a b = .ok true := by
  rcases canConnect_cases (s := s) (a := a) (b := b) with ⟨-, heq⟩ | ⟨hno, -⟩
  · exact heq.symm.trans hrun
  · exact absurd (joins_of_canConnect hrun) hno

/-! ### What links leave as it is -/

structure Rewired (s t : Session) : Prop where
  session : t = { s with workspace := t.workspace }
  blocks : t.workspace.blocks = s.workspace.blocks
  bare : ∀ x, t.workspace.bare? x = s.workspace.bare? x
  matched : t.workspace.Matched

namespace Rewired

theorem refl (hw : s.workspace.Matched) : s.Rewired s :=
  ⟨rfl, rfl, fun _ => rfl, hw⟩

theorem linkEnds (hr : s.Rewired t) (hjoins : t.workspace.Joins a b) :
    s.Rewired (t.linkEnds a b) where
  session := by
    rw [hr.session]
    rfl
  blocks := hr.matched.blocks_connect.trans hr.blocks
  bare x := hr.matched.bare?_connect.trans (hr.bare x)
  matched := hr.matched.connect hjoins

theorem scene_eq (hr : s.Rewired t) (hscene : s.scene = .ok scene) :
    t.scene = .ok (scene.wired t.workspace) := by
  obtain ⟨h, hknown, hok⟩ := bind_eq_ok.mp hscene
  obtain rfl := pure_eq_ok.mp hok
  have hknown' : t.known = .ok h := by
    rw [hr.session]
    exact hknown
  rw [Session.scene, hknown', ok_bind, hr.session]
  rfl

theorem relinked (hr : s.Rewired t) (hscene : s.scene = .ok scene) :
    scene.Relinked (scene.wired t.workspace) := by
  have hworkspace := workspace_of_scene hscene
  refine ⟨⟨rfl, rfl⟩, rfl, fun b => ?_, fun x => ?_⟩
  · simp only [Scene.wired, hworkspace, Workspace.connectionsOf, Workspace.block?, hr.blocks]
  · rw [hworkspace]
    exact (hr.bare x).symm

theorem endpoint (hr : s.Rewired t) : t.workspace.endpoint x = s.workspace.endpoint x :=
  Workspace.endpoint_congr hr.blocks hr.bare

end Rewired

/-- Links that are made leave everything else as it is. -/
theorem rewired_connectAll (hw : s.workspace.Matched) : s.Rewired (s.connectAll links) :=
  connectAll_induction (.refl hw) fun _ _ _ hr hrun => hr.linkEnds (joins_of_canConnect hrun)

/-- For what is kept it may be taken for granted that everything but the links is as it was. -/
theorem connectAll_keeps {P : Session → Prop} (hw : s.workspace.Matched) (hstart : P s)
    (hstep : ∀ t, ∀ link ∈ links, s.Rewired t → P t → t.canConnect link.1 link.2 = .ok true →
      P (t.linkEnds link.1 link.2)) : P (s.connectAll links) :=
  (connectAll_induction (P := fun t => s.Rewired t ∧ P t) ⟨.refl hw, hstart⟩
    fun t link hlink ⟨hr, ht⟩ hrun =>
      ⟨hr.linkEnds (joins_of_canConnect hrun), hstep t link hlink hr ht hrun⟩).2

theorem Rewired.compatible_of_canConnect (hr : s.Rewired t) (hscene : s.scene = .ok scene)
    (hrun : t.canConnect a b = .ok true) :
    (scene.wired t.workspace).compatible a b = .ok true := by
  rw [← verdict_eq (hr.scene_eq hscene), ← check_eq_ok]
  exact check_of_canConnect hrun

theorem vetted_connectAll (hw : s.workspace.Matched) (hscene : s.scene = .ok scene)
    (hs : scene.Vetted) : (scene.wired (s.connectAll links).workspace).Vetted := by
  refine connectAll_keeps (P := fun t => (scene.wired t.workspace).Vetted) hw
    (workspace_of_scene hscene ▸ hs) fun t link _ hr hvetted hrun => ?_
  exact hvetted.connect hr.matched (joins_of_canConnect hrun)
    (hr.compatible_of_canConnect hscene hrun)

/-- A link made between free ends is accepted when it is checked again. -/
theorem check_linkEnds (hr : s.Rewired t) (hscene : s.scene = .ok scene)
    (hvetted : (scene.wired t.workspace).Vetted) (hrun : t.canConnect a b = .ok true)
    (ha : t.workspace.target? a = none) (hb : t.workspace.target? b = none)
    (hforest : (t.linkEnds a b).workspace.Forest) : (t.linkEnds a b).check a b = .ok true := by
  have hjoins := joins_of_canConnect hrun
  have hfits := hr.compatible_of_canConnect hscene hrun
  rw [check_eq_ok, verdict_eq ((hr.linkEnds hjoins).scene_eq hscene), ← hfits]
  exact Scene.compatible_connect (s := scene.wired t.workspace) hr.matched hvetted
    (hvetted.connect hr.matched hjoins hfits) hjoins ha hb hforest

/-- Links that are not read do not matter. -/
theorem check_connectAll {more : List (Nat × Nat)} (hw : t.workspace.Matched)
    (hscene : t.scene = .ok scene) (hvetted : scene.Vetted) (hjoins : t.workspace.Joins a b)
    (hsame : ∀ d, scene.ReadsFor a b d →
      (t.connectAll more).workspace.target? d = t.workspace.target? d) :
    (t.connectAll more).check a b = t.check a b := by
  have hr : t.Rewired (t.connectAll more) := rewired_connectAll hw
  have hworkspace := workspace_of_scene hscene
  have hverdict : (t.connectAll more).verdict a b = t.verdict a b := by
    rw [verdict_eq (hr.scene_eq hscene), verdict_eq hscene]
    exact ((hr.relinked hscene).compatible hvetted (vetted_connectAll hw hscene hvetted)
      (hworkspace ▸ hjoins) fun d hd => hworkspace ▸ (hsame d hd).symm).symm
  rw [check, check, hverdict]
  cases t.verdict a b with
  | ok fits => rfl
  | error fault => simp only [naming, List.map_cons, List.map_nil, hr.endpoint]

/-! ### Links that can be given types -/

/-- A session that differs in its links, which have a type at one end and can be given types. -/
structure Typed (scene : Scene) (s t : Session) : Prop where
  rewired : s.Rewired t
  orderly : (scene.wired t.workspace).Orderly
  typable : (scene.wired t.workspace).Typable

theorem Typed.start (hscene : s.scene = .ok scene) (hw : s.workspace.Matched)
    (hfree : ∀ c, s.workspace.target? c = none) (hunbound : s.bindings = [])
    (hplain : scene.Plain) : Typed scene s s where
  rewired := .refl hw
  orderly := by
    obtain ⟨h, -, hok⟩ := bind_eq_ok.mp hscene
    obtain rfl := pure_eq_ok.mp hok
    exact ⟨hplain, hw, hunbound, fun {x y} hxy => by simp [Scene.wired, hfree] at hxy⟩
  typable := Scene.typable_of_free hfree

section Typed

variable (ht : Typed scene s t) (hscene : s.scene = .ok scene) (hj : scene.hierarchy.Joining)

include ht hscene hj

theorem Typed.linkEnds (hanchored : scene.Anchored a b) (hrun : t.canConnect a b = .ok true) :
    Typed scene s (t.linkEnds a b) := by
  have hjoins := joins_of_canConnect hrun
  have hanchored := (ht.rewired.relinked hscene).anchored hanchored
  have hfits := ht.rewired.compatible_of_canConnect hscene hrun
  exact ⟨ht.rewired.linkEnds hjoins, ht.orderly.connect hjoins hanchored,
    (ht.orderly.compatible_iff hj ht.typable hjoins hanchored hfits).mp rfl⟩

theorem Typed.connectAll (hanchored : ∀ link ∈ links, scene.Anchored link.1 link.2) :
    Typed scene s (t.connectAll links) :=
  connectAll_induction ht fun _ link hlink ht hrun =>
    ht.linkEnds hscene hj (hanchored link hlink) hrun

theorem Typed.check_delivers (hforest : t.workspace.Forest) (hjoins : t.workspace.Joins a b)
    (hanchored : (scene.wired t.workspace).Anchored a b) :
    Delivers scene.hierarchy.Endless
      (fun fits => fits = true ↔ (scene.wired (t.workspace.connect a b)).Typable)
      (t.check a b) := by
  refine naming_delivers [a, b] ?_
  rw [verdict_eq (ht.rewired.scene_eq hscene)]
  exact ht.orderly.compatible_delivers hj hforest ht.typable hjoins hanchored

/-- A link that exists is accepted when it is checked again. -/
theorem Typed.check_linked (hforest : t.workspace.Forest)
    (hlink : t.workspace.target? c = some p) :
    Delivers scene.hierarchy.Endless (· = true) (t.check c p) := by
  refine (ht.check_delivers hscene hj hforest (ht.orderly.matched.joins hlink)
    (ht.orderly.anchored hlink)).mono id fun fits hfits => hfits.mpr ?_
  rw [Workspace.connect_of_linked hlink]
  exact ht.typable

/-- A further link is accepted exactly if its ends may be joined and all links can then be given
types. -/
theorem Typed.canConnect_delivers (hforest : t.workspace.Forest) (hanchored : scene.Anchored a b) :
    Delivers scene.hierarchy.Endless (fun fits => fits = true ↔
        t.workspace.Joins a b ∧ (scene.wired (t.workspace.connect a b)).Typable)
      (t.canConnect a b) := by
  rcases canConnect_cases (s := t) (a := a) (b := b) with ⟨hjoins, heq⟩ | ⟨hno, heq⟩
  · rw [heq]
    refine (ht.check_delivers hscene hj hforest hjoins
      ((ht.rewired.relinked hscene).anchored hanchored)).mono id fun fits hfits => ?_
    simpa [hjoins] using hfits
  · rw [heq]
    exact .result (by simp [hno])

end Typed

/-! ### The order of links -/

def endsOf (links : List (Nat × Nat)) : List Nat :=
  links.flatMap fun link => [link.1, link.2]

theorem mem_endsOf : x ∈ endsOf links ↔ ∃ link ∈ links, x = link.1 ∨ x = link.2 := by
  simp [endsOf]

/-- Only links that were asked for are made. -/
theorem target?_of_connectAll (hw : s.workspace.Matched)
    (hxy : (s.connectAll links).workspace.target? x = some y) :
    s.workspace.target? x = some y ∨ (x, y) ∈ links ∨ (y, x) ∈ links := by
  refine connectAll_keeps (P := fun t => ∀ x y, t.workspace.target? x = some y →
    s.workspace.target? x = some y ∨ (x, y) ∈ links ∨ (y, x) ∈ links) hw (fun x y => .inl)
    (fun t link hlink hr hmade hrun x y hxy => ?_) x y hxy
  rcases (hr.matched.target?_connect (joins_of_canConnect hrun)).mp hxy with
    ⟨rfl, rfl⟩ | ⟨rfl, rfl⟩ | ⟨-, -, hxy⟩
  · exact .inr (.inl hlink)
  · exact .inr (.inr hlink)
  · exact hmade x y hxy

/-- Links between others leave a link alone. -/
theorem target?_connectAll (hw : s.workspace.Matched) (hx : x ∉ endsOf links)
    (hy : y ∉ endsOf links) (hxy : s.workspace.target? x = some y) :
    (s.connectAll links).workspace.target? x = some y := by
  refine connectAll_keeps (P := fun t => t.workspace.target? x = some y) hw hxy
    fun t link hlink hr hxy hrun => ?_
  refine (hr.matched.target?_connect (joins_of_canConnect hrun)).mpr (.inr (.inr ⟨?_, ?_, hxy⟩))
  · exact fun hmem => hx (mem_endsOf.mpr ⟨link, hlink, by simpa using hmem⟩)
  · exact fun hmem => hy (mem_endsOf.mpr ⟨link, hlink, by simpa using hmem⟩)

/-- Accepted links are made, and stay if no two have a connection in common. -/
theorem Accepts.target? (hw : s.workspace.Matched) (haccepts : s.Accepts links)
    (hnodup : (endsOf links).Nodup) (hlink : (a, b) ∈ links) :
    (s.connectAll links).workspace.target? a = some b := by
  induction links generalizing s with
  | nil => cases hlink
  | cons first rest ih =>
    obtain ⟨c, p⟩ := first
    obtain ⟨hrun, haccepts⟩ := haccepts
    have hjoins := joins_of_canConnect hrun
    have hmatched : (s.linkEnds c p).workspace.Matched := hw.connect hjoins
    change ((s.connect c p).1.connectAll rest).workspace.target? a = some b
    rw [connect_of_canConnect hrun]
    simp only [endsOf, List.flatMap_cons, List.cons_append, List.nil_append, List.nodup_cons,
      List.mem_cons, not_or] at hnodup
    obtain ⟨⟨-, hc⟩, hp, hnodup⟩ := hnodup
    rcases List.mem_cons.mp hlink with heq | hlink
    · obtain ⟨rfl, rfl⟩ := Prod.mk.inj heq
      exact target?_connectAll hmatched hc hp ((hw.target?_connect hjoins).mpr (.inl ⟨rfl, rfl⟩))
    · exact ih hmatched haccepts hnodup hlink

section Order

variable {order : List (Nat × Nat)} (hw : s.workspace.Matched)
  (hfree : ∀ c, s.workspace.target? c = none)

include hw hfree

/-- Accepted links that have no connection in common are the links there are. -/
theorem Accepts.target?_iff (haccepts : s.Accepts links) (hnodup : (endsOf links).Nodup) :
    (s.connectAll links).workspace.target? x = some y ↔ (x, y) ∈ links ∨ (y, x) ∈ links := by
  constructor
  · intro hxy
    refine (target?_of_connectAll hw hxy).resolve_left fun hxy => ?_
    rw [hfree] at hxy
    cases hxy
  · rintro (hlink | hlink)
    · exact haccepts.target? hw hnodup hlink
    · exact (rewired_connectAll hw).matched.back (haccepts.target? hw hnodup hlink)

variable (hnodup : (endsOf links).Nodup) (haccepts : s.Accepts links)

include hnodup haccepts

/-- The links made do not depend on the order. -/
theorem connectAll_perm (hperm : order.Perm links) (horder : s.Accepts order) :
    s.connectAll order = s.connectAll links := by
  have hnodup' : (endsOf order).Nodup := (hperm.flatMap_right _).nodup_iff.mpr hnodup
  have hr : s.Rewired (s.connectAll order) := rewired_connectAll hw
  have hr' : s.Rewired (s.connectAll links) := rewired_connectAll hw
  have hworkspace : (s.connectAll order).workspace = (s.connectAll links).workspace := by
    refine Workspace.eq_of_targets (hr.blocks.trans hr'.blocks.symm)
      (fun x => (hr.bare x).trans (hr'.bare x).symm) fun x => Option.ext fun y => ?_
    rw [horder.target?_iff hw hfree hnodup', haccepts.target?_iff hw hfree hnodup,
      hperm.mem_iff, hperm.mem_iff]
  rw [hr.session, hr'.session, hworkspace]

/-- Links that are accepted in one order are accepted in every other one. -/
theorem canConnect_of_perm (hscene : s.scene = .ok scene) (hj : scene.hierarchy.Joining)
    (hunbound : s.bindings = []) (hplain : scene.Plain)
    (hanchored : ∀ link ∈ links, scene.Anchored link.1 link.2)
    (hforest : (s.connectAll links).workspace.Forest)
    (hperm : (before ++ (a, b) :: after).Perm links) :
    Delivers scene.hierarchy.Endless (· = true) ((s.connectAll before).canConnect a b) := by
  have hstart := Typed.start hscene hw hfree hunbound hplain
  have hall := hstart.connectAll hscene hj hanchored
  have hmem {link : Nat × Nat} (hlink : link ∈ before ++ (a, b) :: after) : link ∈ links :=
    hperm.mem_iff.mp hlink
  have hbefore {link : Nat × Nat} (hlink : link ∈ before) : link ∈ links :=
    hmem (List.mem_append_left _ hlink)
  have hnow : Typed scene s (s.connectAll before) :=
    hstart.connectAll hscene hj fun link hlink => hanchored link (hbefore hlink)
  -- The links there are by then are among those that are made in the end.
  have hlinks (x y : Nat) (hxy : (s.connectAll before).workspace.target? x = some y) :
      (s.connectAll links).workspace.target? x = some y := by
    rw [haccepts.target?_iff hw hfree hnodup]
    rcases target?_of_connectAll hw hxy with hno | hxy
    · rw [hfree] at hno
      cases hno
    · exact hxy.imp hbefore hbefore
  have hab : (s.connectAll links).workspace.target? a = some b :=
    haccepts.target? hw hnodup (hmem (by simp))
  have hbare (x : Nat) :
      (s.connectAll links).workspace.bare? x = (s.connectAll before).workspace.bare? x :=
    (hall.rewired.bare x).trans (hnow.rewired.bare x).symm
  have hjoins : (s.connectAll before).workspace.Joins a b :=
    (hall.rewired.matched.joins hab).of_bare fun x => (hbare x).symm
  refine (hnow.canConnect_delivers hscene hj (hforest.mono hbare hlinks)
    (hanchored (a, b) (hmem (by simp)))).mono id fun fits hfits => hfits.mpr ⟨hjoins, ?_⟩
  have hr := hnow.rewired.linkEnds hjoins
  refine hall.typable.mono ((hr.relinked hscene).symm.trans (hall.rewired.relinked hscene))
    fun x y hxy => ?_
  rcases (hnow.rewired.matched.target?_connect hjoins).mp hxy with
    ⟨rfl, rfl⟩ | ⟨rfl, rfl⟩ | ⟨-, -, hxy⟩
  · exact hab
  · exact hall.rewired.matched.back hab
  · exact hlinks x y hxy

end Order

/-- Links made one after another between free blocks without bindings. A link that was just made is
accepted when it is checked again, and its verdict stays the same while the links that it reads
stay. Where checks are types or single generics, every link has a type at one end, and joining types
one by one yields all that is above them, every link stays accepted, a further one is accepted
exactly if all links can then be given types, and links that are accepted in one order are accepted
in every order, with the same result. -/
theorem connects_accepted {definition : Definition} {s now : Session} {scene : Scene}
    {links : List (Nat × Nat)}
    (hdef : Hierarchy.ofDefinition definition = .ok scene.hierarchy)
    (hscene : s.scene = .ok scene) (hreach : s.Reachable) (hunbound : s.bindings = [])
    (hfree : ∀ c, s.workspace.target? c = none) (hnow : s.connectAll links = now) :
    (∀ a b, now.workspace.target? a = none → now.workspace.target? b = none →
      now.canConnect a b = .ok true → (now.linkEnds a b).workspace.Forest →
      (now.linkEnds a b).check a b = .ok true) ∧
    (∀ more a b, now.workspace.Joins a b →
      (∀ d, (scene.wired now.workspace).ReadsFor a b d →
        (now.connectAll more).workspace.target? d = now.workspace.target? d) →
      (now.connectAll more).check a b = now.check a b) ∧
    (scene.hierarchy.SinglePath → scene.hierarchy.VarianceConsistent →
      ¬scene.hierarchy.HasContra ∨ scene.hierarchy.Flat → scene.hierarchy.Directed →
      scene.Plain → (∀ link ∈ links, scene.Anchored link.1 link.2) → now.workspace.Forest →
      (∀ c p, now.workspace.target? c = some p →
        Delivers scene.hierarchy.Endless (· = true) (now.check c p)) ∧
      (∀ a b, scene.Anchored a b →
        Delivers scene.hierarchy.Endless (fun fits => fits = true ↔
            now.workspace.Joins a b ∧ (scene.wired (now.workspace.connect a b)).Typable)
          (now.canConnect a b)) ∧
      (s.Accepts links → (endsOf links).Nodup → ∀ order, order.Perm links →
        (∀ before a b after, order = before ++ (a, b) :: after →
          Delivers scene.hierarchy.Endless (· = true) ((s.connectAll before).canConnect a b)) ∧
        (s.Accepts order → s.connectAll order = now))) := by
  subst hnow
  have hw := hreach.matched
  have hr : s.Rewired (s.connectAll links) := rewired_connectAll hw
  have hnone : scene.Vetted := by
    intro c peer text hpeer
    rw [workspace_of_scene hscene, hfree] at hpeer
    cases hpeer
  have hvetted : (scene.wired (s.connectAll links).workspace).Vetted :=
    vetted_connectAll hw hscene hnone
  refine ⟨fun a b ha hb hrun hforest => check_linkEnds hr hscene hvetted hrun ha hb hforest,
    fun more a b hjoins hsame => check_connectAll hr.matched (hr.scene_eq hscene) hvetted hjoins
      hsame, fun hsingle hvar hclass hdirected hplain hanchored hforest => ?_⟩
  have hl := Hierarchy.ofDefinition_linked hdef
  have hj : scene.hierarchy.Joining :=
    ⟨hl, hsingle, hvar, hclass, (Hierarchy.directed_iff hl hclass).mp hdirected⟩
  have ht := (Typed.start hscene hw hfree hunbound hplain).connectAll hscene hj hanchored
  refine ⟨fun c p hlink => ht.check_linked hscene hj hforest hlink,
    fun a b hab => ht.canConnect_delivers hscene hj hforest hab,
    fun haccepts hnodup order hperm => ⟨?_, connectAll_perm hw hfree hnodup haccepts hperm⟩⟩
  rintro before a b after rfl
  exact canConnect_of_perm hw hfree hnodup haccepts hscene hj hunbound hplain hanchored hforest
    hperm

def loadFunctions : Command :=
  .load (.mapping [
    typeEntry "animal" [] [],
    typeEntry "dog" [] ["animal"],
    typeEntry "cat" [] ["animal"],
    typeEntry "function" [("x", .contra), ("y", .co)] [],
    typeEntry "total" [("x", .contra), ("y", .co)] ["function[x, y]"]]) false

/-- A block that returns one of two functions, and a block that uses a function. -/
def pickCommands : List Command := [
  loadFunctions,
  .addBlock { label := "pick", output := some "t", inputs := [("a", some "t"), ("b", some "t")] },
  leaf "total[animal, dog]", leaf "function[dog, cat]",
  .addBlock { label := "use", inputs := [("f", some "function[dog, animal]")] }]

def pickSession : Session where
  hierarchy := some functionScene.hierarchy
  workspace := {
    blocks := [
      { label := "pick", output := some 0, inputs := [1, 2] },
      { label := "total[animal, dog]", output := some 3 },
      { label := "function[dog, cat]", output := some 4 },
      { label := "use", inputs := [5] }]
    connections := [
      ⟨0, .output, some "t", none⟩,
      ⟨0, .input "a", some "t", none⟩,
      ⟨0, .input "b", some "t", none⟩,
      ⟨1, .output, some "total[animal, dog]", none⟩,
      ⟨2, .output, some "function[dog, cat]", none⟩,
      ⟨3, .input "f", some "function[dog, animal]", none⟩] }

def pickLinks : List (Nat × Nat) :=
  [(1, 3), (2, 4), (0, 5)]

theorem pickSession_reachable : pickSession.Reachable :=
  reachable_of_run pickCommands (by simp [pickCommands, loadFunctions, leaf]) (by decide +kernel)

theorem pickSession_free (c : Nat) : pickSession.workspace.target? c = none :=
  Workspace.target?_of_unlinked (by decide +kernel)

theorem pickSession_accepts : pickSession.Accepts pickLinks :=
  ⟨eq_ok_of_toOption (by decide +kernel), eq_ok_of_toOption (by decide +kernel),
    eq_ok_of_toOption (by decide +kernel), trivial⟩

theorem pickSession_forest : (pickSession.connectAll pickLinks).workspace.Forest := by
  rw [pickSession_accepts.connectAll_eq]
  exact Workspace.forest_of_closed
    [(1, 3), (3, 1), (2, 4), (4, 2), (0, 5), (5, 0), (3, 5), (3, 4), (4, 3), (4, 5), (5, 3), (5, 4)]
    (by decide +kernel) (by decide +kernel) (by decide +kernel)

/-- Whichever of the blocks are linked first, the others are accepted. -/
theorem pickSession_any_order :
    pickSession.Reachable ∧ (functionScene.wired pickSession.workspace).Plain ∧
    pickSession.Accepts pickLinks ∧ (pickSession.connectAll pickLinks).workspace.Forest ∧
    ∀ before a b after, (before ++ (a, b) :: after).Perm pickLinks →
      Delivers functionScene.hierarchy.Endless (· = true)
        ((pickSession.connectAll before).canConnect a b) := by
  have hl := Hierarchy.ofDefinition_linked Scene.function_accepted
  have hplain : (functionScene.wired pickSession.workspace).Plain :=
    Scene.plain_of_reads hl (by decide +kernel) (by decide +kernel) (by decide +kernel)
  have hanchored : ∀ link ∈ pickLinks,
      (functionScene.wired pickSession.workspace).Anchored link.1 link.2 := by
    have hknown : ∀ link ∈ pickLinks,
        ∃ t ∈ (functionScene.wired pickSession.workspace).typeAt? link.2, t.params ≠ [] := by
      decide +kernel
    intro link hlink g g' _ hg
    obtain ⟨t, ht, hparams⟩ := hknown link hlink
    obtain rfl := Option.some.inj (hg.1.symm.trans ht)
    exact hparams rfl
  have hsingle : functionScene.hierarchy.SinglePath := by decide +kernel
  have hflat : functionScene.hierarchy.Flat := by decide +kernel
  refine ⟨pickSession_reachable, hplain, pickSession_accepts, pickSession_forest, ?_⟩
  intro before a b after hperm
  have hdef : Hierarchy.ofDefinition functionDefinition =
      .ok (functionScene.wired pickSession.workspace).hierarchy := Scene.function_accepted
  have hnow := (connects_accepted hdef rfl pickSession_reachable rfl pickSession_free rfl).2.2
    hsingle (by decide +kernel) (.inr hflat)
    ((Hierarchy.directed_iff hl (.inr hflat)).mpr (hflat.meeting hl hsingle)) hplain hanchored
    pickSession_forest
  exact (hnow.2.2 pickSession_accepts (by decide +kernel) _ hperm).1 before a b after rfl

/-! ### Links that spoil an earlier one -/

/-- All links are accepted at their turn, and then one of them does not fit any more. -/
structure Spoiled (s : Session) (links : List (Nat × Nat)) (c p : Nat) : Prop where
  accepts : s.Accepts links
  forest : (s.connectAll links).workspace.Forest
  linked : (s.connectAll links).workspace.target? c = some p
  refused : (s.connectAll links).check c p = .ok false

theorem Spoiled.of_linkAll (haccepts : s.Accepts links)
    (hforest : (s.linkAll links).workspace.Forest)
    (hlinked : (s.linkAll links).workspace.target? c = some p)
    (hrefused : (s.linkAll links).check c p = .ok false) : s.Spoiled links c p := by
  rw [← haccepts.connectAll_eq] at hforest hlinked hrefused
  exact ⟨haccepts, hforest, hlinked, hrefused⟩

theorem not_accepts (hrun : (s.linkAll before).canConnect a b = .ok false)
    (hsplit : links = before ++ (a, b) :: after) : ¬s.Accepts links := by
  subst hsplit
  induction before generalizing s with
  | nil =>
    rintro ⟨hok, -⟩
    exact absurd (hok.symm.trans hrun) (by simp)
  | cons first rest ih =>
    rintro ⟨-, haccepts⟩
    exact ih hrun haccepts

/-- A block that takes two boxes. -/
def boxesCommands : List Command :=
  mixCommands.take 1 ++ [
    .addBlock { label := "take", inputs := [("a", some "box[t]"), ("b", some "box[t]")] },
    leaf "box[animal]", leaf "box[dog]"]

def boxesSession : Session where
  hierarchy := mixSession.hierarchy
  workspace := {
    blocks := [
      { label := "take", inputs := [0, 1] },
      { label := "box[animal]", output := some 2 },
      { label := "box[dog]", output := some 3 }]
    connections := [
      ⟨0, .input "a", some "box[t]", none⟩,
      ⟨0, .input "b", some "box[t]", none⟩,
      ⟨1, .output, some "box[animal]", none⟩,
      ⟨2, .output, some "box[dog]", none⟩] }

/-- A block that hands on what it is given, and a block that takes two things. -/
def handOnCommands : List Command := [
  loadFunctions,
  .addBlock { label := "hand on", output := some "t", inputs := [("a", some "t")] },
  .addBlock { label := "take", inputs := [("a", some "u"), ("b", some "u")] },
  leaf "dog", leaf "cat"]

def handOnSession : Session where
  hierarchy := some functionScene.hierarchy
  workspace := {
    blocks := [
      { label := "hand on", output := some 0, inputs := [1] },
      { label := "take", inputs := [2, 3] },
      { label := "dog", output := some 4 },
      { label := "cat", output := some 5 }]
    connections := [
      ⟨0, .output, some "t", none⟩,
      ⟨0, .input "a", some "t", none⟩,
      ⟨1, .input "a", some "u", none⟩,
      ⟨1, .input "b", some "u", none⟩,
      ⟨2, .output, some "dog", none⟩,
      ⟨3, .output, some "cat", none⟩] }

/-- A block that takes three lists. -/
def listsCommands : List Command := [
  .load (.mapping [
    typeEntry "animal" [] [],
    typeEntry "dog" [] ["animal"],
    typeEntry "cat" [] ["animal"],
    typeEntry "getterlist" [("a", .co)] [],
    typeEntry "list" [("a", .inv)] ["getterlist[a]"]]) false,
  .addBlock { label := "pick", inputs := [("a", some "t"), ("b", some "t"), ("c", some "t")] },
  leaf "list[dog]", leaf "list[cat]", leaf "getterlist[dog]"]

def listsSession : Session where
  hierarchy := some listScene.hierarchy
  workspace := {
    blocks := [
      { label := "pick", inputs := [0, 1, 2] },
      { label := "list[dog]", output := some 3 },
      { label := "list[cat]", output := some 4 },
      { label := "getterlist[dog]", output := some 5 }]
    connections := [
      ⟨0, .input "a", some "t", none⟩,
      ⟨0, .input "b", some "t", none⟩,
      ⟨0, .input "c", some "t", none⟩,
      ⟨1, .output, some "list[dog]", none⟩,
      ⟨2, .output, some "list[cat]", none⟩,
      ⟨3, .output, some "getterlist[dog]", none⟩] }

theorem boxes_spoiled : boxesSession.Spoiled [(0, 2), (1, 3)] 0 2 :=
  .of_linkAll ⟨eq_ok_of_toOption (by decide +kernel), eq_ok_of_toOption (by decide +kernel),
      trivial⟩
    (Workspace.forest_of_closed [(0, 2), (2, 0), (1, 3), (3, 1), (2, 3), (3, 2)]
      (by decide +kernel) (by decide +kernel) (by decide +kernel))
    (by decide +kernel) (eq_ok_of_toOption (by decide +kernel))

theorem handOn_spoiled : handOnSession.Spoiled [(1, 4), (3, 5), (2, 0)] 1 4 :=
  .of_linkAll ⟨eq_ok_of_toOption (by decide +kernel), eq_ok_of_toOption (by decide +kernel),
      eq_ok_of_toOption (by decide +kernel), trivial⟩
    (Workspace.forest_of_closed [(1, 4), (4, 1), (4, 2), (4, 5), (3, 5), (5, 3), (5, 0),
      (5, 4), (2, 0), (2, 4), (0, 2), (0, 5)]
      (by decide +kernel) (by decide +kernel) (by decide +kernel))
    (by decide +kernel) (eq_ok_of_toOption (by decide +kernel))

theorem lists_spoiled : listsSession.Spoiled [(0, 3), (2, 5), (1, 4)] 2 5 :=
  .of_linkAll ⟨eq_ok_of_toOption (by decide +kernel), eq_ok_of_toOption (by decide +kernel),
      eq_ok_of_toOption (by decide +kernel), trivial⟩
    (Workspace.forest_of_closed [(0, 3), (3, 0), (3, 4), (3, 5), (1, 4), (4, 1), (4, 3),
      (4, 5), (2, 5), (5, 2), (5, 3), (5, 4)]
      (by decide +kernel) (by decide +kernel) (by decide +kernel))
    (by decide +kernel) (eq_ok_of_toOption (by decide +kernel))

/-- With generics inside checks, with links between generics, and with lists that cannot be joined,
a link can be spoiled by a later one, and in another order not all of the links are accepted. -/
theorem links_spoiled :
    (∀ s ∈ [boxesSession, handOnSession, listsSession],
      s.Reachable ∧ s.bindings = [] ∧ ∀ c, s.workspace.target? c = none) ∧
    boxesSession.Spoiled [(0, 2), (1, 3)] 0 2 ∧
    ¬boxesSession.Accepts [(1, 3), (0, 2)] ∧
    handOnSession.Spoiled [(1, 4), (3, 5), (2, 0)] 1 4 ∧
    ¬handOnSession.Accepts [(3, 5), (2, 0), (1, 4)] ∧
    listsSession.Spoiled [(0, 3), (2, 5), (1, 4)] 2 5 ∧
    ¬listsSession.Accepts [(0, 3), (1, 4), (2, 5)] := by
  have hstart {s : Session} {commands : List Command} (hrun : s = Session.run {} commands)
      (hvetted : ∀ command ∈ commands, ∀ a b, command ≠ .link a b) (hbindings : s.bindings = [])
      (hnone : ∀ k ∈ s.workspace.connections, k.target = none) :
      s.Reachable ∧ s.bindings = [] ∧ ∀ c, s.workspace.target? c = none :=
    ⟨reachable_of_run _ hvetted hrun, hbindings, fun _ =>
      Workspace.target?_of_unlinked hnone⟩
  have hboxes : boxesSession = Session.run {} boxesCommands := by decide +kernel
  have hhandOn : handOnSession = Session.run {} handOnCommands := by decide +kernel
  have hlists : listsSession = Session.run {} listsCommands := by decide +kernel
  have hboxesOrder : (boxesSession.linkAll [(1, 3)]).canConnect 0 2 = .ok false :=
    eq_ok_of_toOption (by decide +kernel)
  have hhandOnOrder : (handOnSession.linkAll [(3, 5), (2, 0)]).canConnect 1 4 = .ok false :=
    eq_ok_of_toOption (by decide +kernel)
  have hlistsOrder : (listsSession.linkAll [(0, 3)]).canConnect 1 4 = .ok false :=
    eq_ok_of_toOption (by decide +kernel)
  refine ⟨?_, boxes_spoiled, not_accepts hboxesOrder rfl, handOn_spoiled,
    not_accepts hhandOnOrder rfl, lists_spoiled, not_accepts hlistsOrder rfl⟩
  exact List.forall_mem_cons.mpr
    ⟨hstart hboxes (by simp [boxesCommands, mixCommands, leaf]) rfl (by decide +kernel),
      List.forall_mem_cons.mpr
        ⟨hstart hhandOn (by simp [handOnCommands, loadFunctions, leaf]) rfl (by decide +kernel),
          List.forall_mem_singleton.mpr
            (hstart hlists (by simp [listsCommands, leaf]) rfl (by decide +kernel))⟩⟩

end TypedBlocks.Session
