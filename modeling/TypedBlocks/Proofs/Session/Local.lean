import TypedBlocks.Proofs.Session.Binding
import TypedBlocks.Proofs.Session.Recall
import TypedBlocks.Proofs.Workspace.Ring

/-! What an answer does not depend on. Where links form no ring, the verdict on two connections is
the same with the link between them and without it. What a generic of a block stands for is settled
by its binding or else behind the connections whose checks mention it; all the rest of the workspace
may change. -/
namespace TypedBlocks

namespace Session

variable {s : Session} {a b : Nat}

/-- The link of two connections has no part in the verdict on them. -/
theorem verdict_disconnect
    (howned : ∀ c b, c ∈ s.workspace.connectionsOf b → s.workspace.owner? c = some b)
    (hback : ∀ c d, s.workspace.target? c = some d → s.workspace.target? d = some c)
    (hforest : s.workspace.Forest) (hlink : s.workspace.target? a = some b)
    (hparent : (s.workspace.place? a).any (·.isParentSide) = true) :
    (s.disconnect a).verdict a b = s.verdict a b := by
  have hcut : s.disconnect a = s.cut [a] := by
    simp only [disconnect, cut, Workspace.TwoWay.disconnect_eq hback]
  cases hscene : s.scene with
  | error fault =>
    have hscene' : (s.disconnect a).scene = .error fault := by
      cases hhierarchy : s.hierarchy with
      | none => simpa [scene, known, disconnect, hhierarchy] using hscene
      | some h => simp [scene, known, hhierarchy, pure, Except.pure] at hscene
    rw [verdict, verdict, hscene, hscene']
  | ok scene =>
    have hworkspace := workspace_of_scene hscene
    obtain ⟨k, hk⟩ := Workspace.exists_bare_of_target hlink
    have howner : s.workspace.owner? a = some k.block := by
      rw [Workspace.owner?_eq_bare, hk, Option.map_some]
    have hnone : scene.NoMatter k.block a [a] [] := by
      refine ⟨List.forall_mem_singleton.mpr (hworkspace ▸ howner), by simp, fun x _ hne => .inl ?_⟩
      simp [hne]
    have hsame := Scene.compatible_cut (hworkspace ▸ howned) (hworkspace ▸ hforest)
      (hworkspace ▸ howner) hnone (hworkspace ▸ hlink) (.inl (hworkspace ▸ hparent))
    rw [hcut, verdict_eq (scene_cut hscene), hsame, ← verdict_eq (scene_cut hscene), cut_nil]

/-- In a workspace whose links form no ring of blocks, with any bindings, the answer on two linked
connections, verdict or fault, is the same once just their link is ended. -/
theorem check_without_link (s : Session)
    (howned : ∀ c b, c ∈ s.workspace.connectionsOf b → s.workspace.owner? c = some b)
    (hback : ∀ c d, s.workspace.target? c = some d → s.workspace.target? d = some c)
    (hacyclic : s.workspace.Acyclic) {a b : Nat} (hlink : s.workspace.target? a = some b)
    (hparent : (s.workspace.place? a).any (·.isParentSide) = true) :
    (s.disconnect a).check a b = s.check a b := by
  have hverdict := verdict_disconnect howned hback (hacyclic.forest hback) hlink hparent
  have hendpoint (x : Nat) : (s.disconnect a).workspace.endpoint x = s.workspace.endpoint x := by
    rw [disconnect, Workspace.TwoWay.disconnect_eq hback]
    exact Workspace.endpoint_congr rfl fun _ => Workspace.bare?_cut
  rw [check, check, hverdict]
  cases s.verdict a b with
  | ok fits => rfl
  | error fault => simp only [naming, List.map_cons, List.map_nil, hendpoint]

/-- A link that does not fit beside the others of its block is not kept up by being there. -/
theorem mixBound_without_link :
    mixBound.workspace.Acyclic ∧ mixBound.workspace.target? 1 = some 5 ∧
    mixBound.check 1 5 = .ok false ∧ (mixBound.disconnect 1).check 1 5 = .ok false := by
  have hw : mixBound.workspace.Matched := mixSession_reachable.matched.cut
  have hback (c d : Nat) (hcd : mixBound.workspace.target? c = some d) :
      mixBound.workspace.target? d = some c := hw.back hcd
  have hforest : mixBound.workspace.Forest :=
    mixSession_forest.mono (fun _ => Workspace.bare?_cut.symm) fun _ _ hxy =>
      (Workspace.target?_cut_eq_some.mp hxy).1
  have hacyclic := (Workspace.forest_iff_acyclic hback).mp hforest
  have hlink : mixBound.workspace.target? 1 = some 5 := by decide +kernel
  have hcheck : mixBound.check 1 5 = .ok false := eq_ok_of_toOption (by decide +kernel)
  refine ⟨hacyclic, hlink, hcheck, ?_⟩
  rw [check_without_link mixBound (fun _ _ => hw.owned) hback hacyclic hlink (by decide +kernel)]
  exact hcheck

end Session

/-! ### What a generic depends on -/

/-- On through the connections that the block reached has now. -/
abbrev Workspace.Beyond (w : Workspace) : Nat → Nat → Prop :=
  w.Follows fun q d => ∃ block, w.owner? q = some block ∧ d ∈ w.connectionsOf block

namespace Scene

variable {s s' : Scene} {block c q : Nat} {g : Text}

def Mentions (s : Scene) (c : Nat) (g : Text) : Prop :=
  ∃ text t, s.workspace.check? c = some text ∧ s.readCheck text = .ok t ∧ t.mentions g = true

/-- The scenes agree on a connection, and on all connections and bindings of its block. -/
structure AgreeAt (s s' : Scene) (q : Nat) : Prop where
  connection : s.workspace.connection? q = s'.workspace.connection? q
  connectionsOf : ∀ b, s.workspace.owner? q = some b →
    s.workspace.connectionsOf b = s'.workspace.connectionsOf b
  connections : ∀ b, s.workspace.owner? q = some b → ∀ d ∈ s.workspace.connectionsOf b,
    s.workspace.connection? d = s'.workspace.connection? d
  bindings : ∀ b, s.workspace.owner? q = some b → ∀ g,
    s.bindings.find? b g = s'.bindings.find? b g

/-- The scenes agree on a block, on its connections apart from their links and on its binding for
the generic. If there is none, they agree on the links of the connections that mention the generic
and on everything beyond them. -/
structure AgreeFor (s s' : Scene) (block : Nat) (g : Text) : Prop where
  akin : s.Akin s'
  label : (s.workspace.block? block).map (·.label) = (s'.workspace.block? block).map (·.label)
  connectionsOf : s.workspace.connectionsOf block = s'.workspace.connectionsOf block
  bare : ∀ c ∈ s.workspace.connectionsOf block, s.workspace.bare? c = s'.workspace.bare? c
  binding : s.bindings.find? block g = s'.bindings.find? block g
  target : s.bindings.find? block g = none → ∀ c ∈ s.workspace.connectionsOf block,
    s.Mentions c g → s.workspace.target? c = s'.workspace.target? c
  beyond : s.bindings.find? block g = none → ∀ c ∈ s.workspace.connectionsOf block,
    s.Mentions c g → ∀ q, s.workspace.Beyond c q → s.AgreeAt s' q

theorem resolveWithin_congr {depth : Nat} {skip : Option Nat}
    (hbound : s.bindings.find? block g = s'.bindings.find? block g)
    (hlinks : s.bindings.find? block g = none →
      s.resolveLinks (s.resolveWithin depth) block g skip =
        s'.resolveLinks (s'.resolveWithin depth) block g skip) :
    s.resolveWithin (depth + 1) block g skip = s'.resolveWithin (depth + 1) block g skip := by
  simp only [resolveWithin, ← hbound]
  cases hfind : s.bindings.find? block g with
  | some t => rfl
  | none => exact hlinks hfind

/-- Scenes that agree beyond a connection answer the questions asked there alike. -/
theorem resolveWithin_beyond (hakin : s.Akin s')
    (hagree : ∀ q, s.workspace.Beyond c q → s.AgreeAt s' q) (depth : Nat)
    (hq : s.workspace.Beyond c q) (hblock : s.workspace.owner? q = some block) (g : Text) :
    s.resolveWithin depth block g (some q) = s'.resolveWithin depth block g (some q) := by
  induction depth generalizing q block g with
  | zero => rfl
  | succ depth ih =>
    have hat := hagree q hq
    refine resolveWithin_congr (hat.bindings block hblock g) fun _ =>
      hakin.resolveLinks (hat.connectionsOf block hblock) fun d hd hskip => ?_
    have hne : d ≠ q := fun heq => hskip (heq ▸ rfl)
    refine hakin.contribution (hat.connections block hblock d hd) fun peer hpeer => ?_
    have hon : s.workspace.Beyond c peer := .on hq ⟨block, hblock, hd⟩ hne hpeer
    refine ⟨?_, fun b name hb => ih hon hb name⟩
    rw [Workspace.bare?, Workspace.bare?, (hagree peer hon).connection]

def WellChecked (s : Scene) (block : Nat) : Prop :=
  ∀ c ∈ s.workspace.connectionsOf block, ∀ text, s.workspace.check? c = some text →
    ∃ t, s.readCheck text = .ok t

theorem AgreeFor.contribution (hagree : s.AgreeFor s' block g) (hchecks : s.WellChecked block)
    (hfind : s.bindings.find? block g = none) (depth : Nat)
    (hc : c ∈ s.workspace.connectionsOf block) :
    s.contribution (s.resolveWithin depth) c g = s'.contribution (s'.resolveWithin depth) c g := by
  have hbare := hagree.bare c hc
  by_cases hmentions : s.Mentions c g
  · have hbeyond := hagree.beyond hfind c hc hmentions
    refine hagree.akin.contribution ?_ fun peer hpeer => ⟨?_, fun b name hb =>
      resolveWithin_beyond hagree.akin hbeyond depth (.link hpeer) hb name⟩
    · rw [Workspace.connection?_eq_bare, Workspace.connection?_eq_bare, hbare,
        hagree.target hfind c hc hmentions]
    · rw [Workspace.bare?, Workspace.bare?, (hbeyond peer (.link hpeer)).connection]
  · have hcheck : s.workspace.check? c = s'.workspace.check? c := by
      rw [Workspace.check?, Workspace.check?, hbare]
    have hread (text : Text) (htext : s.workspace.check? c = some text) :
        ∃ t, s.readCheck text = .ok t ∧ t.mentions g = false := by
      obtain ⟨t, ht⟩ := hchecks c hc text htext
      exact ⟨t, ht, Bool.eq_false_iff.mpr fun hyes => hmentions ⟨text, t, htext, ht, hyes⟩⟩
    rw [contribution_of_unmentioned fun _ text _ htext _ => hread text htext,
      contribution_of_unmentioned fun _ text _ htext _ =>
        hagree.akin.readCheck ▸ hread text (hcheck.trans htext)]

theorem AgreeFor.typesOf (hagree : s.AgreeFor s' block g) (hchecks : s.WellChecked block) :
    s.typesOf block g = s'.typesOf block g := by
  -- The depths allowed may differ, but nothing is gained beyond either.
  have hle := Nat.le_max_left s.depth s'.depth
  have hle' := Nat.le_max_right s.depth s'.depth
  rw [typesOf_eq, typesOf_eq, ← resolveWithin_of_depth_le (Nat.le_succ_of_le hle),
    ← resolveWithin_of_depth_le (Nat.le_succ_of_le hle')]
  exact resolveWithin_congr hagree.binding fun hfind => hagree.akin.resolveLinks
    hagree.connectionsOf fun c hc _ => hagree.contribution hchecks hfind _ hc

end Scene

namespace Session

open Json (Value)

/-- In two states that agree on a block, its connections and its binding for a generic, and unless
there is one on everything beyond the connections that mention the generic, the generic stands for
the same types, or the same fault is found. Other links and bindings, other generics and what is
behind other connections may differ. -/
theorem explicitTypes_local {s s' : Session} {scene scene' : Scene} (hscene : s.scene = .ok scene)
    (hscene' : s'.scene = .ok scene') {generic : Value} {g : Text} (hname : nameOf generic = .ok g)
    {block : Nat} (hchecks : scene.WellChecked block) (hagree : scene.AgreeFor scene' block g) :
    s.explicitTypes block generic = s'.explicitTypes block generic := by
  have hlabel : (s.workspace.block? block).map (·.label) =
      (s'.workspace.block? block).map (·.label) := by
    rw [← workspace_of_scene hscene, ← workspace_of_scene hscene', hagree.label]
  simp only [explicitTypes, hscene, hscene', ok_bind, hname, hagree.typesOf hchecks,
    explicitOf_congr generic _ hlabel]

/-- A block takes a box that another block hands on. Its second input has a link or has none. -/
def handedOn (second : Bool) (bindings : Bindings) : Session where
  hierarchy := mixSession.hierarchy
  bindings := bindings
  workspace := {
    blocks := [
      { label := "take", inputs := [0, 1] },
      { label := "hand on", output := some 2, inputs := [3] },
      { label := "box[dog]", output := some 4 },
      { label := "box[animal]", output := some 5 }]
    connections := [
      ⟨0, .input "u", some "box[u]", some 2⟩,
      ⟨0, .input "t", some "box[t]", if second then some 5 else none⟩,
      ⟨1, .output, some "box[v]", some 0⟩,
      ⟨1, .input "v", some "box[v]", some 4⟩,
      ⟨2, .output, some "box[dog]", some 3⟩,
      ⟨3, .output, some "box[animal]", if second then some 1 else none⟩] }

def handedOnScene (second : Bool) (bindings : Bindings) : Scene where
  hierarchy := mixSession.hierarchy.getD ⟨[], []⟩
  pattern := none
  bindings := bindings
  workspace := (handedOn second bindings).workspace

theorem handedOn_scene (second : Bool) (bindings : Bindings) :
    (handedOn second bindings).scene = .ok (handedOnScene second bindings) :=
  rfl

theorem handedOn_beyond {q : Nat} (hq : (handedOnScene true []).workspace.Beyond 0 q) :
    q = 2 ∨ q = 4 := by
  induction hq with
  | link hq => exact .inl (Option.some.inj hq).symm
  | @on q d p _ hd hne hp ih =>
    obtain ⟨block, howner, hd⟩ := hd
    rcases ih with rfl | rfl
    · obtain rfl : 1 = block := Option.some.inj howner
      obtain rfl := (List.mem_pair.mp (show d ∈ [2, 3] from hd)).resolve_left hne
      exact .inr (Option.some.inj hp).symm
    · obtain rfl : 2 = block := Option.some.inj howner
      exact absurd (List.mem_singleton.mp (hd : d ∈ [4])) hne

theorem handedOn_agreeFor :
    (handedOnScene true []).AgreeFor (handedOnScene false [((0, "t"), ⟨"dog", []⟩)]) 0 "u" := by
  have hfirst {c : Nat} (hc : c ∈ (handedOnScene true []).workspace.connectionsOf 0)
      (hmentions : (handedOnScene true []).Mentions c "u") : c = 0 := by
    rcases List.mem_pair.mp (show c ∈ [0, 1] from hc) with rfl | rfl
    · rfl
    · obtain ⟨text, t, htext, ht, hyes⟩ := hmentions
      obtain rfl : "box[t]" = text := Option.some.inj htext
      have hread : ((handedOnScene true []).readCheck "box[t]").toOption.map (·.mentions "u") =
          some false := by decide +kernel
      rw [ht] at hread
      exact absurd (Option.some.inj hread) (by simp [hyes])
  have hother (b : Nat) (hb : b ≠ 0) (g : Text) :
      (handedOnScene true []).bindings.find? b g =
        (handedOnScene false [((0, "t"), ⟨"dog", []⟩)]).bindings.find? b g := by
    have hne : ((b, g) == ((0, "t") : Nat × Text)) = false := by simp [hb]
    simp only [handedOnScene, Bindings.find?, List.lookup_cons, List.lookup_nil, hne]
  constructor
  · exact ⟨rfl, rfl⟩
  · rfl
  · rfl
  · decide +kernel
  · decide +kernel
  · intro _ c hc hmentions
    obtain rfl := hfirst hc hmentions
    rfl
  · intro _ c hc hmentions q hq
    obtain rfl := hfirst hc hmentions
    rcases handedOn_beyond hq with rfl | rfl
    · refine ⟨rfl, ?_, ?_, ?_⟩ <;> rintro b ⟨⟩
      · rfl
      · decide +kernel
      · exact hother _ (by decide)
    · refine ⟨rfl, ?_, ?_, ?_⟩ <;> rintro b ⟨⟩
      · rfl
      · decide +kernel
      · exact hother _ (by decide)

/-- The dog that is handed on is the same, whatever the second input says or is bound to. -/
theorem handedOn_local :
    (handedOnScene true []).WellChecked 0 ∧
    (handedOnScene true []).AgreeFor (handedOnScene false [((0, "t"), ⟨"dog", []⟩)]) 0 "u" ∧
    (handedOn true []).explicitTypes 0 (.text "U") = .ok [⟨"dog", []⟩] ∧
    (handedOn false [((0, "t"), ⟨"dog", []⟩)]).explicitTypes 0 (.text "U") =
      .ok [⟨"dog", []⟩] ∧
    (handedOn true []).explicitTypes 0 (.text "t") = .ok [⟨"animal", []⟩] ∧
    (handedOn false [((0, "t"), ⟨"dog", []⟩)]).explicitTypes 0 (.text "t") =
      .ok [⟨"dog", []⟩] := by
  have hchecks : (handedOnScene true []).WellChecked 0 := by
    have hread : ∀ c ∈ (handedOnScene true []).workspace.connectionsOf 0,
        ∀ text ∈ (handedOnScene true []).workspace.check? c,
          ((handedOnScene true []).readCheck text).toOption.isSome := by decide +kernel
    intro c hc text htext
    obtain ⟨t, ht⟩ := Option.isSome_iff_exists.mp (hread c hc text htext)
    exact ⟨t, eq_ok_of_toOption ht⟩
  have htypes : (handedOn true []).explicitTypes 0 (.text "U") = .ok [⟨"dog", []⟩] :=
    eq_ok_of_toOption (by decide +kernel)
  have hname : nameOf (.text "U") = .ok "u" := eq_ok_of_toOption (by decide +kernel)
  refine ⟨hchecks, handedOn_agreeFor, htypes, ?_, eq_ok_of_toOption (by decide +kernel),
    eq_ok_of_toOption (by decide +kernel)⟩
  rw [← explicitTypes_local (handedOn_scene _ _) (handedOn_scene _ _) hname hchecks
    handedOn_agreeFor]
  exact htypes

end Session

end TypedBlocks
