import Mathlib.Data.List.Nodup
import TypedBlocks.Proofs.Outcome
import TypedBlocks.Workspace.Basic

/-! Links pair connections of different blocks, whatever is done to a workspace, and ending links
changes targets only. -/
namespace TypedBlocks

theorem Block.mem_connections_attach {k : Block} {place : Place} {n c : Nat}
    (hc : c ∈ (k.attach place n).connections) : c = n ∨ c ∈ k.connections := by
  cases place <;> simp_all [Block.attach, Block.connections] <;> tauto

theorem Block.nodup_connections_attach {k : Block} {place : Place} {n : Nat}
    (hk : k.connections.Nodup) (hn : n ∉ k.connections) :
    (k.attach place n).connections.Nodup := by
  cases place <;> simp_all [Block.attach, Block.connections, List.nodup_append] <;> grind

namespace Workspace

variable {w : Workspace} {a b c x y : Nat} {ends more : List Nat}

/-- The block a connection was made for. -/
def owner? (w : Workspace) (c : Nat) : Option Nat :=
  (w.connection? c).map (·.block)

/-- Connections of different blocks at places that a link may join. -/
def Joins (w : Workspace) (a b : Nat) : Prop :=
  w.owner? a ≠ w.owner? b ∧ ∃ p q, w.place? a = some p ∧ w.place? b = some q ∧
    (p.pairs q = true ∨ q.pairs p = true)

def TwoWay (w : Workspace) : Prop :=
  ∀ a b, w.target? a = some b → w.target? b = some a

/-- Every link goes both ways and joins what may be joined, and no block has a connection twice or
one that was made for another block. -/
structure Matched (w : Workspace) : Prop where
  back : ∀ {a b}, w.target? a = some b → w.target? b = some a
  joins : ∀ {a b}, w.target? a = some b → w.Joins a b
  owned : ∀ {c b}, c ∈ w.connectionsOf b → w.owner? c = some b
  nodup : ∀ b, (w.connectionsOf b).Nodup

theorem Matched.twoWay (hw : w.Matched) : w.TwoWay :=
  fun _ _ => hw.back

theorem Joins.symm (hjoins : w.Joins a b) : w.Joins b a := by
  obtain ⟨howner, p, q, hp, hq, hpairs⟩ := hjoins
  exact ⟨howner.symm, q, p, hq, hp, hpairs.symm⟩

theorem Joins.ne (hjoins : w.Joins a b) : a ≠ b := by
  rintro rfl
  exact hjoins.1 rfl

/-- Workspaces in which the same can be read are equally well matched. -/
theorem Matched.of_reads {w' : Workspace} (hw : w.Matched)
    (htarget : ∀ x, w'.target? x = w.target? x) (howner : ∀ x, w'.owner? x = w.owner? x)
    (hplace : ∀ x, w'.place? x = w.place? x)
    (hof : ∀ b, w'.connectionsOf b = w.connectionsOf b) : w'.Matched := by
  constructor
  · intro a b hab
    rw [htarget] at hab ⊢
    exact hw.back hab
  · intro a b hab
    rw [htarget] at hab
    simpa only [Joins, howner, hplace] using hw.joins hab
  · intro c b hc
    rw [hof] at hc
    rw [howner]
    exact hw.owned hc
  · intro b
    rw [hof]
    exact hw.nodup b

def bare? (w : Workspace) (c : Nat) : Option Connection :=
  (w.connection? c).map fun k => { k with target := none }

def check? (w : Workspace) (c : Nat) : Option Text :=
  (w.bare? c).bind (·.check)

theorem owner?_eq_bare : w.owner? x = (w.bare? x).map (·.block) := by
  simp [owner?, bare?, Function.comp_def]

theorem place?_eq_bare : w.place? x = (w.bare? x).map (·.place) := by
  simp [place?, bare?, Function.comp_def]

theorem connection?_eq_bare :
    w.connection? x = (w.bare? x).map fun k => { k with target := w.target? x } := by
  simp only [bare?, target?]
  cases w.connection? x <;> rfl

/-- Workspaces are equal if they have the same blocks, connections and targets. -/
theorem eq_of_targets {w' : Workspace} (hblocks : w.blocks = w'.blocks)
    (hbare : ∀ x, w.bare? x = w'.bare? x) (htarget : ∀ x, w.target? x = w'.target? x) :
    w = w' := by
  have hconnection (x : Nat) : w.connection? x = w'.connection? x := by
    rw [connection?_eq_bare, connection?_eq_bare, hbare, htarget]
  have hconnections : w.connections = w'.connections := List.ext_getElem? hconnection
  cases w
  cases w'
  simp_all

/-- Messages name a connection by its block and its place. -/
theorem endpoint_congr {w' : Workspace} (hblocks : w.blocks = w'.blocks)
    (hbare : ∀ x, w.bare? x = w'.bare? x) : w.endpoint x = w'.endpoint x := by
  unfold endpoint
  rw [connection?_eq_bare, connection?_eq_bare, hbare]
  simp only [block?, hblocks]
  cases w'.bare? x <;> rfl

/-! ### Targets -/

theorem connection?_setTarget {target : Option Nat} :
    (w.setTarget c target).connection? x =
      (w.connection? x).map fun k => if c = x then { k with target := target } else k := by
  simp only [connection?, setTarget, List.getElem?_modify]
  rfl

@[simp]
theorem bare?_setTarget {target : Option Nat} : (w.setTarget c target).bare? x = w.bare? x := by
  simp only [bare?, connection?_setTarget]
  cases w.connection? x
  · rfl
  · simp only [Option.map_some]
    split <;> rfl

theorem target?_setTarget {target : Option Nat} :
    (w.setTarget c target).target? x =
      if c = x then (w.bare? x).bind fun _ => target else w.target? x := by
  simp only [target?, bare?, connection?_setTarget]
  cases w.connection? x <;> split <;> rfl

theorem target?_setTarget_none :
    (w.setTarget c none).target? x = if c = x then none else w.target? x := by
  simp [target?_setTarget]

theorem exists_bare_of_target (htarget : w.target? a = some b) : ∃ k, w.bare? a = some k := by
  obtain ⟨k, hk, -⟩ := Option.bind_eq_some_iff.mp htarget
  exact ⟨_, by rw [bare?, hk, Option.map_some]⟩

theorem target?_of_unlinked (hnone : ∀ k ∈ w.connections, k.target = none) :
    w.target? c = none := by
  cases hk : w.connection? c with
  | none => rw [target?, hk, Option.bind_none]
  | some k => rw [target?, hk, Option.bind_some, hnone k (List.mem_of_getElem? hk)]

theorem Joins.of_bare {w' : Workspace} (hbare : ∀ x, w'.bare? x = w.bare? x)
    (hjoins : w.Joins a b) : w'.Joins a b := by
  simpa only [Joins, owner?_eq_bare, place?_eq_bare, hbare] using hjoins

/-- Joining two free connections that may be joined. -/
theorem Matched.join (hw : w.Matched) (hjoins : w.Joins a b) (ha : w.target? a = none)
    (hb : w.target? b = none) : ((w.setTarget a (some b)).setTarget b (some a)).Matched := by
  obtain ⟨-, p, q, hp, hq, -⟩ := id hjoins
  obtain ⟨ka, hka, -⟩ := Option.map_eq_some_iff.mp (place?_eq_bare ▸ hp)
  obtain ⟨kb, hkb, -⟩ := Option.map_eq_some_iff.mp (place?_eq_bare ▸ hq)
  have htarget (x : Nat) : ((w.setTarget a (some b)).setTarget b (some a)).target? x =
      if b = x then some a else if a = x then some b else w.target? x := by
    rw [target?_setTarget, bare?_setTarget, target?_setTarget]
    grind
  constructor
  · intro x y hxy
    rw [htarget] at hxy ⊢
    grind [hjoins.ne, hw.back]
  · intro x y hxy
    rw [htarget] at hxy
    refine Joins.of_bare (w := w) (fun x => by simp) ?_
    split at hxy
    · rename_i hx
      obtain rfl := Option.some.inj hxy
      exact hx ▸ hjoins.symm
    · split at hxy
      · rename_i hx
        obtain rfl := Option.some.inj hxy
        exact hx ▸ hjoins
      · exact hw.joins hxy
  · intro c d hc
    simpa [owner?_eq_bare] using hw.owned hc
  · exact hw.nodup

/-! ### Taking links away -/

def cut (w : Workspace) (ends : List Nat) : Workspace :=
  { w with
    connections := w.connections.mapIdx fun c k =>
      { k with target := if c ∈ ends then none else k.target.filter (· ∉ ends) } }

theorem connection?_cut : (w.cut ends).connection? x = (w.connection? x).map fun k =>
    { k with target := if x ∈ ends then none else k.target.filter (· ∉ ends) } := by
  simp [connection?, cut]

@[simp]
theorem bare?_cut : (w.cut ends).bare? x = w.bare? x := by
  simp [bare?, connection?_cut, Function.comp_def]

@[simp]
theorem owner?_cut : (w.cut ends).owner? x = w.owner? x := by
  simp [owner?_eq_bare]

@[simp]
theorem place?_cut : (w.cut ends).place? x = w.place? x := by
  simp [place?_eq_bare]

@[simp]
theorem target?_cut_eq_some :
    (w.cut ends).target? x = some y ↔ w.target? x = some y ∧ x ∉ ends ∧ y ∉ ends := by
  simp only [target?, connection?_cut]
  cases w.connection? x with
  | none => simp
  | some k => by_cases hx : x ∈ ends <;> simp [hx, Option.filter_eq_some_iff]

theorem target?_cut_of_mem (hx : x ∈ ends) : (w.cut ends).target? x = none :=
  Option.eq_none_iff_forall_ne_some.mpr fun _ hy => (target?_cut_eq_some.mp hy).2.1 hx

theorem cut_nil : w.cut [] = w := by
  refine eq_of_targets rfl (fun x => bare?_cut) fun x => Option.ext fun _ => ?_
  simp

theorem cut_cut : (w.cut ends).cut more = w.cut (ends ++ more) := by
  refine eq_of_targets rfl (fun x => by simp) fun x => Option.ext fun y => ?_
  simp only [target?_cut_eq_some, List.mem_append]
  tauto

/-- Cuts are equal if they end the same links. -/
theorem cut_congr (hends : ∀ x y, w.target? x = some y →
    ((x ∈ ends ∨ y ∈ ends) ↔ (x ∈ more ∨ y ∈ more))) : w.cut ends = w.cut more := by
  refine eq_of_targets rfl (fun x => by simp) fun x => Option.ext fun y => ?_
  simp only [target?_cut_eq_some]
  constructor
  · rintro ⟨hxy, hx, hy⟩
    have hnone := (not_congr (hends x y hxy)).mp (by tauto)
    exact ⟨hxy, fun h => hnone (.inl h), fun h => hnone (.inr h)⟩
  · rintro ⟨hxy, hx, hy⟩
    have hnone := (not_congr (hends x y hxy)).mpr (by tauto)
    exact ⟨hxy, fun h => hnone (.inl h), fun h => hnone (.inr h)⟩

theorem TwoWay.cut (hw : w.TwoWay) : (w.cut ends).TwoWay := by
  intro a b hab
  rw [target?_cut_eq_some] at hab ⊢
  exact ⟨hw a b hab.1, hab.2.2, hab.2.1⟩

theorem Matched.cut (hw : w.Matched) : (w.cut ends).Matched := by
  constructor
  · intro a b hab
    exact hw.twoWay.cut a b hab
  · intro a b hab
    exact (hw.joins (target?_cut_eq_some.mp hab).1).of_bare fun x => bare?_cut
  · intro c b hc
    simpa using hw.owned hc
  · exact hw.nodup

theorem disconnect_of_free (hc : w.target? c = none) : w.disconnect c = w := by
  unfold disconnect
  rw [hc]

theorem TwoWay.disconnect_eq (hw : w.TwoWay) : w.disconnect c = w.cut [c] := by
  cases hc : w.target? c with
  | none =>
    rw [disconnect_of_free hc]
    conv_lhs => rw [← cut_nil (w := w)]
    refine cut_congr fun x y hxy => ?_
    have hyx := hw x y hxy
    grind
  | some peer =>
    have hback := hw c peer hc
    have hunfold : w.disconnect c = (w.setTarget c none).setTarget peer none := by
      simp only [Workspace.disconnect, hc, target?_setTarget_none]
      by_cases hself : c = peer
      · -- A connection that is linked to itself has lost its link by then.
        subst hself
        rw [if_pos rfl, if_neg (by simp)]
        refine eq_of_targets rfl (fun x => by simp) fun x => ?_
        simp only [target?_setTarget_none]
        split <;> rfl
      · rw [if_neg hself, if_pos hback]
    rw [hunfold]
    refine eq_of_targets rfl (fun x => by simp) fun x => Option.ext fun y => ?_
    have hpeer (hxy : w.target? x = some c) : peer = x :=
      Option.some.inj (hc.symm.trans (hw x c hxy))
    rw [target?_setTarget_none, target?_setTarget_none, target?_cut_eq_some]
    by_cases hpx : peer = x
    · have hxc : w.target? x = some c := hpx ▸ hback
      grind
    · grind

/-- Making a link again that may have been taken away. -/
theorem TwoWay.connect_cut (hw : w.TwoWay) (hab : w.target? a = some b) :
    (w.cut ends).connect a b = w.cut (ends.filter fun x => x ≠ a ∧ x ≠ b) := by
  have hba := hw a b hab
  by_cases hgone : a ∈ ends ∨ b ∈ ends
  · have hfree {x y : Nat} (hxy : w.target? x = some y) (hends : x ∈ ends ∨ y ∈ ends) :
        (w.cut ends).target? x = none := by
      refine Option.eq_none_iff_forall_ne_some.mpr fun z hz => ?_
      obtain ⟨hxz, hx, hz⟩ := target?_cut_eq_some.mp hz
      obtain rfl := Option.some.inj (hxy.symm.trans hxz)
      exact hends.elim hx hz
    have hfreea := hfree hab hgone
    have hfreeb := hfree hba hgone.symm
    unfold connect
    rw [if_neg (by simp [hfreea]), disconnect_of_free hfreea, disconnect_of_free hfreeb]
    refine eq_of_targets rfl (fun x => by simp) fun x => Option.ext fun y => ?_
    obtain ⟨ka, hka⟩ := exists_bare_of_target hab
    obtain ⟨kb, hkb⟩ := exists_bare_of_target hba
    rw [target?_setTarget, bare?_setTarget, bare?_cut, target?_setTarget, bare?_cut,
      target?_cut_eq_some]
    simp only [List.mem_filter, decide_eq_true_eq]
    by_cases hbx : b = x
    · subst hbx
      grind
    · by_cases hax : a = x
      · subst hax
        grind
      · have hxa (hxy : w.target? x = some a) : b = x :=
          Option.some.inj (hab.symm.trans (hw x a hxy))
        have hxb (hxy : w.target? x = some b) : a = x :=
          Option.some.inj (hba.symm.trans (hw x b hxy))
        rw [if_neg hbx, if_neg hax, target?_cut_eq_some]
        grind
  · -- The link is still there.
    have hstays : (w.cut ends).target? a = some b :=
      target?_cut_eq_some.mpr ⟨hab, fun ha => hgone (.inl ha), fun hb => hgone (.inr hb)⟩
    have hfilter : ends.filter (fun x => x ≠ a ∧ x ≠ b) = ends := by
      refine List.filter_eq_self.mpr fun x hx => ?_
      grind
    rw [connect, if_pos hstays, hfilter]

/-! ### What keeps links matched -/

theorem Matched.disconnect (hw : w.Matched) : (w.disconnect c).Matched := by
  rw [hw.twoWay.disconnect_eq]
  exact hw.cut

theorem Matched.connect (hw : w.Matched) (hjoins : w.Joins a b) : (w.connect a b).Matched := by
  unfold Workspace.connect
  split
  · exact hw
  · rw [hw.twoWay.disconnect_eq, hw.twoWay.cut.disconnect_eq, cut_cut]
    exact hw.cut.join (hjoins.of_bare fun x => bare?_cut) (target?_cut_of_mem (by simp))
      (target?_cut_of_mem (by simp))

/-- What is linked after two connections have been linked: the two, and what else was. -/
theorem Matched.target?_connect (hw : w.Matched) (hjoins : w.Joins a b) :
    (w.connect a b).target? x = some y ↔ (x = a ∧ y = b) ∨ (x = b ∧ y = a) ∨
      (x ∉ [a, b] ∧ y ∉ [a, b] ∧ w.target? x = some y) := by
  have hne := hjoins.ne
  obtain ⟨-, p, q, hp, hq, -⟩ := id hjoins
  obtain ⟨ka, hka, -⟩ := Option.map_eq_some_iff.mp (place?_eq_bare ▸ hp)
  obtain ⟨kb, hkb, -⟩ := Option.map_eq_some_iff.mp (place?_eq_bare ▸ hq)
  unfold Workspace.connect
  split
  · next hab =>
    have hba := hw.back hab
    constructor
    · intro hxy
      have hyx := hw.back hxy
      grind
    · grind
  · rw [hw.twoWay.disconnect_eq, hw.twoWay.cut.disconnect_eq, cut_cut, target?_setTarget,
      bare?_setTarget, target?_setTarget, bare?_cut]
    by_cases hbx : b = x
    · subst hbx
      grind
    · by_cases hax : a = x
      · subst hax
        grind
      · rw [if_neg hbx, if_neg hax, target?_cut_eq_some]
        grind

theorem Matched.bare?_connect (hw : w.Matched) : (w.connect a b).bare? x = w.bare? x := by
  unfold Workspace.connect
  split
  · rfl
  · rw [hw.twoWay.disconnect_eq, hw.twoWay.cut.disconnect_eq]
    simp

theorem Matched.blocks_connect (hw : w.Matched) :
    (w.connect a b).blocks = w.blocks := by
  unfold Workspace.connect
  split
  · rfl
  · rw [hw.twoWay.disconnect_eq, hw.twoWay.cut.disconnect_eq]
    rfl

theorem connect_of_linked (hab : w.target? a = some b) :
    w.connect a b = w := by
  rw [connect, if_pos hab]

theorem connectionsOf_connect (hw : w.Matched) :
    (w.connect a b).connectionsOf c = w.connectionsOf c := by
  unfold Workspace.connect
  split
  · rfl
  · rw [hw.twoWay.disconnect_eq, hw.twoWay.cut.disconnect_eq]
    rfl

theorem Matched.setCheck {check : Option Text} (hw : w.Matched) : (w.setCheck c check).Matched := by
  have hconnection (x : Nat) : (w.setCheck c check).connection? x =
      (w.connection? x).map fun k => if c = x then { k with check := check } else k := by
    simp only [connection?, Workspace.setCheck, List.getElem?_modify]
    rfl
  refine hw.of_reads (fun x => ?_) (fun x => ?_) (fun x => ?_) fun b => rfl
  all_goals
    simp only [target?, owner?, place?, hconnection]
    cases w.connection? x
    · rfl
    · simp only [Option.map_some, Option.bind_some]
      split <;> rfl

theorem connectionsOf_bump : (w.bump c).connectionsOf b = w.connectionsOf b := by
  simp only [connectionsOf, block?, bump, List.getElem?_modify]
  cases w.blocks[b]? with
  | none => rfl
  | some k => by_cases hcb : c = b <;> simp [hcb, Block.connections]

theorem Matched.bump (hw : w.Matched) : (w.bump c).Matched :=
  hw.of_reads (fun _ => rfl) (fun _ => rfl) (fun _ => rfl) fun _ => connectionsOf_bump

theorem Matched.lt_length (hw : w.Matched) (hc : c ∈ w.connectionsOf b) :
    c < w.connections.length := by
  obtain ⟨k, hk, -⟩ := Option.map_eq_some_iff.mp (hw.owned hc)
  exact (List.getElem?_eq_some_iff.mp hk).1

/-- A new connection without a link, of a block that takes it into its place, leaves links
matched. -/
theorem Matched.of_attach {w' : Workspace} {k : Block} (hw : w.Matched) (place : Place)
    (check : Option Text) (hk : k.connections = w.connectionsOf b)
    (hconnection : ∀ x, w'.connection? x =
      if x = w.connections.length then some ⟨b, place, check, none⟩ else w.connection? x)
    (hof : ∀ d, w'.connectionsOf d =
      if d = b then (k.attach place w.connections.length).connections else w.connectionsOf d) :
    w'.Matched := by
  have hfresh : w.connection? w.connections.length = none := by simp [connection?]
  have htarget (x : Nat) : w'.target? x = w.target? x := by
    simp only [target?, hconnection]
    split
    · rename_i hx
      rw [hx, hfresh]
      rfl
    · rfl
  have hlinked {x y : Nat} (hxy : w.target? x = some y) : x ≠ w.connections.length := by
    rintro rfl
    rw [target?, hfresh] at hxy
    cases hxy
  have howned {c d : Nat} (hc : c ∈ w.connectionsOf d) : w'.owner? c = some d := by
    simpa only [owner?, hconnection, if_neg (Nat.ne_of_lt (hw.lt_length hc))] using hw.owned hc
  refine ⟨fun {x y} hxy => ?_, fun {x y} hxy => ?_, fun {c d} hc => ?_, fun d => ?_⟩
  · rw [htarget] at hxy ⊢
    exact hw.back hxy
  · rw [htarget] at hxy
    have hx := hlinked hxy
    have hy := hlinked (hw.back hxy)
    simpa only [Joins, owner?, place?, hconnection, if_neg hx, if_neg hy] using hw.joins hxy
  · rw [hof] at hc
    split at hc
    · rename_i hd
      rcases Block.mem_connections_attach hc with rfl | hc
      · simp [owner?, hconnection, hd]
      · exact hd ▸ howned (hk ▸ hc)
    · exact howned hc
  · rw [hof]
    split
    · refine Block.nodup_connections_attach (hk ▸ hw.nodup b) fun hmem => ?_
      exact Nat.ne_of_lt (hw.lt_length (hk ▸ hmem)) rfl
    · exact hw.nodup d

theorem Matched.attach {k : Block} {place : Place} {check : Option Text} (hw : w.Matched)
    (hblock : w.block? b = some k) :
    Matched { blocks := w.blocks.modify b fun k => k.attach place w.connections.length
              connections := w.connections ++ [⟨b, place, check, none⟩] } := by
  have hk : k.connections = w.connectionsOf b := by simp [connectionsOf, hblock]
  refine hw.of_attach place check hk (fun x => ?_) fun d => ?_
  · simp only [connection?, List.getElem?_append]
    grind
  · simp only [connectionsOf, block?, List.getElem?_modify] at hblock ⊢
    by_cases hd : d = b
    · simp [hd, hblock]
    · simp [hd, Ne.symm hd]

theorem Matched.addConnection {w' : Workspace} {place : Place} {check : Option Text}
    (hw : w.Matched) (hrun : w.addConnection b place check = .ok w') : w'.Matched := by
  unfold Workspace.addConnection at hrun
  split at hrun
  · obtain rfl := Except.ok.inj hrun
    exact hw
  · rename_i k hblock
    split at hrun
    · cases hrun
    · obtain rfl := Except.ok.inj hrun
      exact hw.attach hblock

theorem Matched.addConnections {w' : Workspace} {number : Workspace → Nat}
    {places : List (Place × Option Text)} (hw : w.Matched)
    (hrun : places.foldlM (fun w item => w.addConnection (number w) item.1 item.2) w = .ok w') :
    w'.Matched := by
  induction places generalizing w with
  | nil =>
    obtain rfl := Except.ok.inj hrun
    exact hw
  | cons first rest ih =>
    rw [List.foldlM_cons] at hrun
    obtain ⟨next, hnext, hrest⟩ := bind_eq_ok.mp hrun
    exact ih (hw.addConnection hnext) hrest

theorem Matched.newBlock (hw : w.Matched) (label : Text) (rendered : Bool) :
    Matched { w with blocks := w.blocks ++ [{ label := label, rendered := rendered }] } := by
  refine hw.of_reads (fun x => rfl) (fun x => rfl) (fun x => rfl) fun b => ?_
  simp only [connectionsOf, block?, List.getElem?_append]
  grind [Block.connections]

theorem Matched.addBlock {w' : Workspace} {plan : BlockPlan} (hw : w.Matched)
    (hrun : w.addBlock plan = .ok w') : w'.Matched :=
  (hw.newBlock plan.label plan.rendered).addConnections hrun

theorem matched_empty : Matched {} := by
  constructor
  all_goals simp [target?, connection?, connectionsOf, block?]

end Workspace

end TypedBlocks
