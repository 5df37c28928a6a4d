import TypedBlocks.Proofs.Session.Assigned
import TypedBlocks.Proofs.Session.Incomparable

/-! The types of a connection. A check is returned with a type put in for each occurrence of a
generic, in every combination: a generic that stands for several types may be a different one at
each place. Where no repeated generic stands for several types, each type returned comes from one
choice for each generic. -/
namespace TypedBlocks.Scene

variable {s : Scene} {stands : Text → TypeExpr → Prop} {name g : Text} {t u : TypeExpr}
  {ps types : List TypeExpr}

/-- A check with a type put in for each occurrence of a generic, out of those that it stands for. -/
inductive Version (s : Scene) (stands : Text → TypeExpr → Prop) : TypeExpr → TypeExpr → Prop
  | wildcard : s.Version stands .wildcard .wildcard
  | generic {g : Text} {u : TypeExpr} (hg : s.isGeneric g = true) (hstar : g ≠ TypeExpr.star)
      (hu : stands g u) : s.Version stands ⟨g, []⟩ u
  | app {name : Text} {ps us : List TypeExpr} (hname : s.isGeneric name = false)
      (hparams : List.Forall₂ (s.Version stands) ps us) : s.Version stands ⟨name, ps⟩ ⟨name, us⟩

theorem isGeneric_star : s.isGeneric TypeExpr.star = true := by
  simp [isGeneric]

theorem version_wildcard : s.Version stands .wildcard u ↔ u = .wildcard := by
  constructor
  · intro hu
    cases hu with
    | wildcard => rfl
    | generic _ hstar _ => exact absurd rfl hstar
    | app hname _ => exact absurd (isGeneric_star.symm.trans hname) (by simp)
  · rintro rfl
    exact .wildcard

theorem version_generic (hg : s.isGeneric g = true) (hstar : g ≠ TypeExpr.star) :
    s.Version stands ⟨g, []⟩ u ↔ stands g u := by
  constructor
  · intro hu
    cases hu with
    | wildcard => exact absurd rfl hstar
    | generic _ _ hu => exact hu
    | app hname _ => exact absurd (hg.symm.trans hname) (by simp)
  · exact .generic hg hstar

theorem version_app (hname : s.isGeneric name = false) :
    s.Version stands ⟨name, ps⟩ u ↔
      ∃ us, u = ⟨name, us⟩ ∧ List.Forall₂ (s.Version stands) ps us := by
  constructor
  · intro hu
    cases hu with
    | wildcard => exact absurd (isGeneric_star.symm.trans hname) (by simp)
    | generic hg _ _ => exact absurd (hg.symm.trans hname) (by simp)
    | app _ hparams => exact ⟨_, rfl, hparams⟩
  · rintro ⟨us, rfl, hparams⟩
    exact .app hname hparams

inductive GenericLeaves (s : Scene) : TypeExpr → Prop
  | wildcard : s.GenericLeaves .wildcard
  | generic {g : Text} (hg : s.isGeneric g = true) (hstar : g ≠ TypeExpr.star) :
      s.GenericLeaves ⟨g, []⟩
  | app {name : Text} {ps : List TypeExpr} (hname : s.isGeneric name = false)
      (hparams : ∀ p ∈ ps, s.GenericLeaves p) : s.GenericLeaves ⟨name, ps⟩

theorem genericLeaves_of_nodes {whole : TypeExpr}
    (hnodes : ∀ u ∈ t.walk, s.validateNode whole u = .ok ()) : s.GenericLeaves t := by
  induction t using TypeExpr.byParams with
  | mk name ps ih =>
    have hparams (p : TypeExpr) (hp : p ∈ ps) : s.GenericLeaves p :=
      ih p hp fun u hu => hnodes u (TypeExpr.mem_walk_of_param hp hu)
    cases hgeneric : s.isGeneric name with
    | false => exact .app hgeneric hparams
    | true =>
      have hnode := hnodes _ (TypeExpr.self_mem_walk _)
      obtain rfl : ps = [] := by
        by_contra hne
        simp [validateNode, hgeneric, hne] at hnode
      by_cases hstar : name = TypeExpr.star
      · exact hstar ▸ .wildcard
      · exact .generic hgeneric hstar

theorem genericLeaves_of_read {text : Text} (hread : s.readCheck text = .ok t) :
    s.GenericLeaves t :=
  genericLeaves_of_nodes (nodes_of_read hread)

/-! ### Expansion -/

def Offers (ask : Text → Except Fault (List TypeExpr)) (g : Text) (u : TypeExpr) : Prop :=
  ∃ found, ask g = .ok found ∧ u ∈ found

variable {ask : Text → Except Fault (List TypeExpr)}

theorem isWildcard_of_not_generic (hname : s.isGeneric name = false) :
    TypeExpr.isWildcard ⟨name, ps⟩ = false := by
  have hstar : name ≠ TypeExpr.star := by
    rintro rfl
    exact absurd (isGeneric_star.symm.trans hname) (by simp)
  simp [TypeExpr.isWildcard, hstar]

/-- The choices among what the parameters expand to take a version of each. -/
theorem mem_choices_expandAll {options : List (List TypeExpr)}
    (hps : ∀ p ∈ ps, ∀ found u, s.expand ask p = .ok found →
      (u ∈ found ↔ s.Version (Offers ask) p u))
    (hrun : s.expandAll ask ps = .ok options) {us : List TypeExpr} :
    us ∈ choices options ↔ List.Forall₂ (s.Version (Offers ask)) ps us := by
  induction ps generalizing options us with
  | nil =>
    obtain rfl := pure_eq_ok.mp hrun
    simp [choices]
  | cons p ps ih =>
    obtain ⟨hp, hps⟩ := List.forall_mem_cons.mp hps
    obtain ⟨first, hfirst, hrun⟩ := bind_eq_ok.mp hrun
    obtain ⟨rest, hrest, hrun⟩ := bind_eq_ok.mp hrun
    obtain rfl := pure_eq_ok.mp hrun
    simp only [choices, List.mem_flatMap, List.mem_map]
    constructor
    · rintro ⟨u, hu, us, hus, rfl⟩
      exact .cons ((hp first u hfirst).mp hu) ((ih hps hrest).mp hus)
    · rintro (_ | ⟨hu, hus⟩)
      exact ⟨_, (hp first _ hfirst).mpr hu, _, (ih hps hrest).mpr hus, rfl⟩

/-- A check expands to its versions. -/
theorem mem_expand (ht : s.GenericLeaves t) (hrun : s.expand ask t = .ok types) :
    u ∈ types ↔ s.Version (Offers ask) t u := by
  induction ht generalizing types u with
  | wildcard =>
    obtain rfl : [TypeExpr.wildcard] = types := pure_eq_ok.mp hrun
    rw [version_wildcard, List.mem_singleton]
  | generic hg hstar =>
    rw [expand_of_generic hg hstar] at hrun
    simp [version_generic hg hstar, Offers, hrun]
  | @app name ps hname _ ih =>
    rw [expand, isWildcard_of_not_generic hname, hname] at hrun
    obtain ⟨options, hoptions, hrun⟩ := bind_eq_ok.mp hrun
    obtain rfl := pure_eq_ok.mp hrun
    have hchoices (us : List TypeExpr) : us ∈ choices options ↔ _ :=
      mem_choices_expandAll (fun p hp found u hfound => ih p hp hfound) hoptions
    rw [version_app hname, List.mem_eraseDups, List.mem_map]
    refine exists_congr fun us => ?_
    rw [hchoices us, and_comm, eq_comm]

/-! ### One choice for each generic -/

theorem generics_wildcard : s.generics .wildcard = [] := by
  simp [generics, TypeExpr.wildcard, TypeExpr.walk_mk, TypeExpr.isWildcard]

theorem generics_leaf (hg : s.isGeneric g = true) (hstar : g ≠ TypeExpr.star) :
    s.generics ⟨g, []⟩ = [g] := by
  simp [generics, TypeExpr.walk_mk, TypeExpr.isWildcard, hg, hstar]

theorem generics_app (hname : s.isGeneric name = false) :
    s.generics ⟨name, ps⟩ = ps.flatMap s.generics := by
  unfold generics
  rw [TypeExpr.walk_mk, List.filter_cons_of_neg (by simp [hname]), List.filter_flatMap,
    List.map_flatMap]

/-- The types that a version has at the places of the generics, in order, each with its generic. -/
structure PutIn (s : Scene) (stands : Text → TypeExpr → Prop) (t u : TypeExpr)
    (pairs : List (Text × TypeExpr)) : Prop where
  keys : pairs.map Prod.fst = s.generics t
  types : ∀ pair ∈ pairs, stands pair.1 pair.2
  substitute : ∀ σ, s.Replaces σ → (∀ pair ∈ pairs, σ.lookup pair.1 = some pair.2) →
    t.substitute σ = u

theorem exists_putIn_all {us : List TypeExpr}
    (hps : ∀ p ∈ ps, ∀ u, s.Version stands p u → ∃ pairs, s.PutIn stands p u pairs)
    (hus : List.Forall₂ (s.Version stands) ps us) :
    ∃ pairs : List (Text × TypeExpr), pairs.map Prod.fst = ps.flatMap s.generics ∧
      (∀ pair ∈ pairs, stands pair.1 pair.2) ∧
      ∀ σ, s.Replaces σ → (∀ pair ∈ pairs, σ.lookup pair.1 = some pair.2) →
        ps.map (TypeExpr.substitute σ) = us := by
  induction hus with
  | nil => exact ⟨[], rfl, by simp, fun _ _ _ => rfl⟩
  | cons hu _ ih =>
    obtain ⟨hp, hps⟩ := List.forall_mem_cons.mp hps
    obtain ⟨first, hput⟩ := hp _ hu
    obtain ⟨rest, hkeys, htypes, hsubst⟩ := ih hps
    refine ⟨first ++ rest, by simp [hput.keys, hkeys],
      List.forall_mem_append.mpr ⟨hput.types, htypes⟩, fun σ hσ hlookup => ?_⟩
    obtain ⟨hleft, hright⟩ := List.forall_mem_append.mp hlookup
    rw [List.map_cons, hput.substitute σ hσ hleft, hsubst σ hσ hright]

theorem Version.exists_putIn (ht : s.GenericLeaves t) (hu : s.Version stands t u) :
    ∃ pairs, s.PutIn stands t u pairs := by
  induction ht generalizing u with
  | wildcard =>
    obtain rfl := version_wildcard.mp hu
    exact ⟨[], by simp [generics_wildcard], by simp, fun σ hσ _ => substitute_star hσ⟩
  | @generic g hg hstar =>
    refine ⟨[(g, u)], by simp [generics_leaf hg hstar], ?_, fun σ _ hlookup => ?_⟩
    · exact List.forall_mem_singleton.mpr ((version_generic hg hstar).mp hu)
    · simp [TypeExpr.substitute, hlookup (g, u) (List.mem_singleton_self _)]
  | @app name ps hname _ ih =>
    obtain ⟨us, rfl, hus⟩ := (version_app hname).mp hu
    obtain ⟨pairs, hkeys, htypes, hsubst⟩ := exists_putIn_all (fun p hp _ => ih p hp) hus
    refine ⟨pairs, by rw [hkeys, generics_app hname], htypes, fun σ hσ hlookup => ?_⟩
    rw [substitute_of_not_generic hσ hname, hsubst σ hσ hlookup]

/-- One type for each generic of a check, out of those that it stands for. -/
structure Picks (s : Scene) (stands : Text → TypeExpr → Prop) (t : TypeExpr)
    (σ : List (Text × TypeExpr)) : Prop where
  keys : ∀ g, (σ.lookup g).isSome = true ↔ g ∈ s.generics t
  types : ∀ g u, σ.lookup g = some u → stands g u

theorem Picks.replaces {σ : List (Text × TypeExpr)} (hσ : s.Picks stands t σ)
    (hstar : TypeExpr.star ∉ s.generics t) : s.Replaces σ := by
  intro g u hlookup
  have hg : g ∈ s.generics t := (hσ.keys g).mp (by rw [hlookup]; rfl)
  exact ⟨isGeneric_of_mem_generics hg, fun heq => hstar (heq ▸ hg)⟩

/-- A choice for each generic makes a version. -/
theorem Picks.version {σ : List (Text × TypeExpr)} (hσ : s.Picks stands t σ)
    (ht : s.GenericLeaves t) (hstar : TypeExpr.star ∉ s.generics t) :
    s.Version stands t (t.substitute σ) := by
  have hreplaces := hσ.replaces hstar
  have hvalue (g : Text) (hg : g ∈ s.generics t) : stands g (TypeExpr.substitute σ ⟨g, []⟩) := by
    obtain ⟨v, hv⟩ := Option.isSome_iff_exists.mp ((hσ.keys g).mpr hg)
    simpa [TypeExpr.substitute, hv] using hσ.types g v hv
  clear hσ hstar
  induction ht with
  | wildcard => exact version_wildcard.mpr (substitute_star hreplaces)
  | generic hg hstar =>
    exact (version_generic hg hstar).mpr (hvalue _ (mem_generics_leaf hg hstar))
  | @app name ps hname _ ih =>
    rw [substitute_of_not_generic hreplaces hname]
    refine .app hname ?_
    rw [List.forall₂_map_right_iff, List.forall₂_same]
    exact fun p hp => ih p hp fun g hg => hvalue g (generics_subset hp hg)

theorem lookup_of_agreeing {pairs : List (Text × TypeExpr)}
    (hagree : ∀ p ∈ pairs, ∀ q ∈ pairs, p.1 = q.1 → p.2 = q.2) :
    ∀ pair ∈ pairs, pairs.lookup pair.1 = some pair.2 := by
  intro pair hpair
  cases hlookup : pairs.lookup pair.1 with
  | none =>
    have hnone := List.lookup_eq_none_iff.mp hlookup pair hpair
    simp at hnone
  | some v => rw [hagree pair hpair _ (mem_of_lookup hlookup) rfl]

/-- Pairs with a key that occurs once are the same. -/
theorem eq_of_count_le_one {pairs : List (Text × TypeExpr)}
    (hcount : (pairs.map Prod.fst).count g ≤ 1) {u v : TypeExpr} (hu : (g, u) ∈ pairs)
    (hv : (g, v) ∈ pairs) : u = v := by
  have hlen : (pairs.filter (·.1 == g)).length ≤ 1 := by
    rw [List.count, List.countP_map] at hcount
    exact List.countP_eq_length_filter ▸ hcount
  have hmem {w : TypeExpr} (hw : (g, w) ∈ pairs) : (g, w) ∈ pairs.filter (·.1 == g) :=
    List.mem_filter.mpr ⟨hw, beq_self_eq_true g⟩
  obtain ⟨pair, hone⟩ := List.length_eq_one_iff.mp
    (Nat.le_antisymm hlen (List.length_pos_of_mem (hmem hu)))
  have hu := List.mem_singleton.mp (hone ▸ hmem hu)
  have hv := List.mem_singleton.mp (hone ▸ hmem hv)
  exact (Prod.mk.inj (hu.trans hv.symm)).2

/-- A version comes from one choice for each generic, if those that occur more than once leave no
choice. -/
theorem Version.exists_picks (ht : s.GenericLeaves t) (hstar : TypeExpr.star ∉ s.generics t)
    (hu : s.Version stands t u)
    (hsingle : ∀ g, 1 < (s.generics t).count g → ∀ v w, stands g v → stands g w → v = w) :
    ∃ σ, s.Picks stands t σ ∧ t.substitute σ = u := by
  obtain ⟨pairs, hput⟩ := hu.exists_putIn ht
  have hagree : ∀ p ∈ pairs, ∀ q ∈ pairs, p.1 = q.1 → p.2 = q.2 := by
    rintro ⟨g, v⟩ hp ⟨g', w⟩ hq heq
    obtain rfl : g = g' := heq
    rcases Nat.lt_or_ge 1 ((s.generics t).count g) with hmany | honce
    · exact hsingle g hmany v w (hput.types _ hp) (hput.types _ hq)
    · exact eq_of_count_le_one (hput.keys ▸ honce) hp hq
  have hpicks : s.Picks stands t pairs := by
    refine ⟨fun g => ?_, fun g v hlookup => hput.types _ (mem_of_lookup hlookup)⟩
    rw [← hput.keys, List.mem_map, List.lookup_isSome_iff]
    simp
  exact ⟨pairs, hpicks, hput.substitute pairs (hpicks.replaces hstar) (lookup_of_agreeing hagree)⟩

/-- What the types of a connection are: the versions of its check, with the types that the generics
stand for on the block. -/
theorem mem_typesAt {c block : Nat} {place : Place} {text : Text} {target : Option Nat}
    (hc : s.workspace.connection? c = some ⟨block, place, some text, target⟩)
    (hread : s.readCheck text = .ok t) (hrun : s.typesAt c = .ok types) :
    u ∈ types ↔ s.Version (Offers (s.typesOf block)) t u := by
  have hasks : (fun g => s.resolveWithin s.depth block g none) = s.typesOf block :=
    funext fun g => (typesOf_eq s block g).symm
  rw [typesAt_eq, typesThrough, hc] at hrun
  simp only [readCheck_eq_lift, hread, hasks] at hrun
  exact mem_expand (genericLeaves_of_read hread) hrun

end TypedBlocks.Scene

namespace TypedBlocks.Session

open Scene (Offers)

variable {s : Session} {c : Nat} {types : List TypeExpr}

theorem naming_eq_ok {α : Type} {ends : List Nat} {x : Except Fault α} {a : α} :
    s.naming ends x = .ok a ↔ x = .ok a := by
  cases x <;> simp [naming]

theorem typesAt_of_connectionTypes {scene : Scene} (hscene : s.scene = .ok scene) {text : Text}
    (htext : (s.workspace.connection? c).bind (·.check) = some text)
    (hrun : s.connectionTypes c = .ok types) : scene.typesAt c = .ok types := by
  rw [connectionTypes_eq, naming_eq_ok, htext] at hrun
  cases hparse : TypeExpr.parse text with
  | error fault => simp [hparse] at hrun
  | ok check =>
    simp only [hparse, hscene] at hrun
    exact hrun

/-- The types of a connection with a valid check are all ways to put in, at each occurrence of a
generic by itself, one of the types that the generic stands for on the block, the wildcard if
nothing is known. Every choice of one type for each generic is among them. If no generic that occurs
more than once stands for several types, all of them come from such a choice. -/
theorem connectionTypes_versions {scene : Scene} (hscene : s.scene = .ok scene) {block : Nat}
    {place : Place} {text : Text} {target : Option Nat}
    (hc : s.workspace.connection? c = some ⟨block, place, some text, target⟩) {check : TypeExpr}
    (hread : scene.readCheck text = .ok check) (hrun : s.connectionTypes c = .ok types) :
    (∀ t, t ∈ types ↔ scene.Version (Offers (scene.typesOf block)) check t) ∧
    (∀ σ, scene.Picks (Offers (scene.typesOf block)) check σ → check.substitute σ ∈ types) ∧
    ((∀ g, 1 < (scene.generics check).count g →
        ∀ found, scene.typesOf block g = .ok found → found.length ≤ 1) →
      ∀ t ∈ types, ∃ σ, scene.Picks (Offers (scene.typesOf block)) check σ ∧
        check.substitute σ = t) := by
  have hleaves := Scene.genericLeaves_of_read hread
  have hstar := Scene.star_notMem_generics hread
  have hversion (t : TypeExpr) :
      t ∈ types ↔ scene.Version (Offers (scene.typesOf block)) check t :=
    Scene.mem_typesAt (workspace_of_scene hscene ▸ hc) hread
      (typesAt_of_connectionTypes hscene (by rw [hc]; rfl) hrun)
  refine ⟨hversion, fun σ hσ => (hversion _).mpr (hσ.version hleaves hstar),
    fun hsingle t ht => ((hversion t).mp ht).exists_picks hleaves hstar fun g hmany v w hv hw => ?_⟩
  obtain ⟨found, hfound, hv⟩ := hv
  obtain ⟨found', hfound', hw⟩ := hw
  obtain rfl := Except.ok.inj (hfound.symm.trans hfound')
  obtain ⟨x, rfl⟩ := List.length_eq_one_iff.mp
    (Nat.le_antisymm (hsingle g hmany found hfound) (List.length_pos_of_mem hv))
  exact (List.mem_singleton.mp hv).trans (List.mem_singleton.mp hw).symm

/-- The block that pairs a duck and an otter, in a session. -/
def poolSession : Session where
  hierarchy := some poolScene.hierarchy
  workspace := poolScene.workspace

/-- The pair that the block takes has a generic for animals of either kind, and one that nothing is
known about. -/
theorem pool_pair_versions :
    poolSession.connectionTypes 3 =
      .ok [⟨"pair", [⟨"swimmer", []⟩, .wildcard]⟩, ⟨"pair", [⟨"walker", []⟩, .wildcard]⟩] ∧
    ∃ σ, poolScene.Picks (Offers (poolScene.typesOf 0)) ⟨"pair", [⟨"t", []⟩, ⟨"u", []⟩]⟩ σ ∧
      TypeExpr.substitute σ ⟨"pair", [⟨"t", []⟩, ⟨"u", []⟩]⟩ =
        ⟨"pair", [⟨"walker", []⟩, .wildcard]⟩ := by
  have hread : poolScene.readCheck "pair[t, u]" = .ok ⟨"pair", [⟨"t", []⟩, ⟨"u", []⟩]⟩ :=
    eq_ok_of_toOption (by decide +kernel)
  have hrun : poolSession.connectionTypes 3 =
      .ok [⟨"pair", [⟨"swimmer", []⟩, .wildcard]⟩, ⟨"pair", [⟨"walker", []⟩, .wildcard]⟩] :=
    eq_ok_of_toOption (by decide +kernel)
  obtain ⟨-, -, hpicks⟩ := connectionTypes_versions (s := poolSession) rfl rfl hread hrun
  refine ⟨hrun, hpicks (fun g hmany => ?_) _ (by simp)⟩
  have hnodup : (poolScene.generics ⟨"pair", [⟨"t", []⟩, ⟨"u", []⟩]⟩).Nodup := by decide +kernel
  exact absurd (List.nodup_iff_count_le_one.mp hnodup g) (Nat.not_le_of_lt hmany)

/-- The pair that the block returns has one generic twice, and yet a swimmer and a walker may be
paired: this is no choice of one type for the generic. -/
theorem pool_pair_mixed :
    (poolSession.workspace.connection? 0).bind (·.check) = some "pair[t, t]" ∧
    poolSession.scene = .ok poolScene ∧
    poolSession.connectionTypes 0 =
      .ok [⟨"pair", [⟨"swimmer", []⟩, ⟨"swimmer", []⟩]⟩,
        ⟨"pair", [⟨"swimmer", []⟩, ⟨"walker", []⟩]⟩,
        ⟨"pair", [⟨"walker", []⟩, ⟨"swimmer", []⟩]⟩,
        ⟨"pair", [⟨"walker", []⟩, ⟨"walker", []⟩]⟩] ∧
    poolScene.readCheck "pair[t, t]" = .ok ⟨"pair", [⟨"t", []⟩, ⟨"t", []⟩]⟩ ∧
    ¬∃ σ, TypeExpr.substitute σ ⟨"pair", [⟨"t", []⟩, ⟨"t", []⟩]⟩ =
      ⟨"pair", [⟨"swimmer", []⟩, ⟨"walker", []⟩]⟩ := by
  refine ⟨rfl, rfl, eq_ok_of_toOption (by decide +kernel), eq_ok_of_toOption (by decide +kernel),
    ?_⟩
  rintro ⟨σ, hσ⟩
  obtain ⟨hfirst, hsecond⟩ : TypeExpr.substitute σ ⟨"t", []⟩ = ⟨"swimmer", []⟩ ∧
      TypeExpr.substitute σ ⟨"t", []⟩ = ⟨"walker", []⟩ := by
    simpa [TypeExpr.substitute, TypeExpr.substituteAll] using hσ
  exact absurd (hfirst.symm.trans hsecond) (by decide)

end TypedBlocks.Session
