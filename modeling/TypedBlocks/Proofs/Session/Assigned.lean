import TypedBlocks.Proofs.Nearest.Copies
import TypedBlocks.Proofs.Session.Plain

/-! Checks with types put in for their generics. Where each generic stands for one type, a check
expands to one type, and read against that type it gives back what each generic stands for, however
deep the generic stands and however often it is repeated. -/
namespace TypedBlocks.Scene

variable {s : Scene} {σ : List (Text × TypeExpr)} {t : TypeExpr} {g : Text}

/-- The generics of a check, each with a type that has no wildcard. -/
structure Assigns (s : Scene) (σ : List (Text × TypeExpr)) (t : TypeExpr) : Prop where
  keys : ∀ g, (σ.lookup g).isSome = true ↔ g ∈ s.generics t
  types : ∀ g u, σ.lookup g = some u → s.hierarchy.validate u = .ok () ∧ u.StarFree

/-- Nothing but generics is replaced, and the wildcard is not. -/
def Replaces (s : Scene) (σ : List (Text × TypeExpr)) : Prop :=
  ∀ g u, σ.lookup g = some u → s.isGeneric g = true ∧ g ≠ TypeExpr.star

theorem isGeneric_of_mem_generics (hg : g ∈ s.generics t) : s.isGeneric g = true := by
  obtain ⟨u, hu, rfl⟩ := List.mem_map.mp hg
  exact (Bool.and_eq_true_iff.mp (List.mem_filter.mp hu).2).2

theorem mentions_of_mem_generics (hg : g ∈ s.generics t) : t.mentions g = true := by
  obtain ⟨u, hu, rfl⟩ := List.mem_map.mp hg
  exact List.any_eq_true.mpr ⟨u, (List.mem_filter.mp hu).1, beq_self_eq_true _⟩

theorem mem_generics_leaf (hg : s.isGeneric g = true) (hstar : g ≠ TypeExpr.star) :
    g ∈ s.generics ⟨g, []⟩ :=
  mem_generics (TypeExpr.self_mem_walk _) (by simp [TypeExpr.isWildcard, hstar]) hg

theorem lookup_map_const {names : List Text} (hg : g ∈ names) (u : TypeExpr) :
    (names.map (·, u)).lookup g = some u := by
  induction names with
  | nil => cases hg
  | cons name names ih =>
    rw [List.map_cons, List.lookup_cons]
    split
    · rfl
    · next hne => exact ih ((List.mem_cons.mp hg).resolve_left (by simpa using hne))

theorem mem_of_lookup_map_const {names : List Text} {u v : TypeExpr}
    (hlookup : (names.map (·, u)).lookup g = some v) : g ∈ names := by
  obtain ⟨name, hname, heq⟩ := List.mem_map.mp (mem_of_lookup hlookup)
  exact (Prod.mk.inj heq).1 ▸ hname

namespace Assigns

variable (hσ : s.Assigns σ t) {u : TypeExpr}

include hσ

theorem mem_generics (hlookup : σ.lookup g = some u) : g ∈ s.generics t :=
  (hσ.keys g).mp (by rw [hlookup]; rfl)

theorem lookup (hg : g ∈ s.generics t) :
    σ.lookup g = some (TypeExpr.substitute σ ⟨g, []⟩) := by
  obtain ⟨u, hu⟩ := Option.isSome_iff_exists.mp ((hσ.keys g).mpr hg)
  simp [TypeExpr.substitute, hu]

theorem ground (hl : s.hierarchy.Linked) (hlookup : σ.lookup g = some u) :
    s.hierarchy.Ground u := by
  obtain ⟨hvalid, hfree⟩ := hσ.types g u hlookup
  exact ⟨hl.validate_eq_ok.mp hvalid, hfree⟩

theorem replaces (hstar : TypeExpr.star ∉ s.generics t) : s.Replaces σ := by
  intro g u hlookup
  have hg := hσ.mem_generics hlookup
  exact ⟨isGeneric_of_mem_generics hg, fun heq => hstar (heq ▸ hg)⟩

end Assigns

/-! ### The type that a check becomes -/

section Replaces

variable (hl : s.hierarchy.Linked) (hσ : s.Replaces σ)

include hσ in
theorem substitute_star : TypeExpr.substitute σ ⟨TypeExpr.star, []⟩ = .wildcard := by
  cases hlookup : σ.lookup TypeExpr.star with
  | none => simp [TypeExpr.wildcard, TypeExpr.substitute, hlookup]
  | some u => exact absurd rfl (hσ _ u hlookup).2

include hσ in
theorem substitute_of_not_generic {name : Text} (hname : s.isGeneric name = false)
    (params : List TypeExpr) :
    TypeExpr.substitute σ ⟨name, params⟩ = ⟨name, params.map (TypeExpr.substitute σ)⟩ := by
  cases params with
  | nil =>
    cases hlookup : σ.lookup name with
    | none => simp [TypeExpr.substitute, hlookup]
    | some u =>
      have hgeneric := (hσ _ u hlookup).1
      rw [hname] at hgeneric
      cases hgeneric
  | cons p ps => simp [TypeExpr.substitute]

include hl hσ

theorem substitute_app {e : Entry} (he : e ∈ s.hierarchy.entries) (params : List TypeExpr) :
    TypeExpr.substitute σ ⟨e.name, params⟩ = ⟨e.name, params.map (TypeExpr.substitute σ)⟩ :=
  substitute_of_not_generic hσ (isGeneric_entry hl he) params

theorem valid_substitute (ht : s.Formed t)
    (hvalid : ∀ g ∈ s.generics t, s.hierarchy.Valid (TypeExpr.substitute σ ⟨g, []⟩)) :
    s.hierarchy.Valid (t.substitute σ) := by
  induction ht with
  | @generic name hname =>
    by_cases hstar : name = TypeExpr.star
    · rw [hstar, substitute_star hσ]
      exact .wildcard
    · exact hvalid name (mem_generics_leaf hname hstar)
  | @app e he params hlen hparams ih =>
    rw [substitute_app hl hσ he]
    refine .app he (by rw [List.length_map, hlen]) fun q hq => ?_
    obtain ⟨p, hp, rfl⟩ := List.mem_map.mp hq
    exact ih p hp fun g hg => hvalid g (generics_subset hp hg)

/-- A check whose generics stand for one type each expands to one type. -/
theorem expand_substitute {m : Type → Type} [Monad m] [LawfulMonad m]
    {ask : Text → m (List TypeExpr)} (ht : s.Formed t)
    (hask : ∀ g ∈ s.generics t, ask g = pure [TypeExpr.substitute σ ⟨g, []⟩]) :
    s.expand ask t = pure [t.substitute σ] := by
  induction ht with
  | @generic name hname =>
    by_cases hstar : name = TypeExpr.star
    · rw [hstar, substitute_star hσ]
      simp [expand, TypeExpr.isWildcard]
    · rw [expand_of_generic hname hstar]
      exact hask name (mem_generics_leaf hname hstar)
  | @app e he params hlen hparams ih =>
    have hall (ps : List TypeExpr) (hps : ∀ p ∈ ps, p ∈ params) :
        s.expandAll ask ps = pure ((ps.map (TypeExpr.substitute σ)).map ([·])) := by
      induction ps with
      | nil => rfl
      | cons p ps ihp =>
        obtain ⟨hp, hps⟩ := List.forall_mem_cons.mp hps
        have hfirst := ih p hp fun g hg => hask g (generics_subset hp hg)
        simp [expandAll, hfirst, ihp hps]
    rw [substitute_app hl hσ he]
    simp [-List.map_map, expand, TypeExpr.isWildcard, hl.name_ne_star he, isGeneric_entry hl he,
      hall params fun _ hp => hp, choices_singletons, List.eraseDups_cons]

/-! ### What the type says about the generics -/

/-- Read against the type it became, a check gives back what a generic stands for, once for each
place where the generic occurs. -/
theorem locate_substitute (hg : s.isGeneric g = true) (ht : s.Formed t) :
    ∃ parts, s.locate g t (t.substitute σ) = .ok parts ∧
      (∀ p ∈ parts, p = TypeExpr.substitute σ ⟨g, []⟩) ∧ (t.mentions g = true → parts ≠ []) := by
  induction ht with
  | @generic name hname =>
    refine ⟨_, by rw [locate], fun p hp => ?_, fun hmentions => ?_⟩
    · split at hp
      · next heq => rw [List.mem_singleton.mp hp, heq]
      · cases hp
    · have heq : name = g := by simpa [TypeExpr.mentions, TypeExpr.walk_mk] using hmentions
      simp [heq]
  | @app e he params hlen hparams ih =>
    have hne : e.name ≠ g := by
      rintro rfl
      rw [isGeneric_entry hl he] at hg
      cases hg
    have hall (ps : List TypeExpr) (hps : ∀ p ∈ ps, p ∈ params) :
        ∃ parts, s.locateAll g ps (ps.map (TypeExpr.substitute σ)) = .ok parts ∧
          (∀ p ∈ parts, p = TypeExpr.substitute σ ⟨g, []⟩) ∧
          ((∃ p ∈ ps, p.mentions g = true) → parts ≠ []) := by
      induction ps with
      | nil => exact ⟨[], by simp [locateAll], by simp, by simp⟩
      | cons p ps ihp =>
        obtain ⟨hp, hps⟩ := List.forall_mem_cons.mp hps
        obtain ⟨first, hfirst, hsame, hsome⟩ := ih p hp
        obtain ⟨rest, hrest, hsame', hsome'⟩ := ihp hps
        refine ⟨first ++ rest, ?_, List.forall_mem_append.mpr ⟨hsame, hsame'⟩, ?_⟩
        · rw [List.map_cons, locateAll, hfirst, ok_bind, hrest, ok_bind]
          rfl
        · rintro ⟨q, hq, hmentions⟩ hnil
          obtain ⟨hnil, hnil'⟩ := List.append_eq_nil_iff.mp hnil
          rcases List.mem_cons.mp hq with rfl | hq
          · exact hsome hmentions hnil
          · exact hsome' ⟨q, hq, hmentions⟩ hnil'
    obtain ⟨parts, hparts, hsame, hsome⟩ := hall params fun _ hp => hp
    have hinside (hmentions : TypeExpr.mentions ⟨e.name, params⟩ g = true) :
        ∃ p ∈ params, p.mentions g = true := by
      simpa [TypeExpr.mentions, TypeExpr.walk_mk, hne] using hmentions
    rw [substitute_app hl hσ he]
    cases params with
    | nil =>
      exact ⟨_, by rw [locate], by simp [hne], fun hmentions => by simpa using hinside hmentions⟩
    | cons p ps =>
      rw [locate]
      split
      · next hsilent =>
        refine ⟨[], rfl, by simp, fun hmentions => ?_⟩
        rw [hmentions] at hsilent
        cases hsilent
      · have hstar : TypeExpr.isWildcard ⟨e.name, (p :: ps).map (TypeExpr.substitute σ)⟩ = false :=
          Bool.and_false _
        have hunder : s.paramsUnder e.name ⟨e.name, (p :: ps).map (TypeExpr.substitute σ)⟩ =
            .ok (some ((p :: ps).map (TypeExpr.substitute σ))) :=
          if_pos rfl
        rw [hstar, hunder]
        rw [List.map_cons, locateAll] at hparts
        exact ⟨parts, hparts, hsame, fun hmentions => hsome (hinside hmentions)⟩

theorem gather_substitute (ht : s.Formed t) (hg : g ∈ s.generics t) {u : TypeExpr}
    (hlookup : σ.lookup g = some u) (hu : s.hierarchy.Ground u) :
    s.gather t g [t.substitute σ] = .ok (some [u]) := by
  obtain ⟨parts, hparts, hsame, hsome⟩ :=
    locate_substitute hl hσ (isGeneric_of_mem_generics hg) ht
  have hleaf : TypeExpr.substitute σ ⟨g, []⟩ = u := by simp [TypeExpr.substitute, hlookup]
  have hcopies : Copies u parts :=
    ⟨hsome (mentions_of_mem_generics hg), fun p hp => (hsame p hp).trans hleaf⟩
  have hkeep : parts.filter (!·.isWildcard) = parts :=
    Hierarchy.filter_ground fun p hp => hcopies.eq p hp ▸ hu
  have hdepth : u.size < Hierarchy.allowance + TypeExpr.sizeAll parts := by
    have := TypeExpr.size_le_sizeAll hcopies.mem
    unfold Hierarchy.allowance
    omega
  have hfound : s.hierarchy.commonAncestors parts = .ok [u] :=
    (hl.searches_copies hu hdepth parts hcopies).1
  rw [gather, hparts, ok_bind, hkeep]
  simp [hcopies.ne_nil, hfound, gather, pure, Except.pure]

/-- A generic that stands for the wildcard is not told. -/
theorem gather_substitute_wildcard (ht : s.Formed t) (hg : g ∈ s.generics t)
    (hlookup : σ.lookup g = some .wildcard) : s.gather t g [t.substitute σ] = .ok none := by
  obtain ⟨parts, hparts, hsame, -⟩ :=
    locate_substitute hl hσ (isGeneric_of_mem_generics hg) ht
  have hdrop : parts.filter (!·.isWildcard) = [] := by
    refine List.filter_eq_nil_iff.mpr fun p hp => ?_
    rw [hsame p hp, TypeExpr.substitute, hlookup]
    simp [TypeExpr.wildcard, TypeExpr.isWildcard]
  rw [gather, hparts, ok_bind, hdrop]
  rfl

end Replaces

end TypedBlocks.Scene
