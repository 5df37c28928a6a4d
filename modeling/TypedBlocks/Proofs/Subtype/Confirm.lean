import TypedBlocks.Proofs.Recursion.Height
import TypedBlocks.Proofs.Subtype.Ground

/-! Comparisons that say yes. They are passed on from parameters to types, and a type is found to be
below its view as an ancestor. -/
namespace TypedBlocks.Hierarchy

variable {h : Hierarchy}

def Confirms (h : Hierarchy) (sub sup : TypeExpr) : Prop :=
  ∃ depth, h.subtypeWithin depth sub sup = .ok true

theorem subtypeWithin_mono {depth depth' : Nat} (hle : depth ≤ depth') {sub sup : TypeExpr}
    {answer : Bool} (hrun : h.subtypeWithin depth sub sup = .ok answer) :
    h.subtypeWithin depth' sub sup = .ok answer := by
  have hcall : h.answerWithin depth (.subtype sub sup) = .ok answer := hrun
  exact answerWithin_mono hle hcall

theorem subtypeWithin_of_wildcard {depth : Nat} {a b : TypeExpr}
    (hwild : a.isWildcard = true ∨ b.isWildcard = true) :
    h.subtypeWithin (depth + 1) a b = .ok true := by
  have hwild' : (a.isWildcard || b.isWildcard) = true := by simpa using hwild
  simp [subtypeWithin, compareBy, hwild', pure, Except.pure]

/-- One depth is enough for all parameters. -/
theorem fits_at_common_depth {params : List Param} {as bs : List TypeExpr}
    (hfits : Fits h.Confirms params as bs) :
    ∃ depth, Fits (fun a b => h.subtypeWithin depth a b = .ok true) params as bs := by
  have hown (a b : TypeExpr) : ∃ depth, h.Confirms a b → h.subtypeWithin depth a b = .ok true := by
    by_cases hab : h.Confirms a b
    · exact hab.imp fun _ hrun _ => hrun
    · exact ⟨0, fun hyes => absurd hyes hab⟩
  choose own hrun using hown
  let most (a : TypeExpr) : Nat := greatest (fun b => max (own a b) (own b a)) bs
  refine ⟨greatest most as, hfits.imp fun a ha b hb => ?_⟩
  have hle : max (own a b) (own b a) ≤ greatest most as :=
    (le_greatest (fun b => max (own a b) (own b a)) hb).trans (le_greatest most ha)
  exact ⟨fun hab => subtypeWithin_mono (by omega) (hrun a b hab),
    fun hba => subtypeWithin_mono (by omega) (hrun b a hba)⟩

/-- A type is found to be below another if its first view fits. -/
theorem Linked.confirms_of_first (hl : h.Linked) {e above : Entry} (he : e ∈ h.entries)
    (habove : above ∈ h.entries) {path : List Template}
    (hfirst : (e.paths above.name).head? = some path) {as bs : List TypeExpr}
    (hfits : Fits h.Confirms above.params (path.map (Template.fill as)) bs) :
    h.Confirms ⟨e.name, as⟩ ⟨above.name, bs⟩ := by
  obtain ⟨depth, hdepth⟩ := fits_at_common_depth hfits
  refine ⟨depth + 1, ?_⟩
  obtain ⟨rest, hpaths⟩ := List.head?_eq_some_iff.mp hfirst
  have hviews := hl.allParamsFor_eq he as above.name
  rw [hpaths, List.map_cons] at hviews
  rw [subtypeWithin, compareBy, hl.app_not_wildcard he, hl.app_not_wildcard habove]
  refine bind_eq_ok.mpr ⟨above, hl.get_eq habove, bind_eq_ok.mpr ⟨_, hviews, ?_⟩⟩
  exact bind_eq_ok.mpr ⟨true, fitByVariance_eq_true hdepth, rfl⟩

/-- The only view of a type as itself has its own parameters. -/
theorem Linked.first_self (hl : h.Linked) {e : Entry} (he : e ∈ h.entries) :
    (e.paths e.name).head? = some (Template.slots e.arity) := by
  have hmem := (hl.mem_paths he).mpr (.self he)
  obtain ⟨first, rest, hpaths⟩ := List.exists_cons_of_ne_nil (List.ne_nil_of_mem hmem)
  have hfirst := (hl.mem_paths he).mp (hpaths ▸ List.mem_cons_self : first ∈ e.paths e.name)
  rw [hpaths, List.head?_cons, hl.path_self hfirst]

theorem Linked.keepsParams_confirms (hl : h.Linked) : h.KeepsParams h.Confirms := by
  intro e he as bs has _ hfits
  refine hl.confirms_of_first he he (hl.first_self he) ?_
  rwa [← has.1, Template.map_fill_slots]

/-- A type is found to be below its first view as an ancestor. -/
theorem Linked.confirms_first_view (hl : h.Linked) {e above : Entry} (habove : above ∈ h.entries)
    {path : List Template} (hfirst : (e.paths above.name).head? = some path) (he : e ∈ h.entries)
    {as : List TypeExpr} (has : h.GroundParams e.arity as) :
    h.Confirms ⟨e.name, as⟩ ⟨above.name, path.map (Template.fill as)⟩ := by
  have hpath := (hl.mem_paths he).mp (List.mem_of_head? hfirst)
  have hviews := hl.views_ground hpath habove has
  apply hl.confirms_of_first he habove hfirst
  exact fits_refl above.params fun x hx => hl.keepsParams_confirms.refl hl (hviews.2 x hx)

/-- A comparison that says yes has said yes for the parameters of one view. -/
theorem Linked.view_of_confirms (hl : h.Linked) {e above : Entry} (he : e ∈ h.entries)
    (habove : above ∈ h.entries) {as bs : List TypeExpr}
    (hconfirms : h.Confirms ⟨e.name, as⟩ ⟨above.name, bs⟩) :
    ∃ path ∈ e.paths above.name, Fits h.Confirms above.params (path.map (Template.fill as)) bs := by
  obtain ⟨depth, hrun⟩ := hconfirms
  cases depth with
  | zero => simp [subtypeWithin] at hrun
  | succ depth =>
    rcases subtypeWithin_succ hrun with ⟨hw, -⟩ | ⟨e', he', above', habove', hname, hname', hany⟩
    · simp [hl.app_not_wildcard he, hl.app_not_wildcard habove] at hw
    · obtain rfl := hl.entry_unique he' he hname
      obtain rfl := hl.entry_unique habove' habove hname'
      obtain ⟨view, hview, hfit⟩ := anyM_eq_ok_true hany
      obtain ⟨path, hpath, rfl⟩ := List.mem_map.mp hview
      rw [Template.fillAll_eq_map] at hfit
      refine ⟨path, hpath, ?_⟩
      exact (fits_of_fitByVariance hfit).imp fun _ _ _ _ => ⟨fun hr => ⟨_, hr⟩, fun hr => ⟨_, hr⟩⟩

/-- A comparison of types of one head that says yes has said yes for the parameters. -/
theorem Linked.fits_of_confirms (hl : h.Linked) {e : Entry} (he : e ∈ h.entries)
    {as bs : List TypeExpr} (hlen : as.length = e.arity)
    (hconfirms : h.Confirms ⟨e.name, as⟩ ⟨e.name, bs⟩) : Fits h.Confirms e.params as bs := by
  obtain ⟨path, hpath, hfits⟩ := hl.view_of_confirms he he hconfirms
  rwa [hl.path_self ((hl.mem_paths he).mp hpath), ← hlen, Template.map_fill_slots] at hfits

theorem Linked.givesParams_confirms (hl : h.Linked) : h.GivesParams h.Confirms :=
  fun _ he _ _ has _ hab => hl.fits_of_confirms he has.1 hab

end TypedBlocks.Hierarchy
