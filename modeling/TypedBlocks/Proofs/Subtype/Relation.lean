import TypedBlocks.Proofs.Hierarchy.Paths
import TypedBlocks.Subtype

/-! Subtyping as a relation. `Derives` walks the declared parents one at a time; `Related` takes one
of the ways kept for an ancestor at once. Both hold of the same known types, and a comparison that
comes to an end decides them. -/
namespace TypedBlocks

variable {R S : TypeExpr → TypeExpr → Prop}

/-- Two parameters fit in the direction that a variance gives to the relation. -/
def FitsAt (R : TypeExpr → TypeExpr → Prop) : Variance → TypeExpr → TypeExpr → Prop
  | .co, a, b => R a b
  | .contra, a, b => R b a
  | .inv, a, b => a.agrees b = true

def Fits (R : TypeExpr → TypeExpr → Prop) (params : List Param) (as bs : List TypeExpr) : Prop :=
  ∀ (i : Nat) (p : Param) (a b : TypeExpr), params[i]? = some p → as[i]? = some a →
    bs[i]? = some b → FitsAt R p.variance a b

theorem FitsAt.imp {v : Variance} {a b : TypeExpr} (h : FitsAt R v a b)
    (hab : R a b → S a b) (hba : R b a → S b a) : FitsAt S v a b := by
  cases v with
  | co => exact hab h
  | contra => exact hba h
  | inv => exact h

theorem fits_map {params : List Param} {ts : List Template} {f g : Template → TypeExpr}
    (h : ∀ (i : Nat) (p : Param) (t : Template), params[i]? = some p → ts[i]? = some t →
      FitsAt R p.variance (f t) (g t)) : Fits R params (ts.map f) (ts.map g) := by
  intro i p a b hp ha hb
  rw [List.getElem?_map, Option.map_eq_some_iff] at ha hb
  obtain ⟨t, ht, rfl⟩ := ha
  obtain ⟨t', ht', rfl⟩ := hb
  obtain rfl := Option.some.inj (ht.symm.trans ht')
  exact h i p t hp ht

/-- Fitting carries over to a relation that holds of the same members of the two lists. -/
theorem Fits.imp {params : List Param} {as bs : List TypeExpr} (h : Fits R params as bs)
    (hRS : ∀ a ∈ as, ∀ b ∈ bs, (R a b → S a b) ∧ (R b a → S b a)) : Fits S params as bs := by
  intro i p a b hp ha hb
  obtain ⟨hab, hba⟩ := hRS a (List.mem_of_getElem? ha) b (List.mem_of_getElem? hb)
  exact (h i p a b hp ha hb).imp hab hba

/-- Subtyping along declared parents: a wildcard on either side fits; types of one head are compared
by the variances of the head; and a type is below all that a declared parent of its head, with its
parameters put for the formal ones, is below. -/
inductive Derives (decls : List Declaration) : TypeExpr → TypeExpr → Prop
  | wildcard {a b : TypeExpr} (hw : a.isWildcard = true ∨ b.isWildcard = true) :
      Derives decls a b
  | params {d : Declaration} (hd : d ∈ decls) {as bs : List TypeExpr}
      (co : ∀ (i : Nat) (p : Param) (a b : TypeExpr), d.params[i]? = some p → as[i]? = some a →
        bs[i]? = some b → p.variance = .co → Derives decls a b)
      (contra : ∀ (i : Nat) (p : Param) (a b : TypeExpr), d.params[i]? = some p →
        as[i]? = some a → bs[i]? = some b → p.variance = .contra → Derives decls b a)
      (inv : ∀ (i : Nat) (p : Param) (a b : TypeExpr), d.params[i]? = some p → as[i]? = some a →
        bs[i]? = some b → p.variance = .inv → a.agrees b = true) :
      Derives decls ⟨d.name, as⟩ ⟨d.name, bs⟩
  | parent {d : Declaration} (hd : d ∈ decls) {parent : TypeExpr} (hp : parent ∈ d.parents)
      {as : List TypeExpr} {b : TypeExpr} (h : Derives decls (d.instantiate as parent) b) :
      Derives decls ⟨d.name, as⟩ b

theorem Derives.of_fits {decls : List Declaration} {d : Declaration} (hd : d ∈ decls)
    {as bs : List TypeExpr} (h : Fits (Derives decls) d.params as bs) :
    Derives decls ⟨d.name, as⟩ ⟨d.name, bs⟩ := by
  apply Derives.params hd
  all_goals
    intro i p a b hp ha hb hv
    have := h i p a b hp ha hb
    rwa [hv] at this

namespace Hierarchy

/-- Subtyping through the ways kept for the head of the supertype. -/
inductive Related (h : Hierarchy) : TypeExpr → TypeExpr → Prop
  | wildcard {a b : TypeExpr} (hw : a.isWildcard = true ∨ b.isWildcard = true) : Related h a b
  | view {e above : Entry} (he : e ∈ h.entries) (habove : above ∈ h.entries)
      {path : List Template} (hpath : path ∈ e.paths above.name) {as bs : List TypeExpr}
      (co : ∀ (i : Nat) (p : Param) (a b : TypeExpr), above.params[i]? = some p →
        (path.map (Template.fill as))[i]? = some a → bs[i]? = some b → p.variance = .co →
        Related h a b)
      (contra : ∀ (i : Nat) (p : Param) (a b : TypeExpr), above.params[i]? = some p →
        (path.map (Template.fill as))[i]? = some a → bs[i]? = some b → p.variance = .contra →
        Related h b a)
      (inv : ∀ (i : Nat) (p : Param) (a b : TypeExpr), above.params[i]? = some p →
        (path.map (Template.fill as))[i]? = some a → bs[i]? = some b → p.variance = .inv →
        a.agrees b = true) :
      Related h ⟨e.name, as⟩ ⟨above.name, bs⟩

variable {h : Hierarchy}

theorem Related.of_fits {e above : Entry} (he : e ∈ h.entries) (habove : above ∈ h.entries)
    {path : List Template} (hpath : path ∈ e.paths above.name) {as bs : List TypeExpr}
    (hfits : Fits h.Related above.params (path.map (Template.fill as)) bs) :
    h.Related ⟨e.name, as⟩ ⟨above.name, bs⟩ := by
  apply Related.view he habove hpath
  all_goals
    intro i p a b hp ha hb hv
    have := hfits i p a b hp ha hb
    rwa [hv] at this

/-- Induction on a derivation, with the statement at hand for each pair of parameters in the
direction in which they are compared. -/
@[elab_as_elim]
theorem Related.byViews {motive : (a b : TypeExpr) → h.Related a b → Prop}
    (wildcard : ∀ a b (hab : h.Related a b), a.isWildcard = true ∨ b.isWildcard = true →
      motive a b hab)
    (view : ∀ e above, e ∈ h.entries → above ∈ h.entries → ∀ path ∈ e.paths above.name,
      ∀ as bs (hab : h.Related ⟨e.name, as⟩ ⟨above.name, bs⟩),
      Fits (fun a b => ∃ hr : h.Related a b, motive a b hr) above.params
        (path.map (Template.fill as)) bs → motive ⟨e.name, as⟩ ⟨above.name, bs⟩ hab)
    {a b : TypeExpr} (hab : h.Related a b) : motive a b hab := by
  induction hab with
  | wildcard hw => exact wildcard _ _ _ hw
  | @view e above he habove path hpath as bs co contra inv ihco ihcontra =>
    apply view e above he habove path hpath as bs
    intro i p a b hp ha hb
    cases hv : p.variance with
    | co => exact ⟨co i p a b hp ha hb hv, ihco i p a b hp ha hb hv⟩
    | contra => exact ⟨contra i p a b hp ha hb hv, ihcontra i p a b hp ha hb hv⟩
    | inv => exact inv i p a b hp ha hb hv

end Hierarchy

end TypedBlocks
