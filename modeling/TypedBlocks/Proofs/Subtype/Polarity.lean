import TypedBlocks.Proofs.Hierarchy.Paths

/-! Where parameters occur in declared parents. A definition is consistent when each covariant or
contravariant parameter occurs only at places of its own polarity; the ways to all ancestors then
keep to the same rule. -/
namespace TypedBlocks

namespace Variance

/-- The polarity of a place inside a place. -/
def compose : Variance → Variance → Variance
  | .co, v => v
  | .contra, .co => .contra
  | .contra, .contra => .co
  | .contra, .inv => .inv
  | .inv, _ => .inv

/-- A parameter may stand at a place if it is invariant or the place has its polarity. -/
def allowedAt (declared place : Variance) : Bool :=
  declared == .inv || declared == place

theorem compose_assoc (u v w : Variance) :
    (u.compose v).compose w = u.compose (v.compose w) := by
  cases u <;> cases v <;> cases w <;> rfl

@[simp]
theorem co_compose (v : Variance) : Variance.co.compose v = v := rfl

@[simp]
theorem compose_co (v : Variance) : v.compose .co = v := by
  cases v <;> rfl

@[simp]
theorem compose_inv (v : Variance) : v.compose .inv = .inv := by
  cases v <;> rfl

end Variance

namespace Declaration

mutual

/-- All parameters of `d` in an argument, which itself stands at a place of the given polarity, are
allowed where they stand. The places inside have the variances that the head declares. -/
def respects (decls : List Declaration) (d : Declaration) (place : Variance) : TypeExpr → Bool
  | ⟨name, params⟩ =>
    match d.paramIndex? name with
    | some i => (d.params[i]?).all fun p => p.variance.allowedAt place
    | none =>
      match find? decls name with
      | some target => respectAll decls d place target.params params
      | none => true

def respectAll (decls : List Declaration) (d : Declaration) (place : Variance) :
    List Param → List TypeExpr → Bool
  | q :: qs, t :: ts =>
    respects decls d (place.compose q.variance) t && respectAll decls d place qs ts
  | _, _ => true

end

/-- All parameters of `d` are allowed where they stand in its parents. -/
def consistent (decls : List Declaration) (d : Declaration) : Bool :=
  d.parents.all fun parent =>
    match find? decls parent.name with
    | some target => respectAll decls d .co target.params parent.params
    | none => true

theorem respectAll_getElem {decls : List Declaration} {d : Declaration} {place : Variance}
    {qs : List Param} {ts : List TypeExpr} (h : respectAll decls d place qs ts = true) {i : Nat}
    {q : Param} {t : TypeExpr} (hq : qs[i]? = some q) (ht : ts[i]? = some t) :
    respects decls d (place.compose q.variance) t = true := by
  induction qs generalizing ts i with
  | nil => simp at hq
  | cons q' qs ih =>
    cases ts with
    | nil => simp at ht
    | cons t' ts =>
      simp only [respectAll, Bool.and_eq_true] at h
      cases i with
      | zero =>
        obtain rfl := Option.some.inj hq
        obtain rfl := Option.some.inj ht
        exact h.1
      | succ i => exact ih h.2 hq ht

end Declaration

namespace Hierarchy

/-- Every declared parameter occurs only where its variance allows it. -/
def VarianceConsistent (h : Hierarchy) : Prop :=
  ∀ d ∈ h.decls, d.consistent h.decls = true

instance (h : Hierarchy) : Decidable h.VarianceConsistent :=
  inferInstanceAs (Decidable (∀ d ∈ h.decls, d.consistent h.decls = true))

/-- All slots of a template at a place of the given polarity are allowed where they stand, by the
variances of the parameters they stand for. -/
inductive Respects (h : Hierarchy) (formals : List Param) : Variance → Template → Prop
  | slot {i : Nat} {place : Variance}
      (hv : ∀ p, formals[i]? = some p → p.variance.allowedAt place = true) :
      Respects h formals place (.slot i)
  | app {e : Entry} (he : e ∈ h.entries) {args : List Template} {place : Variance}
      (hargs : ∀ (i : Nat) (q : Param) (t : Template), e.params[i]? = some q →
        args[i]? = some t → Respects h formals (place.compose q.variance) t) :
      Respects h formals place (.app e.name args)

def RespectsAll (h : Hierarchy) (formals : List Param) (place : Variance) (params : List Param)
    (args : List Template) : Prop :=
  ∀ (i : Nat) (q : Param) (t : Template), params[i]? = some q → args[i]? = some t →
    h.Respects formals (place.compose q.variance) t

variable {h : Hierarchy} {formals : List Param}

theorem Linked.respects_app_iff (hl : h.Linked) {e : Entry} (he : e ∈ h.entries)
    {place : Variance} {args : List Template} :
    h.Respects formals place (.app e.name args) ↔ h.RespectsAll formals place e.params args := by
  constructor
  · generalize ht : Template.app e.name args = t
    intro hrespects
    cases hrespects with
    | slot => simp at ht
    | @app e' he' args' _ hargs =>
      obtain ⟨hname, rfl⟩ := Template.app.inj ht
      obtain rfl := hl.entry_unique he he' hname
      exact hargs
  · exact .app he

/-- What is allowed at an invariant place is allowed everywhere. -/
theorem Respects.of_inv {t : Template} (ht : h.Respects formals .inv t) (place : Variance) :
    h.Respects formals place t := by
  generalize hv : Variance.inv = v at ht
  induction ht generalizing place with
  | slot hp =>
    subst hv
    refine .slot fun p hmem => ?_
    have := hp p hmem
    cases hvar : p.variance <;> simp_all [Variance.allowedAt]
  | app he _ ih =>
    subst hv
    exact .app he fun i q t hq ht => ih i q t hq ht _ rfl

/-- Plugging arguments that respect the variances of the slots keeps the rule, wherever the whole
stands. -/
theorem Respects.plug {inner : List Param} {args : List Template} {outer place : Variance}
    {t : Template} (ht : h.Respects inner place t) (hbelow : t.SlotsBelow args.length)
    (hlen : inner.length = args.length) (hargs : h.RespectsAll formals outer inner args) :
    h.Respects formals (outer.compose place) (t.plug args) := by
  induction ht with
  | @slot i place hv =>
    obtain ⟨hi⟩ := hbelow
    have hi' : i < inner.length := hlen ▸ hi
    have hslot : h.Respects formals (outer.compose inner[i].variance) args[i] :=
      hargs i _ _ (List.getElem?_eq_getElem hi') (List.getElem?_eq_getElem hi)
    have hallowed := hv inner[i] (List.getElem?_eq_getElem hi')
    simp only [Template.plug, List.getD_eq_getElem?_getD, List.getElem?_eq_getElem hi,
      Option.getD_some]
    simp only [Variance.allowedAt, Bool.or_eq_true, beq_iff_eq] at hallowed
    rcases hallowed with hinv | hsame
    · rw [hinv, Variance.compose_inv] at hslot
      exact hslot.of_inv _
    · rwa [hsame] at hslot
  | app he _ ih =>
    obtain _ | hbelow := hbelow
    simp only [Template.plug, Template.plugAll_eq_map]
    refine .app he fun i q u hq hu => ?_
    rw [List.getElem?_map, Option.map_eq_some_iff] at hu
    obtain ⟨t, ht, rfl⟩ := hu
    rw [Variance.compose_assoc]
    exact ih i q t hq ht (hbelow t (List.mem_of_getElem? ht))

/-- Translation to slots keeps the rule for parameters. -/
theorem respects_of_argument {d : Declaration} {parent t : TypeExpr} {arg : Template}
    {place : Variance} (hok : Declaration.argument h.decls d parent t = .ok arg)
    (ht : d.respects h.decls place t = true) : h.Respects d.params place arg := by
  induction t using TypeExpr.byParams generalizing arg place with
  | mk name params ih =>
    unfold Declaration.argument at hok
    unfold Declaration.respects at ht
    cases hi : d.paramIndex? name with
    | some i =>
      simp only [hi] at hok ht
      split at hok
      · obtain rfl := Except.ok.inj hok
        exact .slot fun p hp => by simpa [hp] using ht
      · simp at hok
    | none =>
      simp only [hi] at hok ht
      cases htarget : Declaration.find? h.decls name with
      | none => simp [htarget] at hok
      | some target =>
        simp only [htarget] at hok ht
        split at hok
        · simp at hok
        · obtain ⟨args, hargs, hok⟩ := bind_eq_ok.mp hok
          obtain rfl := pure_eq_ok.mp hok
          rw [Declaration.arguments_eq_mapM] at hargs
          obtain ⟨e, he, rfl, rfl⟩ := find?_decls htarget
          refine .app he fun i q u hq hu => ?_
          obtain ⟨p, hp, hpu⟩ := getElem?_of_mapM hargs hu
          exact ih p (List.mem_of_getElem? hp) hpu (Declaration.respectAll_getElem ht hq hp)

theorem Linked.edge_respects (hl : h.Linked) (hvar : h.VarianceConsistent) {e p : Entry}
    (he : e ∈ h.entries) (hp : p ∈ h.entries) {args : List Template}
    (hedge : (p.name, args) ∈ e.edges) : h.RespectsAll e.params .co p.params args := by
  obtain ⟨parent, hparent, hok⟩ := exists_of_mapM (hl.edges_eq e he) hedge
  obtain ⟨target, htarget, -, hhead, hargs⟩ := Declaration.edge_target hok
  rw [Declaration.arguments_eq_mapM] at hargs
  obtain ⟨p', hp', rfl, hname⟩ := find?_decls htarget
  obtain rfl := hl.entry_unique hp' hp (hname.trans hhead.symm)
  have hall := hvar e.decl (List.mem_map.mpr ⟨e, he, rfl⟩)
  rw [Declaration.consistent, List.all_eq_true] at hall
  have hrespect := hall parent hparent
  rw [htarget] at hrespect
  intro i q t hq ht
  obtain ⟨arg, harg, hok⟩ := getElem?_of_mapM hargs ht
  exact respects_of_argument hok (Declaration.respectAll_getElem hrespect hq harg)

theorem respectsAll_slots (params : List Param) :
    h.RespectsAll params .co params (Template.slots params.length) := by
  intro i q t hq hslot
  have hi : i < params.length := (List.getElem?_eq_some_iff.mp hq).1
  obtain rfl : Template.slot i = t := by simpa [Template.slots, hi] using hslot
  refine .slot fun p hp => ?_
  obtain rfl := Option.some.inj (hp.symm.trans hq)
  simp [Variance.allowedAt]

/-- In a consistent hierarchy the ways to all ancestors keep to the variances of the type they start
from. -/
theorem Linked.path_respects (hl : h.Linked) (hvar : h.VarianceConsistent) {e target : Entry}
    {path : List Template} (hpath : h.Path e target.name path) (ht : target ∈ h.entries) :
    h.RespectsAll e.params .co target.params path := by
  generalize hname : target.name = ancestor at hpath
  induction hpath with
  | @self e he =>
    obtain rfl := hl.entry_unique ht he hname
    exact respectsAll_slots target.params
  | @step e p he args hedge ancestor path hpath ih =>
    obtain ⟨_, _, hisEdge⟩ := hl.parent_of_edge he hedge
    obtain ⟨p', hp', hpname, hargs⟩ := hisEdge.target
    obtain rfl := hl.entry_unique hp' hpath.mem hpname
    intro i q u hq hu
    rw [List.getElem?_map, Option.map_eq_some_iff] at hu
    obtain ⟨t, ht, rfl⟩ := hu
    have hshaped := (hl.path_shaped hpath).2 t (List.mem_of_getElem? ht)
    exact (ih hname i q t hq ht).plug (hargs ▸ hshaped.slotsBelow) hargs.symm
      (hl.edge_respects hvar he hpath.mem hedge)

end Hierarchy

end TypedBlocks
