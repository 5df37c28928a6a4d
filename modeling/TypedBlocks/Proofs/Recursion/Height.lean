import TypedBlocks.Proofs.Recursion.Known

/-! Heights of types, with a cost for each name on the way down. If a declared name costs more than
its ways to its ancestors are high, the parts of a type are lower than the type. -/
namespace TypedBlocks

def greatest {α : Type} (f : α → Nat) : List α → Nat
  | [] => 0
  | a :: as => max (f a) (greatest f as)

theorem greatest_le_iff {α : Type} {f : α → Nat} {as : List α} {bound : Nat} :
    greatest f as ≤ bound ↔ ∀ a ∈ as, f a ≤ bound := by
  induction as with
  | nil => simp [greatest]
  | cons a as ih => simp [greatest, ih]

theorem le_greatest {α : Type} (f : α → Nat) {a : α} {as : List α} (ha : a ∈ as) :
    f a ≤ greatest f as :=
  greatest_le_iff.mp (Nat.le_refl _) a ha

theorem greatest_lt {α : Type} {f : α → Nat} {as bs : List α} (hne : as ≠ [])
    (hpos : ∀ a ∈ as, 0 < f a) (hlt : ∀ b ∈ bs, ∃ a ∈ as, f b < f a) :
    greatest f bs < greatest f as := by
  obtain ⟨a, ha⟩ := List.exists_mem_of_ne_nil as hne
  have htop : 0 < greatest f as := Nat.lt_of_lt_of_le (hpos a ha) (le_greatest f ha)
  have hle : greatest f bs ≤ greatest f as - 1 := by
    rw [greatest_le_iff]
    intro b hb
    obtain ⟨a, ha, hlt⟩ := hlt b hb
    have := le_greatest f ha
    omega
  omega

namespace TypeExpr

mutual

/-- The greatest sum of costs along a branch. -/
def height (cost : Text → Nat) : TypeExpr → Nat
  | ⟨name, params⟩ => cost name + heightAll cost params

def heightAll (cost : Text → Nat) : List TypeExpr → Nat
  | [] => 0
  | t :: ts => max (height cost t) (heightAll cost ts)

end

theorem heightAll_eq_greatest (cost : Text → Nat) (ts : List TypeExpr) :
    heightAll cost ts = greatest (height cost) ts := by
  induction ts with
  | nil => rfl
  | cons t ts ih => rw [heightAll, greatest, ih]

theorem height_mk (cost : Text → Nat) (name : Text) (params : List TypeExpr) :
    height cost ⟨name, params⟩ = cost name + greatest (height cost) params := by
  rw [height, heightAll_eq_greatest]

/-- What lies inside a type is not higher than it. -/
theorem height_le_of_mem_walk (cost : Text → Nat) {t u : TypeExpr} (hu : u ∈ t.walk) :
    height cost u ≤ height cost t := by
  induction t using byParams with
  | mk name params ih =>
    rw [walk_mk] at hu
    rcases List.mem_cons.mp hu with rfl | hu
    · exact Nat.le_refl _
    · obtain ⟨p, hp, hu⟩ := List.mem_flatMap.mp hu
      rw [height_mk]
      have := ih p hp hu
      have := le_greatest (height cost) hp
      omega

end TypeExpr

namespace Template

mutual

/-- The greatest sum of costs along a branch, slots costing nothing. -/
def height (cost : Text → Nat) : Template → Nat
  | .slot _ => 0
  | .app name args => cost name + heightAll cost args

def heightAll (cost : Text → Nat) : List Template → Nat
  | [] => 0
  | t :: ts => max (height cost t) (heightAll cost ts)

end

theorem heightAll_eq_greatest (cost : Text → Nat) (ts : List Template) :
    heightAll cost ts = greatest (height cost) ts := by
  induction ts with
  | nil => rfl
  | cons t ts ih => rw [heightAll, greatest, ih]

theorem height_app (cost : Text → Nat) (name : Text) (args : List Template) :
    height cost (.app name args) = cost name + greatest (height cost) args := by
  rw [height, heightAll_eq_greatest]

theorem SlotsBelow.height_fill {actuals : List TypeExpr} {t : Template}
    (ht : SlotsBelow actuals.length t) (cost : Text → Nat) :
    (t.fill actuals).height cost ≤ t.height cost + greatest (TypeExpr.height cost) actuals := by
  induction ht with
  | @slot i hi =>
    have hmem : actuals[i] ∈ actuals := List.getElem_mem hi
    simpa [fill, hi, height] using le_greatest (TypeExpr.height cost) hmem
  | @app name args _ ih =>
    simp only [fill, fillAll_eq_map, TypeExpr.height_mk, height_app]
    have hall : greatest (TypeExpr.height cost) (args.map (fill actuals)) ≤
        greatest (height cost) args + greatest (TypeExpr.height cost) actuals := by
      rw [greatest_le_iff]
      intro u hu
      obtain ⟨t, ht, rfl⟩ := List.mem_map.mp hu
      have := ih t ht
      have := le_greatest (height cost) ht
      omega
    omega

theorem SlotsBelow.height_plug {args : List Template} {t : Template}
    (ht : SlotsBelow args.length t) (cost : Text → Nat) :
    (t.plug args).height cost ≤ t.height cost + greatest (height cost) args := by
  induction ht with
  | @slot i hi =>
    have hmem : args[i] ∈ args := List.getElem_mem hi
    simpa [plug, hi, height] using le_greatest (height cost) hmem
  | @app name ts _ ih =>
    simp only [plug, plugAll_eq_map, height_app]
    have hall : greatest (height cost) (ts.map (plug args)) ≤
        greatest (height cost) ts + greatest (height cost) args := by
      rw [greatest_le_iff]
      intro u hu
      obtain ⟨t, ht, rfl⟩ := List.mem_map.mp hu
      have := ih t ht
      have := le_greatest (height cost) ht
      omega
    omega

inductive NamesIn (p : Text → Prop) : Template → Prop
  | slot {i : Nat} : NamesIn p (.slot i)
  | app {name : Text} {args : List Template} (hname : p name) (hargs : ∀ t ∈ args, NamesIn p t) :
      NamesIn p (.app name args)

theorem NamesIn.imp {p q : Text → Prop} {t : Template} (ht : t.NamesIn p)
    (hpq : ∀ name, p name → q name) : t.NamesIn q := by
  induction ht with
  | slot => exact .slot
  | app hname _ ih => exact .app (hpq _ hname) ih

theorem NamesIn.height_le {cost : Text → Nat} {bound : Nat} {t : Template}
    (ht : t.NamesIn fun name => cost name ≤ bound) :
    t.height cost ≤ t.height (fun _ => 1) * bound := by
  induction ht with
  | slot => simp [height]
  | @app name args hname _ ih =>
    have hall : greatest (height cost) args ≤ greatest (height (fun _ => 1)) args * bound := by
      rw [greatest_le_iff]
      intro t ht
      exact (ih t ht).trans (Nat.mul_le_mul_right _ (le_greatest _ ht))
    simp only [height_app, Nat.add_mul, Nat.one_mul]
    exact Nat.add_le_add hname hall

end Template

namespace Hierarchy

variable {h : Hierarchy}

/-- Each declared name costs at least as much as each parent with its arguments is high. -/
structure Costs (h : Hierarchy) (cost : Text → Nat) : Prop where
  pos : ∀ name, 0 < cost name
  edge : ∀ e ∈ h.entries, ∀ edge ∈ e.edges,
    cost edge.1 + greatest (Template.height cost) edge.2 ≤ cost e.name

theorem Costs.path_lt {cost : Text → Nat} (hcost : h.Costs cost) (hl : h.Linked) {e : Entry}
    {ancestor : Text} {path : List Template} (hpath : h.Path e ancestor path) :
    greatest (Template.height cost) path < cost e.name := by
  induction hpath with
  | @self e he =>
    have hzero : greatest (Template.height cost) (Template.slots e.arity) ≤ 0 := by
      rw [greatest_le_iff]
      intro t ht
      obtain ⟨i, _, rfl⟩ := List.mem_map.mp ht
      exact Nat.le_refl 0
    exact Nat.lt_of_le_of_lt hzero (hcost.pos _)
  | @step e p he args hedge ancestor path hpath ih =>
    obtain ⟨_, _, hisEdge⟩ := hl.parent_of_edge he hedge
    obtain ⟨p', hp', hname, hargs⟩ := hisEdge.target
    obtain rfl := hl.entry_unique hp' hpath.mem hname
    have hle : greatest (Template.height cost) (path.map (Template.plug args)) ≤
        greatest (Template.height cost) path + greatest (Template.height cost) args := by
      rw [greatest_le_iff]
      intro u hu
      obtain ⟨t, ht, rfl⟩ := List.mem_map.mp hu
      have hbelow : t.SlotsBelow args.length :=
        hargs ▸ ((hl.path_shaped hpath).2 t ht).slotsBelow
      have := hbelow.height_plug cost
      have := le_greatest (Template.height cost) ht
      omega
    have := hcost.edge e he _ hedge
    simp only at this
    omega

/-- The parts of a type are lower than the type. -/
theorem Costs.part_lt {cost : Text → Nat} (hcost : h.Costs cost) (hl : h.Linked) {t x : TypeExpr}
    (hpart : h.Part t x) : x.height cost < t.height cost := by
  cases hpart with
  | @view e ancestor path hpath as hlen x hx =>
    obtain ⟨u, hu, rfl⟩ := List.mem_map.mp hx
    have hbelow : u.SlotsBelow as.length := hlen ▸ ((hl.path_shaped hpath).2 u hu).slotsBelow
    have := hbelow.height_fill cost
    have := le_greatest (Template.height cost) hu
    have := hcost.path_lt hl hpath
    rw [TypeExpr.height_mk]
    omega
  | @inner _ p _ hp hx =>
    obtain ⟨name, params⟩ := t
    have := TypeExpr.height_le_of_mem_walk cost hx
    have : p.height cost ≤ greatest (TypeExpr.height cost) params := le_greatest _ hp
    have := hcost.pos name
    rw [TypeExpr.height_mk]
    omega

end Hierarchy

end TypedBlocks
