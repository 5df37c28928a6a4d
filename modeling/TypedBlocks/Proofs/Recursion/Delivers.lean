import TypedBlocks.Proofs.Recursion.Known

/-! Computations that fail in one way only: their recursion does not end, and there is an excuse for
that. On known types the recursion over types is such a computation. -/
namespace TypedBlocks

variable {α β : Type} {excuse : Prop} {P : α → Prop} {T : β → Prop}

/-- There is a good result, or an excuse for a recursion that does not end. -/
inductive Delivers (excuse : Prop) (P : α → Prop) : Except Fault α → Prop
  | result {a : α} (ha : P a) : Delivers excuse P (.ok a)
  | unending (hexcuse : excuse) : Delivers excuse P (.error .unending)

namespace Delivers

theorem of_ok {x : Except Fault α} (h : ∃ a, x = .ok a ∧ P a) : Delivers excuse P x := by
  obtain ⟨a, rfl, ha⟩ := h
  exact .result ha

theorem bind {x : Except Fault α} {f : α → Except Fault β} (hx : Delivers excuse P x)
    (hf : ∀ a, P a → Delivers excuse T (f a)) : Delivers excuse T (x >>= f) := by
  cases hx with
  | result ha => exact hf _ ha
  | unending hexcuse => exact .unending hexcuse

theorem mono {Q : α → Prop} {excuse' : Prop} {x : Except Fault α} (hx : Delivers excuse P x)
    (hexcuse : excuse → excuse') (hPQ : ∀ a, P a → Q a) : Delivers excuse' Q x := by
  cases hx with
  | result ha => exact .result (hPQ _ ha)
  | unending h => exact .unending (hexcuse h)

theorem mapM {f : α → Except Fault β} {xs : List α} (hf : ∀ x ∈ xs, Delivers excuse T (f x)) :
    Delivers excuse (fun ys => ∀ y ∈ ys, T y) (xs.mapM f) := by
  induction xs with
  | nil => exact .result (by simp)
  | cons x xs ih =>
    rw [List.mapM_cons]
    obtain ⟨hx, hxs⟩ := List.forall_mem_cons.mp hf
    refine hx.bind fun y hy => (ih hxs).bind fun ys hys => ?_
    exact .result (List.forall_mem_cons.mpr ⟨hy, hys⟩)

theorem anyM {f : α → Except Fault Bool} {xs : List α}
    (hf : ∀ x ∈ xs, Delivers excuse (fun _ => True) (f x)) :
    Delivers excuse (fun _ => True) (xs.anyM f) := by
  induction xs with
  | nil => exact .result trivial
  | cons x xs ih =>
    rw [List.anyM_cons]
    obtain ⟨hx, hxs⟩ := List.forall_mem_cons.mp hf
    refine hx.bind fun found _ => ?_
    cases found with
    | true => exact .result trivial
    | false => exact ih hxs

/-- A step without faults delivers if the answers to its questions do. -/
theorem of_meets {Q : Call → Prop} {R : (call : Call) → call.Answer → Prop}
    {answer : (call : Call) → Except Fault call.Answer} {x : Inquiry α} (hx : x.Meets Q R P)
    (hanswer : ∀ call, Q call → Delivers excuse (R call) (answer call)) :
    Delivers excuse P (x.eval answer) := by
  induction x with
  | done result =>
    cases result with
    | ok a => exact .result hx
    | error => exact hx.elim
  | ask call next ih => exact (hanswer call hx.1).bind fun a ha => ih a (hx.2 a ha)

end Delivers

namespace Hierarchy

variable {h : Hierarchy}

def answer (h : Hierarchy) : (call : Call) → Except Fault call.Answer
  | .subtype sub sup => h.isSubtype sub sup
  | .ancestors types => h.commonAncestors types
  | .descendants types => h.commonDescendants types

/-- Some question about known types is not answered. -/
def Endless (h : Hierarchy) : Prop :=
  ∃ call, h.Known call ∧ h.answer call = .error .unending

theorem Linked.answerWithin_delivers (hl : h.Linked) {call : Call} (hcall : h.Known call)
    (depth : Nat) : Delivers True (h.KnownAnswer call) (h.answerWithin depth call) := by
  induction depth generalizing call with
  | zero =>
    rw [answerWithin_zero]
    exact .unending trivial
  | succ depth ih =>
    rw [answerWithin_succ]
    exact .of_meets (hl.inquire_known call hcall) fun _ => ih

theorem Linked.answer_delivers (hl : h.Linked) {call : Call} (hcall : h.Known call) :
    Delivers h.Endless (h.KnownAnswer call) (h.answer call) := by
  have hgiven : ∃ depth, h.answer call = h.answerWithin depth call := by
    cases call <;> exact ⟨_, rfl⟩
  obtain ⟨depth, heq⟩ := hgiven
  have hdelivers := hl.answerWithin_delivers hcall depth
  rw [← heq] at hdelivers
  generalize hx : h.answer call = x at hdelivers
  cases hdelivers with
  | result ha => exact .result ha
  | unending => exact .unending ⟨call, hcall, hx⟩

theorem known_subtype {a b : TypeExpr} (ha : h.Valid a) (hb : h.Valid b) :
    h.Known (.subtype a b) :=
  List.forall_mem_cons.mpr ⟨ha, List.forall_mem_singleton.mpr hb⟩

theorem Linked.isSubtype_delivers (hl : h.Linked) {a b : TypeExpr} (ha : h.Valid a)
    (hb : h.Valid b) : Delivers h.Endless (fun _ => True) (h.isSubtype a b) :=
  hl.answer_delivers (known_subtype ha hb)

theorem Linked.commonAncestors_delivers (hl : h.Linked) {types : List TypeExpr}
    (htypes : ∀ t ∈ types, h.Valid t) :
    Delivers h.Endless (fun us => ∀ u ∈ us, h.Valid u) (h.commonAncestors types) := by
  have hknown : h.Known (.ancestors types) := htypes
  exact hl.answer_delivers hknown

theorem isSubtype_eq_put :
    h.isSubtype = fun a b => (Inquiry.put (.subtype a b)).eval h.answer := by
  funext a b
  rw [Inquiry.eval_put]
  rfl

theorem Linked.keepNearest_delivers (hl : h.Linked) {types : List TypeExpr}
    (htypes : ∀ t ∈ types, h.Valid t) :
    Delivers h.Endless (fun us => ∀ u ∈ us, h.Valid u) (keepNearest h.isSubtype types) := by
  rw [isSubtype_eq_put, ← eval_keepNearest]
  refine .of_meets (keepNearest_meets (fun a b ha hb => ?_) htypes)
    fun call (hcall : h.Known call) => hl.answer_delivers hcall
  exact Inquiry.meets_put (.subtype a b) (known_subtype ha hb)

end Hierarchy

end TypedBlocks
