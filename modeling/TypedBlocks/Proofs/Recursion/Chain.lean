import Mathlib.Logic.Relation
import Mathlib.Order.WellFounded
import TypedBlocks.Proofs.Recursion.Inquiry

/-! When the recursion comes to an end. A call that meets no fault of its own ends at some depth
exactly when its nested calls do not go on forever. -/
namespace TypedBlocks

namespace Inquiry

variable {α β : Type} {P P' : Call → Prop} {Q Q' : (call : Call) → call.Answer → Prop}
  {R S : α → Prop}

/-- The questions that are put when every answer satisfies the relation. -/
inductive Puts (Q : (call : Call) → call.Answer → Prop) : Inquiry α → Call → Prop
  | here {call : Call} {next : call.Answer → Inquiry α} : Puts Q (.ask call next) call
  | later {call call' : Call} {next : call.Answer → Inquiry α} {a : call.Answer}
      (ha : Q call a) (hput : Puts Q (next a) call') : Puts Q (.ask call next) call'

/-- All questions satisfy `P`, and if all answers satisfy `Q` there is a result that satisfies
`R`. -/
def Meets (P : Call → Prop) (Q : (call : Call) → call.Answer → Prop) (R : α → Prop) :
    Inquiry α → Prop
  | .done (.ok a) => R a
  | .done (.error _) => False
  | .ask call next => P call ∧ ∀ a, Q call a → (next a).Meets P Q R

theorem Meets.puts {x : Inquiry α} (hx : x.Meets P Q R)
    (hspec : ∀ call a, P call → Q' call a → Q call a) {call : Call} (hput : x.Puts Q' call) :
    P call := by
  induction hput with
  | here => exact hx.1
  | later ha _ ih => exact ih (hx.2 _ (hspec _ _ hx.1 ha))

theorem Meets.imp {x : Inquiry α} (hx : x.Meets P Q R) (hP : ∀ call, P call → P' call)
    (hR : ∀ a, R a → S a) : x.Meets P' Q S := by
  induction x with
  | done result =>
    cases result with
    | ok a => exact hR a hx
    | error => exact hx
  | ask call next ih => exact ⟨hP call hx.1, fun a ha => ih a (hx.2 a ha)⟩

theorem meets_pure {a : α} (ha : R a) : (pure a : Inquiry α).Meets P Q R :=
  ha

theorem meets_put (call : Call) (hcall : P call) : (put call).Meets P Q (Q call) :=
  ⟨hcall, fun _ ha => ha⟩

theorem meets_liftM {result : Except Fault α} {a : α} (hok : result = .ok a) (ha : R a) :
    (liftM result : Inquiry α).Meets P Q R := by
  subst hok
  exact ha

theorem Meets.bind {x : Inquiry α} {f : α → Inquiry β} {T : β → Prop} (hx : x.Meets P Q R)
    (hf : ∀ a, R a → (f a).Meets P Q T) : (x >>= f).Meets P Q T := by
  change (x.bind f).Meets P Q T
  induction x with
  | done result =>
    cases result with
    | ok a => exact hf a hx
    | error => exact hx.elim
  | ask call next ih => exact ⟨hx.1, fun a ha => ih a (hx.2 a ha)⟩

theorem meets_mapM {f : α → Inquiry β} {xs : List α} {T : β → Prop}
    (hf : ∀ x ∈ xs, (f x).Meets P Q T) : (xs.mapM f).Meets P Q fun ys => ∀ y ∈ ys, T y := by
  induction xs with
  | nil =>
    rw [List.mapM_nil]
    exact meets_pure (by simp)
  | cons x xs ih =>
    rw [List.mapM_cons]
    apply (hf x List.mem_cons_self).bind
    intro y hy
    apply (ih fun x hx => hf x (List.mem_cons_of_mem _ hx)).bind
    intro ys hys
    exact meets_pure (List.forall_mem_cons.mpr ⟨hy, hys⟩)

theorem meets_anyM {f : α → Inquiry Bool} {xs : List α}
    (hf : ∀ x ∈ xs, (f x).Meets P Q fun _ => True) : (xs.anyM f).Meets P Q fun _ => True := by
  induction xs with
  | nil => exact meets_pure trivial
  | cons x xs ih =>
    simp only [List.anyM]
    apply (hf x List.mem_cons_self).bind
    intro found _
    cases found with
    | true => exact meets_pure trivial
    | false => exact ih fun x hx => hf x (List.mem_cons_of_mem _ hx)

theorem meets_allM {f : α → Inquiry Bool} {xs : List α}
    (hf : ∀ x ∈ xs, (f x).Meets P Q fun _ => True) : (xs.allM f).Meets P Q fun _ => True := by
  induction xs with
  | nil => exact meets_pure trivial
  | cons x xs ih =>
    simp only [List.allM]
    apply (hf x List.mem_cons_self).bind
    intro holds _
    cases holds with
    | true => exact ih fun x hx => hf x (List.mem_cons_of_mem _ hx)
    | false => exact meets_pure trivial

variable {answer answer' : (call : Call) → Except Fault call.Answer}

/-- A result stays when more questions are answered. -/
theorem eval_mono (hle : ∀ call a, answer call = .ok a → answer' call = .ok a) {x : Inquiry α}
    {a : α} (hx : x.eval answer = .ok a) : x.eval answer' = .ok a := by
  induction x with
  | done result => exact hx
  | ask call next ih =>
    obtain ⟨b, hb, hnext⟩ := bind_eq_ok.mp hx
    exact bind_eq_ok.mpr ⟨b, hle call b hb, ih b hnext⟩

theorem Meets.of_eval {x : Inquiry α} (hx : x.Meets P Q R)
    (hanswer : ∀ call a, P call → answer call = .ok a → Q call a) {a : α}
    (ha : x.eval answer = .ok a) : R a := by
  induction x with
  | done result =>
    subst ha
    exact hx
  | ask call next ih =>
    obtain ⟨b, hb, hnext⟩ := bind_eq_ok.mp ha
    exact ih b (hx.2 b (hanswer call b hx.1 hb)) hnext

/-- A step without faults gives a result if its questions are answered. -/
theorem Meets.eval_ok {x : Inquiry α} (hx : x.Meets P Q R)
    (hanswer : ∀ call, P call → ∃ a, answer call = .ok a ∧ Q call a) :
    ∃ a, x.eval answer = .ok a := by
  induction x with
  | done result =>
    cases result with
    | ok a => exact ⟨a, rfl⟩
    | error => exact hx.elim
  | ask call next ih =>
    obtain ⟨b, hb, hQ⟩ := hanswer call hx.1
    obtain ⟨a, ha⟩ := ih b (hx.2 b hQ)
    exact ⟨a, bind_eq_ok.mpr ⟨b, hb, ha⟩⟩

end Inquiry

namespace Hierarchy

variable {h : Hierarchy}

def Answers (h : Hierarchy) (call : Call) (a : call.Answer) : Prop :=
  ∃ depth, h.answerWithin depth call = .ok a

def Ends (h : Hierarchy) (call : Call) : Prop :=
  ∃ depth a, h.answerWithin depth call = .ok a

/-- The first call comes to a point where it puts the second. -/
def Nests (h : Hierarchy) (call call' : Call) : Prop :=
  (h.inquire call).Puts h.Answers call'

/-- More depth does not change an answer. -/
theorem answerWithin_mono {depth depth' : Nat} (hle : depth ≤ depth') {call : Call}
    {a : call.Answer} (ha : h.answerWithin depth call = .ok a) :
    h.answerWithin depth' call = .ok a := by
  induction depth generalizing depth' call with
  | zero => simp [answerWithin_zero] at ha
  | succ depth ih =>
    obtain ⟨depth', rfl⟩ : ∃ k, depth' = k + 1 := ⟨depth' - 1, by omega⟩
    rw [answerWithin_succ] at ha ⊢
    exact Inquiry.eval_mono (fun _ _ => ih (Nat.le_of_succ_le_succ hle)) ha

theorem Answers.unique {call : Call} {a b : call.Answer} (ha : h.Answers call a)
    (hb : h.Answers call b) : a = b := by
  obtain ⟨depth, ha⟩ := ha
  obtain ⟨depth', hb⟩ := hb
  have ha' := answerWithin_mono (Nat.le_max_left depth depth') ha
  have hb' := answerWithin_mono (Nat.le_max_right depth depth') hb
  exact Except.ok.inj (ha'.symm.trans hb')

/-- Where a step gives a result at some depth, all questions it puts have answers there. -/
theorem answered_of_eval {α : Type} {depth : Nat} {x : Inquiry α} {a : α}
    (hx : x.eval (h.answerWithin depth) = .ok a) {call : Call} (hput : x.Puts h.Answers call) :
    ∃ b, h.answerWithin depth call = .ok b := by
  induction hput with
  | here =>
    obtain ⟨b, hb, _⟩ := bind_eq_ok.mp hx
    exact ⟨b, hb⟩
  | later hanswer _ ih =>
    obtain ⟨b, hb, hnext⟩ := bind_eq_ok.mp hx
    obtain rfl := hanswer.unique ⟨depth, hb⟩
    exact ih hnext

theorem acc_of_answerWithin {depth : Nat} {call : Call} {a : call.Answer}
    (ha : h.answerWithin depth call = .ok a) :
    Acc (fun inner outer => h.Nests outer inner) call := by
  induction depth generalizing call with
  | zero => simp [answerWithin_zero] at ha
  | succ depth ih =>
    rw [answerWithin_succ] at ha
    refine Acc.intro call fun inner hnests => ?_
    obtain ⟨b, hb⟩ := answered_of_eval ha hnests
    exact ih hb

/-- A call that comes to be nested in itself does not end. -/
theorem not_ends_of_cycle {call : Call} (hcycle : Relation.TransGen h.Nests call call) :
    ¬h.Ends call := by
  rintro ⟨depth, a, ha⟩
  have hacc := (acc_of_answerWithin ha).transGen
  have hback : Relation.TransGen (fun inner outer => h.Nests outer inner) call call :=
    Relation.transGen_swap.mpr hcycle
  exact (acc_iff_isEmpty_descending_chain.mp hacc).false ⟨fun _ => call, rfl, fun _ => hback⟩

/-- A step without faults gives a result at some depth if all its questions have answers. -/
theorem eval_of_ends {α : Type} {P : Call → Prop} {Q : (call : Call) → call.Answer → Prop}
    {R : α → Prop} {x : Inquiry α} (hx : x.Meets P Q R)
    (hspec : ∀ call a, P call → h.Answers call a → Q call a)
    (hends : ∀ call, x.Puts h.Answers call → h.Ends call) :
    ∃ depth a, x.eval (h.answerWithin depth) = .ok a := by
  induction x with
  | done result =>
    cases result with
    | ok a => exact ⟨0, a, rfl⟩
    | error => exact hx.elim
  | ask call next ih =>
    obtain ⟨depth, b, hb⟩ := hends call .here
    have hnext := hx.2 b (hspec call b hx.1 ⟨depth, hb⟩)
    obtain ⟨depth', a, ha⟩ := ih b hnext fun call' hput => hends call' (.later ⟨depth, hb⟩ hput)
    refine ⟨max depth depth', a, bind_eq_ok.mpr ⟨b, ?_, ?_⟩⟩
    · exact answerWithin_mono (Nat.le_max_left depth depth') hb
    · exact Inquiry.eval_mono (fun _ _ => answerWithin_mono (Nat.le_max_right depth depth')) ha

section Kept

variable {P : Call → Prop} {Q : (call : Call) → call.Answer → Prop}

/-- What every step keeps holds of all answers. -/
theorem answers_of_step (hstep : ∀ call, P call → (h.inquire call).Meets P Q (Q call)) {call : Call}
    (hcall : P call) {a : call.Answer} (ha : h.Answers call a) : Q call a := by
  obtain ⟨depth, ha⟩ := ha
  induction depth generalizing call with
  | zero => simp [answerWithin_zero] at ha
  | succ depth ih =>
    rw [answerWithin_succ] at ha
    exact (hstep call hcall).of_eval (fun call' a hcall' ha' => ih hcall' ha') ha

theorem ends_of_acc (hstep : ∀ call, P call → (h.inquire call).Meets P Q (Q call)) {call : Call}
    (hcall : P call) (hacc : Acc (fun inner outer => h.Nests outer inner) call) :
    h.Ends call := by
  induction hacc with
  | intro call _ ih =>
    have hmeets := hstep call hcall
    have hspec (call' : Call) (a : call'.Answer) (hcall' : P call') (ha : h.Answers call' a) :
        Q call' a := answers_of_step hstep hcall' ha
    obtain ⟨depth, a, ha⟩ := eval_of_ends hmeets hspec fun call' hput =>
      ih call' hput (hmeets.puts hspec hput)
    exact ⟨depth + 1, a, (answerWithin_succ h depth call).trans ha⟩

/-- A call ends exactly when there is no endless chain of calls, each nested in the one before. -/
theorem ends_iff_no_chain (hstep : ∀ call, P call → (h.inquire call).Meets P Q (Q call))
    {call : Call} (hcall : P call) :
    h.Ends call ↔
      ¬∃ chain : ℕ → Call, chain 0 = call ∧ ∀ n, h.Nests (chain n) (chain (n + 1)) := by
  rw [← not_acc_iff_exists_descending_chain (r := fun inner outer => h.Nests outer inner), not_not]
  constructor
  · rintro ⟨depth, a, ha⟩
    exact acc_of_answerWithin ha
  · exact ends_of_acc hstep hcall

end Kept

end Hierarchy

end TypedBlocks
