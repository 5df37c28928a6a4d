import Mathlib.Data.Fintype.Card
import Mathlib.Data.Set.Finite.Basic
import Mathlib.Order.WellFounded
import TypedBlocks.Fault
import TypedBlocks.Nearest
import TypedBlocks.Proofs.Outcome

/-! The candidates that are kept as nearest. Those that some other one beats are dropped; beating is
a strict order, so every dropped candidate is beaten by a kept one, and by a partial order the
minimal candidates are kept. -/
namespace TypedBlocks

namespace Nearest

def Beats (R : TypeExpr → TypeExpr → Prop) (c d : TypeExpr × Nat) : Prop :=
  d.2 ≠ c.2 ∧ R c.1 d.1 ∧
    (R d.1 c.1 → c.1.stars < d.1.stars ∨ (c.1.stars = d.1.stars ∧ c.2 < d.2))

variable {R : TypeExpr → TypeExpr → Prop} {nearer : TypeExpr → TypeExpr → Except Fault Bool}

/-- The answers on the given types, as far as there are any, say whether the relation holds. -/
def Tells (nearer : TypeExpr → TypeExpr → Except Fault Bool) (R : TypeExpr → TypeExpr → Prop)
    (types : List TypeExpr) : Prop :=
  ∀ a ∈ types, ∀ b ∈ types, ∀ answer, nearer a b = .ok answer → (answer = true ↔ R a b)

/-- Different types, neither of which is as near as the other. -/
def ToldApart (nearer : TypeExpr → TypeExpr → Except Fault Bool) (a b : TypeExpr) : Prop :=
  a ≠ b ∧ nearer a b = .ok false ∧ nearer b a = .ok false

/-- What one more candidate can do. It is passed over, being the same one, not as near, or just as
near and later by wildcards and place; or it beats, and the rest is not looked at. -/
theorem isBeaten_cons {t other : TypeExpr} {i j : Nat} {rest : List (TypeExpr × Nat)}
    {beaten : Bool} (hrun : isBeaten nearer t i ((other, j) :: rest) = .ok beaten) :
    (isBeaten nearer t i rest = .ok beaten ∧ (i = j ∨ nearer other t = .ok false ∨
      (nearer t other = .ok true ∧
        ¬(other.stars < t.stars ∨ (other.stars = t.stars ∧ j < i))))) ∨
    (beaten = true ∧ i ≠ j ∧ nearer other t = .ok true ∧ (nearer t other = .ok false ∨
      other.stars < t.stars ∨ (other.stars = t.stars ∧ j < i))) := by
  rw [isBeaten] at hrun
  by_cases hij : i = j
  · rw [if_pos hij] at hrun
    exact .inl ⟨hrun, .inl hij⟩
  · rw [if_neg hij] at hrun
    obtain ⟨near, hnear, hrun⟩ := bind_eq_ok.mp hrun
    cases near with
    | false => exact .inl ⟨hrun, .inr (.inl hnear)⟩
    | true =>
      obtain ⟨back, hback, hrun⟩ := bind_eq_ok.mp hrun
      cases back with
      | false => exact .inr ⟨(pure_eq_ok.mp hrun).symm, hij, hnear, .inl hback⟩
      | true =>
        simp only [Bool.not_true, Bool.false_eq_true, if_false] at hrun
        by_cases hlex : other.stars < t.stars ∨ (other.stars = t.stars ∧ j < i)
        · rw [if_pos hlex] at hrun
          exact .inr ⟨(pure_eq_ok.mp hrun).symm, hij, hnear, .inr hlex⟩
        · rw [if_neg hlex] at hrun
          exact .inl ⟨hrun, .inr (.inr ⟨hback, hlex⟩)⟩

theorem isBeaten_iff {t : TypeExpr} {i : Nat} {others : List (TypeExpr × Nat)} {beaten : Bool}
    (hrel : Tells nearer R (t :: others.map Prod.fst))
    (hrun : isBeaten nearer t i others = .ok beaten) :
    beaten = true ↔ ∃ c ∈ others, Beats R c (t, i) := by
  induction others with
  | nil =>
    obtain rfl := pure_eq_ok.mp hrun
    simp
  | cons c others ih =>
    obtain ⟨other, j⟩ := c
    have hrest : Tells nearer R (t :: others.map Prod.fst) := by
      have hsub : ∀ u ∈ t :: others.map Prod.fst, u ∈ t :: ((other, j) :: others).map Prod.fst :=
        List.cons_subset_cons t (List.subset_cons_self _ _)
      exact fun a ha b hb => hrel a (hsub a ha) b (hsub b hb)
    have hother : other ∈ t :: ((other, j) :: others).map Prod.fst := by simp
    have ht : t ∈ t :: ((other, j) :: others).map Prod.fst := List.mem_cons_self
    rw [List.exists_mem_cons_iff]
    rcases isBeaten_cons hrun with ⟨hrun, hpassed⟩ | ⟨rfl, hij, hnear, hback⟩
    · have hnot : ¬Beats R (other, j) (t, i) := by
        rintro ⟨hij, hnear, hlex⟩
        rcases hpassed with heq | hfar | ⟨hback, hlate⟩
        · exact hij heq
        · simpa using (hrel other hother t ht false hfar).mpr hnear
        · exact hlate (hlex ((hrel t ht other hother true hback).mp rfl))
      simpa [hnot] using ih hrest hrun
    · have hbeats : Beats R (other, j) (t, i) := by
        refine ⟨hij, (hrel other hother t ht true hnear).mp rfl, fun hr => ?_⟩
        rcases hback with hno | hlex
        · simpa using (hrel t ht other hother false hno).mpr hr
        · exact hlex
      simp [hbeats]

/-- An unbeaten candidate has been told from every other one. -/
theorem told_of_unbeaten {t u : TypeExpr} {i j : Nat} {others : List (TypeExpr × Nat)}
    (hrun : isBeaten nearer t i others = .ok false) (hu : (u, j) ∈ others) (hplace : i ≠ j) :
    nearer u t = .ok false ∨ (nearer t u = .ok true ∧
      ¬(u.stars < t.stars ∨ (u.stars = t.stars ∧ j < i))) := by
  induction others with
  | nil => exact absurd hu List.not_mem_nil
  | cons c others ih =>
    obtain ⟨other, k⟩ := c
    rcases isBeaten_cons hrun with ⟨hrun, hpassed⟩ | ⟨hbeaten, -⟩
    · rcases List.mem_cons.mp hu with heq | hu
      · obtain ⟨rfl, rfl⟩ := Prod.mk.inj heq
        exact hpassed.resolve_left hplace
      · exact ih hrun hu
    · cases hbeaten

theorem mem_survivors {all rest : List (TypeExpr × Nat)} {kept : List TypeExpr}
    (hrun : survivors nearer all rest = .ok kept) {t : TypeExpr} :
    t ∈ kept ↔ ∃ i, (t, i) ∈ rest ∧ isBeaten nearer t i all = .ok false := by
  induction rest generalizing kept with
  | nil =>
    obtain rfl := pure_eq_ok.mp hrun
    simp
  | cons c rest ih =>
    obtain ⟨u, j⟩ := c
    obtain ⟨beaten, hbeaten, hrun⟩ := bind_eq_ok.mp hrun
    obtain ⟨others, hothers, hrun⟩ := bind_eq_ok.mp hrun
    obtain rfl := pure_eq_ok.mp hrun
    have hcons : (∃ i, (t, i) ∈ (u, j) :: rest ∧ isBeaten nearer t i all = .ok false) ↔
        (t = u ∧ beaten = false) ∨ t ∈ others := by
      rw [ih hothers]
      constructor
      · rintro ⟨i, hmem, hi⟩
        rcases List.mem_cons.mp hmem with heq | hmem
        · obtain ⟨rfl, rfl⟩ := Prod.mk.inj heq
          exact .inl ⟨rfl, Except.ok.inj (hbeaten.symm.trans hi)⟩
        · exact .inr ⟨i, hmem, hi⟩
      · rintro (⟨rfl, rfl⟩ | ⟨i, hmem, hi⟩)
        · exact ⟨j, List.mem_cons_self, hbeaten⟩
        · exact ⟨i, List.mem_cons_of_mem _ hmem, hi⟩
    rw [hcons]
    cases beaten <;> simp

theorem survivors_sublist {all rest : List (TypeExpr × Nat)} {kept : List TypeExpr}
    (hrun : survivors nearer all rest = .ok kept) : kept.Sublist (rest.map Prod.fst) := by
  induction rest generalizing kept with
  | nil =>
    obtain rfl := pure_eq_ok.mp hrun
    exact .slnil
  | cons c rest ih =>
    obtain ⟨beaten, -, hrun⟩ := bind_eq_ok.mp hrun
    obtain ⟨others, hothers, hrun⟩ := bind_eq_ok.mp hrun
    obtain rfl := pure_eq_ok.mp hrun
    cases beaten with
    | true => exact (ih hothers).cons c.1
    | false => exact (ih hothers).cons_cons c.1

/-- Survivors are told apart only if every question has been answered. -/
theorem isBeaten_of_survivors {all rest : List (TypeExpr × Nat)} {kept : List TypeExpr}
    (hrun : survivors nearer all rest = .ok kept) {t : TypeExpr} {i : Nat} (ht : (t, i) ∈ rest) :
    ∃ beaten, isBeaten nearer t i all = .ok beaten := by
  induction rest generalizing kept with
  | nil => exact absurd ht List.not_mem_nil
  | cons c rest ih =>
    obtain ⟨u, j⟩ := c
    obtain ⟨beaten, hbeaten, hrun⟩ := bind_eq_ok.mp hrun
    obtain ⟨others, hothers, -⟩ := bind_eq_ok.mp hrun
    rcases List.mem_cons.mp ht with heq | ht
    · obtain ⟨rfl, rfl⟩ := Prod.mk.inj heq
      exact ⟨beaten, hbeaten⟩
    · exact ih hothers ht

section Order

variable {all : List (TypeExpr × Nat)}
  (htrans : ∀ a ∈ all, ∀ b ∈ all, ∀ c ∈ all, R a.1 b.1 → R b.1 c.1 → R a.1 c.1)
  (hplace : ∀ c ∈ all, ∀ d ∈ all, c.2 = d.2 → c = d)

include htrans hplace

theorem Beats.trans {a b c : TypeExpr × Nat} (ha : a ∈ all) (hb : b ∈ all) (hc : c ∈ all)
    (hab : Beats R a b) (hbc : Beats R b c) : Beats R a c := by
  obtain ⟨-, hab, hlex⟩ := hab
  obtain ⟨-, hbc, hlex'⟩ := hbc
  have hac := htrans a ha b hb c hc hab hbc
  have hback (hca : R c.1 a.1) :
      (a.1.stars < b.1.stars ∨ (a.1.stars = b.1.stars ∧ a.2 < b.2)) ∧
      (b.1.stars < c.1.stars ∨ (b.1.stars = c.1.stars ∧ b.2 < c.2)) :=
    ⟨hlex (htrans b hb c hc a ha hbc hca), hlex' (htrans c hc a ha b hb hca hab)⟩
  refine ⟨fun heq => ?_, hac, fun hca => ?_⟩
  · obtain rfl := hplace c hc a ha heq
    have := hback hac
    omega
  · have := hback hca
    omega

/-- Every member of a finite list is unbeaten or beaten by an unbeaten member. -/
theorem exists_unbeaten {c : TypeExpr × Nat} (hc : c ∈ all) :
    ∃ k ∈ all, (k = c ∨ Beats R k c) ∧ ∀ d ∈ all, ¬Beats R d k := by
  let below (a b : {c // c ∈ all}) : Prop := Beats R a.1 b.1
  have : Finite {c // c ∈ all} := List.finite_toSet all
  have : IsTrans {c // c ∈ all} below :=
    ⟨fun a b c => Beats.trans htrans hplace a.2 b.2 c.2⟩
  have : Std.Irrefl below := ⟨fun a ha => ha.1 rfl⟩
  have hwf : WellFounded below := Finite.wellFounded_of_trans_of_irrefl below
  obtain ⟨k, hk, hmin⟩ := hwf.has_min {k | k.1 = c ∨ Beats R k.1 c} ⟨⟨c, hc⟩, .inl rfl⟩
  refine ⟨k.1, k.2, hk, fun d hd hdk => hmin ⟨d, hd⟩ ?_ hdk⟩
  rcases hk with heq | hkc
  · exact .inr (heq ▸ hdk)
  · exact .inr (Beats.trans htrans hplace hd k.2 hc hdk hkc)

end Order

end Nearest

open Nearest (Beats Tells ToldApart)

variable {R : TypeExpr → TypeExpr → Prop} {nearer : TypeExpr → TypeExpr → Except Fault Bool}
  {candidates kept : List TypeExpr}

/-- Only candidates are kept, in their order. -/
theorem keepNearest_sublist (hrun : keepNearest nearer candidates = .ok kept) :
    kept.Sublist candidates := by
  simpa only [List.zipIdx_map_fst] using Nearest.survivors_sublist hrun

theorem mem_of_keepNearest (hrun : keepNearest nearer candidates = .ok kept) {t : TypeExpr}
    (ht : t ∈ kept) : t ∈ candidates :=
  (keepNearest_sublist hrun).mem ht

/-- The kept candidates are those that no other one beats. -/
theorem mem_keepNearest (hrel : Tells nearer R candidates)
    (hrun : keepNearest nearer candidates = .ok kept) {t : TypeExpr} :
    t ∈ kept ↔ ∃ i, (t, i) ∈ candidates.zipIdx ∧
      ∀ c ∈ candidates.zipIdx, ¬Beats R c (t, i) := by
  rw [Nearest.mem_survivors hrun]
  refine exists_congr fun i => and_congr_right fun hmem => ?_
  have htells : Tells nearer R (t :: candidates.zipIdx.map Prod.fst) := by
    have hsub : ∀ u ∈ t :: candidates.zipIdx.map Prod.fst, u ∈ candidates := by
      rw [List.zipIdx_map_fst]
      exact List.forall_mem_cons.mpr ⟨List.fst_mem_of_mem_zipIdx hmem, fun _ hu => hu⟩
    exact fun a ha b hb => hrel a (hsub a ha) b (hsub b hb)
  obtain ⟨beaten, hbeaten⟩ := Nearest.isBeaten_of_survivors hrun hmem
  have hiff := Nearest.isBeaten_iff htells hbeaten
  rw [hbeaten]
  cases beaten with
  | false => simpa using hiff
  | true =>
    obtain ⟨c, hc, hbeats⟩ := hiff.mp rfl
    simpa using ⟨c.1, c.2, hc, hbeats⟩

theorem zipIdx_place_eq {c d : TypeExpr × Nat} (hc : c ∈ candidates.zipIdx)
    (hd : d ∈ candidates.zipIdx) (heq : c.2 = d.2) : c = d := by
  obtain ⟨t, i⟩ := c
  obtain ⟨u, j⟩ := d
  obtain rfl : i = j := heq
  rw [List.mk_mem_zipIdx_iff_getElem?] at hc hd
  rw [Option.some.inj (hc.symm.trans hd)]

/-- Of two kept candidates neither is as near as the other, whatever the answers are. -/
theorem keepNearest_denies (hrun : keepNearest nearer candidates = .ok kept) {t u : TypeExpr}
    (ht : t ∈ kept) (hu : u ∈ kept) (hne : t ≠ u) : nearer t u = .ok false := by
  obtain ⟨i, hi, hti⟩ := (Nearest.mem_survivors hrun).mp ht
  obtain ⟨j, hj, huj⟩ := (Nearest.mem_survivors hrun).mp hu
  have hij : i ≠ j := fun heq => hne (Prod.mk.inj (zipIdx_place_eq hi hj heq)).1
  rcases Nearest.told_of_unbeaten huj hi hij.symm with hno | ⟨hyes, hlate⟩
  · exact hno
  · rcases Nearest.told_of_unbeaten hti hj hij with hno | ⟨-, hlate'⟩
    · exact absurd (hyes.symm.trans hno) (by simp)
    · omega

theorem keepNearest_pairwise (hnodup : candidates.Nodup)
    (hrun : keepNearest nearer candidates = .ok kept) : kept.Pairwise (ToldApart nearer) :=
  (hnodup.sublist (keepNearest_sublist hrun)).pairwise_of_forall_ne fun _ ha _ hb hne =>
    ⟨hne, keepNearest_denies hrun ha hb hne, keepNearest_denies hrun hb ha hne.symm⟩

/-- Every candidate is kept or has a kept one that is nearer. -/
theorem exists_kept (hrel : Tells nearer R candidates)
    (htrans : ∀ a ∈ candidates, ∀ b ∈ candidates, ∀ c ∈ candidates, R a b → R b c → R a c)
    (hrun : keepNearest nearer candidates = .ok kept) {t : TypeExpr} (ht : t ∈ candidates) :
    ∃ k ∈ kept, k = t ∨ R k t := by
  obtain ⟨i, hi⟩ := List.mem_iff_getElem?.mp ht
  have hmem : (t, i) ∈ candidates.zipIdx := List.mk_mem_zipIdx_iff_getElem?.mpr hi
  obtain ⟨k, hk, hkt, hunbeaten⟩ := Nearest.exists_unbeaten
    (fun a ha b hb c hc => htrans a.1 (List.fst_mem_of_mem_zipIdx ha) b.1
      (List.fst_mem_of_mem_zipIdx hb) c.1 (List.fst_mem_of_mem_zipIdx hc))
    (fun c hc d hd => zipIdx_place_eq hc hd) hmem
  refine ⟨k.1, (mem_keepNearest hrel hrun).mpr ⟨k.2, hk, hunbeaten⟩, ?_⟩
  rcases hkt with rfl | hbeats
  · exact .inl rfl
  · exact .inr hbeats.2.1

/-- Of distinct candidates the minimal ones of a partial order are kept. -/
theorem mem_keepNearest_iff_minimal (hrel : Tells nearer R candidates)
    (hanti : ∀ a ∈ candidates, ∀ b ∈ candidates, R a b → R b a → a = b)
    (hnodup : candidates.Nodup) (hrun : keepNearest nearer candidates = .ok kept)
    {t : TypeExpr} : t ∈ kept ↔ t ∈ candidates ∧ ∀ c ∈ candidates, R c t → c = t := by
  rw [mem_keepNearest hrel hrun]
  constructor
  · rintro ⟨i, hmem, hunbeaten⟩
    have ht := List.fst_mem_of_mem_zipIdx hmem
    refine ⟨ht, fun c hc hct => ?_⟩
    by_contra hne
    obtain ⟨j, hj⟩ := List.mem_iff_getElem?.mp hc
    refine hunbeaten (c, j) (List.mk_mem_zipIdx_iff_getElem?.mpr hj) ⟨?_, hct, fun htc => ?_⟩
    · rintro rfl
      exact hne (Option.some.inj (hj.symm.trans (List.mk_mem_zipIdx_iff_getElem?.mp hmem)))
    · exact absurd (hanti c hc t ht hct htc) hne
  · rintro ⟨ht, hmin⟩
    obtain ⟨i, hi⟩ := List.mem_iff_getElem?.mp ht
    refine ⟨i, List.mk_mem_zipIdx_iff_getElem?.mpr hi, fun c hc hbeats => hbeats.1 ?_⟩
    have hc' := List.mk_mem_zipIdx_iff_getElem?.mp hc
    have heq := hmin c.1 (List.fst_mem_of_mem_zipIdx hc) hbeats.2.1
    rw [heq] at hc'
    exact (List.getElem?_inj (List.getElem?_eq_some_iff.mp hi).1 hnodup).mp (hi.trans hc'.symm)

/-- The least of distinct candidates alone is kept. -/
theorem keepNearest_eq_singleton (hrel : Tells nearer R candidates)
    (hanti : ∀ a ∈ candidates, ∀ b ∈ candidates, R a b → R b a → a = b)
    (hnodup : candidates.Nodup) (hrun : keepNearest nearer candidates = .ok kept)
    {least : TypeExpr} (hleast : least ∈ candidates) (hall : ∀ c ∈ candidates, R least c) :
    kept = [least] := by
  have hmem (t : TypeExpr) : t ∈ kept ↔ t ∈ [least] := by
    rw [mem_keepNearest_iff_minimal hrel hanti hnodup hrun, List.mem_singleton]
    constructor
    · rintro ⟨ht, hmin⟩
      exact (hmin least hleast (hall t ht)).symm
    · rintro rfl
      exact ⟨hleast, fun c hc hct => hanti c hc t hleast hct (hall c hc)⟩
  refine List.perm_singleton.mp ((List.perm_ext_iff_of_nodup ?_ (List.nodup_singleton _)).mpr hmem)
  exact hnodup.sublist (keepNearest_sublist hrun)

end TypedBlocks
