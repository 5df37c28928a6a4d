import TypedBlocks.Proofs.Nearest.Kept
import TypedBlocks.Proofs.Subtype.Decides

/-! The places of the kept candidates. By a transitive relation a candidate goes only if one that
stays is nearer, however many of them are as near as each other, and what stays is never thinned
out further. A repeated candidate counts once for each place it stands at. -/
namespace TypedBlocks

namespace Nearest

variable {R : TypeExpr → TypeExpr → Prop} {nearer : TypeExpr → TypeExpr → Except Fault Bool}
  {all rest : List (TypeExpr × Nat)}

/-- Every question on the given types is answered, and the answer says whether the relation
holds. -/
def Answers (nearer : TypeExpr → TypeExpr → Except Fault Bool) (R : TypeExpr → TypeExpr → Prop)
    (types : List TypeExpr) : Prop :=
  ∀ a ∈ types, ∀ b ∈ types, ∃ answer, nearer a b = .ok answer ∧ (answer = true ↔ R a b)

theorem Answers.mono {types types' : List TypeExpr} (h : Answers nearer R types)
    (hsub : types' ⊆ types) : Answers nearer R types' :=
  fun a ha b hb => h a (hsub ha) b (hsub hb)

theorem Answers.tells {types : List TypeExpr} (h : Answers nearer R types) :
    Tells nearer R types := by
  intro a ha b hb answer hanswer
  obtain ⟨answer', hanswer', hiff⟩ := h a ha b hb
  obtain rfl := Except.ok.inj (hanswer.symm.trans hanswer')
  exact hiff

theorem Answers.eq_false {types : List TypeExpr} (h : Answers nearer R types) {a b : TypeExpr}
    (ha : a ∈ types) (hb : b ∈ types) (hab : ¬R a b) : nearer a b = .ok false := by
  obtain ⟨answer, hanswer, hiff⟩ := h a ha b hb
  cases answer with
  | false => exact hanswer
  | true => exact absurd (hiff.mp rfl) hab

theorem Answers.isBeaten_ok {t : TypeExpr} (i : Nat)
    (h : Answers nearer R (t :: all.map Prod.fst)) :
    ∃ beaten, isBeaten nearer t i all = .ok beaten := by
  induction all with
  | nil => exact ⟨false, rfl⟩
  | cons c others ih =>
    obtain ⟨other, j⟩ := c
    have hother : other ∈ t :: ((other, j) :: others).map Prod.fst := by simp
    obtain ⟨near, hnear, -⟩ := h other hother t List.mem_cons_self
    obtain ⟨back, hback, -⟩ := h t List.mem_cons_self other hother
    obtain ⟨beaten, hbeaten⟩ :=
      ih (h.mono (List.cons_subset_cons t (List.subset_cons_self _ _)))
    rw [isBeaten, hnear, ok_bind, hback, ok_bind]
    split
    · exact ⟨beaten, hbeaten⟩
    · cases near with
      | false => exact ⟨beaten, hbeaten⟩
      | true =>
        cases back with
        | false => exact ⟨true, rfl⟩
        | true =>
          simp only [Bool.not_true, Bool.false_eq_true, if_false]
          split
          · exact ⟨true, rfl⟩
          · exact ⟨beaten, hbeaten⟩

/-- A candidate is not beaten by others that are not as near. -/
theorem isBeaten_eq_false {t : TypeExpr} {i : Nat}
    (h : ∀ c ∈ all, c.2 ≠ i → nearer c.1 t = .ok false) : isBeaten nearer t i all = .ok false := by
  induction all with
  | nil => rfl
  | cons c others ih =>
    obtain ⟨hc, hothers⟩ := List.forall_mem_cons.mp h
    rw [isBeaten]
    split
    · exact ih hothers
    · next hplace =>
      rw [hc (Ne.symm hplace), ok_bind]
      exact ih hothers

theorem survivors_eq_self (h : ∀ c ∈ rest, isBeaten nearer c.1 c.2 all = .ok false) :
    survivors nearer all rest = .ok (rest.map Prod.fst) := by
  induction rest with
  | nil => rfl
  | cons c rest ih =>
    obtain ⟨hc, hrest⟩ := List.forall_mem_cons.mp h
    rw [survivors, hc, ok_bind, ih hrest]
    rfl

/-- The survivors stand at the places where a candidate is not beaten. -/
theorem survivors_places (h : ∀ c ∈ rest, ∃ beaten, isBeaten nearer c.1 c.2 all = .ok beaten) :
    ∃ places : List (TypeExpr × Nat), places.Sublist rest ∧
      survivors nearer all rest = .ok (places.map Prod.fst) ∧
      ∀ c ∈ rest, c ∈ places ↔ isBeaten nearer c.1 c.2 all = .ok false := by
  induction rest with
  | nil => exact ⟨[], .slnil, rfl, by simp⟩
  | cons c rest ih =>
    obtain ⟨⟨beaten, hbeaten⟩, hrest⟩ := List.forall_mem_cons.mp h
    obtain ⟨places, hsub, hrun, hplaces⟩ := ih hrest
    rw [survivors, hbeaten, ok_bind, hrun]
    cases beaten with
    | true =>
      refine ⟨places, hsub.cons c, rfl, List.forall_mem_cons.mpr ⟨?_, hplaces⟩⟩
      refine iff_of_false (fun hc => ?_) (by simp [hbeaten])
      simpa [hbeaten] using (hplaces c (hsub.mem hc)).mp hc
    | false =>
      refine ⟨c :: places, hsub.cons_cons c, rfl, List.forall_mem_cons.mpr ⟨?_, ?_⟩⟩
      · exact iff_of_true List.mem_cons_self hbeaten
      · intro d hd
        rw [List.mem_cons, hplaces d hd]
        exact or_iff_right_of_imp fun heq => heq ▸ hbeaten

/-- Of two candidates that do not beat each other neither is as near as the other. -/
theorem not_related_of_not_beats {c d : TypeExpr × Nat} (hplace : c.2 ≠ d.2)
    (hcd : ¬Beats R c d) (hdc : ¬Beats R d c) : ¬R c.1 d.1 := by
  intro hnear
  by_cases hback : R d.1 c.1
  · have hlate : ¬(c.1.stars < d.1.stars ∨ (c.1.stars = d.1.stars ∧ c.2 < d.2)) :=
      fun hlex => hcd ⟨hplace.symm, hnear, fun _ => hlex⟩
    have hlate' : ¬(d.1.stars < c.1.stars ∨ (d.1.stars = c.1.stars ∧ d.2 < c.2)) :=
      fun hlex => hdc ⟨hplace, hback, fun _ => hlex⟩
    omega
  · exact hcd ⟨hplace.symm, hnear, fun h => absurd h hback⟩

structure Unbeaten (R : TypeExpr → TypeExpr → Prop) (all places : List (TypeExpr × Nat)) :
    Prop where
  sublist : places.Sublist all
  mem_iff : ∀ c ∈ all, c ∈ places ↔ ∀ d ∈ all, ¬Beats R d c

end Nearest

open Nearest (Answers Unbeaten)

variable {R : TypeExpr → TypeExpr → Prop} {nearer : TypeExpr → TypeExpr → Except Fault Bool}
  {candidates : List TypeExpr} {places : List (TypeExpr × Nat)}

/-- Candidates of which none is as near as another are all kept. -/
theorem keepNearest_eq_self
    (h : candidates.Pairwise fun a b => nearer a b = .ok false ∧ nearer b a = .ok false) :
    keepNearest nearer candidates = .ok candidates := by
  have hunbeaten : ∀ c ∈ candidates.zipIdx,
      Nearest.isBeaten nearer c.1 c.2 candidates.zipIdx = .ok false := by
    rintro ⟨t, i⟩ ht
    refine Nearest.isBeaten_eq_false ?_
    rintro ⟨u, j⟩ hu hplace
    obtain ⟨hi, rfl⟩ := List.getElem?_eq_some_iff.mp (List.mk_mem_zipIdx_iff_getElem?.mp ht)
    obtain ⟨hj, rfl⟩ := List.getElem?_eq_some_iff.mp (List.mk_mem_zipIdx_iff_getElem?.mp hu)
    rw [List.pairwise_iff_getElem] at h
    rcases Nat.lt_or_gt_of_ne hplace with hlt | hlt
    · exact (h j i hj hi hlt).1
    · exact (h i j hi hj hlt).2
  rw [keepNearest, Nearest.survivors_eq_self hunbeaten, List.zipIdx_map_fst]

/-- What is kept stands at the places that no other candidate beats. -/
theorem keepNearest_places (hanswers : Answers nearer R candidates) :
    ∃ places, Unbeaten R candidates.zipIdx places ∧
      keepNearest nearer candidates = .ok (places.map Prod.fst) := by
  have hcons (c : TypeExpr × Nat) (hc : c ∈ candidates.zipIdx) :
      Answers nearer R (c.1 :: candidates.zipIdx.map Prod.fst) := by
    refine hanswers.mono (List.cons_subset.mpr ⟨List.fst_mem_of_mem_zipIdx hc, ?_⟩)
    rw [List.zipIdx_map_fst]
    exact List.Subset.refl _
  obtain ⟨places, hsub, hrun, hplaces⟩ := Nearest.survivors_places
    fun c hc => (hcons c hc).isBeaten_ok c.2
  refine ⟨places, ⟨hsub, fun c hc => (hplaces c hc).trans ?_⟩, hrun⟩
  obtain ⟨beaten, hbeaten⟩ := (hcons c hc).isBeaten_ok c.2
  have hiff := Nearest.isBeaten_iff (hcons c hc).tells hbeaten
  rw [hbeaten]
  cases beaten with
  | false => simpa using hiff
  | true =>
    obtain ⟨d, hd, hbeats⟩ := hiff.mp rfl
    exact iff_of_false (by simp) fun hnone => hnone d hd hbeats

theorem Nearest.Unbeaten.pairwise (h : Unbeaten R candidates.zipIdx places) :
    places.Pairwise fun c d => ¬R c.1 d.1 ∧ ¬R d.1 c.1 := by
  have hnodup : candidates.zipIdx.Nodup := by
    refine List.Nodup.of_map Prod.snd ?_
    rw [List.zipIdx_map_snd]
    exact List.nodup_range'
  refine (hnodup.sublist h.sublist).pairwise_of_forall_ne fun c hc d hd hne => ?_
  have hc' := h.sublist.mem hc
  have hd' := h.sublist.mem hd
  have hplace : c.2 ≠ d.2 := fun heq => hne (zipIdx_place_eq hc' hd' heq)
  have hcd := (h.mem_iff d hd').mp hd c hc'
  have hdc := (h.mem_iff c hc').mp hc d hd'
  exact ⟨Nearest.not_related_of_not_beats hplace hcd hdc,
    Nearest.not_related_of_not_beats hplace.symm hdc hcd⟩

/-- Beating is a strict order by a transitive relation, so a candidate that is beaten is beaten by
one that is not. -/
theorem Nearest.Unbeaten.exists_nearer (h : Unbeaten R candidates.zipIdx places)
    (htrans : ∀ a ∈ candidates, ∀ b ∈ candidates, ∀ c ∈ candidates, R a b → R b c → R a c)
    {c : TypeExpr × Nat} (hc : c ∈ candidates.zipIdx) (hout : c ∉ places) :
    ∃ k ∈ places, R k.1 c.1 := by
  obtain ⟨k, hk, hkc, hnone⟩ := Nearest.exists_unbeaten
    (fun a ha b hb c hc => htrans a.1 (List.fst_mem_of_mem_zipIdx ha) b.1
      (List.fst_mem_of_mem_zipIdx hb) c.1 (List.fst_mem_of_mem_zipIdx hc))
    (fun c hc d hd => zipIdx_place_eq hc hd) hc
  have hkept := (h.mem_iff k hk).mpr hnone
  rcases hkc with rfl | hbeats
  · exact absurd hkept hout
  · exact ⟨k, hkept, hbeats.2.1⟩

/-- Let every question on the candidates be answered by a transitive relation. What is kept is a
sublist of the candidates at whose places no two are related; a candidate whose place is not kept
has a kept one that is nearer, so something is kept if there is anything; and all of it is kept
when it is looked at again. -/
theorem keepNearest_transitive (hanswers : Answers nearer R candidates)
    (htrans : ∀ a ∈ candidates, ∀ b ∈ candidates, ∀ c ∈ candidates, R a b → R b c → R a c) :
    ∃ places : List (TypeExpr × Nat), places.Sublist candidates.zipIdx ∧
      keepNearest nearer candidates = .ok (places.map Prod.fst) ∧
      (places.map Prod.fst).Sublist candidates ∧
      places.Pairwise (fun c d => ¬R c.1 d.1 ∧ ¬R d.1 c.1) ∧
      (∀ c ∈ candidates.zipIdx, c ∉ places → ∃ k ∈ places, R k.1 c.1) ∧
      (candidates ≠ [] → places ≠ []) ∧
      keepNearest nearer (places.map Prod.fst) = .ok (places.map Prod.fst) := by
  obtain ⟨places, h, hrun⟩ := keepNearest_places hanswers
  have hmem {c : TypeExpr × Nat} (hc : c ∈ places) : c.1 ∈ candidates :=
    List.fst_mem_of_mem_zipIdx (h.sublist.mem hc)
  refine ⟨places, h.sublist, hrun, keepNearest_sublist hrun, h.pairwise,
    fun c => h.exists_nearer htrans, ?_, ?_⟩
  · rintro hne rfl
    obtain ⟨c, hc⟩ := List.exists_mem_of_ne_nil candidates.zipIdx (by simpa using hne)
    obtain ⟨k, hk, -⟩ := h.exists_nearer htrans hc List.not_mem_nil
    exact absurd hk List.not_mem_nil
  · refine keepNearest_eq_self (List.pairwise_map.mpr (h.pairwise.imp_of_mem ?_))
    intro c d hc hd hcd
    exact ⟨hanswers.eq_false (hmem hc) (hmem hd) hcd.1,
      hanswers.eq_false (hmem hd) (hmem hc) hcd.2⟩

/-- Two pairs that are as near as each other, a type below another, and a repeated type. -/
def pairCandidates : List TypeExpr := [
  ⟨"pair", [.wildcard, ⟨"dog", []⟩]⟩,
  ⟨"animal", []⟩,
  ⟨"dog", []⟩,
  ⟨"pair", [⟨"dog", []⟩, ⟨"dog", []⟩]⟩,
  ⟨"dog", []⟩]

/-- Of the pairs the one without a wildcard is kept, and of the repeated type the first. -/
theorem pair_keepNearest_transitive :
    keepNearest (pairHierarchy.subtypeWithin 3) pairCandidates =
      .ok [⟨"dog", []⟩, ⟨"pair", [⟨"dog", []⟩, ⟨"dog", []⟩]⟩] ∧
    ∃ places : List (TypeExpr × Nat), places.Sublist pairCandidates.zipIdx ∧
      places.map Prod.fst = [⟨"dog", []⟩, ⟨"pair", [⟨"dog", []⟩, ⟨"dog", []⟩]⟩] ∧
      (∀ c ∈ pairCandidates.zipIdx, c ∉ places →
        ∃ k ∈ places, (pairHierarchy.subtypeWithin 3 k.1 c.1).toOption = some true) ∧
      keepNearest (pairHierarchy.subtypeWithin 3) (places.map Prod.fst) =
        .ok (places.map Prod.fst) := by
  have hanswered : ∀ a ∈ pairCandidates, ∀ b ∈ pairCandidates,
      (pairHierarchy.subtypeWithin 3 a b).toOption =
        some (decide ((pairHierarchy.subtypeWithin 3 a b).toOption = some true)) := by
    decide +kernel
  have hanswers : Answers (pairHierarchy.subtypeWithin 3)
      (fun a b => (pairHierarchy.subtypeWithin 3 a b).toOption = some true) pairCandidates :=
    fun a ha b hb => ⟨_, eq_ok_of_toOption (hanswered a ha b hb), decide_eq_true_iff⟩
  have hrun : keepNearest (pairHierarchy.subtypeWithin 3) pairCandidates =
      .ok [⟨"dog", []⟩, ⟨"pair", [⟨"dog", []⟩, ⟨"dog", []⟩]⟩] :=
    eq_ok_of_toOption (by decide +kernel)
  obtain ⟨places, hsub, hkept, -, -, hdropped, -, hagain⟩ :=
    keepNearest_transitive hanswers (by decide +kernel)
  exact ⟨hrun, places, hsub, Except.ok.inj (hkept.symm.trans hrun), hdropped, hagain⟩

end TypedBlocks
