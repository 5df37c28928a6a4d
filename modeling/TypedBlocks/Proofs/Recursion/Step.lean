import TypedBlocks.Proofs.Hierarchy.Paths
import TypedBlocks.Proofs.Recursion.Chain

/-! What one step of the recursion asks and gives. On known types no step fails, the questions are
about known types that are parts of the given ones, and the answers are known types. -/
namespace TypedBlocks

theorem mem_choices {α : Type} {options : List (List α)} {combo : List α} :
    combo ∈ choices options ↔ List.Forall₂ (fun x xs => x ∈ xs) combo options := by
  induction options generalizing combo with
  | nil => simp [choices]
  | cons first rest ih =>
    simp only [choices, List.mem_flatMap, List.mem_map]
    constructor
    · rintro ⟨x, hx, tail, htail, rfl⟩
      exact .cons hx (ih.mp htail)
    · intro hcombo
      cases hcombo with
      | cons hx htail => exact ⟨_, hx, _, ih.mpr htail, rfl⟩

theorem choices_singletons {α : Type} (xs : List α) : choices (xs.map ([·])) = [xs] := by
  induction xs with
  | nil => rfl
  | cons x xs ih => simp [choices, ih]

section Steps

variable {P : Call → Prop} {Q : (call : Call) → call.Answer → Prop}
  {relation : TypeExpr → TypeExpr → Inquiry Bool}
  {up down : List TypeExpr → Inquiry (List TypeExpr)} {G : TypeExpr → Prop}

theorem fitByVariance_meets {ps : List Param} {as bs : List TypeExpr}
    (hrel : ∀ a ∈ as, ∀ b ∈ bs, (relation a b).Meets P Q (fun _ => True) ∧
      ((∃ p ∈ ps, p.variance = .contra) → (relation b a).Meets P Q fun _ => True)) :
    (fitByVariance relation ps as bs).Meets P Q fun _ => True := by
  induction ps generalizing as bs with
  | nil => exact Inquiry.meets_pure trivial
  | cons p ps ih =>
    cases as with
    | nil => exact Inquiry.meets_pure trivial
    | cons a as =>
      cases bs with
      | nil => exact Inquiry.meets_pure trivial
      | cons b bs =>
        have hrest := ih fun a ha b hb => by
          obtain ⟨hab, hba⟩ := hrel a (List.mem_cons_of_mem _ ha) b (List.mem_cons_of_mem _ hb)
          exact ⟨hab, fun ⟨q, hq, hcontra⟩ => hba ⟨q, List.mem_cons_of_mem _ hq, hcontra⟩⟩
        have hgo (fits : Bool) (_ : True) :
            (if fits then fitByVariance relation ps as bs else pure false).Meets P Q
              fun _ => True := by
          cases fits with
          | true => exact hrest
          | false => exact Inquiry.meets_pure trivial
        obtain ⟨hab, hba⟩ := hrel a List.mem_cons_self b List.mem_cons_self
        simp only [fitByVariance]
        cases hv : p.variance with
        | co => exact hab.bind hgo
        | contra => exact (hba ⟨p, List.mem_cons_self, hv⟩).bind hgo
        | inv => exact (Inquiry.meets_pure trivial).bind hgo

theorem isBeaten_meets
    (hrel : ∀ a b, G a → G b → (relation a b).Meets P Q fun _ => True) {t : TypeExpr}
    (ht : G t) (i : Nat) {others : List (TypeExpr × Nat)} (hothers : ∀ o ∈ others, G o.1) :
    (Nearest.isBeaten relation t i others).Meets P Q fun _ => True := by
  induction others with
  | nil => exact Inquiry.meets_pure trivial
  | cons other rest ih =>
    have hother := hothers other List.mem_cons_self
    have hrest := ih fun o ho => hothers o (List.mem_cons_of_mem _ ho)
    simp only [Nearest.isBeaten]
    split
    · exact hrest
    · apply (hrel _ _ hother ht).bind
      intro below _
      split
      · exact hrest
      · apply (hrel _ _ ht hother).bind
        intro above _
        split
        · exact Inquiry.meets_pure trivial
        · split
          · exact Inquiry.meets_pure trivial
          · exact hrest

theorem keepNearest_meets
    (hrel : ∀ a b, G a → G b → (relation a b).Meets P Q fun _ => True)
    {candidates : List TypeExpr} (hcandidates : ∀ c ∈ candidates, G c) :
    (keepNearest relation candidates).Meets P Q fun kept => ∀ t ∈ kept, G t := by
  have hall : ∀ c ∈ candidates.zipIdx, G c.1 := fun c hc =>
    hcandidates c.1 (List.fst_mem_of_mem_zipIdx hc)
  have hsurvivors (rest : List (TypeExpr × Nat)) (hrest : ∀ c ∈ rest, G c.1) :
      (Nearest.survivors relation candidates.zipIdx rest).Meets P Q
        fun kept => ∀ t ∈ kept, G t := by
    induction rest with
    | nil => exact Inquiry.meets_pure (by simp)
    | cons c rest ih =>
      have hc := hrest c List.mem_cons_self
      simp only [Nearest.survivors]
      apply (isBeaten_meets hrel hc c.2 hall).bind
      intro beaten _
      apply (ih fun c hc => hrest c (List.mem_cons_of_mem _ hc)).bind
      intro kept hkept
      apply Inquiry.meets_pure
      split
      · exact hkept
      · exact List.forall_mem_cons.mpr ⟨hc, hkept⟩
  exact hsurvivors _ hall

namespace Hierarchy

theorem fulfillAll_meets
    (hrel : ∀ a b, G a → G b → (relation a b).Meets P Q fun _ => True)
    {types candidates : List TypeExpr} (htypes : ∀ t ∈ types, G t)
    (hcandidates : ∀ c ∈ candidates, G c) :
    (fulfillAll relation types candidates).Meets P Q fun kept => ∀ t ∈ kept, G t := by
  induction candidates with
  | nil => exact Inquiry.meets_pure (by simp)
  | cons c cs ih =>
    have hc := hcandidates c List.mem_cons_self
    simp only [fulfillAll]
    apply (Inquiry.meets_allM fun t ht => hrel c t hc (htypes t ht)).bind
    intro fits _
    apply (ih fun c hc => hcandidates c (List.mem_cons_of_mem _ hc)).bind
    intro rest hrest
    apply Inquiry.meets_pure
    split
    · exact List.forall_mem_cons.mpr ⟨hc, hrest⟩
    · exact hrest

theorem mem_agreedOption {column : List TypeExpr} {t : TypeExpr} (ht : t ∈ agreedOption column) :
    t ∈ column ∨ (t = .wildcard ∧ column.filter (!·.isWildcard) = []) := by
  unfold agreedOption at ht
  split at ht
  · next hnone => exact .inr ⟨by simpa using ht, hnone⟩
  · next first rest hfilter =>
    have hbest (us : List TypeExpr) (b : TypeExpr) :
        us.foldl (fun best u => if u.stars < best.stars then u else best) b ∈ b :: us := by
      induction us generalizing b with
      | nil => simp
      | cons u us ih =>
        rw [List.foldl_cons]
        split
        · exact List.mem_cons_of_mem _ (ih u)
        · rcases List.mem_cons.mp (ih b) with heq | hmem
          · simp [heq]
          · exact List.mem_cons_of_mem _ (List.mem_cons_of_mem _ hmem)
    simp only at ht
    split at ht
    · obtain rfl := List.mem_singleton.mp ht
      have hmem := hbest rest first
      rw [← hfilter] at hmem
      exact .inl (List.mem_filter.mp hmem).1
    · simp at ht

variable {V : TypeExpr → Prop}

def OptionsFor (V : TypeExpr → Prop) (ps : List Param) (options : List (List TypeExpr)) : Prop :=
  options.length = ps.length ∧ ∀ position ∈ options, ∀ t ∈ position, V t

theorem OptionsFor.cons {p : Param} {ps : List Param} {position : List TypeExpr}
    {options : List (List TypeExpr)} (hposition : ∀ t ∈ position, V t)
    (hoptions : OptionsFor V ps options) : OptionsFor V (p :: ps) (position :: options) :=
  ⟨congrArg (· + 1) hoptions.1, List.forall_mem_cons.mpr ⟨hposition, hoptions.2⟩⟩

theorem OptionsFor.choices {ps : List Param} {options : List (List TypeExpr)}
    (hoptions : OptionsFor V ps options) {combo : List TypeExpr}
    (hcombo : combo ∈ choices options) :
    combo.length = ps.length ∧ ∀ t ∈ combo, V t := by
  have hforall := mem_choices.mp hcombo
  refine ⟨hforall.length_eq.trans hoptions.1, fun t ht => ?_⟩
  obtain ⟨i, hi, rfl⟩ := List.getElem_of_mem ht
  have hi' : i < options.length := hforall.length_eq ▸ hi
  exact hoptions.2 options[i] (List.getElem_mem hi') _ (hforall.get hi hi')

section Options

variable (hstar : V .wildcard) (hGV : ∀ t, G t → V t)
  (hup : ∀ ts, (∀ t ∈ ts, G t) → (up ts).Meets P Q fun us => ∀ u ∈ us, V u)
  (hdown : ∀ ts, (∀ t ∈ ts, G t) → (down ts).Meets P Q fun us => ∀ u ∈ us, V u)

include hstar hGV hup hdown

theorem ancestorPosition_meets (v : Variance) {column : List TypeExpr}
    (hcolumn : ∀ t ∈ column, G t) :
    (ancestorPosition up down v column).Meets P Q fun us => ∀ u ∈ us, V u := by
  cases v with
  | co => exact hup column hcolumn
  | contra => exact hdown column hcolumn
  | inv =>
    refine Inquiry.meets_pure fun t ht => ?_
    rcases mem_agreedOption ht with hmem | ⟨rfl, -⟩
    · exact hGV t (hcolumn t hmem)
    · exact hstar

theorem ancestorOptions_meets (ps : List Param) {rows : List (List TypeExpr)}
    (hrows : ∀ row ∈ rows, ∀ t ∈ row, G t) :
    (ancestorOptions up down ps rows).Meets P Q fun options =>
      ∀ found, options = some found → OptionsFor V ps found := by
  induction ps generalizing rows with
  | nil =>
    refine Inquiry.meets_pure fun found hfound => ?_
    obtain rfl := Option.some.inj hfound
    exact ⟨rfl, by simp⟩
  | cons p ps ih =>
    have hcolumn : ∀ t ∈ rows.filterMap (·.head?), G t := by
      intro t ht
      obtain ⟨row, hrow, hhead⟩ := List.mem_filterMap.mp ht
      exact hrows row hrow t (List.mem_of_head? hhead)
    have htails : ∀ row ∈ rows.map (·.tail), ∀ t ∈ row, G t := by
      intro row hrow t ht
      obtain ⟨row', hrow', rfl⟩ := List.mem_map.mp hrow
      exact hrows row' hrow' t (List.mem_of_mem_tail ht)
    simp only [ancestorOptions]
    apply (ancestorPosition_meets hstar hGV hup hdown p.variance hcolumn).bind
    intro position hposition
    split
    · exact Inquiry.meets_pure (by simp)
    · apply (ih htails).bind
      intro rest hrest
      refine Inquiry.meets_pure fun found hfound => ?_
      obtain ⟨options, hoptions, rfl⟩ := Option.map_eq_some_iff.mp hfound
      exact (hrest options hoptions).cons hposition

theorem descendantPosition_meets (v : Variance) {column : List TypeExpr}
    (hcolumn : ∀ t ∈ column, G t) :
    (descendantPosition up down v column).Meets P Q fun us => ∀ u ∈ us, V u := by
  have hwith (us : List TypeExpr) (hus : ∀ u ∈ us, V u) :
      ∀ u ∈ (us ++ column).eraseDups, V u := by
    intro u hu
    rcases List.mem_append.mp (List.mem_eraseDups.mp hu) with hmem | hmem
    · exact hus u hmem
    · exact hGV u (hcolumn u hmem)
  unfold descendantPosition
  split
  · exact Inquiry.meets_pure (by simpa using hstar)
  · cases v with
    | co => exact (hdown column hcolumn).bind fun us hus => Inquiry.meets_pure (hwith us hus)
    | contra => exact (hup column hcolumn).bind fun us hus => Inquiry.meets_pure (hwith us hus)
    | inv => exact Inquiry.meets_pure fun u hu => hGV u (hcolumn u (List.mem_eraseDups.mp hu))

theorem descendantOptions_meets (ps : List Param) {rows : List (List (Option TypeExpr))}
    (hrows : ∀ row ∈ rows, ∀ t, some t ∈ row → G t) :
    (descendantOptions up down ps rows).Meets P Q (OptionsFor V ps) := by
  induction ps generalizing rows with
  | nil => exact Inquiry.meets_pure ⟨rfl, by simp⟩
  | cons p ps ih =>
    have hcolumn : ∀ t ∈ rows.filterMap fun row => row.head?.join, G t := by
      intro t ht
      obtain ⟨row, hrow, hhead⟩ := List.mem_filterMap.mp ht
      rw [Option.join_eq_some_iff] at hhead
      exact hrows row hrow t (List.mem_of_head? hhead)
    have htails : ∀ row ∈ rows.map (·.tail), ∀ t, some t ∈ row → G t := by
      intro row hrow t ht
      obtain ⟨row', hrow', rfl⟩ := List.mem_map.mp hrow
      exact hrows row' hrow' t (List.mem_of_mem_tail ht)
    simp only [descendantOptions]
    apply (descendantPosition_meets hstar hGV hup hdown p.variance hcolumn).bind
    intro position hposition
    apply (ih htails).bind
    intro rest hrest
    exact Inquiry.meets_pure (hrest.cons hposition)

end Options

end Hierarchy

end Steps

end TypedBlocks
