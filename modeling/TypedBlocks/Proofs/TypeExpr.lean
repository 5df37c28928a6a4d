import TypedBlocks.TypeExpr.Basic

/-! Induction over type expressions, and what agreement means without wildcards. -/
namespace TypedBlocks.TypeExpr

/-- Induction on an expression, with the statement at hand for each parameter. -/
@[elab_as_elim]
theorem byParams {motive : TypeExpr → Prop}
    (mk : ∀ name params, (∀ p ∈ params, motive p) → motive ⟨name, params⟩) (t : TypeExpr) :
    motive t :=
  @TypeExpr.rec motive (fun ps => ∀ p ∈ ps, motive p) mk
    (fun _ hp => absurd hp List.not_mem_nil)
    (fun _ _ first rest => List.forall_mem_cons.mpr ⟨first, rest⟩) t

@[simp]
theorem substituteAll_eq_map (assignment : List (Text × TypeExpr)) (ts : List TypeExpr) :
    substituteAll assignment ts = ts.map (substitute assignment) := by
  induction ts with
  | nil => rfl
  | cons t ts ih => simp [substituteAll, ih]

@[simp]
theorem walkAll_eq_flatMap (ts : List TypeExpr) : walkAll ts = ts.flatMap walk := by
  induction ts with
  | nil => rfl
  | cons t ts ih => simp [walkAll, ih]

theorem walk_mk (name : Text) (params : List TypeExpr) :
    walk ⟨name, params⟩ = ⟨name, params⟩ :: params.flatMap walk := by
  simp [walk]

theorem self_mem_walk (t : TypeExpr) : t ∈ t.walk := by
  obtain ⟨name, params⟩ := t
  rw [walk_mk]
  exact List.mem_cons_self

theorem mem_walk_of_param {t p u : TypeExpr} (hp : p ∈ t.params) (hu : u ∈ p.walk) :
    u ∈ t.walk := by
  obtain ⟨name, params⟩ := t
  rw [walk_mk]
  exact List.mem_cons_of_mem _ (List.mem_flatMap.mpr ⟨p, hp, hu⟩)

theorem size_le_sizeAll {t : TypeExpr} {ts : List TypeExpr} (h : t ∈ ts) :
    t.size ≤ sizeAll ts := by
  induction ts with
  | nil => exact absurd h List.not_mem_nil
  | cons u us ih =>
    rcases List.mem_cons.mp h with rfl | h
    · exact Nat.le_add_right _ _
    · exact Nat.le_trans (ih h) (Nat.le_add_left _ _)

theorem size_lt_of_mem {t : TypeExpr} {name : Text} {params : List TypeExpr} (h : t ∈ params) :
    t.size < size ⟨name, params⟩ := by
  have := size_le_sizeAll h
  simp only [size]
  omega

theorem size_le_of_mem_walk {t u : TypeExpr} (hu : u ∈ t.walk) : u.size ≤ t.size := by
  induction t using byParams with
  | mk name params ih =>
    rw [walk_mk] at hu
    rcases List.mem_cons.mp hu with rfl | hu
    · exact Nat.le_refl _
    · obtain ⟨p, hp, hu⟩ := List.mem_flatMap.mp hu
      exact Nat.le_trans (ih p hp hu) (Nat.le_of_lt (size_lt_of_mem hp))

theorem size_pos (t : TypeExpr) : 0 < t.size := by
  obtain ⟨name, params⟩ := t
  rw [size]
  omega

theorem length_walk (t : TypeExpr) : t.walk.length = t.size := by
  induction t using byParams with
  | mk name params ih =>
    have hall (ps : List TypeExpr) (hps : ∀ p ∈ ps, p ∈ params) :
        (walkAll ps).length = sizeAll ps := by
      induction ps with
      | nil => rfl
      | cons p ps ihp =>
        have hp := ih p (hps p List.mem_cons_self)
        have hps := ihp fun q hq => hps q (List.mem_cons_of_mem p hq)
        rw [walkAll, sizeAll, List.length_append, hp, hps]
    rw [walk, size, List.length_cons, hall params fun _ hp => hp]

def StarFree (t : TypeExpr) : Prop :=
  t.mentions star = false

instance (t : TypeExpr) : Decidable t.StarFree :=
  inferInstanceAs (Decidable (t.mentions star = false))

theorem starFree_mk {name : Text} {params : List TypeExpr} :
    StarFree ⟨name, params⟩ ↔ name ≠ star ∧ ∀ p ∈ params, p.StarFree := by
  simp only [StarFree, mentions, walk_mk, List.any_cons, Bool.or_eq_false_iff, List.any_eq_false,
    List.mem_flatMap, beq_eq_false_iff_ne]
  constructor
  · rintro ⟨hn, hp⟩
    exact ⟨hn, fun p hp' t ht => hp t ⟨p, hp', ht⟩⟩
  · rintro ⟨hn, hp⟩
    exact ⟨hn, fun t ⟨p, hp', ht⟩ => hp p hp' t ht⟩

theorem StarFree.isWildcard {t : TypeExpr} (h : t.StarFree) : t.isWildcard = false := by
  obtain ⟨name, params⟩ := t
  simp [TypeExpr.isWildcard, (starFree_mk.mp h).1]

theorem agrees_refl (t : TypeExpr) : t.agrees t = true := by
  have all (ps : List TypeExpr) (h : ∀ p ∈ ps, p.agrees p = true) : agreeAll ps ps = true := by
    induction ps with
    | nil => rfl
    | cons p ps ih =>
      simp only [agreeAll, Bool.and_eq_true]
      exact ⟨h p List.mem_cons_self, ih fun q hq => h q (List.mem_cons_of_mem p hq)⟩
  induction t using byParams with
  | mk name params ih => simp [agrees, all params ih]

theorem agrees_comm (a b : TypeExpr) : a.agrees b = b.agrees a := by
  induction a using byParams generalizing b with
  | mk name params ih =>
    obtain ⟨name', params'⟩ := b
    have all (ps qs : List TypeExpr) (hp : ∀ p ∈ ps, p ∈ params) :
        agreeAll ps qs = agreeAll qs ps := by
      induction ps generalizing qs with
      | nil => cases qs <;> rfl
      | cons p ps ihp =>
        cases qs with
        | nil => rfl
        | cons q qs =>
          simp only [agreeAll]
          rw [ih p (hp p List.mem_cons_self) q,
            ihp qs fun r hr => hp r (List.mem_cons_of_mem p hr)]
    simp only [agrees, all params params' fun _ h => h, Bool.beq_comm (a := name)]
    rw [Bool.or_comm (isWildcard _)]

/-- Without wildcards only equal expressions agree. -/
theorem StarFree.agrees_iff {a b : TypeExpr} (ha : a.StarFree) (hb : b.StarFree) :
    a.agrees b = true ↔ a = b := by
  constructor
  · induction a using byParams generalizing b with
    | mk name params ih =>
      obtain ⟨name', params'⟩ := b
      have all (ps qs : List TypeExpr) (hp : ∀ p ∈ ps, p ∈ params) (hq : ∀ q ∈ qs, q ∈ params') :
          agreeAll ps qs = true → ps = qs := by
        induction ps generalizing qs with
        | nil => cases qs <;> simp [agreeAll]
        | cons p ps ihp =>
          cases qs with
          | nil => simp [agreeAll]
          | cons q qs =>
            simp only [agreeAll, Bool.and_eq_true]
            rintro ⟨hpq, hrest⟩
            have hp' := hp p List.mem_cons_self
            have hq' := hq q List.mem_cons_self
            rw [ih p hp' ((starFree_mk.mp ha).2 p hp') ((starFree_mk.mp hb).2 q hq') hpq,
              ihp qs (fun r hr => hp r (List.mem_cons_of_mem p hr))
                (fun r hr => hq r (List.mem_cons_of_mem q hr)) hrest]
      simp only [agrees, ha.isWildcard, hb.isWildcard, Bool.false_or, Bool.and_eq_true,
        beq_iff_eq]
      rintro ⟨rfl, h⟩
      rw [all params params' (fun _ h => h) (fun _ h => h) h]
  · rintro rfl
    exact agrees_refl a

end TypedBlocks.TypeExpr
