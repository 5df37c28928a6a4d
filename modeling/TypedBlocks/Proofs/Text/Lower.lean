import TypedBlocks.Text.Basic
import TypedBlocks.Text.Case

/-! Lower case below the letters: a character before `a` comes from itself only. Lower case of lower
case changes nothing, and it makes no blanks. -/
namespace TypedBlocks

theorem CodePoint.toNat_ofNat {n : Nat} (h : n < 0x110000) : (ofNat n).toNat = n := by
  unfold ofNat
  split
  · next hs =>
    simp only [toNat]
    omega
  · next hs =>
    have hv : n.isValidChar := by
      simp only [Nat.isValidChar]
      omega
    rw [toNat, Char.ofNat, dif_pos hv]
    rfl

namespace Text

theorem caseRuns_image :
    ∀ r ∈ caseRuns, 0x61 ≤ r.image ∧ r.image + (r.last - r.first) < 0x110000 := by
  decide +kernel

/-- A lower-case form before `a` is the character itself. -/
theorem lowerChar_eq_self {c : CodePoint} (h : (lowerChar c).toNat < 0x61) : lowerChar c = c := by
  unfold lowerChar at h ⊢
  split at h
  · next r hr =>
    obtain ⟨hfirst, hlast⟩ := caseRuns_image r (List.mem_of_find?_eq_some hr)
    have hcov := List.find?_some hr
    simp only [CaseRun.covers, Bool.and_eq_true, decide_eq_true_eq] at hcov
    rw [CodePoint.toNat_ofNat (by omega)] at h
    omega
  · split at h
    · simp [CodePoint.toNat] at h
    · next hne => simp [hne]

theorem lowerFrom_eq_singleton {before cs : List CodePoint} {c : CodePoint} (hc : c.toNat < 0x61)
    (h : lowerFrom before cs = [c]) : cs = [c] := by
  cases cs with
  | nil => simp [lowerFrom] at h
  | cons d rest =>
    unfold lowerFrom at h
    have hrest : lowerFrom (d :: before) rest = [] → rest = [] := by
      cases rest with
      | nil => simp
      | cons e rest =>
        unfold lowerFrom
        intro he
        exfalso
        revert he
        dsimp only
        split
        · split <;> simp
        · split <;> simp
    dsimp only at h
    split at h
    · exfalso
      split at h
      · obtain ⟨rfl, -⟩ := List.cons.inj h
        simp [CodePoint.toNat] at hc
      · obtain ⟨rfl, -⟩ := List.cons.inj h
        simp [CodePoint.toNat] at hc
    · split at h
      · simp at h
      · obtain ⟨hd, htail⟩ := List.cons.inj h
        rw [hrest (by simpa using htail), ← lowerChar_eq_self (c := d) (hd ▸ hc), hd]

/-- A text with a lower-case form of one character before `a` is that character. -/
theorem lower_eq_singleton {t : Text} {c : CodePoint} (hc : c.toNat < 0x61)
    (h : lower t = ⟨[c]⟩) : t = ⟨[c]⟩ := by
  obtain ⟨cs⟩ := t
  simp only [lower, ofList.injEq] at h ⊢
  exact lowerFrom_eq_singleton hc h

/-! ### Lower case twice -/

/-- Nothing that the one run makes of its members is a member of the other: it comes before the
other run, after it, or between members of it that are two apart. -/
def CaseRun.misses (r q : CaseRun) : Bool :=
  Nat.blt (r.image + (r.last - r.first)) q.first || Nat.blt q.last r.image ||
    (Nat.beq q.stride 2 && (Nat.beq r.stride 2 || Nat.beq r.last r.first) &&
      Nat.beq ((r.image + q.first) % 2) 1)

theorem caseRuns_apart : caseRuns.all (fun r => caseRuns.all r.misses) = true := by
  decide +kernel

theorem covers_image {r q : CaseRun} (hr : r ∈ caseRuns) (hq : q ∈ caseRuns) {n : Nat}
    (hn : r.covers n = true) : q.covers (r.image + (n - r.first)) = false := by
  have hmisses : r.misses q = true :=
    List.all_eq_true.mp (List.all_eq_true.mp caseRuns_apart r hr) q hq
  simp only [CaseRun.misses, Bool.or_eq_true, Bool.and_eq_true, Nat.blt_eq, Nat.beq_eq] at hmisses
  simp only [CaseRun.covers, Bool.and_eq_true, decide_eq_true_eq, beq_iff_eq] at hn
  apply Bool.eq_false_iff.mpr
  intro hcovers
  simp only [CaseRun.covers, Bool.and_eq_true, decide_eq_true_eq, beq_iff_eq] at hcovers
  rcases hmisses with (hbefore | hafter) | ⟨⟨hq2, hr2⟩, hodd⟩
  · omega
  · omega
  · rw [hq2] at hcovers
    rcases hr2 with hr2 | hr2
    · rw [hr2] at hn
      omega
    · omega

/-- Neither a capital nor the capital I with a dot above, so that lower case leaves it as it is. -/
def IsSmall (c : CodePoint) : Prop :=
  (∀ r ∈ caseRuns, r.covers c.toNat = false) ∧ c.toNat ≠ 0x130

instance : DecidablePred IsSmall :=
  fun _ => inferInstanceAs (Decidable ((∀ r ∈ caseRuns, r.covers _ = false) ∧ _ ≠ 0x130))

theorem IsSmall.lowerChar {c : CodePoint} (hc : IsSmall c) : lowerChar c = c := by
  have hnone : caseRuns.find? (·.covers c.toNat) = none := by
    apply List.find?_eq_none.mpr
    intro r hr
    simp [hc.1 r hr]
  simp only [Text.lowerChar, hnone, if_neg hc.2]

theorem IsSmall.ne_sigma {c : CodePoint} (hc : IsSmall c) : c.toNat ≠ 0x3a3 := by
  intro heq
  have hcovers := hc.1 ⟨0x3a3, 0x3ab, 0x1, 0x3c3⟩ (by decide +kernel)
  rw [heq] at hcovers
  cases hcovers

/-- A character is small, or lower case moves it by the distance of its run. -/
theorem lowerChar_cases {c : CodePoint} (hc : c.toNat ≠ 0x130) :
    IsSmall c ∨ ∃ r ∈ caseRuns, r.covers c.toNat = true ∧
      (lowerChar c).toNat = r.image + (c.toNat - r.first) := by
  cases hrun : caseRuns.find? (·.covers c.toNat) with
  | none =>
    left
    exact ⟨fun r hr => by simpa using List.find?_eq_none.mp hrun r hr, hc⟩
  | some r =>
    right
    have hr := List.mem_of_find?_eq_some hrun
    have hcovers := List.find?_some hrun
    refine ⟨r, hr, hcovers, ?_⟩
    have himage := caseRuns_image r hr
    simp only [CaseRun.covers, Bool.and_eq_true, decide_eq_true_eq] at hcovers
    simp only [Text.lowerChar, hrun]
    apply CodePoint.toNat_ofNat
    omega

/-- No run has the capital I with a dot above for a lower-case form. -/
theorem caseRuns_image_ne : ∀ r ∈ caseRuns, 0x130 < r.image ∨
    r.image + (r.last - r.first) < 0x130 ∨ r.stride = 2 ∧ r.image % 2 = 1 := by
  decide +kernel

theorem isSmall_lowerChar {c : CodePoint} (hc : c.toNat ≠ 0x130) : IsSmall (lowerChar c) := by
  rcases lowerChar_cases hc with hsmall | ⟨r, hr, hcovers, himage⟩
  · rw [hsmall.lowerChar]
    exact hsmall
  · constructor
    · intro q hq
      rw [himage]
      exact covers_image hr hq hcovers
    · have hne := caseRuns_image_ne r hr
      simp only [CaseRun.covers, Bool.and_eq_true, decide_eq_true_eq, beq_iff_eq] at hcovers
      rcases hne with hne | hne | ⟨hr2, hodd⟩
      · omega
      · omega
      · rw [hr2] at hcovers
        omega

/-- The characters that lower case puts in place of the two with a rule of their own. -/
def ownImages : List CodePoint :=
  ['ς', 'σ', 'i', '\u0307']

theorem mem_lowerFrom {before cs : List CodePoint} {c : CodePoint} (h : c ∈ lowerFrom before cs) :
    c ∈ ownImages ∨ ∃ d ∈ cs, d.toNat ≠ 0x130 ∧ c = lowerChar d := by
  induction cs generalizing before with
  | nil => simp [lowerFrom] at h
  | cons d rest ih =>
    unfold lowerFrom at h
    rcases List.mem_append.mp h with himage | hrest
    · split at himage
      · left
        split at himage <;> simp_all [ownImages]
      · split at himage
        · left
          simp_all [ownImages]
        · next hd =>
          right
          exact ⟨d, List.mem_cons_self, hd, List.mem_singleton.mp himage⟩
    · rcases ih hrest with hown | ⟨e, he, hne, heq⟩
      · exact .inl hown
      · exact .inr ⟨e, List.mem_cons_of_mem d he, hne, heq⟩

theorem isSmall_of_mem_lowerFrom {before cs : List CodePoint} {c : CodePoint}
    (h : c ∈ lowerFrom before cs) : IsSmall c := by
  have hown : ∀ c ∈ ownImages, IsSmall c := by decide +kernel
  rcases mem_lowerFrom h with hc | ⟨d, -, hd, rfl⟩
  · exact hown c hc
  · exact isSmall_lowerChar hd

theorem lowerFrom_of_isSmall {before cs : List CodePoint} (h : ∀ c ∈ cs, IsSmall c) :
    lowerFrom before cs = cs := by
  induction cs generalizing before with
  | nil => simp [lowerFrom]
  | cons c rest ih =>
    have hc := h c List.mem_cons_self
    have hrest := @ih (c :: before) fun d hd => h d (List.mem_cons_of_mem c hd)
    simp only [lowerFrom, if_neg hc.ne_sigma, if_neg hc.2, hc.lowerChar, hrest,
      List.singleton_append]

/-- A text in lower case stays as it is. -/
theorem lower_lower (t : Text) : lower (lower t) = lower t := by
  show Text.ofList (lowerFrom [] (lowerFrom [] t.toList)) = _
  rw [lowerFrom_of_isSmall fun c hc => isSmall_of_mem_lowerFrom hc]
  rfl

/-- What a run makes of its members is no blank. -/
theorem caseRuns_blanks : ∀ r ∈ caseRuns, ∀ b ∈ blanks,
    r.image + (r.last - r.first) < b.first ∨ b.last < r.image := by
  decide +kernel

/-- Lower case brings in letters only: nothing before `a` and no blanks. -/
theorem letter_of_mem_lowerFrom {before cs : List CodePoint} {c : CodePoint}
    (h : c ∈ lowerFrom before cs) : c ∈ cs ∨ 0x61 ≤ c.toNat ∧ isBlank c = false := by
  have hown : ∀ c ∈ ownImages, 0x61 ≤ c.toNat ∧ isBlank c = false := by decide +kernel
  rcases mem_lowerFrom h with hc | ⟨d, hd, hne, rfl⟩
  · exact .inr (hown c hc)
  · rcases lowerChar_cases hne with hsmall | ⟨r, hr, hcovers, himage⟩
    · left
      rwa [hsmall.lowerChar]
    · right
      have hbound := caseRuns_image r hr
      simp only [CaseRun.covers, Bool.and_eq_true, decide_eq_true_eq] at hcovers
      constructor
      · omega
      · apply List.any_eq_false.mpr
        intro b hb hin
        have hapart := caseRuns_blanks r hr b hb
        simp only [CodeRange.contains, Bool.and_eq_true, decide_eq_true_eq] at hin
        omega

end Text

end TypedBlocks
