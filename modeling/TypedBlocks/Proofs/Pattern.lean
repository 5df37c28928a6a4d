import TypedBlocks.Pattern.Basic

/-! What patterns mean, and that matching them by derivatives is right. A pattern reads a piece of a
text, from the place after one character to the place before the rest; anchors read nothing and
look at the characters on both sides. Main statement: a text fits a pattern exactly if the pattern
reads it from the start to the end. -/
namespace TypedBlocks.Pattern

/-- Pieces of a text, given with the character before them and with the rest of the text. -/
abbrev Pieces := Option CodePoint → List CodePoint → List CodePoint → Prop

/-- The last character of a piece, or the one before the piece if it is empty. -/
def lastOf (before : Option CodePoint) (piece : List CodePoint) : Option CodePoint :=
  piece.getLast?.or before

theorem lastOf_cons (before : Option CodePoint) (c : CodePoint) (piece : List CodePoint) :
    lastOf before (c :: piece) = lastOf (some c) piece := by
  cases piece <;> simp [lastOf, List.getLast?_cons]

namespace Pieces

variable {P Q : Pieces} {before : Option CodePoint} {c : CodePoint} {piece rest : List CodePoint}

/-- Two pieces, one after the other. -/
def append (P Q : Pieces) : Pieces := fun before piece rest =>
  ∃ first second, piece = first ++ second ∧ P before first (second ++ rest) ∧
    Q (lastOf before first) second rest

def repeated (P : Pieces) : Nat → Pieces
  | 0 => fun _ piece _ => piece = []
  | k + 1 => P.append (P.repeated k)

/-- After a character has been read. -/
def onward (P : Pieces) (before : Option CodePoint) (c : CodePoint) : Pieces := fun _ piece rest =>
  P before (c :: piece) rest

theorem append_nil_iff : P.append Q before [] rest ↔ P before [] rest ∧ Q before [] rest := by
  constructor
  · rintro ⟨first, second, heq, hfirst, hsecond⟩
    obtain ⟨rfl, rfl⟩ := List.nil_eq_append_iff.mp heq
    exact ⟨hfirst, hsecond⟩
  · rintro ⟨hfirst, hsecond⟩
    exact ⟨[], [], rfl, hfirst, hsecond⟩

/-- The character is read in the second piece, or else in the first. -/
theorem append_cons_iff : P.append Q before (c :: piece) rest ↔
    (P before [] (c :: piece ++ rest) ∧ Q before (c :: piece) rest) ∨
      (P.onward before c).append Q (some c) piece rest := by
  constructor
  · rintro ⟨first, second, heq, hfirst, hsecond⟩
    cases first with
    | nil =>
      obtain rfl := heq
      exact .inl ⟨hfirst, hsecond⟩
    | cons d first =>
      obtain ⟨rfl, rfl⟩ := List.cons_eq_cons.mp heq
      rw [lastOf_cons] at hsecond
      exact .inr ⟨first, second, rfl, hfirst, hsecond⟩
  · rintro (⟨hfirst, hsecond⟩ | ⟨first, second, rfl, hfirst, hsecond⟩)
    · exact ⟨[], c :: piece, rfl, hfirst, hsecond⟩
    · rw [← lastOf_cons before] at hsecond
      exact ⟨c :: first, second, rfl, hfirst, hsecond⟩

theorem append_congr {P' Q' : Pieces}
    (hP : ∀ first second, piece = first ++ second →
      (P before first (second ++ rest) ↔ P' before first (second ++ rest)))
    (hQ : ∀ before second, Q before second rest ↔ Q' before second rest) :
    P.append Q before piece rest ↔ P'.append Q' before piece rest := by
  refine exists_congr fun first => exists_congr fun second => and_congr_right fun heq => ?_
  rw [hP first second heq, hQ]

theorem append_exists {C : Nat → Prop} {R : Nat → Pieces} :
    P.append (fun before piece rest => ∃ j, C j ∧ R j before piece rest) before piece rest ↔
      ∃ j, C j ∧ P.append (R j) before piece rest := by
  constructor
  · rintro ⟨first, second, heq, hfirst, j, hj, hsecond⟩
    exact ⟨j, hj, first, second, heq, hfirst, hsecond⟩
  · rintro ⟨j, hj, first, second, heq, hfirst, hsecond⟩
    exact ⟨first, second, heq, hfirst, j, hj, hsecond⟩

theorem repeated_nil_iff {k : Nat} :
    P.repeated k before [] rest ↔ k = 0 ∨ P before [] rest := by
  induction k with
  | zero => simp [repeated]
  | succ k ih =>
    rw [repeated, append_nil_iff, ih]
    simp only [Nat.add_one_ne_zero, false_or, and_iff_left_iff_imp]
    exact .inr

/-- Some times read nothing; then comes the one that reads the character, and the others follow. -/
theorem repeated_cons_iff {k : Nat} : P.repeated k before (c :: piece) rest ↔
    ∃ j i, k = i + j + 1 ∧ (i = 0 ∨ P before [] (c :: piece ++ rest)) ∧
      (P.onward before c).append (P.repeated j) (some c) piece rest := by
  induction k with
  | zero => simp [repeated]
  | succ k ih =>
    rw [repeated, append_cons_iff, ih]
    constructor
    · rintro (⟨hnone, j, i, rfl, -, hread⟩ | hread)
      · exact ⟨j, i + 1, by omega, .inr hnone, hread⟩
      · exact ⟨k, 0, by omega, .inl rfl, hread⟩
    · rintro ⟨j, i, hk, hi, hread⟩
      cases i with
      | zero =>
        obtain rfl : k = j := by omega
        exact .inr hread
      | succ i =>
        have hnone := hi.resolve_left (Nat.add_one_ne_zero i)
        exact .inl ⟨hnone, j, i, by omega, .inr hnone, hread⟩

end Pieces

def Within (least : Nat) (more : Option Nat) (k : Nat) : Prop :=
  least ≤ k ∧ ∀ n, more = some n → k ≤ least + n

/-- How many times may follow one that reads something. If times may read nothing, as many as are
missing from the least number can have gone before it. -/
theorem within_skips {least j : Nat} {more : Option Nat} {silent : Prop}
    (hskips : least = 0 ∨ silent) (hsome : ¬(least = 0 ∧ more = some 0)) :
    Within 0 (more.map (least + · - 1)) j ↔
      ∃ i, (i = 0 ∨ silent) ∧ Within least more (i + j + 1) := by
  constructor
  · rintro ⟨-, hmost⟩
    refine ⟨least - (j + 1), hskips.imp_left (by omega), by omega, ?_⟩
    rintro n rfl
    have hj := hmost (least + n - 1) rfl
    have hpos : ¬(least = 0 ∧ n = 0) := fun hzero => hsome ⟨hzero.1, congrArg some hzero.2⟩
    omega
  · rintro ⟨i, -, hleast, hmost⟩
    refine ⟨Nat.zero_le j, ?_⟩
    simp only [Option.map_eq_some_iff]
    rintro _ ⟨n, hn, rfl⟩
    have hj := hmost n hn
    omega

theorem within_pred {least j : Nat} {more : Option Nat} (hleast : least ≠ 0) :
    Within (least - 1) more j ↔ Within least more (j + 1) := by
  refine and_congr (by omega) (forall_congr' fun n => imp_congr_right fun _ => ?_)
  omega

def Reads : Pattern → Pieces
  | .never => fun _ _ _ => False
  | .empty => fun _ piece _ => piece = []
  | .here anchor => fun before piece rest => piece = [] ∧ anchor.holds before rest = true
  | .one set => fun _ piece _ => ∃ c, piece = [c] ∧ set.has c = true
  | .seq a b => a.Reads.append b.Reads
  | .alt a b => fun before piece rest => a.Reads before piece rest ∨ b.Reads before piece rest
  | .times p least more => fun before piece rest =>
    ∃ k, Within least more k ∧ p.Reads.repeated k before piece rest

variable {before : Option CodePoint} {c : CodePoint} {piece rest : List CodePoint}

theorem nullable_iff (p : Pattern) : p.nullable before rest = true ↔ p.Reads before [] rest := by
  induction p with
  | never => simp [nullable, Reads]
  | empty => simp [nullable, Reads]
  | here anchor => simp [nullable, Reads]
  | one set => simp [nullable, Reads]
  | seq a b iha ihb => simp [nullable, Reads, Pieces.append_nil_iff, iha, ihb]
  | alt a b iha ihb => simp [nullable, Reads, iha, ihb]
  | times p least more ih =>
    simp only [nullable, Reads, Pieces.repeated_nil_iff, Bool.or_eq_true, beq_iff_eq, ih]
    constructor
    · exact fun hnone => ⟨least, ⟨Nat.le_refl _, by omega⟩, hnone⟩
    · rintro ⟨k, ⟨hleast, -⟩, hnone⟩
      exact hnone.imp_left (by omega)

theorem reads_mkSeq (a b : Pattern) : (mkSeq a b).Reads before piece rest ↔
    a.Reads.append b.Reads before piece rest := by
  cases a with
  | never => simp [mkSeq, Reads, Pieces.append]
  | empty =>
    constructor
    · exact fun hread => ⟨[], piece, rfl, rfl, hread⟩
    · rintro ⟨_, second, rfl, rfl, hread⟩
      exact hread
  | here | one | seq | alt | times => rfl

theorem reads_mkAlt (a b : Pattern) : (mkAlt a b).Reads before piece rest ↔
    a.Reads before piece rest ∨ b.Reads before piece rest := by
  unfold mkAlt
  split
  · simp [Reads]
  · simp [Reads]
  · rfl

theorem reads_mkSeq_deriv {p q : Pattern}
    (hderiv : ∀ {piece rest}, (p.deriv before c (piece ++ rest)).Reads (some c) piece rest ↔
      p.Reads before (c :: piece) rest) :
    (mkSeq (p.deriv before c (piece ++ rest)) q).Reads (some c) piece rest ↔
      (p.Reads.onward before c).append q.Reads (some c) piece rest := by
  rw [reads_mkSeq]
  refine Pieces.append_congr (fun first second heq => ?_) fun _ _ => Iff.rfl
  rw [heq, List.append_assoc]
  exact hderiv

/-- One time reads the character, after `i` times that read nothing and before `j` others. -/
theorem reads_times_cons {p : Pattern} {least : Nat} {more : Option Nat} :
    (times p least more).Reads before (c :: piece) rest ↔
      ∃ j, (∃ i, (i = 0 ∨ p.nullable before (c :: piece ++ rest) = true) ∧
          Within least more (i + j + 1)) ∧
        (p.Reads.onward before c).append (p.Reads.repeated j) (some c) piece rest := by
  simp only [Reads, Pieces.repeated_cons_iff, nullable_iff]
  constructor
  · rintro ⟨k, hk, j, i, rfl, hi, hread⟩
    exact ⟨j, ⟨i, hi, hk⟩, hread⟩
  · rintro ⟨j, ⟨i, hi, hk⟩, hread⟩
    exact ⟨i + j + 1, hk, j, i, rfl, hi, hread⟩

/-- A derivative reads what the pattern reads after the character. -/
theorem deriv_iff (p : Pattern) :
    (p.deriv before c (piece ++ rest)).Reads (some c) piece rest ↔
      p.Reads before (c :: piece) rest := by
  induction p generalizing piece rest with
  | never => simp [deriv, Reads]
  | empty => simp [deriv, Reads]
  | here anchor => simp [deriv, Reads]
  | one set =>
    rw [deriv, Reads]
    split
    · next hset =>
      constructor
      · rintro rfl
        exact ⟨c, rfl, hset⟩
      · rintro ⟨d, heq, -⟩
        exact (List.cons_eq_cons.mp heq).2
    · next hset =>
      simp only [Reads, false_iff, not_exists, not_and]
      rintro d heq
      rwa [← (List.cons_eq_cons.mp heq).1]
  | seq a b iha ihb =>
    rw [deriv, Reads, Pieces.append_cons_iff, ← nullable_iff]
    split
    · next hnull =>
      rw [reads_mkAlt, reads_mkSeq_deriv iha, ihb]
      simp [hnull, or_comm]
    · next hnull =>
      rw [reads_mkSeq_deriv iha]
      simp [hnull]
  | alt a b iha ihb => simp only [deriv, reads_mkAlt, Reads, iha, ihb]
  | times p least more ih =>
    rw [reads_times_cons, deriv]
    split
    · next hnone =>
      simp only [Bool.and_eq_true, decide_eq_true_eq] at hnone
      obtain ⟨rfl, rfl⟩ := hnone
      simp only [Reads, false_iff, not_exists, not_and]
      rintro j ⟨i, -, -, hmost⟩
      exact absurd (hmost 0 rfl) (by omega)
    · next hsome =>
      simp only [Bool.and_eq_true, decide_eq_true_eq] at hsome
      split
      · next hskips =>
        simp only [Bool.or_eq_true, decide_eq_true_eq] at hskips
        rw [reads_mkSeq_deriv ih, Reads, Pieces.append_exists]
        exact exists_congr fun j => and_congr_left fun _ => within_skips hskips hsome
      · next hskips =>
        simp only [Bool.or_eq_true, decide_eq_true_eq, not_or] at hskips
        rw [reads_mkSeq_deriv ih, Reads, Pieces.append_exists]
        refine exists_congr fun j => and_congr_left fun _ => ?_
        simp [hskips.2, within_pred hskips.1]

theorem fitsFrom_iff (before : Option CodePoint) (text : List CodePoint) (p : Pattern) :
    p.fitsFrom before text = true ↔ p.Reads before text [] := by
  induction text generalizing before p with
  | nil => exact nullable_iff p
  | cons c rest ih =>
    have hstep : (p.deriv before c (rest ++ [])).Reads (some c) rest [] ↔
        p.Reads before (c :: rest) [] := deriv_iff p
    rwa [List.append_nil, ← ih] at hstep

/-- A text fits a pattern exactly if the pattern reads it from the start to the end. -/
theorem fits_iff (p : Pattern) (s : Text) : p.fits s = true ↔ p.Reads none s.toList [] :=
  fitsFrom_iff none s.toList p

end TypedBlocks.Pattern
