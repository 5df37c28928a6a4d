import TypedBlocks.Declaration
import TypedBlocks.Definition.Shape
import TypedBlocks.Proofs.Text.Lower
import TypedBlocks.Proofs.TypeExpr.Grammar

/-! What the rules on the shape of a definition ask. They are about names, variances and parents as
texts, and about objects and lists around them. A name with a line break after it passes for a
name. -/
namespace TypedBlocks

open Json (Value)

/-- A name with a line break after it. -/
def Text.EndsInBreak (s : Text) : Prop :=
  ∃ name, TypeExpr.isName name = true ∧ s.toList = name ++ [CodePoint.char '\n']

theorem Text.EndsInBreak.not_isNameText {s : Text} (hs : s.EndsInBreak) :
    TypeExpr.isNameText s = false := by
  obtain ⟨name, -, hs⟩ := hs
  apply Bool.eq_false_iff.mpr
  intro hname
  have hplain := (TypeExpr.isName_iff.mp hname).plain (CodePoint.char '\n') (by simp [hs])
  exact absurd hplain.1 (by decide)

namespace Definition

def fieldsOf : Value → List (Text × Value)
  | .object fields => fields
  | _ => []

def itemsOf : Value → List Value
  | .list items => items
  | _ => []

end Definition

namespace Definition.Shape

open TypedBlocks.TypeExpr (isNameText)

variable {path : List Text} {v : Value} {fields : List (Text × Value)} {key : Text}
  {rule : List Text → Value → List Violation}

theorem fitsName_iff {s : Text} : fitsName s = true ↔ isNameText s = true ∨ s.EndsInBreak := by
  simp only [fitsName, Bool.or_eq_true, Bool.and_eq_true, beq_iff_eq]
  apply or_congr_right
  constructor
  · rintro ⟨hlast, hname⟩
    obtain ⟨name, hs⟩ := List.getLast?_eq_some_iff.mp hlast
    rw [hs, List.dropLast_concat] at hname
    exact ⟨name, hname, hs⟩
  · rintro ⟨name, hname, hs⟩
    rw [hs, List.dropLast_concat]
    exact ⟨List.getLast?_concat, hname⟩

/-- A text that the rules take for a name: a name, or one with a line break after it. -/
def NameLike (v : Value) : Prop :=
  ∃ s, v = .text s ∧ (isNameText s = true ∨ s.EndsInBreak) ∧ s ≠ TypeExpr.star

theorem nameLike_of_name (h : name path v = []) : NameLike v := by
  cases v with
  | text s =>
    simp only [name, List.append_eq_nil_iff, ite_eq_left_iff, ite_eq_right_iff] at h
    refine ⟨s, rfl, fitsName_iff.mp ?_, fun heq => ?_⟩
    · by_contra hno
      simpa using h.1 hno
    · simpa using h.2 heq
  | _ => simp [name] at h

def VarianceLike (v : Value) : Prop :=
  ∃ s, v = .text s ∧ fitsVariance s = true

theorem varianceLike_of_variance (h : variance path v = []) : VarianceLike v := by
  cases v with
  | text s =>
    simp only [variance, ite_eq_left_iff] at h
    refine ⟨s, rfl, ?_⟩
    by_contra hno
    simpa using h hno
  | _ => simp [variance] at h

def ParentLike (v : Value) : Prop :=
  ∃ s : Text, v = .text s ∧ s.isEmpty = false

theorem parentLike_of_parent (h : parent path v = []) : ParentLike v := by
  cases v with
  | text s =>
    simp only [parent, ite_eq_right_iff] at h
    refine ⟨s, rfl, ?_⟩
    apply Bool.eq_false_iff.mpr
    intro hempty
    simpa using h hempty
  | _ => simp [parent] at h

theorem optional_eq_nil (h : optional path fields key rule = [])
    (hv : Value.field? fields key = some v) : rule (path ++ [key]) v = [] := by
  rwa [optional, hv] at h

theorem exists_of_required (h : required path fields key = []) :
    ∃ v, Value.field? fields key = some v := by
  apply Option.isSome_iff_exists.mp
  by_contra hno
  simp [required, hno] at h

def ParamLike (v : Value) : Prop :=
  ∃ fields n u, v = .object fields ∧ Value.field? fields "name" = some n ∧ NameLike n ∧
    Value.field? fields "variance" = some u ∧ VarianceLike u

theorem paramLike_of_param (h : param path v = []) : ParamLike v := by
  cases v with
  | object fields =>
    simp only [param, List.append_eq_nil_iff] at h
    obtain ⟨⟨⟨⟨hname, hvariance⟩, hnameRule⟩, hvarianceRule⟩, -⟩ := h
    obtain ⟨n, hn⟩ := exists_of_required hname
    obtain ⟨u, hu⟩ := exists_of_required hvariance
    exact ⟨fields, n, u, rfl, hn, nameLike_of_name (optional_eq_nil hnameRule hn), hu,
      varianceLike_of_variance (optional_eq_nil hvarianceRule hu)⟩
  | _ => simp [param] at h

def ListLike (P : Value → Prop) (v : Value) : Prop :=
  (v = .null ∨ ∃ items, v = .list items) ∧ ∀ item ∈ itemsOf v, P item

theorem listLike_of_listOf {P : Value → Prop} (hrule : ∀ path v, rule path v = [] → P v)
    (h : listOf rule path v = []) : ListLike P v := by
  cases v with
  | list items =>
    refine ⟨.inr ⟨items, rfl⟩, fun item hitem => ?_⟩
    obtain ⟨i, hi⟩ := List.mem_iff_getElem?.mp hitem
    have hmem : (item, i) ∈ items.zipIdx := List.mk_mem_zipIdx_iff_getElem?.mpr hi
    exact hrule _ _ (List.flatMap_eq_nil_iff.mp h (item, i) hmem)
  | _ => simp [listOf] at h

theorem listLike_of_optional {P : Value → Prop} (hrule : ∀ path v, rule path v = [] → P v)
    (h : optional path fields key (listOf rule) = []) : ListLike P (Value.field fields key) := by
  cases hfield : Value.field? fields key with
  | none =>
    rw [Value.field, hfield]
    exact ⟨.inl rfl, by simp [itemsOf]⟩
  | some v =>
    rw [Value.field, hfield]
    exact listLike_of_listOf hrule (optional_eq_nil h hfield)

def BodyLike (v : Value) : Prop :=
  (v = .null ∨ ∃ fields, v = .object fields) ∧
    ListLike ParamLike (Value.field (fieldsOf v) "params") ∧
    ListLike ParentLike (Value.field (fieldsOf v) "fulfills")

theorem bodyLike_of_body (h : body path v = []) : BodyLike v := by
  cases v with
  | null =>
    have hnone {P : Value → Prop} : ListLike P .null := ⟨.inl rfl, by simp [itemsOf]⟩
    exact ⟨.inl rfl, hnone, hnone⟩
  | object fields =>
    simp only [body, List.append_eq_nil_iff] at h
    obtain ⟨⟨hparams, hparents⟩, -⟩ := h
    exact ⟨.inr ⟨fields, rfl⟩, listLike_of_optional (fun _ _ => paramLike_of_param) hparams,
      listLike_of_optional (fun _ _ => parentLike_of_parent) hparents⟩
  | _ => simp [body] at h

/-- A definition without violations is a mapping of names to bodies. -/
theorem exists_of_violations {d : Definition} (h : d.violations = []) :
    ∃ entries, d = .mapping entries ∧ ∀ entry ∈ entries, NameLike entry.1 ∧ BodyLike entry.2 := by
  have hnone : unordered d = [] := by
    have hperm := List.mergeSort_perm (unordered d) fun a b => notAfter a.path b.path
    rw [show List.mergeSort (unordered d) _ = [] from h] at hperm
    exact List.nil_perm.mp hperm
  cases d with
  | mapping entries =>
    obtain ⟨hnames, hbodies⟩ := List.append_eq_nil_iff.mp hnone
    refine ⟨entries, rfl, fun entry hentry => ⟨?_, ?_⟩⟩
    · exact nameLike_of_name (List.flatMap_eq_nil_iff.mp hnames entry hentry)
    · exact bodyLike_of_body (List.flatMap_eq_nil_iff.mp hbodies entry hentry)
  | other v => simp [unordered] at hnone

end Definition.Shape

/-! ### Variances in either case -/

namespace Text

/-- A letter and its capital both give the letter, whatever stands around them. -/
def IsLetterPair (pair : Char × Char) : Prop :=
  ∀ c ∈ [CodePoint.char pair.1, CodePoint.char pair.2],
    c.toNat ≠ 0x3a3 ∧ c.toNat ≠ 0x130 ∧ lowerChar c = pair.1

instance : DecidablePred IsLetterPair :=
  fun _ => inferInstanceAs (Decidable (∀ c ∈ [_, _], _ ∧ _ ∧ _))

theorem isPrefixOf_lowerFrom {letters : List (Char × Char)}
    (hletters : ∀ pair ∈ letters, IsLetterPair pair) {before cs : List CodePoint}
    (h : Definition.Shape.startsWithLetters letters cs = true) :
    (letters.map fun pair => CodePoint.char pair.1).isPrefixOf (lowerFrom before cs) = true := by
  induction letters generalizing before cs with
  | nil => simp
  | cons pair letters ih =>
    obtain ⟨small, capital⟩ := pair
    obtain ⟨hpair, hletters⟩ := List.forall_mem_cons.mp hletters
    cases cs with
    | nil => simp [Definition.Shape.startsWithLetters] at h
    | cons c cs =>
      simp only [Definition.Shape.startsWithLetters, Bool.and_eq_true, Bool.or_eq_true,
        decide_eq_true_eq] at h
      obtain ⟨hsigma, hdotted, himage⟩ := hpair c (by simpa using h.1)
      simp only [lowerFrom, if_neg hsigma, if_neg hdotted, himage, List.map_cons,
        List.singleton_append, List.isPrefixOf_cons_cons, beq_self_eq_true, Bool.true_and]
      exact ih hletters h.2

end Text

theorem Variance.ofText?_of_fitsVariance {s : Text}
    (h : Definition.Shape.fitsVariance s = true) : ∃ variance, ofText? s = some variance := by
  simp only [ofText?]
  split
  · exact ⟨.inv, rfl⟩
  · next hinv =>
    split
    · exact ⟨.contra, rfl⟩
    · rcases Bool.or_eq_true_iff.mp h with hletters | hletters
      · exact absurd (Text.isPrefixOf_lowerFrom (by decide +kernel) hletters) hinv
      · exact ⟨.co, if_pos (Text.isPrefixOf_lowerFrom (by decide +kernel) hletters)⟩

end TypedBlocks
