import Mathlib.Data.List.Chain
import TypedBlocks.Json.Value

/-! Reading a pointer back. Escaping replaces tildes first and slashes then; reading undoes the
replacements in the other order. No tilde is followed by a one before slashes are escaped, so each
pair that reading replaces stands for one escaped code point. -/
namespace TypedBlocks.Json.Pointer

def replaceEach (old : CodePoint) (new cs : List CodePoint) : List CodePoint :=
  cs.flatMap fun c => if c = old then new else [c]

def replacePair (first second new : CodePoint) : List CodePoint → List CodePoint
  | c :: d :: cs =>
    if c = first ∧ d = second then new :: replacePair first second new cs
    else c :: replacePair first second new (d :: cs)
  | cs => cs

/-- Slashes are turned back before tildes: the other way round an escaped tilde with a one after it
would be read as a slash. -/
def unescape (cs : List CodePoint) : List CodePoint :=
  replacePair '~' '0' '~' (replacePair '~' '1' '/' cs)

/-- The segments of a pointer: what stands between the slashes, without the piece before the
first. -/
def decode (pointer : Text) : List Text :=
  if pointer.isEmpty then []
  else ((pointer.toList.splitOn (.char '/')).drop 1).map fun piece => ⟨unescape piece⟩

variable {a b c : CodePoint} {cs : List CodePoint}

theorem replaceEach_cons_self (new : List CodePoint) :
    replaceEach c new (c :: cs) = new ++ replaceEach c new cs := by
  simp [replaceEach]

theorem replaceEach_cons_of_ne {d : CodePoint} (hne : d ≠ c) (new : List CodePoint) :
    replaceEach c new (d :: cs) = d :: replaceEach c new cs := by
  simp [replaceEach, hne]

theorem replacePair_cons_cons_self :
    replacePair a b c (a :: b :: cs) = c :: replacePair a b c cs := by
  simp [replacePair]

/-- A code point is left as it is if it does not begin a pair. -/
theorem replacePair_cons {d : CodePoint} (hd : ∀ e ∈ cs.head?, ¬(d = a ∧ e = b)) :
    replacePair a b c (d :: cs) = d :: replacePair a b c cs := by
  cases cs with
  | nil => rfl
  | cons e cs => rw [replacePair, if_neg (hd e rfl)]

/-- Escaping is done by two replacements, one after the other. -/
theorem escape_eq_replaceEach (cs : List CodePoint) :
    escape cs = replaceEach '/' ['~', '1'] (replaceEach '~' ['~', '0'] cs) := by
  induction cs with
  | nil => rfl
  | cons c cs ih =>
    rw [escape, ih]
    split
    · next htilde =>
      subst htilde
      rw [replaceEach_cons_self, List.cons_append, List.cons_append, List.nil_append,
        replaceEach_cons_of_ne (by decide), replaceEach_cons_of_ne (by decide)]
    · next htilde =>
      rw [replaceEach_cons_of_ne htilde]
      split
      · next hslash =>
        subst hslash
        rw [replaceEach_cons_self]
        rfl
      · next hslash => rw [replaceEach_cons_of_ne hslash]

/-- Pairs made from their own first code point are turned back, whatever stood there before. -/
theorem replacePair_replaceEach_self (hab : b ≠ a) :
    replacePair a b a (replaceEach a [a, b] cs) = cs := by
  induction cs with
  | nil => rfl
  | cons d cs ih =>
    by_cases hd : d = a
    · subst hd
      rw [replaceEach_cons_self]
      exact replacePair_cons_cons_self.trans (congrArg (d :: ·) ih)
    · rw [replaceEach_cons_of_ne hd, replacePair_cons fun e _ hpair => hd hpair.1, ih]

/-- Pairs made from another code point are turned back if there was no such pair before. -/
theorem replacePair_replaceEach (hab : b ≠ a)
    (hcs : cs.IsChain fun d e => ¬(d = a ∧ e = b)) :
    replacePair a b c (replaceEach c [a, b] cs) = cs := by
  induction cs with
  | nil => rfl
  | cons d cs ih =>
    obtain ⟨hd, hcs⟩ := List.isChain_cons.mp hcs
    by_cases hdc : d = c
    · subst hdc
      rw [replaceEach_cons_self]
      exact replacePair_cons_cons_self.trans (congrArg (d :: ·) (ih hcs))
    · rw [replaceEach_cons_of_ne hdc, replacePair_cons, ih hcs]
      -- what follows is the same code point as before, or the first of a new pair
      intro e he
      cases cs with
      | nil => simp [replaceEach] at he
      | cons next cs =>
        by_cases hnext : next = c
        · rw [hnext, replaceEach_cons_self] at he
          obtain rfl := Option.some.inj he
          exact fun hpair => hab hpair.2.symm
        · rw [replaceEach_cons_of_ne hnext] at he
          obtain rfl := Option.some.inj he
          exact hd next rfl

/-- After tildes are replaced, each of them is followed by a zero. -/
theorem isChain_replaceEach_tilde (cs : List CodePoint) :
    (replaceEach '~' ['~', '0'] cs).IsChain fun d e => ¬(d = .char '~' ∧ e = .char '1') := by
  induction cs with
  | nil => exact .nil
  | cons c cs ih =>
    by_cases hc : c = '~'
    · subst hc
      rw [replaceEach_cons_self]
      refine List.isChain_cons_cons.mpr ⟨by decide, List.isChain_cons.mpr ⟨?_, ih⟩⟩
      exact fun e _ hpair => absurd hpair.1 (by decide)
    · rw [replaceEach_cons_of_ne hc]
      exact List.isChain_cons.mpr ⟨fun e _ hpair => hc hpair.1, ih⟩

theorem unescape_escape (cs : List CodePoint) : unescape (escape cs) = cs := by
  rw [unescape, escape_eq_replaceEach,
    replacePair_replaceEach (by decide) (isChain_replaceEach_tilde cs),
    replacePair_replaceEach_self (by decide)]

theorem slash_notMem_escape (cs : List CodePoint) : .char '/' ∉ escape cs := by
  rw [escape_eq_replaceEach]
  intro hmem
  obtain ⟨c, -, hc⟩ := List.mem_flatMap.mp hmem
  split at hc
  · exact absurd hc (by decide)
  · next hslash => exact hslash (List.mem_singleton.mp hc).symm

/-- A pointer is its escaped segments after an empty piece, with slashes between. -/
theorem toList_join (segments : List Text) : (join segments).toList =
    [.char '/'].intercalate ([] :: segments.map fun s => escape s.toList) := by
  have hpieces (piece : List CodePoint) : piece ++ (join segments).toList =
      [.char '/'].intercalate (piece :: segments.map fun s => escape s.toList) := by
    unfold join
    induction segments generalizing piece with
    | nil => simp
    | cons s segments ih =>
      rw [List.map_cons, List.intercalate_cons_cons, ← ih, List.flatMap_cons]
      simp
  exact hpieces []

theorem splitOn_join (segments : List Text) : (join segments).toList.splitOn (.char '/') =
    [] :: segments.map fun s => escape s.toList := by
  rw [toList_join]
  refine List.splitOn_intercalate _ (List.forall_mem_cons.mpr ⟨List.not_mem_nil, ?_⟩)
    (List.cons_ne_nil _ _)
  intro piece hpiece
  obtain ⟨s, -, rfl⟩ := List.mem_map.mp hpiece
  exact slash_notMem_escape s.toList

/-- Only the pointer to no segments at all is empty. -/
theorem isEmpty_join (segments : List Text) : (join segments).isEmpty = segments.isEmpty := by
  cases segments <;> rfl

/-- Whatever the segments are, empty ones and ones with slashes and tildes among them, reading the
pointer to them gives them back, so no two lists of segments have the same pointer. -/
theorem decode_join :
    (∀ segments : List Text, decode (join segments) = segments) ∧ Function.Injective join := by
  have hdecode (segments : List Text) : decode (join segments) = segments := by
    rw [decode, isEmpty_join, splitOn_join]
    split
    · next hempty => exact (List.isEmpty_iff.mp hempty).symm
    · simp [Function.comp_def, unescape_escape]
  exact ⟨hdecode, Function.LeftInverse.injective hdecode⟩

example : join ["a/b", "~1", "", "~0/"] = "/a~1b/~01//~00~1" := by decide +kernel

end TypedBlocks.Json.Pointer
