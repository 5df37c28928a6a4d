import Mathlib.Data.List.TakeWhile
import TypedBlocks.Proofs.Outcome
import TypedBlocks.TypeExpr.Parser

/-! The grammar of type expressions, and that exactly the texts it derives are read. -/
namespace TypedBlocks.TypeExpr

/-- A nonempty run of characters other than blanks, commas and brackets. -/
structure IsIdentifier (cs : List CodePoint) : Prop where
  ne_nil : cs ≠ []
  plain : ∀ c ∈ cs, Text.isBlank c = false ∧ c ≠ ',' ∧ c ≠ '[' ∧ c ≠ ']'

def Blanks (cs : List CodePoint) : Prop :=
  ∀ c ∈ cs, Text.isBlank c = true

mutual

/-- The grammar derives the text, with the given tree: an identifier, or one with arguments in
brackets. Blanks stand next to commas only. -/
inductive Spells : List CodePoint → TypeExpr → Prop
  | leaf {name : List CodePoint} (hname : IsIdentifier name) :
      Spells name ⟨Text.lower ⟨name⟩, []⟩
  | applied {name : List CodePoint} (hname : IsIdentifier name) {inner : List CodePoint}
      {params : List TypeExpr} (hinner : SpellsArgs inner params) :
      Spells (name ++ CodePoint.char '[' :: (inner ++ [CodePoint.char ']']))
        ⟨Text.lower ⟨name⟩, params⟩

inductive SpellsArgs : List CodePoint → List TypeExpr → Prop
  | one {cs : List CodePoint} {t : TypeExpr} (ht : Spells cs t) : SpellsArgs cs [t]
  | more {cs : List CodePoint} {t : TypeExpr} (ht : Spells cs t) {left right : List CodePoint}
      (hleft : Blanks left) (hright : Blanks right) {rest : List CodePoint} {ts : List TypeExpr}
      (hts : SpellsArgs rest ts) :
      SpellsArgs (cs ++ (left ++ CodePoint.char ',' :: (right ++ rest))) (t :: ts)

end

theorem isName_iff {cs : List CodePoint} : isName cs = true ↔ IsIdentifier cs := by
  simp only [isName, isNameChar, Bool.and_eq_true, Bool.not_eq_true', List.isEmpty_eq_false_iff,
    List.all_eq_true, Bool.or_eq_false_iff, decide_eq_false_iff_not]
  constructor
  · rintro ⟨hne, hall⟩
    exact ⟨hne, fun c hc => ⟨(hall c hc).1.1.1, (hall c hc).1.1.2, (hall c hc).1.2, (hall c hc).2⟩⟩
  · rintro ⟨hne, hall⟩
    exact ⟨hne, fun c hc => ⟨⟨⟨(hall c hc).1, (hall c hc).2.1⟩, (hall c hc).2.2.1⟩,
      (hall c hc).2.2.2⟩⟩

/-! ### Blanks at the ends -/

theorem Blanks.notMem {cs : List CodePoint} (h : Blanks cs) {c : CodePoint}
    (hc : Text.isBlank c = false) : c ∉ cs := by
  intro hmem
  rw [h c hmem] at hc
  cases hc

theorem trimLeft_append {left : List CodePoint} (h : Blanks left) (cs : List CodePoint) :
    Text.trimLeft (left ++ cs) = Text.trimLeft cs := by
  rw [Text.trimLeft, List.dropWhile_append_of_pos h]
  rfl

theorem trimRight_append {right : List CodePoint} (h : Blanks right) (cs : List CodePoint) :
    Text.trimRight (cs ++ right) = Text.trimRight cs := by
  rw [Text.trimRight, List.reverse_append,
    List.dropWhile_append_of_pos fun c hc => h c (List.mem_reverse.mp hc)]
  rfl

theorem exists_trimLeft (cs : List CodePoint) :
    ∃ left, Blanks left ∧ cs = left ++ Text.trimLeft cs :=
  ⟨cs.takeWhile Text.isBlank, fun _ hc => List.mem_takeWhile_imp hc,
    List.takeWhile_append_dropWhile.symm⟩

theorem exists_trimRight (cs : List CodePoint) :
    ∃ right, Blanks right ∧ cs = Text.trimRight cs ++ right := by
  refine ⟨(cs.reverse.takeWhile Text.isBlank).reverse, fun c hc => ?_, ?_⟩
  · exact List.mem_takeWhile_imp (List.mem_reverse.mp hc)
  · rw [Text.trimRight, ← List.reverse_append, List.takeWhile_append_dropWhile,
      List.reverse_reverse]

theorem exists_trim (cs : List CodePoint) :
    ∃ left right, Blanks left ∧ Blanks right ∧ cs = left ++ (Text.trim cs ++ right) := by
  obtain ⟨left, hleft, hcs⟩ := exists_trimLeft cs
  obtain ⟨right, hright, htrim⟩ := exists_trimRight (Text.trimLeft cs)
  exact ⟨left, right, hleft, hright, hcs.trans (congrArg (left ++ ·) htrim)⟩

theorem trimLeft_cons {c : CodePoint} (hc : Text.isBlank c = false) (cs : List CodePoint) :
    Text.trimLeft (c :: cs) = c :: cs := by
  rw [Text.trimLeft, List.dropWhile_cons_of_neg (by simp [hc])]

theorem trimRight_concat {c : CodePoint} (hc : Text.isBlank c = false) (cs : List CodePoint) :
    Text.trimRight (cs ++ [c]) = cs ++ [c] := by
  rw [Text.trimRight, List.reverse_append, List.reverse_singleton, List.singleton_append,
    List.dropWhile_cons_of_neg (by simp [hc]), List.reverse_cons, List.reverse_reverse]

/-! ### Cutting at commas -/

theorem splitArgs_open (depth : Nat) (cs : List CodePoint) :
    splitArgs depth ('[' :: cs) =
      (splitArgs (depth + 1) cs).map fun r => (CodePoint.char '[' :: r.1, r.2) := by
  cases hrest : splitArgs (depth + 1) cs <;> simp [splitArgs, hrest] <;> rfl

theorem splitArgs_close (depth : Nat) (cs : List CodePoint) :
    splitArgs (depth + 1) (']' :: cs) =
      (splitArgs depth cs).map fun r => (CodePoint.char ']' :: r.1, r.2) := by
  cases hrest : splitArgs depth cs <;> simp [splitArgs, hrest] <;> rfl

theorem splitArgs_comma (cs : List CodePoint) :
    splitArgs 0 (',' :: cs) = (splitArgs 0 cs).map fun r => ([], r.1 :: r.2) := by
  cases hrest : splitArgs 0 cs <;> simp [splitArgs, hrest] <;> rfl

theorem splitArgs_other {depth : Nat} {c : CodePoint} (hopen : c ≠ '[') (hclose : c ≠ ']')
    (hcomma : c ≠ ',' ∨ depth ≠ 0) (cs : List CodePoint) :
    splitArgs depth (c :: cs) = (splitArgs depth cs).map fun r => (c :: r.1, r.2) := by
  have hcut : ¬(c = ',' ∧ depth = 0) := fun h => hcomma.elim (· h.1) (· h.2)
  cases hrest : splitArgs depth cs <;> simp [splitArgs, hrest, hopen, hclose, hcut] <;> rfl

/-- The pieces with commas between them make up the text. -/
theorem splitArgs_join {depth : Nat} {cs first : List CodePoint} {others : List (List CodePoint)}
    (hok : splitArgs depth cs = .ok (first, others)) :
    cs = first ++ others.flatMap fun piece => CodePoint.char ',' :: piece := by
  induction cs generalizing depth first others with
  | nil =>
    rw [splitArgs] at hok
    split at hok
    · cases hok
      rfl
    · cases hok
  | cons c cs ih =>
    -- In all cases but one the character goes to the front of the first piece of the rest.
    have keep {depth' : Nat}
        (hmap : (splitArgs depth' cs).map (fun r => (c :: r.1, r.2)) = .ok (first, others)) :
        c :: cs = first ++ others.flatMap fun piece => CodePoint.char ',' :: piece := by
      obtain ⟨r, hr, hr'⟩ := map_eq_ok.mp hmap
      cases hr'
      rw [ih hr]
      rfl
    by_cases hopen : c = '['
    · subst hopen
      exact keep (splitArgs_open depth cs ▸ hok)
    by_cases hclose : c = ']'
    · subst hclose
      cases depth with
      | zero => simp [splitArgs] at hok
      | succ depth => exact keep (splitArgs_close depth cs ▸ hok)
    by_cases hcomma : c = ',' ∧ depth = 0
    · obtain ⟨rfl, rfl⟩ := hcomma
      rw [splitArgs_comma] at hok
      obtain ⟨r, hr, hr'⟩ := map_eq_ok.mp hok
      cases hr'
      rw [ih hr]
      rfl
    · exact keep (splitArgs_other hopen hclose (not_and_or.mp hcomma) cs ▸ hok)

/-- The text is not cut where it stands this deep in brackets, and its own brackets match. -/
def Uncut (depth : Nat) (cs : List CodePoint) : Prop :=
  ∀ rest, splitArgs depth (cs ++ rest) = (splitArgs depth rest).map fun r => (cs ++ r.1, r.2)

namespace Uncut

theorem nil (depth : Nat) : Uncut depth [] := by
  intro rest
  rw [List.nil_append]
  cases splitArgs depth rest <;> rfl

theorem append {depth : Nat} {cs ds : List CodePoint} (hc : Uncut depth cs)
    (hd : Uncut depth ds) : Uncut depth (cs ++ ds) := by
  intro rest
  rw [List.append_assoc, hc, hd]
  cases splitArgs depth rest with
  | error fault => rfl
  | ok r => simp [Except.map]

theorem plain {depth : Nat} {cs : List CodePoint}
    (h : ∀ c ∈ cs, c ≠ '[' ∧ c ≠ ']' ∧ (c ≠ ',' ∨ depth ≠ 0)) : Uncut depth cs := by
  induction cs with
  | nil => exact nil depth
  | cons c cs ih =>
    obtain ⟨hc, hcs⟩ := List.forall_mem_cons.mp h
    intro rest
    rw [List.cons_append, splitArgs_other hc.1 hc.2.1 hc.2.2, ih hcs]
    cases splitArgs depth rest <;> rfl

theorem brackets {depth : Nat} {inner : List CodePoint} (h : Uncut (depth + 1) inner) :
    Uncut depth (CodePoint.char '[' :: (inner ++ [CodePoint.char ']'])) := by
  intro rest
  rw [List.cons_append, List.append_assoc, splitArgs_open, h, List.singleton_append,
    splitArgs_close]
  cases splitArgs depth rest with
  | error fault => rfl
  | ok r => simp [Except.map]

end Uncut

theorem IsIdentifier.uncut {name : List CodePoint} (hname : IsIdentifier name) (depth : Nat) :
    Uncut depth name :=
  .plain fun c hc => ⟨(hname.plain c hc).2.2.1, (hname.plain c hc).2.2.2,
    .inl (hname.plain c hc).2.1⟩

theorem Blanks.uncut {cs : List CodePoint} (h : Blanks cs) (depth : Nat) : Uncut depth cs := by
  refine .plain fun c hc => ?_
  have hne {d : CodePoint} (hd : Text.isBlank d = false) : c ≠ d :=
    fun heq => h.notMem hd (heq ▸ hc)
  exact ⟨hne (by decide), hne (by decide), .inl (hne (by decide))⟩

mutual

theorem Spells.uncut {cs : List CodePoint} {t : TypeExpr} (depth : Nat) :
    Spells cs t → Uncut depth cs
  | .leaf hname => hname.uncut depth
  | .applied hname hinner => (hname.uncut depth).append (hinner.uncut depth).brackets

theorem SpellsArgs.uncut {cs : List CodePoint} {ts : List TypeExpr} (depth : Nat) :
    SpellsArgs cs ts → Uncut (depth + 1) cs
  | .one ht => ht.uncut (depth + 1)
  | .more ht hleft hright hts => by
    have hcomma : Uncut (depth + 1) [CodePoint.char ','] := .plain (by simp)
    exact (ht.uncut _).append ((hleft.uncut _).append
      (hcomma.append ((hright.uncut _).append (hts.uncut depth))))

end

/-! ### Head and arguments -/

theorem takeWhile_head {name : List CodePoint} (hname : CodePoint.char '[' ∉ name)
    (tail : List CodePoint) : (name ++ CodePoint.char '[' :: tail).takeWhile
      (· ≠ CodePoint.char '[') = name := by
  rw [List.takeWhile_append_of_pos fun c hc => ?_, List.takeWhile_cons_of_neg (by simp),
    List.append_nil]
  exact decide_eq_true (ne_of_mem_of_not_mem hc hname)

theorem drop_head (name tail : List CodePoint) :
    (name ++ CodePoint.char '[' :: tail).drop (name.length + 1) = tail := by
  simp

theorem shape_leaf {cs name : List CodePoint} (hok : shape cs = .ok (.leaf name)) :
    name = cs ∧ IsIdentifier cs := by
  unfold shape at hok
  split at hok
  · cases hok
  split at hok
  · cases hok
  split at hok
  · split at hok
    · next hname =>
      cases hok
      exact ⟨rfl, isName_iff.mp hname⟩
    · cases hok
  · simp only at hok
    split at hok
    · cases hok
    split at hok
    · cases hok
    split at hok
    · split at hok <;> cases hok
    · cases hok

theorem shape_applied {cs head inner : List CodePoint}
    (hok : shape cs = .ok (.applied head inner)) :
    IsIdentifier head ∧ cs = head ++ CodePoint.char '[' :: (inner ++ [CodePoint.char ']']) := by
  unfold shape at hok
  split at hok
  · cases hok
  split at hok
  · cases hok
  split at hok
  · split at hok <;> cases hok
  next hopen =>
  obtain ⟨name, tail, rfl, hname⟩ :=
    List.eq_append_cons_of_mem (by simpa using hopen : CodePoint.char '[' ∈ cs)
  simp only [takeWhile_head hname] at hok
  split at hok
  · cases hok
  split at hok
  · cases hok
  next hident =>
  split at hok
  · split at hok <;> cases hok
  next hlast =>
  cases hok
  have htail : tail.getLast? = some (CodePoint.char ']') := by
    cases tail with
    | nil => simp at hlast
    | cons c tail => simpa [List.getLast?_append, List.getLast?_cons_cons] using hlast
  obtain ⟨inner, rfl⟩ := List.getLast?_eq_some_iff.mp htail
  rw [drop_head, List.dropLast_concat]
  exact ⟨isName_iff.mp (by simpa using hident), rfl⟩

theorem IsIdentifier.notMem_open {name : List CodePoint} (hname : IsIdentifier name) :
    CodePoint.char '[' ∉ name :=
  fun hmem => (hname.plain _ hmem).2.2.1 rfl

/-- What begins with an identifier begins without a blank. -/
theorem IsIdentifier.trimLeft_append {name : List CodePoint} (hname : IsIdentifier name)
    (cs : List CodePoint) : Text.trimLeft (name ++ cs) = name ++ cs := by
  obtain ⟨c, name, rfl⟩ := List.exists_cons_of_ne_nil hname.ne_nil
  exact trimLeft_cons (hname.plain c List.mem_cons_self).1 _

theorem IsIdentifier.trimRight {name : List CodePoint} (hname : IsIdentifier name) :
    Text.trimRight name = name := by
  obtain ⟨name', c, rfl⟩ := (List.eq_nil_or_concat' name).resolve_left hname.ne_nil
  exact trimRight_concat (hname.plain c (by simp)).1 _

theorem Spells.trimLeft_append {cs : List CodePoint} {t : TypeExpr} (rest : List CodePoint)
    (h : Spells cs t) : Text.trimLeft (cs ++ rest) = cs ++ rest := by
  cases h with
  | leaf hname => exact hname.trimLeft_append rest
  | applied hname hinner =>
    rw [List.append_assoc]
    exact hname.trimLeft_append _

theorem Spells.trimRight {cs : List CodePoint} {t : TypeExpr} (h : Spells cs t) :
    Text.trimRight cs = cs := by
  cases h with
  | leaf hname => exact hname.trimRight
  | @applied name _ inner _ _ =>
    rw [← List.cons_append, ← List.append_assoc]
    exact trimRight_concat (by decide) _

theorem Spells.trim {cs : List CodePoint} {t : TypeExpr} (h : Spells cs t) :
    Text.trim cs = cs := by
  have hleft := h.trimLeft_append []
  rw [List.append_nil] at hleft
  rw [Text.trim, hleft, h.trimRight]

theorem IsIdentifier.shape {name : List CodePoint} (hname : IsIdentifier name) :
    shape name = .ok (.leaf name) := by
  have hopen := hname.notMem_open
  rw [TypeExpr.shape, if_neg (by simp [hname.ne_nil]), if_neg (by simp [(Spells.leaf hname).trim]),
    if_pos (by simpa using hopen), if_pos (isName_iff.mpr hname)]

theorem Spells.shape_applied {name : List CodePoint} (hname : IsIdentifier name)
    {inner : List CodePoint} {params : List TypeExpr} (hinner : SpellsArgs inner params) :
    shape (name ++ CodePoint.char '[' :: (inner ++ [CodePoint.char ']'])) =
      .ok (.applied name inner) := by
  have htrim := (Spells.applied hname hinner).trim
  have hlast : (name ++ CodePoint.char '[' :: (inner ++ [CodePoint.char ']'])).getLast? =
      some (CodePoint.char ']') :=
    List.getLast?_eq_some_iff.mpr ⟨name ++ CodePoint.char '[' :: inner, by simp⟩
  simp only [shape, takeWhile_head hname.notMem_open, drop_head, List.dropLast_concat]
  rw [if_neg (by simp), if_neg (by simp [htrim]), if_neg (by simp), if_neg (by simp [hname.ne_nil]),
    if_neg (by simp [isName_iff.mpr hname]), if_neg (by simp [hlast])]

/-! ### Texts that are read are derived -/

/-- The pieces after a comma, read without the blanks beside their commas. -/
theorem spellsArgs_of_others {read : List CodePoint → Except Malformed TypeExpr}
    (hread : ∀ cs t, read cs = .ok t → Spells cs t) (piece : List CodePoint)
    {pieces : List (List CodePoint)} {ts : List TypeExpr}
    (hok : (trimOthers (piece :: pieces)).mapM read = .ok ts) :
    ∃ left rest, Blanks left ∧ SpellsArgs rest ts ∧
      (piece ++ pieces.flatMap fun p => CodePoint.char ',' :: p) = left ++ rest := by
  induction pieces generalizing piece ts with
  | nil =>
    obtain ⟨left, hleft, hpiece⟩ := exists_trimLeft piece
    rw [mapM_eq_ok] at hok
    obtain ⟨t, _, ht, hnil, rfl⟩ := List.forall₂_cons_left_iff.mp hok
    cases hnil
    exact ⟨left, _, hleft, .one (hread _ t ht), by simpa using hpiece⟩
  | cons next pieces ih =>
    obtain ⟨left, right, hleft, hright, hpiece⟩ := exists_trim piece
    rw [mapM_eq_ok] at hok
    obtain ⟨t, ts, ht, hts, rfl⟩ := List.forall₂_cons_left_iff.mp hok
    obtain ⟨left', rest, hleft', hrest, heq⟩ := ih next (mapM_eq_ok.mpr hts)
    refine ⟨left, _, hleft, .more (hread _ t ht) hright hleft' hrest, ?_⟩
    rw [List.flatMap_cons, List.cons_append, heq]
    calc piece ++ CodePoint.char ',' :: (left' ++ rest)
      _ = left ++ (Text.trim piece ++ right) ++ CodePoint.char ',' :: (left' ++ rest) := by
        rw [← hpiece]
      _ = left ++ (Text.trim piece ++ (right ++ CodePoint.char ',' :: (left' ++ rest))) := by
        rw [List.append_assoc, List.append_assoc]

theorem spellsArgs_of_pieces {read : List CodePoint → Except Malformed TypeExpr}
    (hread : ∀ cs t, read cs = .ok t → Spells cs t) {first : List CodePoint}
    {others : List (List CodePoint)} {ts : List TypeExpr}
    (hok : (trimArgs first others).mapM read = .ok ts) :
    SpellsArgs (first ++ others.flatMap fun p => CodePoint.char ',' :: p) ts := by
  rw [mapM_eq_ok] at hok
  cases others with
  | nil =>
    obtain ⟨t, _, ht, hnil, rfl⟩ := List.forall₂_cons_left_iff.mp hok
    cases hnil
    rw [List.flatMap_nil, List.append_nil]
    exact .one (hread first t ht)
  | cons next others =>
    obtain ⟨right, hright, hfirst⟩ := exists_trimRight first
    obtain ⟨t, ts, ht, hts, rfl⟩ := List.forall₂_cons_left_iff.mp hok
    obtain ⟨left, rest, hleft, hrest, heq⟩ :=
      spellsArgs_of_others hread next (mapM_eq_ok.mpr hts)
    have hmore := SpellsArgs.more (hread _ t ht) hright hleft hrest
    rw [List.flatMap_cons, List.cons_append, heq]
    rwa [← List.append_assoc, ← hfirst] at hmore

theorem spells_of_parseWithin {depth : Nat} {cs : List CodePoint} {t : TypeExpr}
    (hok : parseWithin depth cs = .ok t) : Spells cs t := by
  induction depth generalizing cs t with
  | zero => cases hok
  | succ depth ih =>
    rw [parseWithin, bind_eq_ok] at hok
    obtain ⟨shaped, hshape, hok⟩ := hok
    cases shaped with
    | leaf name =>
      obtain ⟨rfl, hname⟩ := shape_leaf hshape
      cases hok
      exact .leaf hname
    | applied head inner =>
      obtain ⟨hhead, rfl⟩ := shape_applied hshape
      simp only [bind_eq_ok] at hok
      obtain ⟨⟨first, others⟩, hsplit, params, hparams, hok⟩ := hok
      cases hok
      rw [splitArgs_join hsplit]
      exact .applied hhead (spellsArgs_of_pieces (fun _ _ => ih) hparams)

mutual

/-- Every name takes a character at least. -/
theorem Spells.size_le : {cs : List CodePoint} → {t : TypeExpr} → Spells cs t → t.size ≤ cs.length
  | _, _, .leaf hname => by
    have hpos := List.length_pos_of_ne_nil hname.ne_nil
    simp only [size, sizeAll]
    omega
  | _, _, .applied _ hinner => by
    have hinner := hinner.sizeAll_le
    simp only [size, List.length_append, List.length_cons]
    omega

theorem SpellsArgs.sizeAll_le :
    {cs : List CodePoint} → {ts : List TypeExpr} → SpellsArgs cs ts → sizeAll ts ≤ cs.length
  | _, _, .one ht => by
    have ht := ht.size_le
    simp only [sizeAll]
    omega
  | _, _, .more ht _ _ hts => by
    have ht := ht.size_le
    have hts := hts.sizeAll_le
    simp only [sizeAll, List.length_append, List.length_cons]
    omega

end

/-! ### Derived texts are read -/

theorem trimOthers_append {left : List CodePoint} (hleft : Blanks left) (piece : List CodePoint)
    (pieces : List (List CodePoint)) :
    trimOthers ((left ++ piece) :: pieces) = trimOthers (piece :: pieces) := by
  cases pieces with
  | nil => simp only [trimOthers, trimLeft_append hleft]
  | cons next pieces => simp only [trimOthers, Text.trim, trimLeft_append hleft]

/-- A first piece that begins without a blank is treated as the others are. -/
theorem trimArgs_eq {first : List CodePoint} (hfirst : Text.trimLeft first = first)
    (others : List (List CodePoint)) : trimArgs first others = trimOthers (first :: others) := by
  cases others with
  | nil => simp [trimArgs, trimOthers, hfirst]
  | cons next others => simp [trimArgs, trimOthers, Text.trim, hfirst]

theorem Spells.trim_append {cs : List CodePoint} {t : TypeExpr} (h : Spells cs t)
    {right : List CodePoint} (hright : Blanks right) : Text.trim (cs ++ right) = cs := by
  rw [Text.trim, h.trimLeft_append, trimRight_append hright, h.trimRight]

theorem Spells.splitArgs_comma {cs : List CodePoint} {t : TypeExpr} (h : Spells cs t)
    {left right : List CodePoint} (hleft : Blanks left) (hright : Blanks right)
    {rest first : List CodePoint} {others : List (List CodePoint)}
    (hsplit : splitArgs 0 rest = .ok (first, others)) :
    splitArgs 0 (cs ++ (left ++ CodePoint.char ',' :: (right ++ rest))) =
      .ok (cs ++ left, (right ++ first) :: others) := by
  rw [h.uncut 0, hleft.uncut 0, TypeExpr.splitArgs_comma, hright.uncut 0, hsplit]
  simp [Except.map]

mutual

theorem Spells.parseWithin {cs : List CodePoint} {t : TypeExpr} {depth : Nat}
    (hdepth : cs.length < depth) : Spells cs t → parseWithin depth cs = .ok t
  | .leaf hname => by
    obtain ⟨depth, rfl⟩ := Nat.exists_eq_add_one.mpr (Nat.zero_lt_of_lt hdepth)
    rw [TypeExpr.parseWithin, hname.shape]
    rfl
  | .applied hname hinner => by
    obtain ⟨depth, rfl⟩ := Nat.exists_eq_add_one.mpr (Nat.zero_lt_of_lt hdepth)
    simp only [List.length_append, List.length_cons] at hdepth
    obtain ⟨first, others, hsplit, hfirst, hparams⟩ := 
      hinner.pieces (show _ < depth by omega)
    rw [← trimArgs_eq hfirst] at hparams
    rw [TypeExpr.parseWithin, Spells.shape_applied hname hinner, ok_bind]
    simp only [hsplit, ok_bind, hparams]
    rfl

/-- Derived arguments are cut into pieces that are read as the arguments. -/
theorem SpellsArgs.pieces {cs : List CodePoint} {ts : List TypeExpr} {depth : Nat}
    (hdepth : cs.length < depth) : SpellsArgs cs ts →
    ∃ first others, splitArgs 0 cs = .ok (first, others) ∧ Text.trimLeft first = first ∧
      (trimOthers (first :: others)).mapM (TypeExpr.parseWithin depth) = .ok ts
  | .one ht => by
    have hsplit := ht.uncut 0 []
    have htrim := ht.trimLeft_append []
    rw [List.append_nil] at hsplit htrim
    refine ⟨cs, [], by simp [hsplit, splitArgs, Except.map], htrim, mapM_eq_ok.mpr ?_⟩
    rw [trimOthers, htrim]
    exact .cons (ht.parseWithin hdepth) .nil
  | .more ht hleft hright hts => by
    simp only [List.length_append, List.length_cons] at hdepth
    obtain ⟨first, others, hsplit, -, hrest⟩ := 
      hts.pieces (show _ < depth by omega)
    refine ⟨_, _, ht.splitArgs_comma hleft hright hsplit, ht.trimLeft_append _, ?_⟩
    rw [mapM_eq_ok] at hrest ⊢
    rw [trimOthers, ht.trim_append hleft, trimOthers_append hright]
    · exact .cons (ht.parseWithin (by omega)) hrest
    · simp

end

theorem parse_eq_ok_iff {s : Text} {t : TypeExpr} : parse s = .ok t ↔ Spells s.toList t := by
  constructor
  · intro hok
    unfold parse at hok
    split at hok
    · next hwithin =>
      cases hok
      exact spells_of_parseWithin hwithin
    · cases hok
  · intro hspells
    rw [parse, hspells.parseWithin (Nat.lt_succ_self s.length)]

theorem size_le_of_parse {s : Text} {t : TypeExpr} (hok : parse s = .ok t) : t.size ≤ s.length :=
  (parse_eq_ok_iff.mp hok).size_le

/-- A text is read as an expression exactly when the grammar derives it with that tree, and every
other text is refused with a fault that names the whole of it. -/
theorem parse_iff_spells (s : Text) :
    (∀ t, parse s = .ok t ↔ Spells s.toList t) ∧
    ((∃ cause, parse s = .error (.malformed s cause)) ↔ ¬∃ t, Spells s.toList t) := by
  refine ⟨fun _ => parse_eq_ok_iff, ?_⟩
  constructor
  · rintro ⟨cause, hfault⟩ ⟨t, ht⟩
    rw [parse_eq_ok_iff.mpr ht] at hfault
    cases hfault
  · intro hnone
    cases hwithin : parseWithin (s.length + 1) s.toList with
    | ok t => exact absurd ⟨t, spells_of_parseWithin hwithin⟩ hnone
    | error cause => exact ⟨cause, by rw [parse, hwithin]⟩

end TypedBlocks.TypeExpr
