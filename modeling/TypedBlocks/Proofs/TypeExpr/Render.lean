import TypedBlocks.Proofs.Text.Lower
import TypedBlocks.Proofs.TypeExpr
import TypedBlocks.Proofs.TypeExpr.Grammar

/-! Written expressions are read back. An expression is what its own text reads as exactly if all of
its names are identifiers in lower case, and everything that is read is such an expression. -/
namespace TypedBlocks.TypeExpr

/-- All names in the expression are identifiers in lower case. -/
def Canonical (t : TypeExpr) : Prop :=
  ∀ u ∈ t.walk, isNameText u.name = true ∧ Text.lower u.name = u.name

instance : DecidablePred Canonical :=
  fun t => inferInstanceAs (Decidable (∀ u ∈ t.walk, isNameText u.name = true ∧ _))

theorem canonical_iff {name : Text} {params : List TypeExpr} : Canonical ⟨name, params⟩ ↔
    (IsIdentifier name.toList ∧ Text.lower name = name) ∧ ∀ p ∈ params, p.Canonical := by
  simp only [Canonical, walk_mk, List.forall_mem_cons, List.mem_flatMap, isNameText, isName_iff]
  constructor
  · rintro ⟨hname, hparams⟩
    exact ⟨hname, fun p hp u hu => hparams u ⟨p, hp, hu⟩⟩
  · rintro ⟨hname, hparams⟩
    exact ⟨hname, fun u ⟨p, hp, hu⟩ => hparams p hp u hu⟩

/-! ### What is written is derived -/

theorem toList_render (name : Text) (p : TypeExpr) (ps : List TypeExpr) :
    (render ⟨name, p :: ps⟩).toList = name.toList ++
      CodePoint.char '[' :: (((render p).toList ++ (renderMore ps).toList) ++
        [CodePoint.char ']']) := by
  simp only [render, Text.toList_append, List.append_assoc]
  rfl

theorem toList_renderMore (p : TypeExpr) (ps : List TypeExpr) :
    (renderMore (p :: ps)).toList = CodePoint.char ',' ::
      ([CodePoint.char ' '] ++ ((render p).toList ++ (renderMore ps).toList)) := by
  simp only [renderMore, Text.toList_append, List.append_assoc]
  rfl

/-- The arguments are written with a comma and one blank between them. -/
theorem spellsArgs_render {p : TypeExpr} {ps : List TypeExpr}
    (hspells : ∀ q ∈ p :: ps, Spells q.render.toList q) :
    SpellsArgs (p.render.toList ++ (renderMore ps).toList) (p :: ps) := by
  induction ps generalizing p with
  | nil =>
    have hp := hspells p List.mem_cons_self
    show SpellsArgs (p.render.toList ++ []) [p]
    rw [List.append_nil]
    exact .one hp
  | cons q qs ih =>
    have hnone : Blanks [] := by simp [Blanks]
    have hblank : Blanks [CodePoint.char ' '] := List.forall_mem_singleton.mpr (by decide)
    have hrest := ih fun r hr => hspells r (List.mem_cons_of_mem p hr)
    rw [toList_renderMore]
    exact .more (hspells p List.mem_cons_self) hnone hblank hrest

theorem Canonical.spells {t : TypeExpr} (ht : t.Canonical) : Spells t.render.toList t := by
  induction t using byParams with
  | mk name params ih =>
    obtain ⟨⟨hname, hlower⟩, hparams⟩ := canonical_iff.mp ht
    cases params with
    | nil =>
      have hleaf := Spells.leaf hname
      rwa [show Text.lower ⟨name.toList⟩ = name from hlower] at hleaf
    | cons p ps =>
      have hargs := spellsArgs_render fun q hq => ih q hq (hparams q hq)
      have happlied := Spells.applied hname hargs
      rw [show Text.lower ⟨name.toList⟩ = name from hlower] at happlied
      rwa [toList_render]

/-! ### What is read is in lower case -/

theorem IsIdentifier.lower {name : List CodePoint} (hname : IsIdentifier name) :
    IsIdentifier (Text.lower ⟨name⟩).toList := by
  constructor
  · obtain ⟨c, rest, rfl⟩ := List.exists_cons_of_ne_nil hname.ne_nil
    show Text.lowerFrom [] (c :: rest) ≠ []
    unfold Text.lowerFrom
    dsimp only
    split
    · split <;> simp
    · split <;> simp
  · intro c hc
    rcases Text.letter_of_mem_lowerFrom hc with hmem | ⟨hletter, hblank⟩
    · exact hname.plain c hmem
    · refine ⟨hblank, ?_, ?_, ?_⟩
      all_goals
        rintro rfl
        simp [CodePoint.toNat] at hletter

mutual

theorem Spells.canonical : {cs : List CodePoint} → {t : TypeExpr} → Spells cs t → t.Canonical
  | _, _, .leaf hname =>
    canonical_iff.mpr ⟨⟨hname.lower, Text.lower_lower _⟩, by simp⟩
  | _, _, .applied hname hinner =>
    canonical_iff.mpr ⟨⟨hname.lower, Text.lower_lower _⟩, hinner.canonical⟩

theorem SpellsArgs.canonical : {cs : List CodePoint} → {ts : List TypeExpr} → SpellsArgs cs ts →
    ∀ t ∈ ts, t.Canonical
  | _, _, .one ht => List.forall_mem_singleton.mpr ht.canonical
  | _, _, .more ht _ _ hts => List.forall_mem_cons.mpr ⟨ht.canonical, hts.canonical⟩

end

/-- An expression is read from its own text exactly if all names in it are identifiers in lower
case; two such expressions with the same text are equal. What is read from any text is such an
expression, so that it is read again from its own text. -/
theorem render_reads_back :
    (∀ t : TypeExpr, parse t.render = .ok t ↔ t.Canonical) ∧
    (∀ t u : TypeExpr, t.Canonical → u.Canonical → t.render = u.render → t = u) ∧
    ∀ s t, parse s = .ok t → t.Canonical ∧ parse t.render = .ok t := by
  have hback (t : TypeExpr) (ht : t.Canonical) : parse t.render = .ok t :=
    parse_eq_ok_iff.mpr ht.spells
  refine ⟨fun t => ⟨fun hok => ?_, hback t⟩, fun t u ht hu hsame => ?_, fun s t hok => ?_⟩
  · exact (parse_eq_ok_iff.mp hok).canonical
  · have hread : Except.ok t = parse u.render := by rw [← hsame, hback t ht]
    exact Except.ok.inj (hread.trans (hback u hu))
  · have ht : t.Canonical := (parse_eq_ok_iff.mp hok).canonical
    exact ⟨ht, hback t ht⟩

/-- A table of lists. In capitals, its second name ends in a sigma that becomes a final one. -/
def indexed : TypeExpr :=
  ⟨"dict", [⟨"όρος", []⟩, ⟨"list", [⟨"dog", []⟩, ⟨"*", []⟩]⟩]⟩

theorem indexed_reads_back :
    indexed.Canonical ∧ indexed.render = "dict[όρος, list[dog, *]]" ∧
    parse "dict[όρος, list[dog, *]]" = .ok indexed ∧
    parse "Dict[ΌΡΟΣ ,LIST[Dog,  *]]" = .ok indexed ∧ parse indexed.render = .ok indexed := by
  have hcanonical : indexed.Canonical := by decide +kernel
  have hrender : indexed.render = "dict[όρος, list[dog, *]]" := by decide +kernel
  have hread : parse "Dict[ΌΡΟΣ ,LIST[Dog,  *]]" = .ok indexed :=
    eq_ok_of_toOption (by decide +kernel)
  obtain ⟨hback, -, hagain⟩ := render_reads_back
  exact ⟨hcanonical, hrender, hrender ▸ (hback indexed).mpr hcanonical, hread,
    (hagain _ _ hread).2⟩

end TypedBlocks.TypeExpr
