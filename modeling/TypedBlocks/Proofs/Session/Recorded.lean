import TypedBlocks.Proofs.Session.Failed

/-! Where recorded bindings come from. Each was admitted under the hierarchy that was in force when
it was made and has been kept as it is since. A hierarchy that is loaded later is not asked about
them, so that it need not know their types. -/
namespace TypedBlocks.Session

open Json (Value)

variable {s t : Session} {command : Command} {commands : List Command} {block : Nat} {g : Text}
  {type : TypeExpr} {h old : Hierarchy}

/-- A generic under the hierarchy, and a type that it knows, without wildcards and generics. -/
structure WellBound (s : Session) (h : Hierarchy) (g : Text) (type : TypeExpr) : Prop where
  generic : (s.sceneUnder h).isGeneric g = true
  notStar : g ≠ TypeExpr.star
  starFree : type.StarFree
  explicit : ∀ u ∈ type.walk, (s.sceneUnder h).isGeneric u.name = false
  known : h.validate type = .ok ()

def Keeps (s : Session) (block : Nat) (g : Text) (type : TypeExpr) (commands : List Command) :
    Prop :=
  ∀ first, first <+: commands → (s.run first).bindings.find? block g = some type

/-! ### Bindings under a hierarchy -/

theorem WellBound.of_policy (hpolicy : t.policy = s.policy) (hbound : s.WellBound h g type) :
    t.WellBound h g type := by
  have hakin : (t.sceneUnder h).Akin (s.sceneUnder h) := ⟨rfl, congrArg Policy.pattern hpolicy⟩
  refine ⟨?_, hbound.notStar, hbound.starFree, ?_, hbound.known⟩
  · rw [hakin.isGeneric]
    exact hbound.generic
  · rw [hakin.isGeneric]
    exact hbound.explicit

/-- What is admitted is right under the hierarchy in force. -/
theorem wellBound_of_admitted {generic explicit : Value}
    (hadmitted : s.admitBinding generic explicit = .ok (g, type)) :
    ∃ h, s.hierarchy = some h ∧ s.WellBound h g type := by
  obtain ⟨-, h, hh, hstar, hgeneric, hread⟩ := read_of_admitted hadmitted
  have hexplicit : ∀ u ∈ type.walk, (s.sceneUnder h).isGeneric u.name = false := by
    unfold readBinding at hread
    split at hread
    · cases hread
    · split at hread
      · cases hread
      · next hnone =>
        obtain ⟨_, -, htype⟩ := bind_eq_ok.mp hread
        obtain rfl := pure_eq_ok.mp htype
        exact fun u hu => by simpa using List.find?_eq_none.mp hnone u hu
  refine ⟨h, hh, hgeneric, hstar, ?_, hexplicit, validate_of_readBinding hread⟩
  -- the wildcard is a generic under every hierarchy
  refine List.any_eq_false.mpr fun u hu hname => ?_
  have hwild := hexplicit u hu
  rw [eq_of_beq hname] at hwild
  cases hwild

/-- Under another hierarchy a binding is right exactly if its generic is not declared there and its
type is known there. -/
theorem WellBound.iff_known (hbound : s.WellBound old g type) (hl : h.Linked) :
    s.WellBound h g type ↔ h.declares g = false ∧ h.validate type = .ok () := by
  constructor
  · intro hnew
    have hgeneric := hnew.generic
    simp only [Scene.isGeneric, beq_eq_false_iff_ne.mpr hnew.notStar, Bool.false_or,
      Bool.and_eq_true, Bool.not_eq_true'] at hgeneric
    exact ⟨hgeneric.1, hnew.known⟩
  · rintro ⟨hfree, hknown⟩
    refine ⟨?_, hbound.notStar, hbound.starFree, fun u hu => ?_, hknown⟩
    · -- whether a name fits the pattern does not depend on the hierarchy
      have hgeneric := hbound.generic
      simp only [Scene.isGeneric, sceneUnder, beq_eq_false_iff_ne.mpr hbound.notStar,
        Bool.false_or, Bool.and_eq_true] at hgeneric ⊢
      exact ⟨by rw [hfree]; rfl, hgeneric.2⟩
    · have hground : h.Ground type := ⟨hl.validate_eq_ok.mp hknown, hbound.starFree⟩
      obtain ⟨e, he, as, rfl, -⟩ := hl.ground_cases (hground.mem_walk hu)
      exact Scene.isGeneric_entry hl he

/-! ### Bindings along a run -/

/-- A binding that is there after a command was there before, or the command has made it. -/
theorem Becomes.find? (hst : s.Becomes command t)
    (hfind : t.bindings.find? block g = some type) :
    s.bindings.find? block g = some type ∨ ∃ generic explicit,
      command = .bind block generic explicit ∧
      s.admitBinding generic explicit = .ok (g, type) := by
  cases hst with
  | moved hmoved =>
    obtain ⟨w, rfl⟩ := hmoved
    exact .inl hfind
  | loaded => exact .inl hfind
  | @bound block' generic explicit name new _ hadmitted hmoved =>
    obtain ⟨w, rfl⟩ := hmoved
    by_cases hkey : (block, g) = (block', name)
    · obtain ⟨rfl, rfl⟩ := Prod.mk.inj hkey
      obtain rfl := Option.some.inj (s.bindings.find?_set_self.symm.trans hfind)
      exact .inr ⟨generic, explicit, rfl, hadmitted⟩
    · exact .inl ((s.bindings.find?_set_of_ne hkey).symm.trans hfind)
  | @unbound block' generic name hname =>
    by_cases hkey : (block, g) = (block', name)
    · obtain ⟨rfl, rfl⟩ := Prod.mk.inj hkey
      cases s.bindings.find?_erase_self.symm.trans hfind
    · exact .inl ((s.bindings.find?_erase_of_ne hkey).symm.trans hfind)

/-- A binding that is there after a run was there from the start, or a command of the run has made
it; in both cases it has been there since. -/
theorem find?_run (hfind : (s.run commands).bindings.find? block g = some type) :
    s.Keeps block g type commands ∨ ∃ before generic explicit after,
      commands = before ++ .bind block generic explicit :: after ∧
      (s.run before).admitBinding generic explicit = .ok (g, type) ∧
      ((s.run before).step (.bind block generic explicit)).1.Keeps block g type after := by
  induction commands generalizing s with
  | nil =>
    left
    intro first hfirst
    rw [List.prefix_nil.mp hfirst]
    exact hfind
  | cons command rest ih =>
    rcases ih (s := (s.step command).1) hfind with
      hkeeps | ⟨before, generic, explicit, after, rfl, hadmitted, hkeeps⟩
    · have hnext := hkeeps [] List.nil_prefix
      rcases (becomes_step s command).find? hnext with hnow | ⟨generic, explicit, rfl, hadmitted⟩
      · left
        intro first hfirst
        rcases List.prefix_cons_iff.mp hfirst with rfl | ⟨later, rfl, hlater⟩
        · exact hnow
        · exact hkeeps later hlater
      · exact .inr ⟨[], generic, explicit, rest, rfl, hadmitted, hkeeps⟩
    · exact .inr ⟨command :: before, generic, explicit, after, rfl, hadmitted, hkeeps⟩

theorem run_append (s : Session) (first second : List Command) :
    s.run (first ++ second) = (s.run first).run second :=
  List.foldl_append

theorem policy_run (s : Session) (commands : List Command) :
    (s.run commands).policy = s.policy := by
  induction commands generalizing s with
  | nil => rfl
  | cons command rest ih => exact (ih (s.step command).1).trans (becomes_step s command).policy

theorem linked_run (hs : ∀ h, s.hierarchy = some h → h.Linked)
    (hh : (s.run commands).hierarchy = some h) : h.Linked := by
  induction commands generalizing s with
  | nil => exact hs h hh
  | cons command rest ih =>
    refine ih (s := (s.step command).1) (fun h' hh' => ?_) hh
    rcases (becomes_step s command).hierarchy with hsame | ⟨_, _, new, -, hread, hnew⟩
    · exact hs h' (hsame ▸ hh')
    · obtain rfl := Option.some.inj (hnew.symm.trans hh')
      exact linked_of_readHierarchy hread

theorem readHierarchy_of_policy (hpolicy : t.policy = s.policy) (source : Source) (built : Bool) :
    t.readHierarchy source built = s.readHierarchy source built := by
  simp only [readHierarchy, hpolicy]

/-- Some hierarchy stays in force, and it is the same one if no other is loaded. -/
theorem hierarchy_run (hold : s.hierarchy = some old) (commands : List Command) :
    ∃ h, (s.run commands).hierarchy = some h ∧
      ((∀ source built new, .load source built ∈ commands →
        s.readHierarchy source built = .ok new → new = old) → h = old) := by
  induction commands generalizing s old with
  | nil => exact ⟨old, hold, fun _ => rfl⟩
  | cons command rest ih =>
    have hpolicy := (becomes_step s command).policy
    rcases (becomes_step s command).hierarchy with hsame | ⟨source, built, next, rfl, hread, hnext⟩
    · obtain ⟨h, hh, hkept⟩ := ih (s := (s.step command).1) (hsame.trans hold)
      refine ⟨h, hh, fun hloads => hkept fun source built new hmem hread => ?_⟩
      rw [readHierarchy_of_policy hpolicy] at hread
      exact hloads source built new (List.mem_cons_of_mem _ hmem) hread
    · obtain ⟨h, hh, hkept⟩ := ih (s := (s.step (.load source built)).1) hnext
      refine ⟨h, hh, fun hloads => ?_⟩
      obtain rfl := hloads source built next List.mem_cons_self hread
      refine hkept fun source built new hmem hread => ?_
      rw [readHierarchy_of_policy hpolicy] at hread
      exact hloads source built new (List.mem_cons_of_mem _ hmem) hread

/-- Every binding that is recorded was admitted by an earlier command and has been there since. It
was right under the hierarchy then in force. It is right under the hierarchy now in force exactly if
that one does not declare the generic and knows the type, and so it is if no other has been loaded
in between. -/
theorem recorded_bindings {policy : Policy} (hrun : Session.run { policy := policy } commands = s)
    (hfind : s.bindings.find? block g = some type) :
    ∃ before generic explicit after old h,
      commands = before ++ .bind block generic explicit :: after ∧
      (Session.run { policy := policy } before).hierarchy = some old ∧
      (Session.run { policy := policy } before).admitBinding generic explicit = .ok (g, type) ∧
      (∀ later, later <+: after →
        (Session.run { policy := policy }
          (before ++ .bind block generic explicit :: later)).bindings.find? block g = some type) ∧
      s.hierarchy = some h ∧ s.WellBound old g type ∧
      (s.WellBound h g type ↔ h.declares g = false ∧ h.validate type = .ok ()) ∧
      ((∀ source built new, .load source built ∈ after →
        s.readHierarchy source built = .ok new → new = old) → s.WellBound h g type) := by
  subst hrun
  rcases find?_run hfind with hkeeps | ⟨before, generic, explicit, after, rfl, hadmitted, hkeeps⟩
  · -- nothing is recorded at the start
    have hstart := hkeeps [] List.nil_prefix
    cases hstart
  · have hpolicy : (Session.run { policy := policy }
        (before ++ .bind block generic explicit :: after)).policy =
        (Session.run { policy := policy } before).policy :=
      (policy_run _ _).trans (policy_run _ before).symm
    obtain ⟨old, hold, hmade⟩ := wellBound_of_admitted hadmitted
    have hbound := hmade.of_policy hpolicy
    obtain ⟨h, hh, hkept⟩ := hierarchy_run hold (.bind block generic explicit :: after)
    rw [← run_append] at hh
    have hl : h.Linked := linked_run (fun _ hnone => by cases hnone) hh
    refine ⟨before, generic, explicit, after, old, h, rfl, hold, hadmitted, fun later hlater => ?_,
      hh, hbound, hbound.iff_known hl, fun hloads => ?_⟩
    · rw [run_append]
      exact hkeeps later hlater
    · have hsame : h = old := hkept fun source built new hmem hread => by
        rw [← readHierarchy_of_policy hpolicy] at hread
        exact hloads source built new (by simpa using hmem) hread
      exact hsame ▸ hbound

/-! ### A type that is no longer there -/

/-- A generic is bound to a dog. -/
def boundCommands : List Command := [
  .load (.mapping [typeEntry "dog" [] []]) false,
  .addBlock { label := "carry", inputs := [("a", some "g")] },
  .bind 0 (.text "G") (.text "dog")]

def dogHierarchy : Hierarchy where
  entries := [⟨⟨"dog", [], []⟩, [], [("dog", [[]])], [], []⟩]
  order := ["dog"]

def catHierarchy : Hierarchy where
  entries := [⟨⟨"cat", [], []⟩, [], [("cat", [[]])], [], []⟩]
  order := ["cat"]

def carrySession (h : Hierarchy) : Session where
  hierarchy := some h
  bindings := [((0, "g"), ⟨"dog", []⟩)]
  workspace := {
    blocks := [{ label := "carry", inputs := [0] }]
    connections := [⟨0, .input "a", some "g", none⟩] }

/-- Then the dogs are gone from the hierarchy. -/
def reloadedCommands : List Command :=
  boundCommands ++ [.load (.mapping [typeEntry "cat" [] []]) false]

theorem run_boundCommands : Session.run {} boundCommands = carrySession dogHierarchy := by
  decide +kernel

theorem run_reloadedCommands : Session.run {} reloadedCommands = carrySession catHierarchy := by
  decide +kernel

theorem dog_unknown : catHierarchy.validate ⟨"dog", []⟩ ≠ .ok () := by
  intro hknown
  have hnone : (catHierarchy.validate ⟨"dog", []⟩).toOption = none := by decide +kernel
  rw [hknown] at hnone
  cases hnone

/-- The binding is still there and still tells the generic, although there are no dogs. -/
theorem reloaded_not_wellBound :
    Session.run {} reloadedCommands = carrySession catHierarchy ∧
    (carrySession catHierarchy).hierarchy = some catHierarchy ∧
    (carrySession catHierarchy).bindings.find? 0 "g" = some ⟨"dog", []⟩ ∧
    ¬(carrySession catHierarchy).WellBound catHierarchy "g" ⟨"dog", []⟩ ∧
    (carrySession catHierarchy).explicitTypes 0 (.text "g") = .ok [⟨"dog", []⟩] :=
  ⟨run_reloadedCommands, rfl, by decide +kernel, fun hbound => dog_unknown hbound.known,
    eq_ok_of_toOption (by decide +kernel)⟩

/-- Before the second hierarchy the binding is right, after it the binding is what it was. -/
theorem carry_recorded :
    (carrySession dogHierarchy).WellBound dogHierarchy "g" ⟨"dog", []⟩ ∧
    ∃ old, (carrySession catHierarchy).WellBound old "g" ⟨"dog", []⟩ ∧ old ≠ catHierarchy := by
  have hfind (h : Hierarchy) : (carrySession h).bindings.find? 0 "g" = some ⟨"dog", []⟩ := by
    simp [carrySession, Bindings.find?]
  constructor
  · obtain ⟨before, generic, explicit, after, old, h, hcommands, -, -, -, hh, -, -, hkept⟩ :=
      recorded_bindings run_boundCommands (hfind dogHierarchy)
    obtain rfl := Option.some.inj hh
    refine hkept fun source built new hload => ?_
    -- the binding comes last
    have hnone : after = [] := by
      rcases before with _ | ⟨_, _ | ⟨_, _ | ⟨_, _⟩⟩⟩ <;> simp_all [boundCommands]
    simp [hnone] at hload
  · obtain ⟨_, _, _, _, old, h, -, -, -, -, hh, hold, -⟩ :=
      recorded_bindings run_reloadedCommands (hfind catHierarchy)
    obtain rfl := Option.some.inj hh
    exact ⟨old, hold, fun heq => dog_unknown (heq ▸ hold).known⟩

end TypedBlocks.Session
