import Mathlib.Data.List.Nodup
import TypedBlocks.Hierarchy.Link
import TypedBlocks.Proofs.Outcome

/-! The order that the search returns: every name once, each after its parents. -/
namespace TypedBlocks.Hierarchy

variable {heads : Text → List Text} {declared : Text → Prop}

/-- The names are distinct and declared, and each stands after its parents. -/
structure Ordered (heads : Text → List Text) (declared : Text → Prop) (order : List Text) :
    Prop where
  nodup : order.Nodup
  declared : ∀ name ∈ order, declared name
  parentsBefore : ∀ before name after, order = before ++ name :: after →
    ∀ parent ∈ heads name, parent ∈ before

theorem Ordered.nil : Ordered heads declared [] where
  nodup := List.nodup_nil
  declared := by simp
  parentsBefore := by simp

theorem Ordered.mono {declared' : Text → Prop} {order : List Text}
    (h : Ordered heads declared order) (hd : ∀ name, declared name → declared' name) :
    Ordered heads declared' order :=
  ⟨h.nodup, fun name hname => hd name (h.declared name hname), h.parentsBefore⟩

theorem Ordered.snoc {order : List Text} {name : Text} (h : Ordered heads declared order)
    (hd : declared name) (hnew : name ∉ order) (hp : ∀ parent ∈ heads name, parent ∈ order) :
    Ordered heads declared (order ++ [name]) where
  nodup := by
    rw [List.nodup_append]
    refine ⟨h.nodup, List.nodup_singleton name, ?_⟩
    intro x hx y hy
    rw [List.mem_singleton.mp hy]
    rintro rfl
    exact hnew hx
  declared := by
    intro x hx
    rcases List.mem_append.mp hx with hx | hx
    · exact h.declared x hx
    · exact List.mem_singleton.mp hx ▸ hd
  parentsBefore := by
    intro before x after heq parent hparent
    rcases List.eq_nil_or_concat after with rfl | ⟨rest, last, rfl⟩
    · obtain ⟨rfl, hx⟩ := List.append_inj' heq rfl
      obtain rfl : name = x := by simpa using hx
      exact hp parent hparent
    · have heq' : order ++ [name] = (before ++ x :: rest) ++ [last] := by simpa using heq
      exact h.parentsBefore before x rest (List.append_inj' heq' rfl).1 parent hparent

theorem Ordered.last_notMem {order : List Text} {last : Text}
    (h : Ordered heads declared (order ++ [last])) : last ∉ order := by
  intro hmem
  exact (List.nodup_append.mp h.nodup).2.2 last hmem last (List.mem_singleton_self last) rfl

theorem Ordered.of_snoc {order : List Text} {last : Text}
    (h : Ordered heads declared (order ++ [last])) : Ordered heads declared order where
  nodup := (List.nodup_append.mp h.nodup).1
  declared := fun name hname => h.declared name (List.mem_append_left _ hname)
  parentsBefore := by
    rintro before name after rfl
    exact h.parentsBefore before name (after ++ [last]) (by simp)

/-- The last name of an order is nobody's parent in it. -/
theorem Ordered.parent_mem_dropLast {order : List Text} {last name parent : Text}
    (h : Ordered heads declared (order ++ [last])) (hname : name ∈ order ++ [last])
    (hparent : parent ∈ heads name) : parent ∈ order := by
  obtain ⟨before, after, heq⟩ := List.append_of_mem hname
  have hbefore := h.parentsBefore before name after heq parent hparent
  rcases List.eq_nil_or_concat after with rfl | ⟨rest, other, rfl⟩
  · obtain ⟨rfl, -⟩ := List.append_inj' heq rfl
    exact hbefore
  · have heq' : order ++ [last] = (before ++ name :: rest) ++ [other] := by simpa using heq
    rw [(List.append_inj' heq' rfl).1]
    exact List.mem_append_left _ hbefore

/-- What a visit, or several, may do to the names done so far. -/
structure Grown (heads : Text → List Text) (declared : Text → Prop) (path done done' : List Text) :
    Prop where
  ordered : Ordered heads declared done'
  kept : ∀ name ∈ done, name ∈ done'
  offPath : ∀ name ∈ done', name ∈ path → name ∈ done

theorem Grown.refl {path done : List Text} (h : Ordered heads declared done) :
    Grown heads declared path done done :=
  ⟨h, fun _ hn => hn, fun _ hn _ => hn⟩

theorem Grown.trans {path a b c : List Text} (hab : Grown heads declared path a b)
    (hbc : Grown heads declared path b c) : Grown heads declared path a c :=
  ⟨hbc.ordered, fun n hn => hbc.kept n (hab.kept n hn),
    fun n hn hp => hab.offPath n (hbc.offPath n hn hp) hp⟩

/-- Visiting several names in turn, when each single visit behaves. -/
theorem foldlM_grown (path : List Text)
    {visitOne : List Text → Text → Except DefinitionFault (List Text)} {names : List Text}
    (hvisit : ∀ name ∈ names, ∀ done done', Ordered heads declared done →
      visitOne done name = .ok done' → Grown heads declared path done done' ∧ name ∈ done')
    {done done' : List Text} (h : Ordered heads declared done)
    (hrun : names.foldlM visitOne done = .ok done') :
    Grown heads declared path done done' ∧ ∀ name ∈ names, name ∈ done' := by
  induction names generalizing done with
  | nil =>
    obtain rfl := pure_eq_ok.mp hrun
    exact ⟨.refl h, by simp⟩
  | cons name names ih =>
    rw [List.foldlM_cons, bind_eq_ok] at hrun
    obtain ⟨mid, hmid, hrest⟩ := hrun
    obtain ⟨hgrow, hin⟩ := hvisit name List.mem_cons_self done mid h hmid
    obtain ⟨hgrow', hall⟩ := ih (fun n hn => hvisit n (List.mem_cons_of_mem name hn))
      hgrow.ordered hrest
    exact ⟨hgrow.trans hgrow', List.forall_mem_cons.mpr ⟨hgrow'.kept name hin, hall⟩⟩

/-- A visit adds its name after the parents of that name, and nothing from the path to it. -/
theorem visit_grown (hclosed : ∀ name, declared name → ∀ parent ∈ heads name, declared parent)
    {fuel : Nat} {path done done' : List Text} {name : Text} (hname : declared name)
    (h : Ordered heads declared done) (hrun : visit heads fuel path done name = .ok done') :
    Grown heads declared path done done' ∧ name ∈ done' := by
  induction fuel generalizing path done done' name with
  | zero =>
    unfold visit at hrun
    split at hrun
    · next hdone =>
      obtain rfl := Except.ok.inj hrun
      exact ⟨.refl h, by simpa using hdone⟩
    · split at hrun <;> simp at hrun
  | succ fuel ih =>
    unfold visit at hrun
    split at hrun
    · next hdone =>
      obtain rfl := Except.ok.inj hrun
      exact ⟨.refl h, by simpa using hdone⟩
    · next hdone =>
      split at hrun
      · simp at hrun
      · next hpath =>
        obtain ⟨mid, hmid, hlast⟩ := bind_eq_ok.mp hrun
        obtain rfl := pure_eq_ok.mp hlast
        obtain ⟨hgrow, hall⟩ := foldlM_grown (path ++ [name])
          (fun parent hparent _ _ hord hvisit =>
            ih (hclosed name hname parent hparent) hord hvisit) h hmid
        have hnew : name ∉ mid := by
          intro hmem
          have : name ∈ done := hgrow.offPath name hmem (by simp)
          exact hdone (by simpa using this)
        refine ⟨⟨hgrow.ordered.snoc hname hnew hall, ?_, ?_⟩, by simp⟩
        · intro n hn
          exact List.mem_append_left _ (hgrow.kept n hn)
        · intro n hn hp
          rcases List.mem_append.mp hn with hn | hn
          · exact hgrow.offPath n hn (List.mem_append_left _ hp)
          · obtain rfl := List.mem_singleton.mp hn
            exact absurd (by simpa using hp) hpath

/-- An order that is found lists every name, once, after its parents. -/
theorem parentsFirst_ordered
    (hclosed : ∀ name, declared name → ∀ parent ∈ heads name, declared parent)
    {names order : List Text} (hnames : ∀ name ∈ names, declared name)
    (hrun : parentsFirst heads names = .ok order) :
    Ordered heads declared order ∧ ∀ name ∈ names, name ∈ order := by
  obtain ⟨hgrow, hall⟩ := foldlM_grown []
    (fun name hname _ _ hord hvisit => visit_grown hclosed (hnames name hname) hord hvisit)
    .nil hrun
  exact ⟨hgrow.ordered, hall⟩

/-- Parents come earlier in the order. -/
theorem Ordered.idxOf_lt {order : List Text} (h : Ordered heads declared order) {name parent : Text}
    (hn : name ∈ order) (hp : parent ∈ heads name) : order.idxOf parent < order.idxOf name := by
  obtain ⟨before, after, rfl⟩ := List.append_of_mem hn
  have hnew : name ∉ before := fun hmem =>
    (List.nodup_append.mp h.nodup).2.2 name hmem name List.mem_cons_self rfl
  have hmem := h.parentsBefore before name after rfl parent hp
  rw [List.idxOf_append_of_mem hmem, List.idxOf_append_of_notMem hnew]
  have := List.idxOf_lt_length_of_mem hmem
  omega

end TypedBlocks.Hierarchy
