import TypedBlocks.Proofs.Nearest.Greatest
import TypedBlocks.Session.Flow

/-! Joining contributions one by one. Every type that an order of joining yields is above all
contributions. All orders yield the nearest common ancestors of all contributions together, if
instances of one head meet below every type above them; where two instances do not meet below a
type, the joins of the three lose it. -/
namespace TypedBlocks

namespace Hierarchy

variable {h : Hierarchy}

def BoundedBy (h : Hierarchy) (types found : List TypeExpr) : Prop :=
  ∀ r ∈ found, h.Ground r ∧ ∀ t ∈ types, h.Related t r

/-- Every ground type that is above all given ones is above one of those found. -/
def CoveredBy (h : Hierarchy) (types found : List TypeExpr) : Prop :=
  ∀ u, h.Ground u → (∀ t ∈ types, h.Related t u) → ∃ r ∈ found, h.Related r u

theorem nearestAbove_congr {types types' : List TypeExpr} (hmem : ∀ x, x ∈ types ↔ x ∈ types')
    {t : TypeExpr} : h.NearestAbove types t ↔ h.NearestAbove types' t := by
  constructor
  · rintro ⟨hground, habove, hnearest⟩
    exact ⟨hground, fun x hx => habove x ((hmem x).mpr hx), fun u hu hup =>
      hnearest u hu fun x hx => hup x ((hmem x).mp hx)⟩
  · rintro ⟨hground, habove, hnearest⟩
    exact ⟨hground, fun x hx => habove x ((hmem x).mp hx), fun u hu hup =>
      hnearest u hu fun x hx => hup x ((hmem x).mpr hx)⟩

theorem Linked.tells_isSubtype (hl : h.Linked) {types : List TypeExpr} :
    Nearest.Tells h.isSubtype h.Related types :=
  fun _ _ _ _ _ hanswer => hl.subtypeWithin_iff_related hanswer

/-- The nearest of bounds that cover all bounds are the minimal bounds. -/
theorem Linked.mem_nearest_iff (hl : h.Linked) (hvar : h.VarianceConsistent)
    {types found kept : List TypeExpr} (hbounded : h.BoundedBy types found)
    (hcovered : h.CoveredBy types found) (hnodup : found.Nodup)
    (hrun : keepNearest h.isSubtype found = .ok kept) {t : TypeExpr} :
    t ∈ kept ↔ h.NearestAbove types t := by
  have hanti : ∀ a ∈ found, ∀ b ∈ found, h.Related a b → h.Related b a → a = b :=
    fun a ha b hb => hl.related_antisymm (hbounded a ha).1 (hbounded b hb).1
  rw [mem_keepNearest_iff_minimal hl.tells_isSubtype hanti hnodup hrun]
  constructor
  · rintro ⟨ht, hmin⟩
    obtain ⟨hground, habove⟩ := hbounded t ht
    refine ⟨hground, habove, fun u hu hup hut => ?_⟩
    obtain ⟨r, hr, hru⟩ := hcovered u hu hup
    have hrt := hl.related_trans hvar (hbounded r hr).1 hu hground hru hut
    rw [hmin r hr hrt] at hru
    exact hl.related_antisymm hu hground hut hru
  · intro hnearest
    obtain ⟨r, hr, hrt⟩ := hcovered t hnearest.ground hnearest.above
    obtain rfl := hnearest.nearest r (hbounded r hr).1 (hbounded r hr).2 hrt
    exact ⟨hr, fun c hc hct => hnearest.nearest c (hbounded c hc).1 (hbounded c hc).2 hct⟩

/-- The nearest common ancestors of types of one head have that head. -/
theorem Linked.ancestors_head (hl : h.Linked) {depth : Nat} {a b : TypeExpr} (ha : h.Ground a)
    (hb : h.Ground b) (hname : a.name = b.name) {found : List TypeExpr}
    (hrun : h.ancestorsWithin depth [a, b] = .ok found) : ∀ r ∈ found, r.name = a.name := by
  intro r hr
  have hpair : ∀ t ∈ [a, b], h.Ground t :=
    List.forall_mem_cons.mpr ⟨ha, List.forall_mem_singleton.mpr hb⟩
  cases depth with
  | zero => simp [ancestorsWithin] at hrun
  | succ depth =>
    rw [ancestorsWithin] at hrun
    rcases ancestorsBy_cases hrun with ⟨hnil, -⟩ | ⟨hnone, -⟩ | ⟨t, hone, -⟩ |
      ⟨heads, lists, hheads, hlists, hkeep⟩
    · simp at hnil
    · simp [filter_ground hpair] at hnone
    · simp [filter_ground hpair] at hone
    · rw [filter_ground hpair] at hheads hlists
      obtain ⟨head, hhead, list, hat, hr⟩ :=
        (mem_candidates hlists).mp (mem_of_keepNearest hkeep hr)
      obtain ⟨-, hbelow, hlowest⟩ := (hl.commonAncestorNames_iff hheads).mp hhead
      obtain ⟨e, he, as, rfl, -⟩ := hl.ground_cases ha
      have hown : ∀ name ∈ [TypeExpr.mk e.name as, b].map (·.name), h.Below name e.name := by
        simpa [← hname] using below_of_path (.self he)
      have heq : e.name = head := hlowest e.name hown (hbelow e.name (by simp))
      subst heq
      obtain ⟨combo, rfl, -⟩ := (hl.mem_ancestorsAt he hat).mp hr
      rfl

end Hierarchy

namespace Scene

variable {s : Scene} {types found joined : List TypeExpr} {b : TypeExpr}

/-- Joining one more type takes the nearest common ancestors with each type found so far. -/
theorem mem_join_singleton (hrun : s.join found [b] = .ok joined) {t : TypeExpr} :
    t ∈ joined ↔ ∃ a ∈ found, ∃ above, s.hierarchy.commonAncestors [a, b] = .ok above ∧
      t ∈ above := by
  obtain ⟨lists, hlists, hrun⟩ := bind_eq_ok.mp hrun
  obtain rfl := pure_eq_ok.mp hrun
  rw [Hierarchy.mem_candidates hlists]
  simp

theorem join_nodup {bs : List TypeExpr} (hrun : s.join found bs = .ok joined) : joined.Nodup := by
  obtain ⟨lists, -, hrun⟩ := bind_eq_ok.mp hrun
  obtain rfl := pure_eq_ok.mp hrun
  exact nodup_eraseDups _

section Joins

variable (hl : s.hierarchy.Linked) (hsingle : s.hierarchy.SinglePath)
  (hvar : s.hierarchy.VarianceConsistent) (hplain : ¬s.hierarchy.HasContra ∨ s.hierarchy.Flat)

include hl hsingle hvar hplain

theorem join_bounded (htypes : ∀ t ∈ types, s.hierarchy.Ground t) (hb : s.hierarchy.Ground b)
    (hbounded : s.hierarchy.BoundedBy types found) (hrun : s.join found [b] = .ok joined) :
    s.hierarchy.BoundedBy (types ++ [b]) joined := by
  intro r hr
  obtain ⟨a, ha, above, habove, hmem⟩ := (mem_join_singleton hrun).mp hr
  obtain ⟨hground, hup⟩ := hbounded a ha
  have hpair : ∀ t ∈ [a, b], s.hierarchy.Ground t :=
    List.forall_mem_cons.mpr ⟨hground, List.forall_mem_singleton.mpr hb⟩
  have hrground := (hl.searches_ground hsingle hplain _).1 _ _ (by simp) hpair habove r hmem
  have hbound (x : TypeExpr) (hx : x ∈ [a, b]) : s.hierarchy.Related x r :=
    Hierarchy.related_of_confirms ((hl.searches_bound _).1 _ _ (fun t ht => (hpair t ht).valid)
      habove r hmem x hx)
  refine ⟨hrground, fun t ht => ?_⟩
  rcases List.mem_append.mp ht with ht | ht
  · exact hl.related_trans hvar (htypes t ht) hground hrground (hup t ht) (hbound a (by simp))
  · exact hbound t (List.mem_cons_of_mem a ht)

theorem join_covered (hmeeting : s.hierarchy.Meeting) (hb : s.hierarchy.Ground b)
    (hbounded : s.hierarchy.BoundedBy types found)
    (hcovered : s.hierarchy.CoveredBy types found) (hrun : s.join found [b] = .ok joined) :
    s.hierarchy.CoveredBy (types ++ [b]) joined := by
  intro u hu hup
  obtain ⟨a, ha, hau⟩ := hcovered u hu fun t ht => hup t (List.mem_append_left _ ht)
  have hbu := hup b (by simp)
  have hpair : ∀ t ∈ [a, b], s.hierarchy.Ground t :=
    List.forall_mem_cons.mpr ⟨(hbounded a ha).1, List.forall_mem_singleton.mpr hb⟩
  obtain ⟨above, habove⟩ : ∃ above, s.hierarchy.commonAncestors [a, b] = .ok above := by
    obtain ⟨lists, hlists, -⟩ := bind_eq_ok.mp hrun
    obtain ⟨above, -, habove⟩ := mapM_exists hlists (x := [a, b]) (by simpa using ha)
    exact ⟨above, habove⟩
  obtain ⟨r, hr, hru⟩ := (hl.searches_findAll hsingle hplain hvar _).1 _ _ (by simp) hpair
    habove u hu (List.forall_mem_cons.mpr ⟨hau, List.forall_mem_singleton.mpr hbu⟩) (.inl hmeeting)
  exact ⟨r, (mem_join_singleton hrun).mpr ⟨a, ha, above, habove, hr⟩, hru⟩

/-- Whatever the joins yield is above everything joined. -/
theorem joinAll_bounded {rest : List TypeExpr} (htypes : ∀ t ∈ types, s.hierarchy.Ground t)
    (hrest : ∀ t ∈ rest, s.hierarchy.Ground t) (hbounded : s.hierarchy.BoundedBy types found)
    (hrun : s.joinAll found (rest.map ([·])) = .ok joined) :
    s.hierarchy.BoundedBy (types ++ rest) joined := by
  induction rest generalizing types found with
  | nil =>
    rw [List.append_nil]
    exact fun r hr => hbounded r (mem_of_keepNearest hrun hr)
  | cons b rest ih =>
    obtain ⟨hb, hrest⟩ := List.forall_mem_cons.mp hrest
    obtain ⟨next, hnext, hrun⟩ := bind_eq_ok.mp hrun
    split at hrun
    · obtain rfl := pure_eq_ok.mp hrun
      exact fun r hr => absurd hr List.not_mem_nil
    · rw [List.append_cons]
      exact ih (List.forall_mem_append.mpr ⟨htypes, List.forall_mem_singleton.mpr hb⟩) hrest
        (join_bounded hl hsingle hvar hplain htypes hb hbounded hnext) hrun

/-- Where instances of one head meet, the joins yield the minimal bounds of everything joined. -/
theorem joinAll_nearest (hmeeting : s.hierarchy.Meeting) {rest : List TypeExpr}
    (htypes : ∀ t ∈ types, s.hierarchy.Ground t)
    (hrest : ∀ t ∈ rest, s.hierarchy.Ground t) (hbounded : s.hierarchy.BoundedBy types found)
    (hcovered : s.hierarchy.CoveredBy types found) (hnodup : found.Nodup)
    (hrun : s.joinAll found (rest.map ([·])) = .ok joined) {t : TypeExpr} :
    t ∈ joined ↔ s.hierarchy.NearestAbove (types ++ rest) t := by
  induction rest generalizing types found with
  | nil =>
    rw [List.append_nil]
    exact hl.mem_nearest_iff hvar hbounded hcovered hnodup hrun
  | cons b rest ih =>
    obtain ⟨hb, hrest⟩ := List.forall_mem_cons.mp hrest
    obtain ⟨next, hnext, hrun⟩ := bind_eq_ok.mp hrun
    have hcovered' := join_covered hl hsingle hvar hplain hmeeting hb hbounded hcovered hnext
    split at hrun
    · next hempty =>
      -- Nothing is above what has been joined so far, so nothing is above all.
      obtain rfl := pure_eq_ok.mp hrun
      refine ⟨fun ht => absurd ht List.not_mem_nil, fun hnearest => ?_⟩
      obtain ⟨r, hr, -⟩ := hcovered' t hnearest.ground fun x hx =>
        hnearest.above x (by rw [List.append_cons]; exact List.mem_append_left _ hx)
      simp [List.isEmpty_iff.mp hempty] at hr
    · rw [List.append_cons]
      exact ih (List.forall_mem_append.mpr ⟨htypes, List.forall_mem_singleton.mpr hb⟩) hrest
        (join_bounded hl hsingle hvar hplain htypes hb hbounded hnext) hcovered'
        (join_nodup hnext) hrun

/-- Where instances of one head meet, everything above all that is joined is above a result. -/
theorem joinAll_covered (hmeeting : s.hierarchy.Meeting) {rest : List TypeExpr}
    (htypes : ∀ t ∈ types, s.hierarchy.Ground t)
    (hrest : ∀ t ∈ rest, s.hierarchy.Ground t) (hbounded : s.hierarchy.BoundedBy types found)
    (hcovered : s.hierarchy.CoveredBy types found)
    (hrun : s.joinAll found (rest.map ([·])) = .ok joined) :
    s.hierarchy.CoveredBy (types ++ rest) joined := by
  induction rest generalizing types found with
  | nil =>
    rw [List.append_nil]
    intro u hu hup
    obtain ⟨r, hr, hru⟩ := hcovered u hu hup
    have hground (t : TypeExpr) (ht : t ∈ found) : s.hierarchy.Ground t := (hbounded t ht).1
    obtain ⟨k, hk, hkr⟩ := exists_kept hl.tells_isSubtype
      (fun a ha b hb c hc => hl.related_trans hvar (hground a ha) (hground b hb) (hground c hc))
      hrun hr
    refine ⟨k, hk, ?_⟩
    rcases hkr with rfl | hkr
    · exact hru
    · exact hl.related_trans hvar (hground k (mem_of_keepNearest hrun hk)) (hground r hr) hu hkr hru
  | cons b rest ih =>
    obtain ⟨hb, hrest⟩ := List.forall_mem_cons.mp hrest
    obtain ⟨next, hnext, hrun⟩ := bind_eq_ok.mp hrun
    have hcovered' := join_covered hl hsingle hvar hplain hmeeting hb hbounded hcovered hnext
    rw [List.append_cons]
    split at hrun
    · next hempty =>
      intro u hu hup
      obtain ⟨r, hr, -⟩ := hcovered' u hu fun x hx => hup x (List.mem_append_left _ hx)
      simp [List.isEmpty_iff.mp hempty] at hr
    · exact ih (List.forall_mem_append.mpr ⟨htypes, List.forall_mem_singleton.mpr hb⟩) hrest
        (join_bounded hl hsingle hvar hplain htypes hb hbounded hnext) hcovered' hrun

/-- If joining two types of one head and then a type above both yields what the nearest common
ancestors of the three are, the two meet below the third. -/
theorem meetBelow_of_unify {a b u : TypeExpr} (ha : s.hierarchy.Ground a)
    (hb : s.hierarchy.Ground b) (hu : s.hierarchy.Ground u)
    (hname : a.name = b.name) (hau : s.hierarchy.Related a u) (hbu : s.hierarchy.Related b u)
    (hfound : s.hierarchy.commonAncestors [a, b, u] = .ok found)
    (hjoined : s.unify [[a], [b], [u]] = .ok joined) (hsame : ∀ t, t ∈ joined ↔ t ∈ found) :
    s.hierarchy.MeetBelow a b u := by
  have hall : ∀ t ∈ [a, b, u], s.hierarchy.Ground t := by
    simp only [List.forall_mem_cons]
    exact ⟨ha, hb, hu, by simp⟩
  have hpair : ∀ t ∈ [a, b], s.hierarchy.Ground t :=
    fun t ht => hall t (List.mem_append_left [u] ht)
  have hbound {types above : List TypeExpr} (htypes : ∀ t ∈ types, s.hierarchy.Ground t)
      (hrun : s.hierarchy.commonAncestors types = .ok above) (r : TypeExpr) (hr : r ∈ above)
      (x : TypeExpr) (hx : x ∈ types) : s.hierarchy.Related x r :=
    Hierarchy.related_of_confirms ((hl.searches_bound _).1 _ _ (fun t ht => (htypes t ht).valid)
      hrun r hr x hx)
  have hmem : u ∈ joined := by
    obtain ⟨r, hr, hru⟩ := (hl.searches_findAll hsingle hplain hvar _).1 _ _ (by simp) hall
      hfound u hu (by simpa using ⟨hau, hbu, hl.related_refl hu⟩) (.inr (by simp))
    have hrground := (hl.searches_ground hsingle hplain _).1 _ _ (by simp) hall hfound r hr
    rw [hsame, ← hl.related_antisymm hrground hu hru (hbound hall hfound r hr u (by simp))]
    exact hr
  obtain ⟨first, hfirst, hjoined⟩ := bind_eq_ok.mp hjoined
  split at hjoined
  · obtain rfl := pure_eq_ok.mp hjoined
    exact absurd hmem List.not_mem_nil
  obtain ⟨last, hlast, hjoined⟩ := bind_eq_ok.mp hjoined
  split at hjoined
  · obtain rfl := pure_eq_ok.mp hjoined
    exact absurd hmem List.not_mem_nil
  obtain ⟨z, hz, above, habove, humem⟩ :=
    (mem_join_singleton hlast).mp (mem_of_keepNearest hjoined hmem)
  obtain ⟨a', ha', below, hbelow, hzmem⟩ := (mem_join_singleton hfirst).mp hz
  obtain rfl := List.mem_singleton.mp ha'
  have hzground := (hl.searches_ground hsingle hplain _).1 _ _ (by simp) hpair hbelow z hzmem
  have hzu : s.hierarchy.Related z u := hbound
    (List.forall_mem_cons.mpr ⟨hzground, List.forall_mem_singleton.mpr hu⟩) habove u humem z
    List.mem_cons_self
  have hzabove := hbound hpair hbelow z hzmem
  exact (Hierarchy.meetBelow_iff hl hplain ha hb hu).mpr ⟨z, hzground,
    hl.ancestors_head ha hb hname hbelow z hzmem, hzabove a' (by simp), hzabove b (by simp), hzu⟩

end Joins

/-- Let a hierarchy reach each ancestor in one way, use parameters by their variances, and have no
contravariant parameters or be flat. Then whatever contributions of one type each are unified to is
above all of them. If types of one head meet below every type above them, all orders of the
contributions yield exactly the nearest common ancestors of all of them together. This is the case
in all flat hierarchies, and it has to be: two types of one head and a third above both are unified
to their nearest common ancestors only if the two meet below the third. -/
theorem unify_nearest {definition : Definition} {s : Scene}
    (hdef : Hierarchy.ofDefinition definition = .ok s.hierarchy)
    (hsingle : s.hierarchy.SinglePath) (hvar : s.hierarchy.VarianceConsistent)
    (hplain : ¬s.hierarchy.HasContra ∨ s.hierarchy.Flat) :
    (∀ types joined, (∀ t ∈ types, s.hierarchy.validate t = .ok () ∧ t.StarFree) →
      types ≠ [] → s.unify (types.map ([·])) = .ok joined →
      ∀ r ∈ joined, ∀ t ∈ types, s.hierarchy.isSubtype t r = .ok true) ∧
    (s.hierarchy.Directed → ∀ types order found joined : List TypeExpr,
      (∀ t ∈ types, s.hierarchy.validate t = .ok () ∧ t.StarFree) → types ≠ [] →
      order.Perm types → s.hierarchy.commonAncestors types = .ok found →
      s.unify (order.map ([·])) = .ok joined → ∀ t, t ∈ joined ↔ t ∈ found) ∧
    (s.hierarchy.Flat → s.hierarchy.Directed) ∧
    (∀ a b u found joined,
      (∀ t ∈ [a, b, u], s.hierarchy.validate t = .ok () ∧ t.StarFree) → a.name = b.name →
      s.hierarchy.isSubtype a u = .ok true → s.hierarchy.isSubtype b u = .ok true →
      s.hierarchy.commonAncestors [a, b, u] = .ok found →
      s.unify [[a], [b], [u]] = .ok joined → (∀ t, t ∈ joined ↔ t ∈ found) →
      s.hierarchy.MeetBelow a b u) := by
  have hl := Hierarchy.ofDefinition_linked hdef
  have hground {types : List TypeExpr}
      (htypes : ∀ t ∈ types, s.hierarchy.validate t = .ok () ∧ t.StarFree) :
      ∀ t ∈ types, s.hierarchy.Ground t :=
    fun t ht => ⟨hl.validate_eq_ok.mp (htypes t ht).1, (htypes t ht).2⟩
  have hstart {first : TypeExpr} (hfirst : s.hierarchy.Ground first) :
      s.hierarchy.BoundedBy [first] [first] :=
    List.forall_mem_singleton.mpr ⟨hfirst, List.forall_mem_singleton.mpr (hl.related_refl hfirst)⟩
  refine ⟨fun types joined htypes hne hrun r hr t ht => ?_, fun hdirected types order found joined
    htypes hne hperm hfound hrun t => ?_, fun hflat =>
    (Hierarchy.directed_iff hl hplain).mpr (hflat.meeting hl hsingle),
    fun a b u found joined hvalid hname hau hbu hfound hrun hsame => ?_⟩
  · obtain ⟨first, rest, rfl⟩ := List.exists_cons_of_ne_nil hne
    obtain ⟨hfirst, hrest⟩ := List.forall_mem_cons.mp (hground htypes)
    obtain ⟨hrground, habove⟩ := joinAll_bounded hl hsingle hvar hplain
      (List.forall_mem_singleton.mpr hfirst) hrest (hstart hfirst) hrun r hr
    exact (hl.isSubtype_iff hplain (hground htypes t ht).valid hrground.valid).mpr (habove t ht)
  · have hmeeting := (Hierarchy.directed_iff hl hplain).mp hdirected
    have horder : order ≠ [] := fun hnil => hne (by simpa [hnil] using hperm)
    obtain ⟨first, rest, rfl⟩ := List.exists_cons_of_ne_nil horder
    obtain ⟨hfirst, hrest⟩ := List.forall_mem_cons.mp fun x hx =>
      hground htypes x (hperm.mem_iff.mp hx)
    have hcovered : s.hierarchy.CoveredBy [first] [first] :=
      fun u _ hup => ⟨first, List.mem_cons_self, hup first List.mem_cons_self⟩
    rw [hl.mem_ancestors_iff hsingle hvar hplain hmeeting hne (hground htypes) hfound,
      joinAll_nearest hl hsingle hvar hplain hmeeting (List.forall_mem_singleton.mpr hfirst)
        hrest (hstart hfirst) hcovered (List.nodup_singleton first) hrun]
    exact Hierarchy.nearestAbove_congr fun x => hperm.mem_iff
  · have hall := hground hvalid
    have ha := hall a (by simp)
    have hb := hall b (by simp)
    have hu := hall u (by simp)
    exact meetBelow_of_unify hl hsingle hvar hplain ha hb hu hname
      ((hl.isSubtype_iff hplain ha.valid hu.valid).mp hau)
      ((hl.isSubtype_iff hplain hb.valid hu.valid).mp hbu) hfound hrun hsame

end Scene

/-- Functions, and those among them that are total. -/
def functionDefinition : Definition := .mapping [
  typeEntry "animal" [] [],
  typeEntry "dog" [] ["animal"],
  typeEntry "cat" [] ["animal"],
  typeEntry "function" [("x", .contra), ("y", .co)] [],
  typeEntry "total" [("x", .contra), ("y", .co)] ["function[x, y]"]]

def functionScene : Scene where
  hierarchy := {
    entries := [
      ⟨⟨"animal", [], []⟩, [], [("animal", [[]])], ["dog", "cat"], ["dog", "cat"]⟩,
      ⟨⟨"dog", [], [⟨"animal", []⟩]⟩, [("animal", [])], [("animal", [[]]), ("dog", [[]])], [], []⟩,
      ⟨⟨"cat", [], [⟨"animal", []⟩]⟩, [("animal", [])], [("animal", [[]]), ("cat", [[]])], [], []⟩,
      ⟨⟨"function", [⟨"x", .contra⟩, ⟨"y", .co⟩], []⟩, [], [("function", [[.slot 0, .slot 1]])],
        ["total"], ["total"]⟩,
      ⟨⟨"total", [⟨"x", .contra⟩, ⟨"y", .co⟩], [⟨"function", [⟨"x", []⟩, ⟨"y", []⟩]⟩]⟩,
        [("function", [.slot 0, .slot 1])],
        [("function", [[.slot 0, .slot 1]]), ("total", [[.slot 0, .slot 1]])], [], []⟩]
    order := ["animal", "dog", "cat", "function", "total"] }
  pattern := none
  bindings := []
  workspace := {}

/-- Lists can be written to, and read from as what they hold. -/
def listDefinition : Definition := .mapping [
  typeEntry "animal" [] [],
  typeEntry "dog" [] ["animal"],
  typeEntry "cat" [] ["animal"],
  typeEntry "getterlist" [("a", .co)] [],
  typeEntry "list" [("a", .inv)] ["getterlist[a]"]]

def listScene : Scene where
  hierarchy := {
    entries := [
      ⟨⟨"animal", [], []⟩, [], [("animal", [[]])], ["dog", "cat"], ["dog", "cat"]⟩,
      ⟨⟨"dog", [], [⟨"animal", []⟩]⟩, [("animal", [])], [("animal", [[]]), ("dog", [[]])], [], []⟩,
      ⟨⟨"cat", [], [⟨"animal", []⟩]⟩, [("animal", [])], [("animal", [[]]), ("cat", [[]])], [], []⟩,
      ⟨⟨"getterlist", [⟨"a", .co⟩], []⟩, [], [("getterlist", [[.slot 0]])], ["list"], ["list"]⟩,
      ⟨⟨"list", [⟨"a", .inv⟩], [⟨"getterlist", [⟨"a", []⟩]⟩]⟩, [("getterlist", [.slot 0])],
        [("getterlist", [[.slot 0]]), ("list", [[.slot 0]])], [], []⟩]
    order := ["animal", "dog", "cat", "getterlist", "list"] }
  pattern := none
  bindings := []
  workspace := {}

namespace Scene

theorem function_accepted :
    Hierarchy.ofDefinition functionDefinition = .ok functionScene.hierarchy :=
  eq_ok_of_toOption (by decide +kernel)

/-- Functions in two orders. -/
theorem function_unify_nearest :
    functionScene.hierarchy.SinglePath ∧ functionScene.hierarchy.VarianceConsistent ∧
    functionScene.hierarchy.Flat ∧ functionScene.hierarchy.Directed ∧
    functionScene.hierarchy.commonAncestors [⟨"total", [⟨"animal", []⟩, ⟨"dog", []⟩]⟩,
      ⟨"total", [⟨"dog", []⟩, ⟨"cat", []⟩]⟩, ⟨"function", [⟨"animal", []⟩, ⟨"cat", []⟩]⟩] =
      .ok [⟨"function", [⟨"dog", []⟩, ⟨"animal", []⟩]⟩] ∧
    ∃ joined, functionScene.unify [[⟨"function", [⟨"animal", []⟩, ⟨"cat", []⟩]⟩],
      [⟨"total", [⟨"animal", []⟩, ⟨"dog", []⟩]⟩], [⟨"total", [⟨"dog", []⟩, ⟨"cat", []⟩]⟩]] =
      .ok joined ∧
      ∀ t, t ∈ joined ↔ t ∈ [TypeExpr.mk "function" [⟨"dog", []⟩, ⟨"animal", []⟩]] := by
  have hsingle : functionScene.hierarchy.SinglePath := by decide +kernel
  have hvar : functionScene.hierarchy.VarianceConsistent := by decide +kernel
  have hflat : functionScene.hierarchy.Flat := by decide +kernel
  have hnearest := unify_nearest function_accepted hsingle hvar (.inr hflat)
  have hdirected : functionScene.hierarchy.Directed := hnearest.2.2.1 hflat
  have hfound : functionScene.hierarchy.commonAncestors [⟨"total", [⟨"animal", []⟩, ⟨"dog", []⟩]⟩,
      ⟨"total", [⟨"dog", []⟩, ⟨"cat", []⟩]⟩, ⟨"function", [⟨"animal", []⟩, ⟨"cat", []⟩]⟩] =
      .ok [⟨"function", [⟨"dog", []⟩, ⟨"animal", []⟩]⟩] := eq_ok_of_toOption (by decide +kernel)
  have hjoined : functionScene.unify [[⟨"function", [⟨"animal", []⟩, ⟨"cat", []⟩]⟩],
      [⟨"total", [⟨"animal", []⟩, ⟨"dog", []⟩]⟩], [⟨"total", [⟨"dog", []⟩, ⟨"cat", []⟩]⟩]] =
      .ok [⟨"function", [⟨"dog", []⟩, ⟨"animal", []⟩]⟩] := eq_ok_of_toOption (by decide +kernel)
  have hvalid : ∀ t ∈ [TypeExpr.mk "total" [⟨"animal", []⟩, ⟨"dog", []⟩],
      ⟨"total", [⟨"dog", []⟩, ⟨"cat", []⟩]⟩, ⟨"function", [⟨"animal", []⟩, ⟨"cat", []⟩]⟩],
      functionScene.hierarchy.validate t = .ok () ∧ t.StarFree :=
    List.forall_mem_cons.mpr ⟨⟨eq_ok_of_toOption (by decide +kernel), by decide +kernel⟩,
      List.forall_mem_cons.mpr ⟨⟨eq_ok_of_toOption (by decide +kernel), by decide +kernel⟩,
        List.forall_mem_singleton.mpr ⟨eq_ok_of_toOption (by decide +kernel), by decide +kernel⟩⟩⟩
  have hperm : [TypeExpr.mk "function" [⟨"animal", []⟩, ⟨"cat", []⟩],
      ⟨"total", [⟨"animal", []⟩, ⟨"dog", []⟩]⟩, ⟨"total", [⟨"dog", []⟩, ⟨"cat", []⟩]⟩].Perm
      [⟨"total", [⟨"animal", []⟩, ⟨"dog", []⟩]⟩, ⟨"total", [⟨"dog", []⟩, ⟨"cat", []⟩]⟩,
        ⟨"function", [⟨"animal", []⟩, ⟨"cat", []⟩]⟩] := by decide +kernel
  exact ⟨hsingle, hvar, hflat, hdirected, hfound, _, hjoined,
    hnearest.2.1 hdirected _ _ _ _ hvalid (by simp) hperm hfound hjoined⟩

/-- Two lists that hold different things have no list above them, so joining them first loses the
type that all three contributions have above them. -/
theorem list_unify_order :
    Hierarchy.ofDefinition listDefinition = .ok listScene.hierarchy ∧
    listScene.hierarchy.commonAncestors
      [⟨"list", [⟨"dog", []⟩]⟩, ⟨"list", [⟨"cat", []⟩]⟩, ⟨"getterlist", [⟨"dog", []⟩]⟩] =
      .ok [⟨"getterlist", [⟨"animal", []⟩]⟩] ∧
    listScene.unify
      [[⟨"list", [⟨"dog", []⟩]⟩], [⟨"getterlist", [⟨"dog", []⟩]⟩], [⟨"list", [⟨"cat", []⟩]⟩]] =
      .ok [⟨"getterlist", [⟨"animal", []⟩]⟩] ∧
    listScene.unify
      [[⟨"list", [⟨"dog", []⟩]⟩], [⟨"list", [⟨"cat", []⟩]⟩], [⟨"getterlist", [⟨"dog", []⟩]⟩]] =
      .ok [] :=
  ⟨eq_ok_of_toOption (by decide +kernel), eq_ok_of_toOption (by decide +kernel),
    eq_ok_of_toOption (by decide +kernel), eq_ok_of_toOption (by decide +kernel)⟩

end Scene

end TypedBlocks
