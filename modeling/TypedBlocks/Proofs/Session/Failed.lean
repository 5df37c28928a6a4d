import TypedBlocks.Proofs.Session.Steady

/-! What a binding leaves behind that could not be made. A refused binding leaves all as it was. A
binding that is admitted is recorded first, and links are taken away until one of them cannot be
judged; under one hierarchy there is no such link. -/
namespace TypedBlocks

namespace Bindings

variable (bindings : Bindings) {block block' : Nat} {generic generic' : Text} {type : TypeExpr}

theorem find?_erase_self : (bindings.erase block generic).find? block generic = none := by
  refine Option.eq_none_iff_forall_ne_some.mpr fun type hfind => ?_
  have hmem := Scene.mem_of_lookup hfind
  simp [erase] at hmem

theorem find?_erase_of_ne (hne : (block', generic') ≠ (block, generic)) :
    (bindings.erase block generic).find? block' generic' = bindings.find? block' generic' := by
  unfold erase find?
  induction bindings with
  | nil => rfl
  | cons entry rest ih =>
    obtain ⟨key, type⟩ := entry
    by_cases hgone : key = (block, generic)
    · have hskip : ((block', generic') == key) = false := by simpa [hgone] using hne
      rw [List.filter_cons_of_neg (by simpa using hgone), List.lookup_cons, hskip]
      exact ih
    · rw [List.filter_cons_of_pos (by simpa using hgone), List.lookup_cons, List.lookup_cons, ih]

theorem find?_set_self : (bindings.set block generic type).find? block generic = some type := by
  simp [set, find?]

theorem find?_set_of_ne (hne : (block', generic') ≠ (block, generic)) :
    (bindings.set block generic type).find? block' generic' = bindings.find? block' generic' := by
  have hother : ((block', generic') == (block, generic)) = false := by simpa using hne
  rw [← bindings.find?_erase_of_ne hne]
  simp only [set, find?, List.lookup_cons, hother]

end Bindings

namespace Session

open Json (Value)

variable {s t : Session} {block : Nat} {ends : List Nat} {links : List (Nat × Nat)} {fault : Fault}

/-! ### Where the work stops -/

/-- The first pass stops at the first link that cannot be judged without the links dropped so
far. -/
theorem dropUnfit_error (hw : s.workspace.Matched) (hnodup : (links.map (·.1)).Nodup)
    (hends : ∀ x ∈ links.map (·.1), x ∉ ends)
    (hrun : (s.cut ends).dropUnfit links = (t, .error fault)) :
    ∃ before c peer after lost, links = before ++ (c, peer) :: after ∧ t = s.cut lost ∧
      s.Drops before ends lost ∧ (s.cut lost).verdict c peer = .error fault := by
  induction links generalizing ends t with
  | nil => cases hrun
  | cons link rest ih =>
    obtain ⟨c, peer⟩ := link
    obtain ⟨hfresh, hrest⟩ := List.nodup_cons.mp hnodup
    obtain ⟨hc, hends⟩ := List.forall_mem_cons.mp hends
    rw [dropUnfit_cons] at hrun
    cases hverdict : (s.cut ends).verdict c peer with
    | error found =>
      simp only [hverdict] at hrun
      obtain ⟨rfl, hfault⟩ := Prod.mk.inj hrun
      obtain rfl := Except.error.inj hfault
      exact ⟨[], c, peer, rest, ends, rfl, rfl, ⟨fun x hx => hx, fun x hx => .inl hx, by simp⟩,
        hverdict⟩
    | ok fits =>
      cases fits with
      | false =>
        simp only [hverdict, disconnect_cut hw.twoWay] at hrun
        have hnext : ∀ x ∈ rest.map (·.1), x ∉ ends ++ [c] := by
          intro x hx
          have := hends x hx
          grind
        obtain ⟨before, c', peer', after, lost, rfl, rfl, hdrops, herror⟩ := ih hrest hnext hrun
        have hlost : c ∈ lost := hdrops.grows c (by simp)
        exact ⟨(c, peer) :: before, c', peer', after, lost, rfl, rfl,
          hdrops.cons (fun x hx => by simp [hx]) (fun x hx => by simpa using hx)
            (by simp [hlost, hverdict]), herror⟩
      | true =>
        simp only [hverdict] at hrun
        obtain ⟨ht, hkept⟩ := Prod.mk.inj hrun
        cases hlater : ((s.cut ends).dropUnfit rest).2 with
        | ok later => simp [hlater, Except.map] at hkept
        | error found =>
          rw [hlater] at hkept
          obtain rfl := Except.error.inj hkept
          obtain ⟨before, c', peer', after, lost, rfl, rfl, hdrops, herror⟩ :=
            ih hrest hends (Prod.ext ht hlater)
          -- The pass comes to each connection once, so a link that fits is not lost later.
          have hlost : c ∉ lost := by
            intro hmem
            rcases hdrops.only c hmem with hin | hin
            · exact hc hin
            · exact hfresh (by simp [List.map_append, List.mem_append.mpr (.inl hin)])
          exact ⟨(c, peer) :: before, c', peer', after, lost, rfl, rfl,
            hdrops.cons (fun x hx => hx) (fun x hx => .inl hx) (by simp [hlost, hverdict]),
            herror⟩

/-- The second pass stops at a link that has not been made again. -/
theorem relink_error (hw : s.workspace.Matched) (hnodup : (links.map (·.1)).Nodup)
    (hmissing : s.Missing ends links) (hrun : (s.cut ends).relink links = (t, .error fault)) :
    ∃ c peer lost, (c, peer) ∈ links ∧ t = s.cut lost ∧ c ∈ lost ∧
      (s.cut lost).verdict c peer = .error fault := by
  induction links generalizing ends with
  | nil => cases hrun
  | cons link rest ih =>
    obtain ⟨c, peer⟩ := link
    obtain ⟨hfresh, hrest⟩ := List.nodup_cons.mp hnodup
    obtain ⟨⟨hlink, hc, hpeer⟩, hmissing⟩ := List.forall_mem_cons.mp hmissing
    rw [relink_cons] at hrun
    cases hverdict : (s.cut ends).verdict c peer with
    | error found =>
      simp only [hverdict] at hrun
      obtain ⟨rfl, hfault⟩ := Prod.mk.inj hrun
      obtain rfl := Except.error.inj hfault
      exact ⟨c, peer, ends, List.mem_cons_self, rfl, hc, hverdict⟩
    | ok fits =>
      have hlater : ∃ c peer lost, (c, peer) ∈ rest ∧ t = s.cut lost ∧ c ∈ lost ∧
          (s.cut lost).verdict c peer = .error fault := by
        cases fits with
        | false =>
          simp only [hverdict] at hrun
          exact ih hrest hmissing hrun
        | true =>
          simp only [hverdict, linkEnds_cut_of_notMem hw.twoWay hlink hpeer] at hrun
          exact ih hrest (Missing.filter hmissing hfresh) hrun
      obtain ⟨c', peer', lost, hmem, heq⟩ := hlater
      exact ⟨c', peer', lost, List.mem_cons_of_mem _ hmem, heq⟩

/-- Links that were checked anew up to one that cannot be judged: either in the first pass, or after
it, when the link itself is away. -/
inductive Halted (s : Session) (block : Nat) (fault : Fault) (lost : List Nat) : Prop
  | first {before after : List (Nat × Nat)} {c peer : Nat}
      (hsplit : s.linksOf block = before ++ (c, peer) :: after) (hdrops : s.Drops before [] lost)
      (hverdict : (s.cut lost).verdict c peer = .error fault)
  | second {c peer : Nat} (hlink : (c, peer) ∈ s.linksOf block) (hlost : c ∈ lost)
      (hverdict : (s.cut lost).verdict c peer = .error fault)

theorem revalidate_error (hw : s.workspace.Matched)
    (hrun : s.revalidate block = (t, .error fault)) :
    ∃ lost, t = s.cut lost ∧ s.Halted block fault lost := by
  rw [revalidate_eq] at hrun
  cases hfirst : s.dropUnfit (s.linksOf block) with
  | mk s' outcome =>
    cases outcome with
    | error found =>
      simp only [hfirst] at hrun
      obtain ⟨rfl, hfault⟩ := Prod.mk.inj hrun
      obtain rfl := Except.error.inj hfault
      have hdrop : (s.cut []).dropUnfit (s.linksOf block) = (s', .error found) := by
        rw [cut_nil, hfirst]
      obtain ⟨before, c, peer, after, lost, hsplit, ht, hdrops, hverdict⟩ :=
        dropUnfit_error hw (nodup_linksOf hw) (by simp) hdrop
      exact ⟨lost, ht, .first hsplit hdrops hverdict⟩
    | ok kept =>
      obtain ⟨dropped, rfl, hkept, -, howned⟩ := dropUnfit_linksOf hw hfirst
      have hsub : kept.Sublist (s.linksOf block) := hkept ▸ List.filter_sublist
      cases hreconnect : s.policy.reconnect with
      | false => simp [hfirst, cut, hreconnect] at hrun
      | true =>
        have hpolicy : (s.cut dropped).policy.reconnect = true := hreconnect
        simp only [hfirst, hpolicy, if_true, disconnectAll_cut hw.twoWay] at hrun
        cases hsecond : (s.cut (dropped ++ kept.map (·.1))).relink kept with
        | mk s' outcome =>
          cases outcome with
          | ok done => simp [hsecond] at hrun
          | error found =>
            simp only [hsecond] at hrun
            obtain ⟨rfl, hfault⟩ := Prod.mk.inj hrun
            obtain rfl := Except.error.inj hfault
            obtain ⟨c, peer, lost, hmem, ht, hlost, hverdict⟩ :=
              relink_error hw ((nodup_linksOf hw).sublist (hsub.map _))
                (missing_kept hw howned hsub) hsecond
            exact ⟨lost, ht, .second (hsub.subset hmem) hlost hverdict⟩

/-- Links that fit stay while the first pass goes over them. -/
theorem dropUnfit_of_fits {before after : List (Nat × Nat)} {c peer : Nat}
    (hfits : ∀ link ∈ before, s.verdict link.1 link.2 = .ok true)
    (hverdict : s.verdict c peer = .error fault) :
    s.dropUnfit (before ++ (c, peer) :: after) = (s, .error fault) := by
  induction before with
  | nil => simp [dropUnfit_cons, hverdict]
  | cons link rest ih =>
    obtain ⟨x, y⟩ := link
    obtain ⟨hfirst, hrest⟩ := List.forall_mem_cons.mp hfits
    rw [List.cons_append, dropUnfit_cons, hfirst]
    simp only [ih hrest, Except.map]

/-- A link that is still there has not been lost. -/
theorem notMem_of_kept {lost : List Nat} {c peer : Nat} (hlink : (c, peer) ∈ s.linksOf block)
    (hkept : (s.cut lost).workspace.target? c = s.workspace.target? c) : c ∉ lost := by
  intro hlost
  have hgone : (s.cut lost).workspace.target? c = none := Workspace.target?_cut_of_mem hlost
  rw [hkept, (mem_linksOf.mp hlink).2] at hgone
  cases hgone

theorem Halted.of_kept {lost : List Nat} (hhalted : s.Halted block fault lost)
    (hkept : ∀ c, (s.cut lost).workspace.target? c = s.workspace.target? c) :
    ∃ before c peer after, s.linksOf block = before ++ (c, peer) :: after ∧
      (∀ link ∈ before, s.verdict link.1 link.2 = .ok true) ∧ s.verdict c peer = .error fault := by
  cases hhalted with
  | second hlink hlost _ => exact absurd hlost (notMem_of_kept hlink (hkept _))
  | @first before after c peer hsplit hdrops hverdict =>
    -- All that the first pass has lost were links before the one it stops at.
    have hnone : ∀ x, x ∉ lost := by
      intro x hx
      obtain ⟨link, hlink, rfl⟩ :=
        List.mem_map.mp ((hdrops.only x hx).resolve_left List.not_mem_nil)
      have hmem : link ∈ s.linksOf block := hsplit ▸ List.mem_append_left _ hlink
      exact notMem_of_kept hmem (hkept _) hx
    obtain rfl := List.eq_nil_iff_forall_not_mem.mpr hnone
    rw [cut_nil] at hverdict
    refine ⟨before, c, peer, after, hsplit, fun link hlink => ?_, hverdict⟩
    obtain ⟨away, -, haway, hjudged⟩ := hdrops.judged link hlink
    obtain rfl := List.eq_nil_iff_forall_not_mem.mpr fun x hx => hnone x (haway x hx)
    simpa [cut_nil] using hjudged

/-- Checking links anew has changed none of them when it stops, if and only if it stops at a link
before which all links fit. -/
theorem revalidate_kept_iff (hw : s.workspace.Matched)
    (hrun : s.revalidate block = (t, .error fault)) :
    (∀ c, t.workspace.target? c = s.workspace.target? c) ↔
      ∃ before c peer after, s.linksOf block = before ++ (c, peer) :: after ∧
        (∀ link ∈ before, s.verdict link.1 link.2 = .ok true) ∧
        s.verdict c peer = .error fault := by
  constructor
  · intro hkept
    obtain ⟨lost, rfl, hhalted⟩ := revalidate_error hw hrun
    exact hhalted.of_kept hkept
  · rintro ⟨before, c, peer, after, hsplit, hfits, hverdict⟩
    have hstop : s.revalidate block = (s, .error fault) := by
      rw [revalidate_eq, hsplit, dropUnfit_of_fits hfits hverdict]
    obtain rfl : t = s := (Prod.mk.inj (hrun.symm.trans hstop)).1
    exact fun _ => rfl

/-- Under one hierarchy nothing is found wrong with a link that is checked anew. -/
theorem Guarded.revalidate_error (hs : s.Guarded)
    (hrun : s.revalidate block = (t, .error fault)) : fault = .unending := by
  obtain ⟨lost, -, hhalted⟩ := Session.revalidate_error hs.matched hrun
  obtain ⟨c, peer, hlink, hverdict⟩ : ∃ c peer, (c, peer) ∈ s.linksOf block ∧
      (s.cut lost).verdict c peer = .error fault := by
    cases hhalted with
    | @first before after c peer hsplit _ hverdict =>
      exact ⟨c, peer, hsplit ▸ List.mem_append_right _ List.mem_cons_self, hverdict⟩
    | @second c peer hlink _ hverdict => exact ⟨c, peer, hlink, hverdict⟩
  exact hs.unending_of_verdict (mem_linksOf.mp hlink).2 hverdict

/-! ### Bindings that fail -/

/-- The same types for all generics and the same links. -/
def Unchanged (s t : Session) : Prop :=
  (∀ block generic, t.bindings.find? block generic = s.bindings.find? block generic) ∧
    ∀ c, t.workspace.target? c = s.workspace.target? c

theorem find?_withBinding_iff {name : Text} {type : TypeExpr} :
    (∀ b g, (s.withBinding block name type).bindings.find? b g = s.bindings.find? b g) ↔
      s.bindings.find? block name = some type := by
  have hnew : (s.withBinding block name type).bindings.find? block name = some type :=
    s.bindings.find?_set_self
  constructor
  · intro hsame
    rw [← hsame, hnew]
  · intro hold b g
    by_cases hkey : (b, g) = (block, name)
    · obtain ⟨rfl, rfl⟩ := Prod.mk.inj hkey
      rw [hnew, hold]
    · exact s.bindings.find?_set_of_ne hkey

/-- Of a binding that fails: if it is refused, nothing has changed. If it is admitted, nothing has
changed if and only if it had been made before and all links fit up to one that cannot be judged.
Under one hierarchy nothing has changed, unless a recursion did not end. -/
theorem bind_failed {s t : Session} {block : Nat} {generic explicit : Value} {fault : Fault}
    (hreach : s.Reachable) (hbind : s.bind block generic explicit = (t, .error fault)) :
    (∀ refusal, s.admitBinding generic explicit = .error refusal → t = s) ∧
    (∀ name type, s.admitBinding generic explicit = .ok (name, type) →
      (s.Unchanged t ↔ s.bindings.find? block name = some type ∧
        ∃ before c peer after, s.linksOf block = before ++ (c, peer) :: after ∧
          (∀ link ∈ before,
            (s.withBinding block name type).verdict link.1 link.2 = .ok true) ∧
          (s.withBinding block name type).verdict c peer = .error fault)) ∧
    (s.Steady → fault.isReported = true → t = s) := by
  rw [bind_eq] at hbind
  cases hadmitted : s.admitBinding generic explicit with
  | error refusal =>
    rw [hadmitted] at hbind
    obtain rfl : s = t := (Prod.mk.inj hbind).1
    exact ⟨fun _ _ => rfl, nofun, fun _ _ => rfl⟩
  | ok admitted =>
    obtain ⟨name, type⟩ := admitted
    simp only [hadmitted] at hbind
    have hrun : (s.withBinding block name type).revalidate block = (t, .error fault) := hbind
    have hw : (s.withBinding block name type).workspace.Matched := hreach.matched
    refine ⟨nofun, ?_, ?_⟩
    · intro name' type' heq
      obtain ⟨rfl, rfl⟩ := Prod.mk.inj (Except.ok.inj heq)
      obtain ⟨lost, ht, -⟩ := revalidate_error hw hrun
      have hbindings : t.bindings = (s.withBinding block name type).bindings := by rw [ht]; rfl
      unfold Unchanged
      rw [hbindings, find?_withBinding_iff]
      exact and_congr_right fun _ => revalidate_kept_iff hw hrun
    · intro hsteady hreported
      have hguarded := hsteady.guarded.withBinding hadmitted block
      rw [hguarded.revalidate_error hrun] at hreported
      cases hreported

/-! ### A binding left behind -/

/-- A block takes anything and a box; both are given, and then the boxes are gone from the
hierarchy. -/
def unboxedCommands : List Command := [
  .load (.mapping [
    typeEntry "animal" [] [],
    typeEntry "dog" [] ["animal"],
    typeEntry "cat" [] ["animal"],
    typeEntry "box" [("x", .co)] []]) false,
  .addBlock { label := "mix", inputs := [("a", some "g"), ("b", some "box[u]")] },
  leaf "dog", leaf "box[dog]", .connect 0 2, .connect 1 3,
  .load (.mapping [
    typeEntry "animal" [] [],
    typeEntry "dog" [] ["animal"],
    typeEntry "cat" [] ["animal"]]) false]

def unboxedSession : Session where
  hierarchy := some {
    entries := [
      ⟨⟨"animal", [], []⟩, [], [("animal", [[]])], ["dog", "cat"], ["dog", "cat"]⟩,
      ⟨⟨"dog", [], [⟨"animal", []⟩]⟩, [("animal", [])], [("animal", [[]]), ("dog", [[]])], [], []⟩,
      ⟨⟨"cat", [], [⟨"animal", []⟩]⟩, [("animal", [])], [("animal", [[]]), ("cat", [[]])], [], []⟩]
    order := ["animal", "dog", "cat"] }
  workspace := {
    blocks := [
      { label := "mix", inputs := [0, 1] },
      { label := "dog", output := some 2 },
      { label := "box[dog]", output := some 3 }]
    connections := [
      ⟨0, .input "a", some "g", some 2⟩,
      ⟨0, .input "b", some "box[u]", some 3⟩,
      ⟨1, .output, some "dog", some 0⟩,
      ⟨2, .output, some "box[dog]", some 1⟩] }

/-- What is left of it once `g` is to be bound to `cat`: the binding is there, the dog is gone. -/
def unboxedBound : Session :=
  (unboxedSession.withBinding 0 "g" ⟨"cat", []⟩).cut [0]

theorem unboxedSession_reachable : unboxedSession.Reachable :=
  reachable_of_run unboxedCommands (by simp [unboxedCommands, leaf]) (by decide +kernel)

/-- The dog is dropped, as it is no cat; then the check of the other input cannot be read. -/
theorem unboxedSession_bind : ∃ fault,
    unboxedSession.bind 0 (.text "g") (.text "cat") = (unboxedBound, .error fault) ∧
    fault.isReported = true ∧
    fault.message = "Bad type 'box[u]': the generic 'box' cannot take parameters" := by
  have hstate : (unboxedSession.bind 0 (.text "g") (.text "cat")).1 = unboxedBound := by
    decide +kernel
  have hstop : (unboxedSession.bind 0 (.text "g") (.text "cat")).2.mapError
      (fun fault => (fault.isReported, fault.message)) =
      .error (true, "Bad type 'box[u]': the generic 'box' cannot take parameters") := by
    decide +kernel
  obtain ⟨fault, hfault, hkind⟩ := exists_of_mapError hstop
  exact ⟨fault, Prod.ext hstate hfault, Prod.mk.inj hkind⟩

/-- The binding is recorded and a link is gone, although the binding has failed. -/
theorem unboxedSession_changed :
    unboxedSession.Reachable ∧ ∃ t fault,
      unboxedSession.bind 0 (.text "g") (.text "cat") = (t, .error fault) ∧
      fault.isReported = true ∧
      unboxedSession.bindings.find? 0 "g" = none ∧ t.bindings.find? 0 "g" = some ⟨"cat", []⟩ ∧
      unboxedSession.workspace.target? 0 = some 2 ∧ t.workspace.target? 0 = none := by
  obtain ⟨fault, hbind, hreported, -⟩ := unboxedSession_bind
  exact ⟨unboxedSession_reachable, unboxedBound, fault, hbind, hreported, rfl, by decide +kernel,
    rfl, by decide +kernel⟩

theorem mixSession_steady : mixSession.Steady := by
  have hrun : mixSession = Session.run {} mixCommands := by decide +kernel
  rw [hrun]
  exact steady_of_load {} _ _ (by simp [leaf])

/-- There the binding was not made before, so something has changed; where one hierarchy has been
kept to, a type that is not rightly applied changes nothing. -/
theorem unboxedSession_failed :
    unboxedSession.Reachable ∧
    unboxedSession.admitBinding (.text "g") (.text "cat") = .ok ("g", ⟨"cat", []⟩) ∧
    ¬ unboxedSession.Unchanged unboxedBound ∧
    mixSession.Steady ∧ ∃ fault, fault.isReported = true ∧
      mixSession.bind 0 (.text "g") (.text "pair[dog]") = (mixSession, .error fault) := by
  have hadmitted : unboxedSession.admitBinding (.text "g") (.text "cat") =
      .ok ("g", ⟨"cat", []⟩) := eq_ok_of_toOption (by decide +kernel)
  have hnew : unboxedSession.bindings.find? 0 "g" ≠ some ⟨"cat", []⟩ := by decide +kernel
  obtain ⟨_, hbind, -⟩ := unboxedSession_bind
  have hchanged := (bind_failed unboxedSession_reachable hbind).2.1 _ _ hadmitted
  have hstop : (mixSession.bind 0 (.text "g") (.text "pair[dog]")).2.mapError Fault.isReported =
      .error true := by decide +kernel
  obtain ⟨fault, hfault, hreported⟩ := exists_of_mapError hstop
  have hrefused : mixSession.bind 0 (.text "g") (.text "pair[dog]") =
      ((mixSession.bind 0 (.text "g") (.text "pair[dog]")).1, .error fault) := by
    rw [← hfault]
  have hkept := (bind_failed mixSession_reachable hrefused).2.2 mixSession_steady hreported
  rw [hkept] at hrefused
  exact ⟨unboxedSession_reachable, hadmitted, fun hsame => hnew (hchanged.mp hsame).1,
    mixSession_steady, fault, hreported, hrefused⟩

end Session

end TypedBlocks
