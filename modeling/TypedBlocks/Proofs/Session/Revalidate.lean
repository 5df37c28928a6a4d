import TypedBlocks.Proofs.Session.Frame
import TypedBlocks.Session.Basic

/-! Checking the links of a block anew only ever takes links away; against which links each one is
judged in the two passes. -/
namespace TypedBlocks.Session

variable {s t : Session} {ends : List Nat} {links : List (Nat × Nat)} {block : Nat}

def cut (s : Session) (ends : List Nat) : Session :=
  { s with workspace := s.workspace.cut ends }

theorem cut_nil : s.cut [] = s := by
  rw [cut, Workspace.cut_nil]

theorem cut_cut {more : List Nat} : (s.cut ends).cut more = s.cut (ends ++ more) := by
  simp only [cut, Workspace.cut_cut]

theorem disconnect_cut (hw : s.workspace.TwoWay) {c : Nat} :
    (s.cut ends).disconnect c = s.cut (ends ++ [c]) := by
  simp only [disconnect, cut, hw.cut.disconnect_eq, Workspace.cut_cut]

theorem disconnectAll_cut (hw : s.workspace.TwoWay) :
    (s.cut ends).disconnectAll links = s.cut (ends ++ links.map (·.1)) := by
  induction links generalizing ends with
  | nil => simp [disconnectAll]
  | cons link rest ih =>
    have hstep : (s.cut ends).disconnectAll (link :: rest) =
        (s.cut (ends ++ [link.1])).disconnectAll rest := by
      rw [← disconnect_cut hw]
      rfl
    rw [hstep, ih]
    simp

theorem linkEnds_cut (hw : s.workspace.TwoWay) {c peer : Nat}
    (hlink : s.workspace.target? c = some peer) :
    (s.cut ends).linkEnds c peer = s.cut (ends.filter fun x => x ≠ c ∧ x ≠ peer) := by
  simp only [linkEnds, cut, hw.connect_cut hlink]

theorem linkEnds_cut_of_notMem (hw : s.workspace.TwoWay) {c peer : Nat}
    (hlink : s.workspace.target? c = some peer) (hpeer : peer ∉ ends) :
    (s.cut ends).linkEnds c peer = s.cut (ends.filter (· ≠ c)) := by
  rw [linkEnds_cut hw hlink]
  congr 1
  refine List.filter_congr fun x hx => ?_
  have hne : x ≠ peer := ne_of_mem_of_not_mem hx hpeer
  simp [hne]

/-- What the first pass over links does, from a state without the links of `ends`: it takes the
links of `lost` away as well, judging each link without some of these. -/
structure Drops (s : Session) (links : List (Nat × Nat)) (ends lost : List Nat) : Prop where
  grows : ∀ x, x ∈ ends → x ∈ lost
  only : ∀ x, x ∈ lost → x ∈ ends ∨ x ∈ links.map (·.1)
  judged : ∀ link ∈ links, ∃ away, (∀ x, x ∈ ends → x ∈ away) ∧ (∀ x, x ∈ away → x ∈ lost) ∧
    (s.cut away).verdict link.1 link.2 = .ok (decide (link.1 ∉ lost))

/-- What the second pass does, from a state without any of the links: it makes some of them again,
judging each one against those made again before it. -/
structure Relinks (s : Session) (links : List (Nat × Nat)) (ends lost : List Nat) : Prop where
  shrinks : ∀ x, x ∈ lost → x ∈ ends
  only : ∀ x, x ∈ ends → x ∈ lost ∨ x ∈ links.map (·.1)
  judged : ∀ before c peer after, links = before ++ (c, peer) :: after →
    ∃ away, (∀ x, x ∈ away ↔ x ∈ lost ∨ x = c ∨ x ∈ after.map (·.1)) ∧
      (s.cut away).verdict c peer = .ok (decide (c ∉ lost))

theorem Drops.cons {rest : List (Nat × Nat)} {next lost : List Nat} {c peer : Nat}
    (hdrops : s.Drops rest next lost) (hmore : ∀ x, x ∈ ends → x ∈ next)
    (honly : ∀ x, x ∈ next → x ∈ ends ∨ x = c)
    (hverdict : (s.cut ends).verdict c peer = .ok (decide (c ∉ lost))) :
    s.Drops ((c, peer) :: rest) ends lost := by
  refine ⟨fun x hx => hdrops.grows x (hmore x hx), fun x hx => ?_, ?_⟩
  · have := hdrops.only x hx
    have := honly x
    grind
  · refine List.forall_mem_cons.mpr ⟨⟨ends, fun x hx => hx,
      fun x hx => hdrops.grows x (hmore x hx), hverdict⟩, fun link hlink => ?_⟩
    obtain ⟨away, hstart, hless, hjudged⟩ := hdrops.judged link hlink
    exact ⟨away, fun x hx => hstart x (hmore x hx), hless, hjudged⟩

theorem Relinks.cons {rest : List (Nat × Nat)} {next lost : List Nat} {c peer : Nat}
    (hrelinks : s.Relinks rest next lost) (hc : c ∈ ends)
    (hnext : ∀ x, x ∈ ends ↔ x ∈ next ∨ x = c) (hrest : ∀ x ∈ rest.map (·.1), x ∈ ends)
    (hverdict : (s.cut ends).verdict c peer = .ok (decide (c ∉ lost))) :
    s.Relinks ((c, peer) :: rest) ends lost := by
  refine ⟨fun x hx => (hnext x).mpr (.inl (hrelinks.shrinks x hx)), fun x hx => ?_, ?_⟩
  · have := hrelinks.only x
    have := hnext x
    grind
  · intro before c' peer' after hsplit
    rcases List.cons_eq_append_iff.mp hsplit with ⟨rfl, heq⟩ | ⟨before', rfl, heq⟩
    · obtain ⟨hhead, rfl⟩ := List.cons.inj heq
      obtain ⟨rfl, rfl⟩ := Prod.mk.inj hhead
      refine ⟨ends, fun x => ?_, hverdict⟩
      have := hrelinks.only x
      have := hrelinks.shrinks x
      have := hrest x
      have := hnext x
      grind
    · exact hrelinks.judged before' c' peer' after heq

/-- However the first pass ends, it has only taken links away. -/
theorem dropUnfit_eq_cut (hw : s.workspace.TwoWay) :
    ∃ lost, ((s.cut ends).dropUnfit links).1 = s.cut lost ∧
      ∀ x, x ∈ lost → x ∈ ends ∨ x ∈ links.map (·.1) := by
  induction links generalizing ends with
  | nil => exact ⟨ends, rfl, fun x hx => .inl hx⟩
  | cons link rest ih =>
    obtain ⟨c, peer⟩ := link
    rw [dropUnfit_cons]
    cases (s.cut ends).verdict c peer with
    | error fault => exact ⟨ends, rfl, fun x hx => .inl hx⟩
    | ok fits =>
      cases fits with
      | false =>
        obtain ⟨lost, hlost, honly⟩ := @ih (ends ++ [c])
        refine ⟨lost, (disconnect_cut hw).symm ▸ hlost, fun x hx => ?_⟩
        have := honly x hx
        grind
      | true =>
        obtain ⟨lost, hlost, honly⟩ := @ih ends
        exact ⟨lost, hlost, fun x hx => (honly x hx).imp_right (List.mem_cons_of_mem c)⟩

theorem dropUnfit_sublist {kept : List (Nat × Nat)} (hrun : s.dropUnfit links = (t, .ok kept)) :
    kept.Sublist links := by
  induction links generalizing s t kept with
  | nil =>
    obtain rfl := Except.ok.inj (Prod.mk.inj hrun).2
    exact .refl []
  | cons link rest ih =>
    obtain ⟨c, peer⟩ := link
    rw [dropUnfit_cons] at hrun
    split at hrun
    · cases (Prod.mk.inj hrun).2
    · exact (ih hrun).cons _
    · obtain ⟨-, hkept⟩ := Prod.mk.inj hrun
      obtain ⟨later, hlater, rfl⟩ := map_eq_ok.mp hkept
      exact (ih (Prod.ext rfl hlater)).cons_cons _

theorem dropUnfit_ok (hw : s.workspace.Matched) {kept : List (Nat × Nat)}
    (hnodup : (links.map (·.1)).Nodup) (hends : ∀ x ∈ links.map (·.1), x ∉ ends)
    (hrun : (s.cut ends).dropUnfit links = (t, .ok kept)) :
    ∃ lost, t = s.cut lost ∧ kept = links.filter (·.1 ∉ lost) ∧ s.Drops links ends lost := by
  induction links generalizing ends kept t with
  | nil =>
    obtain ⟨rfl, hkept⟩ := Prod.mk.inj hrun
    obtain rfl := Except.ok.inj hkept
    exact ⟨ends, rfl, rfl, fun x hx => hx, fun x hx => .inl hx, by simp⟩
  | cons link rest ih =>
    obtain ⟨c, peer⟩ := link
    obtain ⟨hfresh, hrest⟩ := List.nodup_cons.mp hnodup
    obtain ⟨hc, hends⟩ := List.forall_mem_cons.mp hends
    rw [dropUnfit_cons] at hrun
    cases hverdict : (s.cut ends).verdict c peer with
    | error fault => simp [hverdict] at hrun
    | ok fits =>
      cases fits with
      | false =>
        simp only [hverdict, disconnect_cut hw.twoWay] at hrun
        have hnext : ∀ x ∈ rest.map (·.1), x ∉ ends ++ [c] := by
          intro x hx
          have := hends x hx
          grind
        obtain ⟨lost, rfl, rfl, hdrops⟩ := ih hrest hnext hrun
        have hlost : c ∈ lost := hdrops.grows c (by simp)
        exact ⟨lost, rfl, by simp [hlost], hdrops.cons (fun x hx => by simp [hx])
          (fun x hx => by simpa using hx) (by simp [hlost, hverdict])⟩
      | true =>
        simp only [hverdict] at hrun
        obtain ⟨ht, hkept⟩ := Prod.mk.inj hrun
        cases hlater : ((s.cut ends).dropUnfit rest).2 with
        | error fault => simp [hlater, Except.map] at hkept
        | ok later =>
          rw [hlater] at hkept
          obtain rfl := Except.ok.inj hkept
          obtain ⟨lost, rfl, rfl, hdrops⟩ := ih hrest hends (Prod.ext ht hlater)
          have hlost : c ∉ lost := fun hmem => (hdrops.only c hmem).elim hc hfresh
          exact ⟨lost, rfl, by simp [hlost], hdrops.cons (fun x hx => hx) (fun x hx => .inl hx)
            (by simp [hlost, hverdict])⟩

/-- Links of the session whose connections are among those that lost theirs. -/
def Missing (s : Session) (ends : List Nat) (links : List (Nat × Nat)) : Prop :=
  ∀ link ∈ links, s.workspace.target? link.1 = some link.2 ∧ link.1 ∈ ends ∧ link.2 ∉ ends

theorem Missing.filter {rest : List (Nat × Nat)} {c : Nat} (hmissing : s.Missing ends rest)
    (hfresh : c ∉ rest.map (·.1)) : s.Missing (ends.filter (· ≠ c)) rest := by
  intro link hlink
  obtain ⟨htarget, hin, hout⟩ := hmissing link hlink
  have hne : link.1 ≠ c := fun heq => hfresh (List.mem_map.mpr ⟨link, hlink, heq⟩)
  simp [htarget, hin, hout, hne]

/-- However the second pass ends, the links are among those there were. -/
theorem relink_eq_cut (hw : s.workspace.TwoWay)
    (hlinks : ∀ link ∈ links, s.workspace.target? link.1 = some link.2) :
    ∃ lost, ((s.cut ends).relink links).1 = s.cut lost ∧ ∀ x, x ∈ lost → x ∈ ends := by
  induction links generalizing ends with
  | nil => exact ⟨ends, rfl, fun x hx => hx⟩
  | cons link rest ih =>
    obtain ⟨c, peer⟩ := link
    obtain ⟨hlink, hrest⟩ := List.forall_mem_cons.mp hlinks
    rw [relink_cons]
    cases (s.cut ends).verdict c peer with
    | error fault => exact ⟨ends, rfl, fun x hx => hx⟩
    | ok fits =>
      cases fits with
      | false => exact ih hrest
      | true =>
        obtain ⟨lost, hlost, honly⟩ := @ih (ends.filter fun x => x ≠ c ∧ x ≠ peer) hrest
        exact ⟨lost, (linkEnds_cut hw hlink).symm ▸ hlost,
          fun x hx => (List.mem_filter.mp (honly x hx)).1⟩

theorem relink_ok (hw : s.workspace.Matched) (hnodup : (links.map (·.1)).Nodup)
    (hmissing : s.Missing ends links) (hrun : (s.cut ends).relink links = (t, .ok ())) :
    ∃ lost, t = s.cut lost ∧ s.Relinks links ends lost := by
  induction links generalizing ends with
  | nil =>
    obtain ⟨rfl, -⟩ := Prod.mk.inj hrun
    exact ⟨ends, rfl, fun x hx => hx, fun x hx => .inl hx, by simp⟩
  | cons link rest ih =>
    obtain ⟨c, peer⟩ := link
    obtain ⟨hfresh, hrest⟩ := List.nodup_cons.mp hnodup
    obtain ⟨⟨hlink, hc, hpeer⟩, hmissing⟩ := List.forall_mem_cons.mp hmissing
    have hin : ∀ x ∈ rest.map (·.1), x ∈ ends := by
      intro x hx
      obtain ⟨link, hmem, rfl⟩ := List.mem_map.mp hx
      exact (hmissing link hmem).2.1
    rw [relink_cons] at hrun
    cases hverdict : (s.cut ends).verdict c peer with
    | error fault => simp [hverdict] at hrun
    | ok fits =>
      cases fits with
      | false =>
        simp only [hverdict] at hrun
        obtain ⟨lost, rfl, hrelinks⟩ := ih hrest hmissing hrun
        have hlost : c ∈ lost := (hrelinks.only c hc).resolve_right hfresh
        exact ⟨lost, rfl, hrelinks.cons hc (fun x => by grind) hin (by simp [hlost, hverdict])⟩
      | true =>
        simp only [hverdict, linkEnds_cut_of_notMem hw.twoWay hlink hpeer] at hrun
        obtain ⟨lost, rfl, hrelinks⟩ := ih hrest (Missing.filter hmissing hfresh) hrun
        have hlost : c ∉ lost := fun hmem => by simpa using hrelinks.shrinks c hmem
        exact ⟨lost, rfl, hrelinks.cons hc (fun x => by grind) hin (by simp [hlost, hverdict])⟩

/-! ### The links of a block -/

theorem mem_linksOf {c peer : Nat} : (c, peer) ∈ s.linksOf block ↔
    c ∈ s.workspace.connectionsOf block ∧ s.workspace.target? c = some peer := by
  simp only [linksOf, List.mem_filterMap, Option.map_eq_some_iff, Prod.mk.injEq]
  constructor
  · rintro ⟨x, hx, y, hy, rfl, rfl⟩
    exact ⟨hx, hy⟩
  · rintro ⟨hc, hpeer⟩
    exact ⟨c, hc, peer, hpeer, rfl, rfl⟩

theorem nodup_linksOf (hw : s.workspace.Matched) : ((s.linksOf block).map (·.1)).Nodup := by
  rw [linksOf, List.map_filterMap]
  refine (hw.nodup block).filterMap fun x y b hx hy => ?_
  simp only [Option.map_map, Option.mem_def, Option.map_eq_some_iff, Function.comp_apply] at hx hy
  obtain ⟨_, _, rfl⟩ := hx
  obtain ⟨_, _, hxy⟩ := hy
  exact hxy.symm

theorem owner_of_mem_linksOf (hw : s.workspace.Matched) {x : Nat}
    (hx : x ∈ (s.linksOf block).map (·.1)) : s.workspace.owner? x = some block := by
  obtain ⟨link, hlink, rfl⟩ := List.mem_map.mp hx
  exact hw.owned (mem_linksOf.mp hlink).1

/-- No connection of the block is linked to another one of the block. -/
theorem peer_notMem (hw : s.workspace.Matched)
    (hends : ∀ x ∈ ends, s.workspace.owner? x = some block) {c peer : Nat}
    (hlink : (c, peer) ∈ s.linksOf block) : peer ∉ ends := by
  intro hpeer
  obtain ⟨hc, htarget⟩ := mem_linksOf.mp hlink
  exact (hw.joins htarget).1 ((hw.owned hc).trans (hends peer hpeer).symm)

theorem linksOf_cut (hw : s.workspace.Matched)
    (hends : ∀ x ∈ ends, s.workspace.owner? x = some block) :
    (s.cut ends).linksOf block = (s.linksOf block).filter (·.1 ∉ ends) := by
  rw [linksOf, linksOf, List.filter_filterMap]
  refine List.filterMap_congr fun c hc => Option.ext fun link => ?_
  obtain ⟨x, y⟩ := link
  simp only [cut, Option.map_eq_some_iff, Workspace.target?_cut_eq_some, Option.filter_eq_some_iff,
    Prod.mk.injEq, decide_eq_true_eq]
  constructor
  · rintro ⟨_, ⟨htarget, hin, -⟩, rfl, rfl⟩
    exact ⟨⟨_, htarget, rfl, rfl⟩, hin⟩
  · rintro ⟨⟨_, htarget, rfl, rfl⟩, hin⟩
    exact ⟨_, ⟨htarget, hin, peer_notMem hw hends (mem_linksOf.mpr ⟨hc, htarget⟩)⟩, rfl, rfl⟩

/-! ### Both passes -/

/-- The links kept by the first pass are missing once all of them are taken away. -/
theorem missing_kept (hw : s.workspace.Matched) {dropped : List Nat}
    (hdropped : ∀ x ∈ dropped, s.workspace.owner? x = some block) {kept : List (Nat × Nat)}
    (hkept : kept.Sublist (s.linksOf block)) :
    s.Missing (dropped ++ kept.map (·.1)) kept := by
  intro link hlink
  have hmem := hkept.subset hlink
  refine ⟨(mem_linksOf.mp hmem).2, by simpa using .inr ⟨_, hlink⟩, peer_notMem hw ?_ hmem⟩
  intro x hx
  rcases List.mem_append.mp hx with hx | hx
  · exact hdropped x hx
  · exact owner_of_mem_linksOf hw ((hkept.map _).subset hx)

/-- The first pass over the links of a block, if it comes to an end. -/
theorem dropUnfit_linksOf (hw : s.workspace.Matched) {kept : List (Nat × Nat)}
    (hrun : s.dropUnfit (s.linksOf block) = (t, .ok kept)) :
    ∃ dropped, t = s.cut dropped ∧ kept = (s.linksOf block).filter (·.1 ∉ dropped) ∧
      s.Drops (s.linksOf block) [] dropped ∧
      ∀ x ∈ dropped, s.workspace.owner? x = some block := by
  have hdrop : (s.cut []).dropUnfit (s.linksOf block) = (t, .ok kept) := by rw [cut_nil, hrun]
  obtain ⟨dropped, ht, hkept, hdrops⟩ := dropUnfit_ok hw (nodup_linksOf hw) (by simp) hdrop
  exact ⟨dropped, ht, hkept, hdrops, fun x hx =>
    owner_of_mem_linksOf hw ((hdrops.only x hx).resolve_left List.not_mem_nil)⟩

/-- What checking the links of a block anew does if it comes to an end. -/
theorem revalidate_ok (hw : s.workspace.Matched) (hrun : s.revalidate block = (t, .ok ())) :
    ∃ dropped lost, t = (s.cut lost).bumpRendered block ∧ s.Drops (s.linksOf block) [] dropped ∧
      (s.policy.reconnect = false → lost = dropped) ∧
      (s.policy.reconnect = true → s.Relinks ((s.linksOf block).filter (·.1 ∉ dropped))
        (dropped ++ ((s.linksOf block).filter (·.1 ∉ dropped)).map (·.1)) lost) := by
  rw [revalidate_eq] at hrun
  cases hfirst : s.dropUnfit (s.linksOf block) with
  | mk s' outcome =>
    cases outcome with
    | error fault => simp [hfirst] at hrun
    | ok kept =>
      obtain ⟨dropped, rfl, hkept, hdrops, howned⟩ := dropUnfit_linksOf hw hfirst
      have hsub : kept.Sublist (s.linksOf block) := hkept ▸ List.filter_sublist
      cases hreconnect : s.policy.reconnect with
      | false =>
        simp only [hfirst, cut, hreconnect, Bool.false_eq_true, if_false] at hrun
        exact ⟨dropped, dropped, (Prod.mk.inj hrun).1.symm, hdrops, fun _ => rfl, by simp⟩
      | true =>
        have hpolicy : (s.cut dropped).policy.reconnect = true := hreconnect
        simp only [hfirst, hpolicy, if_true, disconnectAll_cut hw.twoWay] at hrun
        cases hsecond : (s.cut (dropped ++ kept.map (·.1))).relink kept with
        | mk s' outcome =>
          cases outcome with
          | error fault => simp [hsecond] at hrun
          | ok done =>
            obtain ⟨lost, rfl, hrelinks⟩ := relink_ok hw ((nodup_linksOf hw).sublist (hsub.map _))
              (missing_kept hw howned hsub) hsecond
            simp only [hsecond] at hrun
            exact ⟨dropped, lost, (Prod.mk.inj hrun).1.symm, hdrops, by simp,
              fun _ => hkept ▸ hrelinks⟩

/-- What is known of the links of a block once those of `lost` are gone: each one was judged without
some of the lost links, and those that stay were judged a second time, against the ones before them
only. -/
structure Settled (s : Session) (block : Nat) (lost : List Nat) : Prop where
  only : ∀ x ∈ lost, x ∈ (s.linksOf block).map (·.1)
  first : ∀ link ∈ s.linksOf block, ∃ away fits, (∀ x ∈ away, x ∈ lost) ∧
    (s.cut away).verdict link.1 link.2 = .ok fits ∧ (link.1 ∉ lost → fits = true)
  second : s.policy.reconnect = true → ∀ before c peer after,
    (s.linksOf block).filter (·.1 ∉ lost) = before ++ (c, peer) :: after →
    ∃ away, (∀ x, x ∈ away ↔ x ∈ lost ∨ x = c ∨ x ∈ after.map (·.1)) ∧
      (s.cut away).verdict c peer = .ok true

theorem Drops.settled {lost : List Nat} (hdrops : s.Drops (s.linksOf block) [] lost)
    (hreconnect : s.policy.reconnect = false) : s.Settled block lost := by
  refine ⟨fun x hx => (hdrops.only x hx).resolve_left List.not_mem_nil, fun link hlink => ?_,
    fun hyes => absurd hyes (by simp [hreconnect])⟩
  obtain ⟨away, -, haway, hverdict⟩ := hdrops.judged link hlink
  exact ⟨away, _, haway, hverdict, fun hstays => decide_eq_true hstays⟩

theorem Relinks.settled {dropped lost : List Nat}
    (hdrops : s.Drops (s.linksOf block) [] dropped)
    (hrelinks : s.Relinks ((s.linksOf block).filter (·.1 ∉ dropped))
      (dropped ++ ((s.linksOf block).filter (·.1 ∉ dropped)).map (·.1)) lost) :
    s.Settled block lost := by
  have hmore : ∀ x ∈ dropped, x ∈ lost := by
    intro x hx
    refine (hrelinks.only x (List.mem_append_left _ hx)).resolve_right fun hkept => ?_
    obtain ⟨link, hlink, rfl⟩ := List.mem_map.mp hkept
    simp [hx] at hlink
  refine ⟨fun x hx => ?_, fun link hlink => ?_, fun _ before c peer after hsplit => ?_⟩
  · rcases List.mem_append.mp (hrelinks.shrinks x hx) with hx | hx
    · exact (hdrops.only x hx).resolve_left List.not_mem_nil
    · exact (List.filter_sublist.map _).subset hx
  · obtain ⟨away, -, haway, hverdict⟩ := hdrops.judged link hlink
    exact ⟨away, _, fun x hx => hmore x (haway x hx), hverdict,
      fun hstays => decide_eq_true fun hgone => hstays (hmore _ hgone)⟩
  · have hfilter : ((s.linksOf block).filter (·.1 ∉ dropped)).filter (·.1 ∉ lost) =
        (s.linksOf block).filter (·.1 ∉ lost) := by
      rw [List.filter_filter]
      refine List.filter_congr fun link _ => ?_
      have := hmore link.1
      grind
    rw [← hfilter] at hsplit
    obtain ⟨early, late, hkept, -, hlate⟩ := List.filter_eq_append_iff.mp hsplit
    obtain ⟨between, rest, rfl, -, hstays, rfl⟩ := List.filter_eq_cons_iff.mp hlate
    rw [← List.append_assoc] at hkept
    obtain ⟨away, haway, hverdict⟩ := hrelinks.judged _ c peer rest hkept
    refine ⟨away, fun x => ?_, by simpa [of_decide_eq_true hstays] using hverdict⟩
    rw [haway]
    simp only [List.mem_map, List.mem_filter, decide_eq_true_eq]
    constructor
    · rintro (hx | hx | ⟨link, hlink, rfl⟩)
      · exact .inl hx
      · exact .inr (.inl hx)
      · by_cases hgone : link.1 ∈ lost
        · exact .inl hgone
        · exact .inr (.inr ⟨link, ⟨hlink, hgone⟩, rfl⟩)
    · rintro (hx | hx | ⟨link, ⟨hlink, -⟩, rfl⟩)
      · exact .inl hx
      · exact .inr (.inl hx)
      · exact .inr (.inr ⟨link, hlink, rfl⟩)

theorem revalidate_settled (hw : s.workspace.Matched)
    (hrun : s.revalidate block = (t, .ok ())) :
    ∃ lost, t = (s.cut lost).bumpRendered block ∧ s.Settled block lost := by
  obtain ⟨dropped, lost, ht, hdrops, hplain, hrelinks⟩ := revalidate_ok hw hrun
  cases hreconnect : s.policy.reconnect with
  | false =>
    obtain rfl := hplain hreconnect
    exact ⟨lost, ht, hdrops.settled hreconnect⟩
  | true => exact ⟨lost, ht, (hrelinks hreconnect).settled hdrops⟩

/-- However it ends, some links of the block have been taken away and nothing else has changed in
the workspace but a count, and that only if there was no fault. -/
theorem revalidate_eq_cut (hw : s.workspace.TwoWay) {outcome : Except Fault Unit}
    (hrun : s.revalidate block = (t, outcome)) :
    ∃ lost, (∀ x ∈ lost, x ∈ s.workspace.connectionsOf block) ∧
      ((∃ fault, outcome = .error fault) ∧ t = s.cut lost ∨
        outcome = .ok () ∧ t = (s.cut lost).bumpRendered block) := by
  obtain ⟨dropped, hdropped, honly⟩ : ∃ lost, ((s.cut []).dropUnfit (s.linksOf block)).1 =
      s.cut lost ∧ ∀ x, x ∈ lost → x ∈ [] ∨ x ∈ (s.linksOf block).map (·.1) :=
    dropUnfit_eq_cut hw
  rw [cut_nil] at hdropped
  have hof {x : Nat} (hx : x ∈ (s.linksOf block).map (·.1)) :
      x ∈ s.workspace.connectionsOf block := by
    obtain ⟨link, hlink, rfl⟩ := List.mem_map.mp hx
    exact (mem_linksOf.mp hlink).1
  have hdroppedOf : ∀ x ∈ dropped, x ∈ s.workspace.connectionsOf block := fun x hx =>
    hof ((honly x hx).resolve_left List.not_mem_nil)
  rw [revalidate_eq] at hrun
  cases hfirst : s.dropUnfit (s.linksOf block) with
  | mk s' result =>
    obtain rfl : s' = s.cut dropped := by rw [← hdropped, hfirst]
    cases result with
    | error fault =>
      rw [hfirst] at hrun
      obtain ⟨rfl, rfl⟩ := Prod.mk.inj hrun
      exact ⟨dropped, hdroppedOf, .inl ⟨⟨fault, rfl⟩, rfl⟩⟩
    | ok kept =>
      have hsub := dropUnfit_sublist hfirst
      cases hreconnect : s.policy.reconnect with
      | false =>
        simp only [hfirst, cut, hreconnect, Bool.false_eq_true, if_false] at hrun
        obtain ⟨rfl, rfl⟩ := Prod.mk.inj hrun
        exact ⟨dropped, hdroppedOf, .inr ⟨rfl, rfl⟩⟩
      | true =>
        have hpolicy : (s.cut dropped).policy.reconnect = true := hreconnect
        simp only [hfirst, hpolicy, if_true, disconnectAll_cut hw] at hrun
        obtain ⟨lost, hlost, hless⟩ : ∃ lost, ((s.cut (dropped ++ kept.map (·.1))).relink kept).1 =
            s.cut lost ∧ ∀ x, x ∈ lost → x ∈ dropped ++ kept.map (·.1) :=
          relink_eq_cut hw fun link hlink => (mem_linksOf.mp (hsub.subset hlink)).2
        refine ⟨lost, fun x hx => ?_, ?_⟩
        · rcases List.mem_append.mp (hless x hx) with hx | hx
          · exact hdroppedOf x hx
          · exact hof ((hsub.map _).subset hx)
        · cases hsecond : (s.cut (dropped ++ kept.map (·.1))).relink kept with
          | mk s' result =>
            obtain rfl : s' = s.cut lost := by rw [← hlost, hsecond]
            rw [hsecond] at hrun
            cases result with
            | error fault =>
              obtain ⟨rfl, rfl⟩ := Prod.mk.inj hrun
              exact .inl ⟨⟨fault, rfl⟩, rfl⟩
            | ok done =>
              obtain ⟨rfl, rfl⟩ := Prod.mk.inj hrun
              exact .inr ⟨rfl, rfl⟩

end TypedBlocks.Session
