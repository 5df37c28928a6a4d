import TypedBlocks.Proofs.Hierarchy.Routes
import TypedBlocks.Proofs.Recursion.Delivers
import TypedBlocks.Proofs.Session.Binding
import TypedBlocks.Proofs.Session.Depth

/-! Known types in the flow. Where every check is well formed and every binding is a known type, all
types that come up are known, and nothing fails but a recursion that does not end. -/
namespace TypedBlocks

namespace Scene

variable {s : Scene} {α β : Type}

def Knows (s : Scene) (types : List TypeExpr) : Prop :=
  ∀ t ∈ types, s.hierarchy.Valid t

/-- Declared names rightly applied, with generics as leaves. -/
inductive Formed (s : Scene) : TypeExpr → Prop
  | generic {name : Text} (hname : s.isGeneric name = true) : Formed s ⟨name, []⟩
  | app {e : Entry} (he : e ∈ s.hierarchy.entries) {params : List TypeExpr}
      (hlen : params.length = e.arity) (hparams : ∀ p ∈ params, Formed s p) :
      Formed s ⟨e.name, params⟩

theorem formed_of_nodes {whole t : TypeExpr}
    (hnodes : ∀ u ∈ t.walk, s.validateNode whole u = .ok ()) : s.Formed t := by
  induction t using TypeExpr.byParams with
  | mk name params ih =>
    have hparams : ∀ p ∈ params, s.Formed p := fun p hp =>
      ih p hp fun u hu => hnodes u (TypeExpr.mem_walk_of_param hp hu)
    have hnode := hnodes _ (TypeExpr.self_mem_walk _)
    unfold validateNode at hnode
    split at hnode
    · next hgeneric =>
      split at hnode
      · next hempty =>
        obtain rfl : params = [] := by simpa using hempty
        exact .generic hgeneric
      · cases hnode
    · obtain ⟨e, hget, hnode⟩ := bind_eq_ok.mp hnode
      obtain ⟨he, rfl⟩ := Hierarchy.get_eq_ok hget
      split at hnode
      · next hlen => exact .app he hlen hparams
      · cases hnode

theorem readCheck_eq_ok {text : Text} {t : TypeExpr} (hread : s.readCheck text = .ok t) :
    s.Formed t ∧ 0 < text.length := by
  refine ⟨formed_of_nodes (nodes_of_read hread), Nat.pos_of_ne_zero fun hzero => ?_⟩
  obtain ⟨cs⟩ := text
  obtain rfl : cs = [] := List.eq_nil_of_length_eq_zero hzero
  cases hread

theorem isGeneric_entry (hl : s.hierarchy.Linked) {e : Entry} (he : e ∈ s.hierarchy.entries) :
    s.isGeneric e.name = false := by
  simp [isGeneric, hl.name_ne_star he, Hierarchy.declares, hl.find?_eq he]

/-! ### What types say about a generic -/

/-- The parameters of a known type under a declared head are known. -/
theorem paramsUnder_ok (hl : s.hierarchy.Linked) {e : Entry} (he : e ∈ s.hierarchy.entries)
    {t : TypeExpr} (ht : s.hierarchy.Valid t) (hstar : t.isWildcard = false) :
    ∃ found, s.paramsUnder e.name t = .ok found ∧
      ∀ params, found = some params → s.Knows params := by
  have htypes : ∀ u ∈ [t], s.hierarchy.Valid u ∧ u.isWildcard = false :=
    List.forall_mem_singleton.mpr ⟨ht, hstar⟩
  obtain ⟨above, habove, hknownAbove⟩ := hl.row_above htypes (List.mem_singleton_self t) he
  obtain ⟨below, hbelow, hknownBelow⟩ := hl.row_below htypes (List.mem_singleton_self t) he
  obtain ⟨up, hup, habove⟩ := bind_eq_ok.mp habove
  obtain ⟨down, hdown, hbelow⟩ := bind_eq_ok.mp hbelow
  obtain rfl := pure_eq_ok.mp habove
  obtain rfl := pure_eq_ok.mp hbelow
  unfold paramsUnder
  split
  · refine ⟨_, rfl, fun params hparams => ?_⟩
    obtain rfl := Option.some.inj hparams
    exact fun p hp => ht.mem_walk (TypeExpr.mem_walk_of_param hp p.self_mem_walk)
  · rw [hup, ok_bind]
    cases up with
    | some params =>
      refine ⟨_, rfl, fun params' hparams => ?_⟩
      obtain rfl := Option.some.inj hparams
      exact fun p hp => (hknownAbove p hp).1
    | none =>
      simp only [hl.get_eq he, ok_bind]
      split
      · rw [hdown, ok_bind]
        refine ⟨_, rfl, fun params hparams => ?_⟩
        obtain ⟨row, rfl, rfl⟩ := Option.map_eq_some_iff.mp hparams
        intro p hp
        obtain ⟨entry, hentry, rfl⟩ := List.mem_map.mp hp
        cases entry with
        | none => exact .wildcard
        | some x => exact (hknownBelow x hentry).1
      · exact ⟨none, rfl, by simp⟩

theorem locate_ok (hl : s.hierarchy.Linked) (generic : Text) {pattern actual : TypeExpr}
    (hpattern : s.Formed pattern) (hactual : s.hierarchy.Valid actual) :
    ∃ parts, s.locate generic pattern actual = .ok parts ∧ s.Knows parts := by
  induction hpattern generalizing actual with
  | @generic name _ =>
    refine ⟨_, by rw [locate], fun t ht => ?_⟩
    split at ht
    · exact List.mem_singleton.mp ht ▸ hactual
    · cases ht
  | @app e he params _ hparams ih =>
    have hall (ps as : List TypeExpr) (hps : ∀ p ∈ ps, p ∈ params) (has : s.Knows as) :
        ∃ parts, s.locateAll generic ps as = .ok parts ∧ s.Knows parts := by
      induction ps generalizing as with
      | nil => exact ⟨[], by simp [locateAll], by simp [Knows]⟩
      | cons p ps ihp =>
        cases as with
        | nil => exact ⟨[], by simp [locateAll], by simp [Knows]⟩
        | cons a as =>
          obtain ⟨ha, has⟩ := List.forall_mem_cons.mp has
          obtain ⟨hp, hps⟩ := List.forall_mem_cons.mp hps
          obtain ⟨first, hfirst, hknown⟩ := ih p hp ha
          obtain ⟨rest, hrest, hknown'⟩ := ihp as hps has
          refine ⟨first ++ rest, by rw [locateAll, hfirst, ok_bind, hrest, ok_bind]; rfl, ?_⟩
          exact List.forall_mem_append.mpr ⟨hknown, hknown'⟩
    cases params with
    | nil =>
      refine ⟨_, by rw [locate], fun t ht => ?_⟩
      split at ht
      · exact List.mem_singleton.mp ht ▸ hactual
      · cases ht
    | cons p ps =>
      rw [locate]
      split
      · exact ⟨[], rfl, by simp [Knows]⟩
      · split
        · exact ⟨_, rfl, List.forall_mem_singleton.mpr .wildcard⟩
        · next hstar =>
          obtain ⟨found, hfound, hknown⟩ := paramsUnder_ok hl he hactual (by simpa using hstar)
          rw [hfound, ok_bind]
          cases found with
          | none => exact ⟨[], rfl, by simp [Knows]⟩
          | some as =>
            cases as with
            | nil => exact ⟨[], rfl, by simp [Knows]⟩
            | cons a as =>
              obtain ⟨parts, hparts, hpartsKnown⟩ :=
                hall (p :: ps) (a :: as) (fun _ hp => hp) (hknown _ rfl)
              rw [locateAll] at hparts
              exact ⟨parts, hparts, hpartsKnown⟩

section Endless

variable (hl : s.hierarchy.Linked)

include hl

theorem gather_delivers {check : TypeExpr} (hcheck : s.Formed check) (generic : Text)
    {types : List TypeExpr} (htypes : s.Knows types) :
    Delivers s.hierarchy.Endless (fun said => ∀ found, said = some found → s.Knows found)
      (s.gather check generic types) := by
  induction types with
  | nil => exact .result (by simp)
  | cons t ts ih =>
    obtain ⟨ht, hts⟩ := List.forall_mem_cons.mp htypes
    obtain ⟨parts, hparts, hknown⟩ := locate_ok hl generic hcheck ht
    rw [gather, hparts, ok_bind]
    simp only
    split
    · exact ih hts
    · have hconcrete : s.Knows (parts.filter (!·.isWildcard)) :=
        fun p hp => hknown p (List.mem_filter.mp hp).1
      refine (hl.commonAncestors_delivers hconcrete).bind fun found hfound => ?_
      refine (ih hts).bind fun rest hrest => .result ?_
      intro all hall
      obtain rfl := Option.some.inj hall
      refine List.forall_mem_append.mpr ⟨hfound, ?_⟩
      cases rest with
      | none => simp
      | some types => exact hrest types rfl

theorem join_delivers {as bs : List TypeExpr} (has : s.Knows as) (hbs : s.Knows bs) :
    Delivers s.hierarchy.Endless s.Knows (s.join as bs) := by
  unfold join
  refine (Delivers.mapM (T := s.Knows) fun pair hpair => ?_).bind fun found hfound => .result ?_
  · obtain ⟨a, ha, hpair⟩ := List.mem_flatMap.mp hpair
    obtain ⟨b, hb, rfl⟩ := List.mem_map.mp hpair
    exact hl.commonAncestors_delivers
      (List.forall_mem_cons.mpr ⟨has a ha, List.forall_mem_singleton.mpr (hbs b hb)⟩)
  · intro t ht
    obtain ⟨us, hus, ht⟩ := List.mem_flatten.mp (List.mem_eraseDups.mp ht)
    exact hfound us hus t ht

theorem joinAll_delivers {as : List TypeExpr} (has : s.Knows as) {rest : List (List TypeExpr)}
    (hrest : ∀ bs ∈ rest, s.Knows bs) :
    Delivers s.hierarchy.Endless s.Knows (s.joinAll as rest) := by
  induction rest generalizing as with
  | nil => exact hl.keepNearest_delivers has
  | cons bs rest ih =>
    obtain ⟨hbs, hrest⟩ := List.forall_mem_cons.mp hrest
    rw [joinAll]
    refine (join_delivers hl has hbs).bind fun joined hjoined => ?_
    split
    · exact .result (by simp [Knows])
    · exact ih hjoined hrest

theorem unify_delivers {said : List (List TypeExpr)} (hsaid : ∀ types ∈ said, s.Knows types) :
    Delivers s.hierarchy.Endless s.Knows (s.unify said) := by
  cases said with
  | nil => exact .result (List.forall_mem_singleton.mpr .wildcard)
  | cons as rest =>
    obtain ⟨has, hrest⟩ := List.forall_mem_cons.mp hsaid
    exact joinAll_delivers hl has hrest

end Endless

/-! ### With a table of results -/

def KnownTable (s : Scene) (table : Memo) : Prop :=
  ∀ entry ∈ table, s.Knows entry.2

/-- What excuses a recursion that does not end: a ring of blocks, or a question about known types
that has no answer. -/
def Endless (s : Scene) : Prop :=
  ¬s.workspace.Forest ∨ s.hierarchy.Endless

/-- Started with a table of known types, the computation delivers and leaves such a table. -/
def Keeps (s : Scene) (P : α → Prop) (x : Recalling α) : Prop :=
  ∀ table, s.KnownTable table → Delivers s.Endless (fun r => P r.1 ∧ s.KnownTable r.2) (x table)

namespace Keeps

variable {P : α → Prop} {T : β → Prop}

theorem pure {a : α} (ha : P a) : s.Keeps P (pure a) :=
  fun _ htable => .result ⟨ha, htable⟩

theorem lift {x : Except Fault α} (hx : Delivers s.Endless P x) :
    s.Keeps P (liftM x : Recalling α) := by
  intro table htable
  cases hx with
  | result ha => exact .result ⟨ha, htable⟩
  | unending hexcuse => exact .unending hexcuse

theorem bind {x : Recalling α} {f : α → Recalling β} (hx : s.Keeps P x)
    (hf : ∀ a, P a → s.Keeps T (f a)) : s.Keeps T (x >>= f) := by
  intro table htable
  change Delivers s.Endless _ (x table >>= fun r => f r.1 r.2)
  exact (hx table htable).bind fun r hr => hf r.1 hr.1 r.2 hr.2

theorem get : s.Keeps s.KnownTable (get : Recalling Memo) :=
  fun _ htable => .result ⟨htable, htable⟩

theorem modify {f : Memo → Memo} (hf : ∀ table, s.KnownTable table → s.KnownTable (f table)) :
    s.Keeps (fun _ => True) (modify f : Recalling Unit) :=
  fun table htable => .result ⟨trivial, hf table htable⟩

/-- The result without the table. -/
theorem run' {x : Recalling α} (hx : s.Keeps P x) : Delivers s.Endless P (x.run' []) := by
  change Delivers s.Endless P ((fun r : α × Memo => r.1) <$> x [])
  rw [map_eq_pure_bind]
  exact (hx [] (by simp [KnownTable])).bind fun r hr => .result hr.1

end Keeps

theorem expand_keeps (hl : s.hierarchy.Linked) {ask : Text → Recalling (List TypeExpr)}
    (hask : ∀ g, s.Keeps s.Knows (ask g)) {t : TypeExpr} (ht : s.Formed t) :
    s.Keeps s.Knows (s.expand ask t) := by
  induction ht with
  | generic hname =>
    rw [expand]
    split
    · exact .pure (List.forall_mem_singleton.mpr .wildcard)
    · exact hask _
  | @app e he params hlen hparams ih =>
    have hall (ps : List TypeExpr) (hps : ∀ p ∈ ps, p ∈ params) :
        s.Keeps (fun options => options.length = ps.length ∧ ∀ types ∈ options, s.Knows types)
          (s.expandAll ask ps) := by
      induction ps with
      | nil =>
        rw [expandAll]
        exact .pure ⟨rfl, by simp⟩
      | cons p ps ihp =>
        obtain ⟨hp, hps⟩ := List.forall_mem_cons.mp hps
        rw [expandAll]
        refine (ih p hp).bind fun first hfirst => (ihp hps).bind fun rest hrest => .pure ?_
        exact ⟨congrArg (· + 1) hrest.1, List.forall_mem_cons.mpr ⟨hfirst, hrest.2⟩⟩
    rw [expand, hl.app_not_wildcard he, isGeneric_entry hl he]
    refine (hall params fun _ hp => hp).bind fun options hoptions => .pure fun t ht => ?_
    obtain ⟨combo, hcombo, rfl⟩ := List.mem_map.mp (List.mem_eraseDups.mp ht)
    have hfor : Hierarchy.OptionsFor s.hierarchy.Valid e.params options :=
      ⟨hoptions.1.trans hlen, hoptions.2⟩
    exact .app he (hfor.choices hcombo).1 (hfor.choices hcombo).2

theorem mem_of_lookup {κ : Type} [BEq κ] [LawfulBEq κ] {entries : List (κ × α)} {key : κ} {a : α}
    (hfind : entries.lookup key = some a) : (key, a) ∈ entries := by
  obtain ⟨before, after, rfl, -⟩ := List.lookup_eq_some_iff.mp hfind
  simp

/-- Blocks have connections of their own, the checks at the two ends of a link can be read, and
every binding is a known type. -/
structure Ready (s : Scene) : Prop where
  linked : s.hierarchy.Linked
  owned : ∀ c b, c ∈ s.workspace.connectionsOf b → s.workspace.owner? c = some b
  checks : ∀ c peer text peerText, s.workspace.target? c = some peer →
    s.workspace.check? c = some text → s.workspace.check? peer = some peerText →
    (∃ t, s.readCheck text = .ok t) ∧ ∃ t, s.readCheck peerText = .ok t
  bindings : ∀ entry ∈ s.bindings, s.hierarchy.Valid entry.2

theorem readCheck_keeps {text : Text} (hread : ∃ t, s.readCheck text = .ok t) :
    s.Keeps s.Formed (liftM (s.readCheck text) : Recalling TypeExpr) := by
  obtain ⟨t, ht⟩ := hread
  exact .lift (.of_ok ⟨t, ht, (readCheck_eq_ok ht).1⟩)

section Steps

variable (hs : s.Ready) {ask : Nat → Text → Option Nat → Recalling (List TypeExpr)}

include hs

theorem Ready.contribution_keeps {c : Nat} (generic : Text)
    (hask : ∀ text peer peerText block, s.workspace.check? c = some text →
      s.workspace.target? c = some peer → s.workspace.check? peer = some peerText →
      s.workspace.owner? peer = some block → ∀ g, s.Keeps s.Knows (ask block g (some peer))) :
    s.Keeps (fun said => ∀ found, said = some found → s.Knows found)
      (s.contribution ask c generic) := by
  have hsilent : s.Keeps (fun said => ∀ found, said = some found → s.Knows found)
      (pure none) := .pure (by simp)
  unfold contribution
  split
  · next _ _ text peer hc =>
    obtain ⟨-, htext, hpeer⟩ := check?_of_connection hc
    split
    · next block _ peerText _ hp =>
      obtain ⟨hblock, hpeerText, -⟩ := check?_of_connection hp
      obtain ⟨hread, hpeerRead⟩ := hs.checks c peer text peerText hpeer htext hpeerText
      refine (readCheck_keeps hread).bind fun check hcheck => ?_
      split
      · exact hsilent
      · refine (readCheck_keeps hpeerRead).bind fun peerCheck hpeerCheck => ?_
        refine (expand_keeps hs.linked (hask text peer peerText block htext hpeer hpeerText hblock)
          hpeerCheck).bind fun types htypes => ?_
        refine (Keeps.lift ((gather_delivers hs.linked hcheck generic htypes).mono .inr
          fun _ h => h)).bind fun said hsaid => .pure fun found hfound => ?_
        obtain ⟨types', rfl, rfl⟩ := Option.map_eq_some_iff.mp hfound
        exact fun t ht => hsaid types' rfl t (List.mem_eraseDups.mp ht)
    · exact hsilent
  · exact hsilent

theorem Ready.contributions_keeps (generic : Text) (skip : Option Nat) {cs : List Nat}
    (hask : ∀ c ∈ cs, skip ≠ some c → ∀ text peer peerText block,
      s.workspace.check? c = some text → s.workspace.target? c = some peer →
      s.workspace.check? peer = some peerText → s.workspace.owner? peer = some block →
      ∀ g, s.Keeps s.Knows (ask block g (some peer))) :
    s.Keeps (fun said => ∀ types ∈ said, s.Knows types)
      (s.contributions ask generic skip cs) := by
  induction cs with
  | nil => exact .pure (by simp)
  | cons c cs ih =>
    obtain ⟨hc, hcs⟩ := List.forall_mem_cons.mp hask
    rw [contributions]
    split
    · exact ih hcs
    · next hskip =>
      refine (hs.contribution_keeps generic (hc hskip)).bind fun said hsaid =>
        (ih hcs).bind fun rest hrest => .pure (List.forall_mem_append.mpr ⟨?_, hrest⟩)
      intro types htypes
      exact hsaid types (Option.mem_toList.mp htypes)

theorem Ready.resolveLinks_keeps (block : Nat) (generic : Text) (skip : Option Nat)
    (hask : ∀ c ∈ s.workspace.connectionsOf block, skip ≠ some c → ∀ text peer peerText block',
      s.workspace.check? c = some text → s.workspace.target? c = some peer →
      s.workspace.check? peer = some peerText → s.workspace.owner? peer = some block' →
      ∀ g, s.Keeps s.Knows (ask block' g (some peer))) :
    s.Keeps s.Knows (s.resolveLinks ask block generic skip) :=
  (hs.contributions_keeps generic skip hask).bind fun _ hsaid =>
    .lift ((unify_delivers hs.linked hsaid).mono .inr fun _ h => h)

end Steps

/-- The recursion delivers known types. Without a ring of blocks it can only come to the end of its
depth on a trail that is longer than there can be one. -/
theorem Ready.recallWithin_keeps (hs : s.Ready) {depth : Nat} {passed : List Nat} {block : Nat}
    (generic : Text) {skip : Option Nat}
    (htrail : s.workspace.Forest → s.workspace.Trail passed block skip)
    (hdepth : (s.workspace.connections.map Workspace.extent).sum < depth + passed.length) :
    s.Keeps s.Knows (s.recallWithin depth block generic skip) := by
  induction depth generalizing passed block generic skip with
  | zero =>
    refine .lift (.unending (.inl fun hforest => ?_))
    have hle := (htrail hforest).length_le
    omega
  | succ depth ih =>
    rw [recallWithin, recallIn]
    split
    · next t hbound =>
      refine .pure (List.forall_mem_singleton.mpr ?_)
      exact hs.bindings _ (mem_of_lookup hbound)
    · refine Keeps.get.bind fun table htable => ?_
      split
      · next types hfind => exact .pure (htable _ (mem_of_lookup hfind))
      · refine (hs.resolveLinks_keeps block generic skip ?_).bind fun types htypes => ?_
        · intro c hc hskip text peer peerText block' htext hpeer hpeerText hblock g
          obtain ⟨⟨t, ht⟩, -⟩ := hs.checks c peer text peerText hpeer htext hpeerText
          have hon (hforest : s.workspace.Forest) :
              s.workspace.Trail (c :: passed) block' (some peer) :=
            (htrail hforest).on hforest (hs.owned c block hc) hskip htext (readCheck_eq_ok ht).2
              hpeer hblock
          exact ih g hon (by rw [List.length_cons]; omega)
        · refine (Keeps.modify fun table htable => ?_).bind fun _ _ => .pure htypes
          exact List.forall_mem_cons.mpr ⟨htypes, htable⟩

/-! ### The questions from outside -/

section Questions

variable (hs : s.Ready)

include hs

theorem Ready.resolve_keeps (block : Nat) (generic : Text) (skip : Option Nat) :
    s.Keeps s.Knows (s.resolve block generic skip) :=
  hs.recallWithin_keeps generic (fun _ => .start s.workspace block skip)
    (by rw [depth_eq, List.length_nil]; omega)

theorem Ready.outerSilent_keeps (generic : Text) (cs : List Nat) :
    s.Keeps (fun _ => True) (s.outerSilent s.resolve generic cs) := by
  induction cs with
  | nil => exact .pure trivial
  | cons c cs ih =>
    rw [outerSilent]
    split
    · refine (hs.contribution_keeps generic fun _ peer _ block _ _ _ _ g =>
        hs.resolve_keeps block g (some peer)).bind fun said _ => ?_
      cases said with
      | some types => exact .pure trivial
      | none => exact ih
    · exact ih

theorem Ready.judge_keeps (parent above : Nat) {parentCheck : TypeExpr}
    (hparent : s.Formed parentCheck) (child below : Nat) {childCheck : TypeExpr}
    (hchild : s.Formed childCheck) : s.Keeps (fun _ => True)
      (s.judge s.resolve parent above parentCheck child below childCheck) := by
  have hexpand (block c : Nat) {check : TypeExpr} (hcheck : s.Formed check) :
      s.Keeps s.Knows (s.expand (s.resolve block · (some c)) check) :=
    expand_keeps hs.linked (fun g => hs.resolve_keeps block g (some c)) hcheck
  unfold judge
  refine (hexpand above parent hparent).bind fun parents hparents =>
    (hexpand below child hchild).bind fun children hchildren => ?_
  have hpairs {relation : TypeExpr → TypeExpr → Except Fault Bool}
      (hrelation : ∀ a b, s.hierarchy.Valid a → s.hierarchy.Valid b →
        Delivers s.hierarchy.Endless (fun _ => True) (relation a b)) :
      s.Keeps (fun _ => True) (liftM (anyPair relation children parents) : Recalling Bool) :=
    .lift (.anyM fun c hc => .anyM fun p hp =>
      (hrelation c p (hchildren c hc) (hparents p hp)).mono .inr fun _ h => h)
  have hbound : s.Keeps (fun _ => True)
      (s.boundByInputsOnly s.resolve above parentCheck.name) := by
    unfold boundByInputsOnly
    split
    · exact .pure trivial
    · exact hs.outerSilent_keeps _ _
  have hverdict (lenient : Bool) : s.Keeps (fun _ => True)
      (if lenient then (liftM (anyPair s.haveCommonAncestor children parents) : Recalling Bool)
        else liftM (anyPair s.hierarchy.isSubtype children parents)) := by
    split
    · refine hpairs fun a b ha hb => ?_
      refine (hs.linked.commonAncestors_delivers ?_).bind fun _ _ => .result trivial
      exact List.forall_mem_cons.mpr ⟨ha, List.forall_mem_singleton.mpr hb⟩
    · exact hpairs fun a b ha hb => hs.linked.isSubtype_delivers ha hb
  split
  · exact .pure trivial
  split
  · exact .pure trivial
  simp only
  split
  · exact hbound.bind fun lenient _ => hverdict lenient
  · exact hverdict false

theorem Ready.takes_keeps {a b : Nat}
    (hends : ∀ text other, s.workspace.check? a = some text → s.workspace.check? b = some other →
      (∃ t, s.readCheck text = .ok t) ∧ ∃ t, s.readCheck other = .ok t) :
    s.Keeps (fun _ => True) (s.takes s.resolve a b) := by
  have hparent (parent child : Nat) (hends : ∀ text other, s.workspace.check? parent = some text →
      s.workspace.check? child = some other →
      (∃ t, s.readCheck text = .ok t) ∧ ∃ t, s.readCheck other = .ok t) :
      s.Keeps (fun _ => True) (s.parentTakes s.resolve parent child) := by
    unfold parentTakes
    split
    · next above _ parentText _ below _ childText _ hp hc =>
      obtain ⟨hread, hother⟩ :=
        hends parentText childText (check?_of_connection hp).2.1 (check?_of_connection hc).2.1
      refine (readCheck_keeps hread).bind fun parentCheck hparent =>
        (readCheck_keeps hother).bind fun childCheck hchild => ?_
      exact hs.judge_keeps parent above hparent child below hchild
    · exact .pure trivial
  unfold takes
  split
  · exact hparent a b hends
  · exact hparent b a fun text other htext hother => (hends other text hother htext).symm

end Questions

/-- Blocks have connections of their own, every check can be read, and every binding is a known
type. -/
structure Sound (s : Scene) : Prop where
  linked : s.hierarchy.Linked
  owned : ∀ c b, c ∈ s.workspace.connectionsOf b → s.workspace.owner? c = some b
  checks : ∀ c text, s.workspace.check? c = some text → ∃ t, s.readCheck text = .ok t
  bindings : ∀ entry ∈ s.bindings, s.hierarchy.Valid entry.2

section Sound

variable (hs : s.Sound)

include hs

theorem Sound.ready : s.Ready where
  linked := hs.linked
  owned := hs.owned
  checks c peer text peerText _ htext hpeerText :=
    ⟨hs.checks c text htext, hs.checks peer peerText hpeerText⟩
  bindings := hs.bindings

theorem Sound.resolve_keeps (block : Nat) (generic : Text) (skip : Option Nat) :
    s.Keeps s.Knows (s.resolve block generic skip) :=
  hs.ready.resolve_keeps block generic skip

theorem Sound.contribution_keeps {ask : Nat → Text → Option Nat → Recalling (List TypeExpr)}
    {c : Nat} (generic : Text)
    (hask : ∀ text peer block, s.workspace.check? c = some text →
      s.workspace.target? c = some peer → s.workspace.owner? peer = some block →
      ∀ g, s.Keeps s.Knows (ask block g (some peer))) :
    s.Keeps (fun said => ∀ found, said = some found → s.Knows found)
      (s.contribution ask c generic) :=
  hs.ready.contribution_keeps generic fun text peer _ block htext hpeer _ =>
    hask text peer block htext hpeer

theorem Sound.takes_keeps (a b : Nat) :
    s.Keeps (fun _ => True) (s.takes s.resolve a b) :=
  hs.ready.takes_keeps fun text other htext hother =>
    ⟨hs.checks a text htext, hs.checks b other hother⟩

end Sound

theorem Sound.typesAt_delivers (hs : s.Sound) (c : Nat) :
    Delivers s.Endless s.Knows (s.typesAt c) := by
  apply Keeps.run'
  unfold typesThrough
  split
  · next block _ text _ hc =>
    exact (readCheck_keeps (hs.checks c text (check?_of_connection hc).2.1)).bind fun t ht =>
      expand_keeps hs.linked (fun g => hs.resolve_keeps block g none) ht
  · exact .pure (List.forall_mem_singleton.mpr .wildcard)

end Scene

namespace Session

variable {s : Session} {α : Type} {excuse : Prop} {P : α → Prop}

theorem naming_delivers (ends : List Nat) {x : Except Fault α} (hx : Delivers excuse P x) :
    Delivers excuse P (s.naming ends x) := by
  cases hx with
  | result ha => exact .result ha
  | unending hexcuse => exact .unending hexcuse

theorem explicitTypes_delivers {scene : Scene} (hscene : s.scene = .ok scene) {block : Nat}
    {generic : Text} {P Q : List TypeExpr → Prop}
    (htypes : Delivers excuse P (scene.typesOf block (Text.lower generic)))
    (hexplicit : ∀ types, P types → Q (types.filter (!·.isWildcard))) :
    Delivers excuse Q (s.explicitTypes block (.text generic)) := by
  simp only [explicitTypes, hscene, nameOf, ok_bind]
  generalize scene.typesOf block (Text.lower generic) = found at htypes
  cases htypes with
  | result ha => exact .result (hexplicit _ ha)
  | unending hexcuse => exact .unending hexcuse

/-- Where every check is well formed and every binding is a known type, the questions put to a
session are answered, in known types, and all types that come up on the way are known. Nothing else
can happen but that the recursion does not end, and only if the links form a ring of blocks or a
question about known types has no answer itself. -/
theorem questions_answered {definition : Definition} {h : Hierarchy}
    (hdef : Hierarchy.ofDefinition definition = .ok h) (hinit : s.hierarchy = some h)
    {scene : Scene} (hscene : s.scene = .ok scene)
    (howned : ∀ c b, c ∈ s.workspace.connectionsOf b → s.workspace.owner? c = some b)
    (hchecks : ∀ c text, s.workspace.check? c = some text → ∃ t, scene.readCheck text = .ok t)
    (hbindings : ∀ entry ∈ s.bindings, h.validate entry.2 = .ok ()) :
    (∀ a b, Delivers scene.Endless (fun _ => True) (s.check a b)) ∧
    (∀ block generic, Delivers scene.Endless scene.Knows
      (s.explicitTypes block (.text generic))) ∧
    (∀ c, Delivers scene.Endless scene.Knows (s.connectionTypes c)) ∧
    (∀ a b, scene.Keeps (fun _ => True) (scene.takes scene.resolve a b)) ∧
    (∀ block generic skip, scene.Keeps scene.Knows (scene.resolve block generic skip)) ∧
    (∀ c generic, scene.Keeps (fun said => ∀ found, said = some found → scene.Knows found)
      (scene.contribution scene.resolve c generic)) ∧
    ∀ c text t block skip, s.workspace.check? c = some text → scene.readCheck text = .ok t →
      scene.Keeps scene.Knows (scene.expand (scene.resolve block · skip) t) := by
  have heq : scene = ⟨h, s.policy.pattern, s.bindings, s.workspace⟩ := by
    simpa [Session.scene, known, hinit, eq_comm] using hscene
  subst heq
  have hl := Hierarchy.ofDefinition_linked hdef
  have hs : Scene.Sound ⟨h, s.policy.pattern, s.bindings, s.workspace⟩ :=
    ⟨hl, howned, hchecks, fun entry hentry => hl.validate_eq_ok.mp (hbindings entry hentry)⟩
  refine ⟨fun a b => naming_delivers [a, b] ?_, fun block generic => ?_, fun c => ?_,
    hs.takes_keeps, hs.resolve_keeps, fun c generic => ?_, fun c text t block skip _ ht => ?_⟩
  · rw [verdict_eq hscene]
    exact (hs.takes_keeps a b).run'
  · exact explicitTypes_delivers hscene (hs.resolve_keeps block (Text.lower generic) none).run'
      fun types htypes t ht => htypes t (List.mem_filter.mp ht).1
  · rw [connectionTypes_eq]
    refine naming_delivers [c] ?_
    split
    · exact .result (List.forall_mem_singleton.mpr .wildcard)
    · next text htext =>
      have hcheck : s.workspace.check? c = some text := by
        simpa [Workspace.check?, Workspace.bare?, Option.bind_map] using htext
      obtain ⟨t, ht⟩ := hchecks c text hcheck
      split
      · next hparse => simp [Scene.readCheck, hparse] at ht
      · rw [hscene, ok_bind]
        exact hs.typesAt_delivers c
  · exact hs.contribution_keeps generic fun _ peer block _ _ _ g =>
      hs.resolve_keeps block g (some peer)
  · exact Scene.expand_keeps hl (fun g => hs.resolve_keeps block g skip)
      (Scene.readCheck_eq_ok ht).1

/-- A block that takes a box is given a crate, and one of its generics is bound. -/
def crateSession : Session where
  hierarchy := some crateHierarchy
  bindings := [((0, "u"), ⟨"dog", []⟩)]
  workspace := {
    blocks := [
      { label := "take", inputs := [0, 1] },
      { label := "crate[dog, cat]", output := some 2 }]
    connections := [
      ⟨0, .input "x", some "box[t]", some 2⟩,
      ⟨0, .input "y", some "pair[u, t]", none⟩,
      ⟨1, .output, some "crate[dog, cat]", some 0⟩] }

/-- What the crate says about the contents of the box is a known type. -/
theorem crateSession_answered :
    (∀ entry ∈ crateSession.bindings, crateHierarchy.validate entry.2 = .ok ()) ∧
    crateSession.explicitTypes 0 (.text "T") = .ok [⟨"pair", [⟨"cat", []⟩, ⟨"dog", []⟩]⟩] ∧
    crateHierarchy.Valid ⟨"pair", [⟨"cat", []⟩, ⟨"dog", []⟩]⟩ := by
  have hbindings : ∀ entry ∈ crateSession.bindings, crateHierarchy.validate entry.2 = .ok () :=
    List.forall_mem_singleton.mpr (eq_ok_of_toOption (by decide +kernel))
  have howned : ∀ c b, c ∈ crateSession.workspace.connectionsOf b →
      crateSession.workspace.owner? c = some b := by
    have hblocks : ∀ b < 2, ∀ c ∈ crateSession.workspace.connectionsOf b,
        crateSession.workspace.owner? c = some b := by
      decide +kernel
    intro c b hc
    by_cases hb : b < 2
    · exact hblocks b hb c hc
    · have hnone : crateSession.workspace.block? b = none :=
        List.getElem?_eq_none (Nat.le_of_not_lt hb)
      simp [Workspace.connectionsOf, hnone] at hc
  have hchecks : ∀ c text, crateSession.workspace.check? c = some text →
      ∃ t, Scene.readCheck ⟨crateHierarchy, none, crateSession.bindings, crateSession.workspace⟩
        text = .ok t := by
    intro c text htext
    obtain ⟨bare, hbare, hcheck⟩ := Option.bind_eq_some_iff.mp htext
    obtain ⟨k, hk, rfl⟩ := Option.map_eq_some_iff.mp hbare
    have hread : ∀ k ∈ crateSession.workspace.connections, ∀ text ∈ k.check.toList,
        ((Scene.readCheck ⟨crateHierarchy, none, crateSession.bindings, crateSession.workspace⟩
          text).toOption).isSome = true := by
      decide +kernel
    obtain ⟨t, ht⟩ := Option.isSome_iff_exists.mp
      (hread k (List.mem_of_getElem? hk) text (Option.mem_toList.mpr hcheck))
    exact ⟨t, eq_ok_of_toOption ht⟩
  have hanswer : crateSession.explicitTypes 0 (.text "T") =
      .ok [⟨"pair", [⟨"cat", []⟩, ⟨"dog", []⟩]⟩] := eq_ok_of_toOption (by decide +kernel)
  have hdelivers := (questions_answered Hierarchy.crate_accepted rfl rfl howned hchecks
    hbindings).2.1 0 "T"
  rw [hanswer] at hdelivers
  cases hdelivers with
  | result hknown => exact ⟨hbindings, hanswer, hknown _ (List.mem_singleton_self _)⟩

end Session

end TypedBlocks
