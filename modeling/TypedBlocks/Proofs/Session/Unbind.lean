import TypedBlocks.Proofs.Session.Checks
import TypedBlocks.Proofs.Session.Failed

/-! What a binding can change, and what is left of it once it is removed again. Links are only ever
lost, and only links of the block; no other binding changes. Removing the binding brings no link
back, so what is left is the loss of links and, on a block that is shown, one bump. -/
namespace TypedBlocks

open Json (Value)

namespace Bindings

variable {bindings : Bindings} {block : Nat} {generic : Text} {type : TypeExpr}

theorem erase_set : (bindings.set block generic type).erase block generic =
    bindings.erase block generic := by
  simp [set, erase]

theorem erase_of_unbound (hnone : bindings.find? block generic = none) :
    bindings.erase block generic = bindings := by
  refine List.filter_eq_self.mpr fun entry hentry => ?_
  have hne := List.lookup_eq_none_iff.mp hnone entry hentry
  exact decide_eq_true (bne_iff_ne.mp hne).symm

end Bindings

namespace Workspace

variable {w v : Workspace} {x y : Nat} {ends : List Nat}

/-- The workspace with those of its links that another one has too. -/
def keeping (w v : Workspace) : Workspace :=
  { w with
    connections := w.connections.mapIdx fun c k =>
      { k with target := k.target.filter fun peer => v.target? c = some peer } }

theorem connection?_keeping : (w.keeping v).connection? x = (w.connection? x).map fun k =>
    { k with target := k.target.filter fun peer => v.target? x = some peer } := by
  simp [connection?, keeping]

theorem target?_keeping :
    (w.keeping v).target? x = some y ↔ w.target? x = some y ∧ v.target? x = some y := by
  have hkept : (w.keeping v).target? x =
      (w.target? x).filter fun peer => v.target? x = some peer := by
    simp only [target?, connection?_keeping]
    cases w.connection? x <;> rfl
  rw [hkept, Option.filter_eq_some_iff, decide_eq_true_eq]

theorem bare?_keeping : (w.keeping v).bare? x = w.bare? x := by
  simp [bare?, connection?_keeping, Function.comp_def]

/-- Some links are lost, and the others kept. -/
theorem keeping_of_cut (htarget : ∀ x, v.target? x = (w.cut ends).target? x) :
    w.keeping v = w.cut ends := by
  refine eq_of_targets rfl (fun x => ?_) fun x => Option.ext fun y => ?_
  · rw [bare?_keeping, bare?_cut]
  · rw [target?_keeping, htarget, target?_cut_eq_some]
    tauto

theorem keeping_of_all (hall : ∀ x y, w.target? x = some y → v.target? x = some y) :
    w.keeping v = w := by
  refine eq_of_targets rfl (fun x => bare?_keeping) fun x => Option.ext fun y => ?_
  rw [target?_keeping]
  exact ⟨fun hxy => hxy.1, fun hxy => ⟨hxy, hall x y hxy⟩⟩

end Workspace

namespace Session

variable {s t u : Session} {block : Nat} {generic explicit : Value} {outcome : Except Fault Unit}

/-- What a binding can do: nothing if it is refused; otherwise it is recorded and links of the block
are lost. -/
inductive Binds (s : Session) (block : Nat) (generic explicit : Value) :
    Session → Except Fault Unit → Prop
  | refused {fault : Fault} : Binds s block generic explicit s (.error fault)
  | failed {name : Text} {type : TypeExpr} {lost : List Nat} {fault : Fault}
      (hadmitted : s.admitBinding generic explicit = .ok (name, type))
      (hlost : ∀ x ∈ lost, x ∈ s.workspace.connectionsOf block) :
      Binds s block generic explicit ((s.withBinding block name type).cut lost) (.error fault)
  | done {name : Text} {type : TypeExpr} {lost : List Nat}
      (hadmitted : s.admitBinding generic explicit = .ok (name, type))
      (hlost : ∀ x ∈ lost, x ∈ s.workspace.connectionsOf block) :
      Binds s block generic explicit
        (((s.withBinding block name type).cut lost).bumpRendered block) (.ok ())

theorem binds (hw : s.workspace.TwoWay) (hbind : s.bind block generic explicit = (t, outcome)) :
    s.Binds block generic explicit t outcome := by
  rw [bind_eq] at hbind
  cases hadmitted : s.admitBinding generic explicit with
  | error fault =>
    rw [hadmitted] at hbind
    obtain ⟨rfl, rfl⟩ := Prod.mk.inj hbind
    exact .refused
  | ok admitted =>
    obtain ⟨name, type⟩ := admitted
    rw [hadmitted] at hbind
    have hrun : (s.withBinding block name type).revalidate block = (t, outcome) := hbind
    have htwoWay : (s.withBinding block name type).workspace.TwoWay := hw
    obtain ⟨lost, hlost, ⟨⟨fault, rfl⟩, rfl⟩ | ⟨rfl, rfl⟩⟩ := revalidate_eq_cut htwoWay hrun
    · exact .failed hadmitted hlost
    · exact .done hadmitted hlost

theorem bumpRendered_eq (s : Session) (block : Nat) :
    (s.bumpRendered block).bindings = s.bindings ∧
      (s.bumpRendered block).known = s.known ∧
      ∀ c, (s.bumpRendered block).workspace.target? c = s.workspace.target? c := by
  rcases bumpRendered_cases s block with heq | heq
  · rw [heq]
    exact ⟨rfl, rfl, fun _ => rfl⟩
  · rw [heq]
    exact ⟨rfl, rfl, fun _ => rfl⟩

namespace Binds

variable (hbinds : s.Binds block generic explicit t outcome)

include hbinds

/-- The links are those there were, without some that have an end on the block. -/
theorem targets : ∃ lost, (∀ x ∈ lost, x ∈ s.workspace.connectionsOf block) ∧
    ∀ c, t.workspace.target? c = (s.workspace.cut lost).target? c := by
  cases hbinds with
  | refused =>
    refine ⟨[], by simp, fun c => ?_⟩
    rw [Workspace.cut_nil]
  | @failed _ _ lost _ _ hlost => exact ⟨lost, hlost, fun c => rfl⟩
  | @done _ _ lost _ hlost => exact ⟨lost, hlost, (bumpRendered_eq _ block).2.2⟩

theorem find? {block' : Nat} {generic' : Text}
    (hother : ¬(block' = block ∧ nameOf generic = .ok generic')) :
    t.bindings.find? block' generic' = s.bindings.find? block' generic' := by
  have hne {name : Text} (hname : nameOf generic = .ok name) :
      (block', generic') ≠ (block, name) := by
    rintro heq
    obtain ⟨rfl, rfl⟩ := Prod.mk.inj heq
    exact hother ⟨rfl, hname⟩
  cases hbinds with
  | refused => rfl
  | failed hadmitted => exact s.bindings.find?_set_of_ne (hne (read_of_admitted hadmitted).1)
  | done hadmitted =>
    rw [(bumpRendered_eq _ block).1]
    exact s.bindings.find?_set_of_ne (hne (read_of_admitted hadmitted).1)

end Binds

theorem setBindings_bumpRendered (s : Session) (block : Nat) (bindings : Bindings) :
    ({ s.bumpRendered block with bindings := bindings } : Session) =
      ({ s with bindings := bindings } : Session).bumpRendered block := by
  unfold bumpRendered
  split <;> rfl

/-- Removing a binding that was just made. -/
theorem Binds.unbind (hbinds : s.Binds block generic explicit t (.ok ())) :
    ∃ name, nameOf generic = .ok name ∧ t.unbind block generic =
      (({ s with
          bindings := s.bindings.erase block name
          workspace := s.workspace.keeping t.workspace } : Session).bumpRendered block,
        .ok true) := by
  cases hbinds with
  | @done name type lost hadmitted hlost =>
    obtain ⟨hname, h, hh, -⟩ := read_of_admitted hadmitted
    obtain ⟨hbindings, hknown, htarget⟩ :=
      bumpRendered_eq ((s.withBinding block name type).cut lost) block
    have hsknown : ((s.withBinding block name type).cut lost).known = .ok h := by
      simp [known, cut, withBinding, hh]
    have hfind : ((s.withBinding block name type).cut lost).bindings.find? block name =
        some type := s.bindings.find?_set_self
    have herase : ((s.withBinding block name type).cut lost).bindings.erase block name =
        s.bindings.erase block name := Bindings.erase_set
    have hkeeping : s.workspace.keeping
        (((s.withBinding block name type).cut lost).bumpRendered block).workspace =
        s.workspace.cut lost := Workspace.keeping_of_cut htarget
    refine ⟨name, hname, ?_⟩
    rw [hkeeping, Session.unbind, hknown, hsknown, hname, hbindings]
    simp only [hfind, Option.isSome_some, if_true, herase, setBindings_bumpRendered]
    rfl

/-- What a binding changes, whether it succeeds or not: links are lost, each with an end on the
block, and no other generic is bound differently. If it succeeds and is then removed, what is left
is the session without the binding and the lost links, up to a bump; if there was no binding before
and no link was lost, no answer tells that session from the first one, whatever is done next. All of
this is so for a checker too, whatever checks it has read by then: its session becomes the same, and
the checks that it keeps have no part in its answers. -/
theorem bind_then_unbind (hw : s.workspace.TwoWay)
    (hbind : s.bind block generic explicit = (t, outcome)) :
    (∀ a b, t.workspace.target? a = some b → s.workspace.target? a = some b) ∧
    (∀ a b, s.workspace.target? a = some b → t.workspace.target? a ≠ some b →
      a ∈ s.workspace.connectionsOf block ∨ b ∈ s.workspace.connectionsOf block) ∧
    (∀ block' generic', ¬(block' = block ∧ nameOf generic = .ok generic') →
      t.bindings.find? block' generic' = s.bindings.find? block' generic') ∧
    (outcome = .ok () → ∃ name u, nameOf generic = .ok name ∧
      t.unbind block generic = (u, .ok true) ∧
      u = ({ s with
        bindings := s.bindings.erase block name
        workspace := s.workspace.keeping t.workspace } : Session).bumpRendered block ∧
      (∀ d : Checker, d.Over t → ∃ e : Checker, e.Over u ∧ e.checks = d.checks ∧
        d.step (.unbind block generic) = (e, .ok (.flag true))) ∧
      (s.bindings.find? block name = none →
        (∀ a b, s.workspace.target? a = some b → t.workspace.target? a = some b) →
        ∀ commands, (s.run commands).SameAnswers (u.run commands) ∧
          ∀ c e : Checker, c.Over s → e.Over u →
            (c.run commands).SameAnswers (e.run commands))) ∧
    (∀ c : Checker, c.Over s → ∃ d : Checker, d.Over t ∧
      c.step (.bind block generic explicit) = (d, outcome.map fun _ => .done)) := by
  have hbinds := binds hw hbind
  obtain ⟨lost, hlost, htarget⟩ := hbinds.targets
  refine ⟨fun a b hab => ?_, fun a b hab hgone => ?_, fun _ _ => hbinds.find?, ?_, fun c hc => ?_⟩
  · rw [htarget, Workspace.target?_cut_eq_some] at hab
    exact hab.1
  · rw [htarget] at hgone
    by_contra hnone
    obtain ⟨ha, hb⟩ := not_or.mp hnone
    apply hgone
    exact Workspace.target?_cut_eq_some.mpr
      ⟨hab, fun hmem => ha (hlost a hmem), fun hmem => hb (hlost b hmem)⟩
  · rintro rfl
    obtain ⟨name, hname, hunbind⟩ := hbinds.unbind
    refine ⟨name, _, hname, hunbind, rfl, fun d hd => ?_, fun hnone hall commands => ?_⟩
    · obtain ⟨hreply, hover⟩ := hd.step (.unbind block generic)
      rw [step, hunbind] at hreply hover
      exact ⟨_, hover, rfl, Prod.ext rfl hreply⟩
    · suffices hsame : SameAnswers (s.run commands) _ from
        ⟨hsame, fun c e hc he => (hc.run commands).sameAnswers (he.run commands) hsame⟩
      apply sameAnswers_of_unbumped
      apply run_unbumped
      rw [Bindings.erase_of_unbound hnone, Workspace.keeping_of_all hall, unbumped_bumpRendered]
  · obtain ⟨hreply, hover⟩ := hc.step (.bind block generic explicit)
    rw [step, hbind] at hreply hover
    exact ⟨_, hover, Prod.ext rfl hreply⟩

/-- A block that is shown takes anything, and a dog is given. -/
def shownCommands : List Command := [
  .load (.mapping [typeEntry "animal" [] [], typeEntry "dog" [] ["animal"]]) false,
  .addBlock { label := "take", inputs := [("a", some "t")], rendered := true },
  leaf "dog", .connect 0 1]

def shownSession : Session :=
  Session.run {} shownCommands

def shownChecker : Checker :=
  Checker.run {} shownCommands

/-- The dog stays when animals are asked for, and a bump is all that is left, also for a checker
that has read the two checks; in the other session a link was lost for good. -/
theorem shown_then_unbound :
    (∃ t u, shownSession.bind 0 (.text "T") (.text "animal") = (t, .ok ()) ∧
      t.workspace.target? 0 = some 1 ∧ t.unbind 0 (.text "T") = (u, .ok true) ∧
      u ≠ shownSession ∧ (∀ commands, (shownSession.run commands).SameAnswers (u.run commands)) ∧
      ∃ d e, shownChecker.step (.bind 0 (.text "T") (.text "animal")) = (d, .ok .done) ∧
        d.step (.unbind 0 (.text "T")) = (e, .ok (.flag true)) ∧
        ∀ commands, (shownChecker.run commands).SameAnswers (e.run commands)) ∧
    shownChecker.checks.map Prod.fst = ["dog", "t"] ∧
    mixSession.bind 0 (.text "g") (.text "dog") = (mixBound, .ok ()) ∧
      mixBound.unbind 0 (.text "g") = (mixSession.cut [3], .ok true) := by
  have hreach : shownSession.Reachable :=
    reachable_of_run shownCommands (by simp [shownCommands, leaf]) rfl
  have hover : shownChecker.Over shownSession := Checker.over_run {} shownCommands
  obtain ⟨t, ht⟩ : ∃ t, (shownSession.bind 0 (.text "T") (.text "animal")).1 = t := ⟨_, rfl⟩
  have hbind : shownSession.bind 0 (.text "T") (.text "animal") = (t, .ok ()) :=
    Prod.ext ht (eq_ok_of_toOption (by decide +kernel))
  have hsame : t.workspace.connections = shownSession.workspace.connections := by
    rw [← ht]
    decide +kernel
  have htarget (c : Nat) : t.workspace.target? c = shownSession.workspace.target? c := by
    simp only [Workspace.target?, Workspace.connection?, hsame]
  refine ⟨?_, by decide +kernel, ?_⟩
  · obtain ⟨-, -, -, hback, hthere⟩ := bind_then_unbind hreach.matched.twoWay hbind
    obtain ⟨name, u, hname, hunbind, hu, hchecker, hanswers⟩ := hback rfl
    obtain rfl := Except.ok.inj hname
    obtain ⟨d, hd, hfirst⟩ := hthere shownChecker hover
    obtain ⟨e, he, -, hsecond⟩ := hchecker d hd
    have hall := hanswers (by decide +kernel) fun a b hab => by rw [htarget, hab]
    refine ⟨t, u, hbind, ?_, hunbind, ?_, fun commands => (hall commands).1, d, e, hfirst, hsecond,
      fun commands => (hall commands).2 shownChecker e hover he⟩
    · rw [htarget]
      decide +kernel
    · rw [hu, ← ht]
      decide +kernel
  · obtain ⟨-, -, -, hback, -⟩ :=
      bind_then_unbind mixSession_reachable.matched.twoWay mixSession_bind
    obtain ⟨name, u, hname, hunbind, hu, -⟩ := hback rfl
    obtain rfl := Except.ok.inj hname
    have hcut : u = mixSession.cut [3] := by
      rw [hu]
      decide +kernel
    exact ⟨mixSession_bind, hcut ▸ hunbind⟩

end Session

end TypedBlocks
