import TypedBlocks.Proofs.Session.Depth

/-! The recursion with a table of results against the plain one. Both come to the same outcome for
every question: what the table holds is what the plain recursion comes to, so that looking it up is
as good as asking afresh. -/
namespace TypedBlocks.Scene

variable {s : Scene} {depth block : Nat} {generic : Text} {skip : Option Nat} {α β : Type}

/-! ### Tables -/

/-- Every result in the table is what the plain recursion comes to. -/
def Right (s : Scene) (table : Memo) : Prop :=
  ∀ block generic skip types, table.lookup (block, generic, skip) = some types →
    s.resolveWithin s.depth block generic skip = .ok types

theorem right_nil : s.Right [] := by
  intro _ _ _ _ hfind
  cases hfind

theorem Right.cons {table : Memo} (hright : s.Right table) {types : List TypeExpr}
    (htypes : s.resolveWithin s.depth block generic skip = .ok types) :
    s.Right (((block, generic, skip), types) :: table) := by
  intro b g k found hfind
  rw [List.lookup_cons] at hfind
  split at hfind
  · next hkey =>
    obtain ⟨rfl, rfl, rfl⟩ : b = block ∧ g = generic ∧ k = skip := by simpa using hkey
    cases hfind
    exact htypes
  · exact hright b g k found hfind

def result (x : Recalling α) (table : Memo) : Except Fault α :=
  Prod.fst <$> x table

theorem result_bind (x : Recalling α) (f : α → Recalling β) (table : Memo) :
    result (x >>= f) table = x table >>= fun r => result (f r.1) r.2 := by
  change Prod.fst <$> (x table >>= fun r => f r.1 r.2) = _
  cases x table <;> rfl

/-- A result that is not found is worked out and entered. -/
theorem recallIn_of_unbound {m : Type → Type} [Monad m] [LawfulMonad m]
    [MonadLiftT (Except Fault) m] [ReadsChecks (StateT Memo m)]
    (hfind : s.bindings.find? block generic = none) (table : Memo) :
    s.recallIn (m := m) (depth + 1) block generic skip table =
      match table.lookup (block, generic, skip) with
      | some types => pure (types, table)
      | none => do
        let r ← s.resolveLinks (s.recallIn (m := m) depth) block generic skip table
        return (r.1, ((block, generic, skip), r.1) :: r.2) := by
  rw [recallIn, hfind]
  change StateT.run _ table = _
  simp only [StateT.run_bind, StateT.run_get, pure_bind]
  cases table.lookup (block, generic, skip) with
  | some types => rfl
  | none =>
    simp only [StateT.run_bind, StateT.run_modify, StateT.run_pure, pure_bind]
    rfl

namespace Lockstep

def flip {m n : Type → Type} [Monad m] [MonadLiftT (Except Fault) m] [Monad n]
    [MonadLiftT (Except Fault) n] (R : Lockstep m n) : Lockstep n m where
  rel x y := R.rel y x
  admits := R.admits
  pure := R.pure
  bind := R.bind
  lift := R.lift
  read := R.read

/-- Computations that are started with a right table and leave one, related by their results. -/
def recalling (R : Lockstep (Except Fault) (Except Fault)) (s : Scene) :
    Lockstep Recalling (Except Fault) where
  rel x y := ∀ table, s.Right table →
    R.rel (result x table) y ∧ ∀ a left, x table = .ok (a, left) → s.Right left
  admits := R.admits
  pure := by
    intro α a table hright
    refine ⟨R.pure a, ?_⟩
    rintro _ _ ⟨⟩
    exact hright
  bind := by
    intro α β x y f g hx hf table hright
    obtain ⟨hrel, hkept⟩ := hx table hright
    rw [result_bind]
    change _ ∧ ∀ b left, (x table >>= fun r => f r.1 r.2) = .ok (b, left) → s.Right left
    unfold result at hrel
    -- the table that the first computation leaves is the one to go on with
    cases hrun : x table with
    | error fault =>
      rw [hrun] at hrel
      exact ⟨R.bind hrel fun a => (hf a table hright).1, by rintro _ _ ⟨⟩⟩
    | ok r =>
      rw [hrun] at hrel
      have hleft := hkept r.1 r.2 hrun
      exact ⟨R.bind hrel fun a => (hf a r.2 hleft).1, (hf r.1 r.2 hleft).2⟩
  lift := by
    intro α x hx table hright
    cases x with
    | error fault => exact ⟨R.lift hx, by rintro _ _ ⟨⟩⟩
    | ok a =>
      refine ⟨R.lift hx, ?_⟩
      rintro _ _ ⟨⟩
      exact hright
  read := by
    intro α β x f g hx hfg table hright
    cases x with
    | error fault => exact ⟨R.read (f := g) hx (by rintro _ ⟨⟩), by rintro _ _ ⟨⟩⟩
    | ok a => exact hfg a rfl table hright

/-- One level with the table, whatever it is compared with. A result that is found has to compare
as the plain outcome would, and one that is entered has to be the plain outcome. -/
theorem recallWithin_succ (R : Lockstep (Except Fault) (Except Fault))
    {outcome : Except Fault (List TypeExpr)}
    (hbound : ∀ t, s.bindings.find? block generic = some t → R.rel (.ok [t]) outcome)
    (hfound : ∀ types, s.resolveWithin s.depth block generic skip = .ok types →
      R.rel (.ok types) outcome)
    (hlinks : s.bindings.find? block generic = none →
      (R.recalling s).rel (s.resolveLinks (s.recallWithin depth) block generic skip) outcome)
    (hentered : s.bindings.find? block generic = none → ∀ table, s.Right table → ∀ types,
      result (s.resolveLinks (s.recallWithin depth) block generic skip) table = .ok types →
        s.resolveWithin s.depth block generic skip = .ok types) :
    (R.recalling s).rel (s.recallWithin (depth + 1) block generic skip) outcome := by
  intro table hright
  cases hfind : s.bindings.find? block generic with
  | some t =>
    simp only [recallIn, hfind]
    refine ⟨hbound t hfind, ?_⟩
    rintro _ _ ⟨⟩
    exact hright
  | none =>
    unfold result
    rw [recallWithin, recallIn_of_unbound hfind]
    cases hlookup : table.lookup (block, generic, skip) with
    | some types =>
      refine ⟨hfound types (hright _ _ _ _ hlookup), ?_⟩
      rintro _ _ ⟨⟩
      exact hright
    | none =>
      obtain ⟨hrel, hkept⟩ := hlinks hfind table hright
      have hentry := hentered hfind table hright
      unfold result at hrel hentry
      cases hrun : s.resolveLinks (s.recallWithin depth) block generic skip table with
      | error fault =>
        rw [hrun] at hrel
        exact ⟨hrel, by rintro _ _ ⟨⟩⟩
      | ok r =>
        rw [hrun] at hrel hentry
        refine ⟨hrel, ?_⟩
        rintro _ _ ⟨⟩
        exact (hkept r.1 r.2 hrun).cons (hentry r.1 rfl)

end Lockstep

theorem resolveWithin_depth (hfind : s.bindings.find? block generic = none) :
    s.resolveWithin s.depth block generic skip =
      s.resolveLinks (s.resolveWithin s.depth) block generic skip := by
  rw [← resolveWithin_of_depth_le (Nat.le_succ s.depth), resolveWithin, hfind]

theorem resolveLinks_approx (hfind : s.bindings.find? block generic = none)
    (hask : ∀ b g k, (approx.recalling s).rel (s.recallWithin depth b g k)
      (s.resolveWithin s.depth b g k)) :
    (approx.recalling s).rel (s.resolveLinks (s.recallWithin depth) block generic skip)
      (s.resolveWithin s.depth block generic skip) := by
  rw [resolveWithin_depth hfind]
  exact (Lockstep.admits_all fun _ => trivial).resolveLinks fun _ _ _ peer b g _ =>
    hask b g (some peer)

theorem eq_ok_of_approx {x : Recalling α} {y : Except Fault α}
    (hrel : (approx.recalling s).rel x y) {table : Memo} (hright : s.Right table) {a : α}
    (hrun : result x table = .ok a) : y = .ok a := by
  rcases (hrel table hright).1 with hnone | heq
  · rw [hrun] at hnone
    cases hnone
  · rw [← heq, hrun]

/-- Started with a right table, at any depth, the recursion ends with the plain outcome if it
ends. -/
theorem recallWithin_approx (depth block : Nat) (generic : Text) (skip : Option Nat) :
    (approx.recalling s).rel (s.recallWithin depth block generic skip)
      (s.resolveWithin s.depth block generic skip) := by
  induction depth generalizing block generic skip with
  | zero => exact fun table _ => ⟨.inl rfl, by rintro _ _ ⟨⟩⟩
  | succ depth ih =>
    apply approx.recallWithin_succ
    · intro t hfind
      rw [← resolveWithin_of_depth_le (Nat.le_succ s.depth), resolveWithin, hfind]
      exact .inr rfl
    · exact fun types htypes => .inr htypes.symm
    · exact fun hfind => resolveLinks_approx hfind ih
    · exact fun hfind table hright types => eq_ok_of_approx (resolveLinks_approx hfind ih) hright

/-- It ends wherever the plain recursion ends within the same depth. -/
theorem approx_recallWithin (depth block : Nat) (generic : Text) (skip : Option Nat) :
    (approx.flip.recalling s).rel (s.recallWithin depth block generic skip)
      (s.resolveWithin depth block generic skip) := by
  induction depth generalizing block generic skip with
  | zero => exact fun table _ => ⟨.inl rfl, by rintro _ _ ⟨⟩⟩
  | succ depth ih =>
    apply approx.flip.recallWithin_succ
    · intro t hfind
      rw [resolveWithin, hfind]
      exact .inr rfl
    · intro types htypes
      rw [← htypes]
      exact resolveWithin_approx_depth
    · intro hfind
      rw [resolveWithin, hfind]
      exact (Lockstep.admits_all fun _ => trivial).resolveLinks fun _ _ _ peer b g _ =>
        ih b g (some peer)
    · intro hfind table hright types
      exact eq_ok_of_approx (resolveLinks_approx hfind (recallWithin_approx depth)) hright

/-! ### Questions from outside -/

theorem Lockstep.Admits.typesThrough {m n : Type → Type} [Monad m] [MonadLiftT (Except Fault) m]
    [ReadsChecks m] [Monad n] [MonadLiftT (Except Fault) n] [ReadsChecks n] {R : Lockstep m n}
    (hs : R.Admits s)
    {ask : Nat → Text → Option Nat → m (List TypeExpr)}
    {ask' : Nat → Text → Option Nat → n (List TypeExpr)}
    (hask : ∀ b g k, R.rel (ask b g k) (ask' b g k)) (c : Nat) :
    R.rel (s.typesThrough ask c) (s.typesThrough ask' c) := by
  unfold Scene.typesThrough
  split
  · exact hs.readCheck fun check _ => R.expand fun g _ => hask _ g none
  · exact R.pure _

/-- What a recursion comes to: it ends with this outcome or not at all, at any depth, and has it at
any that is great enough. -/
def Settles (run : Nat → Except Fault α) (outcome : Except Fault α) : Prop :=
  (∀ depth, run depth = .error .unending ∨ run depth = outcome) ∧
    ∃ depth, ∀ more, depth ≤ more → run more = outcome

/-- Something to be found out in a scene by asking for generics of blocks, in whatever way. -/
structure Query (s : Scene) (α : Type) where
  run : {m : Type → Type} → [Monad m] → [MonadLiftT (Except Fault) m] → [ReadsChecks m] →
    (Nat → Text → Option Nat → m (List TypeExpr)) → m α
  lockstep : ∀ {m n : Type → Type} [Monad m] [MonadLiftT (Except Fault) m] [ReadsChecks m]
    [Monad n] [MonadLiftT (Except Fault) n] [ReadsChecks n] {R : Lockstep m n}
    {ask : Nat → Text → Option Nat → m (List TypeExpr)}
    {ask' : Nat → Text → Option Nat → n (List TypeExpr)}, R.Admits s →
    (∀ b g k, R.rel (ask b g k) (ask' b g k)) → R.rel (run ask) (run ask')

namespace Query

def verdict (s : Scene) (a b : Nat) : s.Query Bool where
  run ask := s.takes ask a b
  lockstep hs hask := hs.takes (fun c b g _ => hask b g (some c)) a b

def types (s : Scene) (block : Nat) (name : Text) (skip : Option Nat) :
    s.Query (List TypeExpr) where
  run ask := ask block name skip
  lockstep _ hask := hask block name skip

def check (s : Scene) (c : Nat) : s.Query (List TypeExpr) where
  run ask := s.typesThrough ask c
  lockstep hs hask := hs.typesThrough hask c

def said (s : Scene) (c : Nat) (generic : Text) : s.Query (Option (List TypeExpr)) where
  run ask := s.contribution ask c generic
  lockstep hs hask := hs.contribution fun peer b g _ => hask b g (some peer)

variable (q : s.Query α)

theorem run_of_depth_le {more : Nat} (hle : s.depth ≤ more) :
    q.run (s.resolveWithin more) = q.run (s.resolveWithin s.depth) :=
  q.lockstep same_admits fun _ _ _ => resolveWithin_of_depth_le hle

theorem settles_plain :
    Settles (fun depth => q.run (s.resolveWithin depth)) (q.run (s.resolveWithin s.depth)) :=
  ⟨fun _ => q.lockstep approx_admits fun _ _ _ => resolveWithin_approx_depth, s.depth,
    fun _ => q.run_of_depth_le⟩

theorem run_recallWithin_approx (depth : Nat) :
    Approx ((q.run (s.recallWithin depth)).run' []) (q.run (s.resolveWithin s.depth)) :=
  (q.lockstep (Lockstep.admits_all fun _ => trivial) (recallWithin_approx depth) [] right_nil).1

theorem run_recallWithin_of_depth_le {more : Nat} (hle : s.depth ≤ more) :
    (q.run (s.recallWithin more)).run' [] = q.run (s.resolveWithin s.depth) := by
  apply (q.run_recallWithin_approx more).antisymm
  rw [← q.run_of_depth_le hle]
  exact (q.lockstep (Lockstep.admits_all fun _ => trivial) (approx_recallWithin more) []
    right_nil).1

theorem settles_recalled :
    Settles (fun depth => (q.run (s.recallWithin depth)).run' [])
      (q.run (s.resolveWithin s.depth)) :=
  ⟨q.run_recallWithin_approx, s.depth, fun _ => q.run_recallWithin_of_depth_le⟩

/-- An answer that is given is the outcome of the plain recursion. -/
theorem run_resolve :
    (q.run s.resolve).run' [] = q.run (s.resolveWithin s.depth) :=
  q.run_recallWithin_of_depth_le (Nat.le_refl s.depth)

end Query

/-! The three questions in terms of the plain recursion. -/

theorem compatible_eq (s : Scene) (a b : Nat) :
    s.compatible a b = s.takes (s.resolveWithin s.depth) a b :=
  (Query.verdict s a b).run_resolve

theorem typesOf_eq (s : Scene) (block : Nat) (generic : Text) :
    s.typesOf block generic = s.resolveWithin s.depth block generic none :=
  (Query.types s block generic none).run_resolve

theorem typesAt_eq (s : Scene) (c : Nat) :
    s.typesAt c = s.typesThrough (s.resolveWithin s.depth) c :=
  (Query.check s c).run_resolve

/-- With a table of results or without one, each question from outside comes to the same outcome,
the one that is given as its answer: the same types, verdict or fault, and no end in the one
recursion exactly if there is none in the other. -/
theorem recalled_as_plain (s : Scene) :
    (∀ a b,
      Settles (fun depth => s.takes (s.resolveWithin depth) a b) (s.compatible a b) ∧
      Settles (fun depth => (s.takes (s.recallWithin depth) a b).run' []) (s.compatible a b)) ∧
    (∀ block generic,
      Settles (fun depth => s.resolveWithin depth block generic none) (s.typesOf block generic) ∧
      Settles (fun depth => (s.recallWithin depth block generic none).run' [])
        (s.typesOf block generic)) ∧
    (∀ c,
      Settles (fun depth => s.typesThrough (s.resolveWithin depth) c) (s.typesAt c) ∧
      Settles (fun depth => (s.typesThrough (s.recallWithin depth) c).run' []) (s.typesAt c)) := by
  refine ⟨fun a b => ?_, fun block generic => ?_, fun c => ?_⟩
  · rw [compatible_eq]
    exact ⟨(Query.verdict s a b).settles_plain, (Query.verdict s a b).settles_recalled⟩
  · rw [typesOf_eq]
    exact ⟨(Query.types s block generic none).settles_plain,
      (Query.types s block generic none).settles_recalled⟩
  · rw [typesAt_eq]
    exact ⟨(Query.check s c).settles_plain, (Query.check s c).settles_recalled⟩

end TypedBlocks.Scene
