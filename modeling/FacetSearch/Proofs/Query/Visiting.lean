import FacetSearch.Proofs.Query.Replacing

/-! Which leaves a rewriting looks up, and under which numbers. The walk over a query is taken with
look-ups that are logged and may fail, so that the log holds all of them. Main statements: the log
is the list of leaves numbered from the start, and the result depends on what stands for each of
these leaves under its number and on nothing else. -/
namespace FacetSearch

mutual
/-- Rewriting where a look-up is an action of any kind. -/
def Value.visit {m : Type → Type} [Monad m] (look : Nat → Query → m (Option Query)) :
    Value → Nat → m (Option Value × Nat)
  | .node operator args, n =>
    if Query.startsNested args then do
      let (kept, next) ← visitArgs look args n
      pure (if kept.any Value.isNode then some (.node operator kept) else none, next)
    else do
      let found ← look n ⟨operator, args⟩
      pure (found.map Query.toValue, n + 1)
  | v, n => pure (some v, n)
def visitArgs {m : Type → Type} [Monad m] (look : Nat → Query → m (Option Query)) :
    List Value → Nat → m (List Value × Nat)
  | [], n => pure ([], n)
  | v :: vs, n => do
    let (head, next) ← v.visit look n
    let (tail, last) ← visitArgs look vs next
    pure (head.toList ++ tail, last)
end

/-- A look-up that gives nothing at all has failed. -/
abbrev Lookup := Nat → Query → Option (Option Query)

abbrev Logged := StateT (List (Query × Nat)) Option

def logging (look : Lookup) (n : Nat) (q : Query) : Logged (Option Query) := do
  modify (· ++ [(q, n)])
  StateT.lift (look n q)

def Answers (look : Lookup) (f : Rewriting) (leaves : List (Query × Nat)) : Prop :=
  ∀ p ∈ leaves, look p.2 p.1 = some (f p.2 p.1)

theorem logLook {look : Lookup} {n : Nat} {q : Query} {found : Option Query}
    (h : look n q = some found) (seen : List (Query × Nat)) :
    (logging look n q).run seen = some (found, seen ++ [(q, n)]) := by
  simp [logging, h]

mutual
theorem visitLogged {look : Lookup} {f : Rewriting} : ∀ (v : Value) (n : Nat),
    Answers look f (v.leaves.zipIdx n) → ∀ seen,
    (v.visit (logging look) n).run seen = some (v.rewrite f n, seen ++ v.leaves.zipIdx n)
  | .string _, n, _, seen | .integer _, n, _, seen | .notANumber, n, _, seen
  | .list _, n, _, seen => by
    simp [Value.visit, Value.rewrite, Value.leaves]
  | .node op args, n, answers, seen => by
    cases nested : Query.startsNested args with
    | true =>
      rw [leavesOfConnective nested] at answers ⊢
      have inside := visitArgsLogged args n answers seen
      simp [Value.visit, Value.rewrite, nested, inside]
    | false =>
      rw [leavesAlone nested] at answers ⊢
      have here := answers (⟨op, args⟩, n) (by simp)
      simp [Value.visit, Value.rewrite, nested, logLook here]
theorem visitArgsLogged {look : Lookup} {f : Rewriting} : ∀ (vs : List Value) (n : Nat),
    Answers look f ((leavesOfArgs vs).zipIdx n) → ∀ seen,
    (visitArgs (logging look) vs n).run seen =
      some (rewriteArgs f vs n, seen ++ (leavesOfArgs vs).zipIdx n)
  | [], n, _, seen => by simp [visitArgs, rewriteArgs, leavesOfArgs]
  | v :: vs, n, answers, seen => by
    rw [leavesOfArgs, List.zipIdx_append] at answers ⊢
    obtain ⟨here, later⟩ := List.forall_mem_append.mp answers
    have head := visitLogged v n here seen
    -- the rest is numbered on from where the head has left off
    rw [← rewriteCount f v n] at later ⊢
    have tail := visitArgsLogged vs (v.rewrite f n).2 later (seen ++ v.leaves.zipIdx n)
    simp [visitArgs, rewriteArgs, head, tail]
end

theorem visitAlways (f : Rewriting) (v : Value) (n : Nat) :
    (v.visit (logging fun k q => some (f k q)) n).run [] =
      some (v.rewrite f n, v.leaves.zipIdx n) :=
  visitLogged v n (fun _ _ => rfl) []

/-- Two rewritings that agree on the numbered leaves give the same: nothing else is looked up. -/
theorem rewriteAgrees {f g : Rewriting} {v : Value} {n : Nat}
    (same : ∀ p ∈ v.leaves.zipIdx n, f p.2 p.1 = g p.2 p.1) : v.rewrite f n = v.rewrite g n := by
  have answers : Answers (fun k q => some (f k q)) g (v.leaves.zipIdx n) :=
    fun p member => congrArg some (same p member)
  have left := visitAlways f v n
  have right := visitLogged v n answers []
  exact congrArg Prod.fst (Option.some.inj (left.symm.trans right))

/-- Whether a result depends on what stands for a leaf under a number. -/
def Consults {α : Type} (result : Rewriting → α) (n : Nat) (q : Query) : Prop :=
  ∃ f g : Rewriting, (∀ k r, (k, r) ≠ (n, q) → f k r = g k r) ∧ result f ≠ result g

theorem rewriteSame (v : Value) (n : Nat) : (v.rewrite (fun _ q => some q) n).1 = some v := by
  have comparing : Comparing fun _ q => some q := by
    rintro k q r plain ⟨⟩
    exact plain
  obtain ⟨w, kept, replaced⟩ :=
    @rewriteReplaced (fun _ q => some q) (fun _ => none) comparing v n fun _ _ => rfl
  rw [kept, replacedSame replaced fun _ _ => rfl]

theorem consultsIff (v : Value) (n k : Nat) (q : Query) :
    Consults (v.rewrite · n) k q ↔ (q, k) ∈ v.leaves.zipIdx n := by
  constructor
  · rintro ⟨f, g, alike, differ⟩
    refine Decidable.byContradiction fun absent => differ (rewriteAgrees fun p member => ?_)
    refine alike p.2 p.1 fun same => absent ?_
    cases same
    exact member
  · intro member
    -- a rewriting that loses this leaf alone does not give the value back
    let losing : Rewriting := fun m r => if (m, r) = (k, q) then none else some r
    refine ⟨fun _ r => some r, losing, fun m r other => (if_neg other).symm, fun same => ?_⟩
    have fixed : (v.rewrite losing n).1 = some v :=
      (congrArg Prod.fst same).symm.trans (rewriteSame v n)
    have kept := rewriteFixed v n fixed (q, k) member
    simp [losing] at kept

end FacetSearch
