import FacetSearch.Proofs.Query.Replacing

/-! Connectives whose leaves vanish. One stays as long as any leaf below it does, but it stays a
connective only as long as one of the nested queries at its front does: once they are gone its first
argument is a text, a number or a list, and the nested queries behind that are no longer entered.
Main statement: the leaves of a rewritten query are the images of its leaves exactly where no
connective that stays has lost its front. -/
namespace FacetSearch

mutual
/-- The connectives that lead to leaves, each with the number of the first leaf below it. -/
def Value.connectives : Value → Nat → List (Query × Nat)
  | .node operator args, n =>
    if Query.startsNested args then (⟨operator, args⟩, n) :: connectivesOfArgs args n else []
  | .string _, _ | .integer _, _ | .notANumber, _ | .list _, _ => []
def connectivesOfArgs : List Value → Nat → List (Query × Nat)
  | [], _ => []
  | v :: vs, n => v.connectives n ++ connectivesOfArgs vs (n + v.leaves.length)
end

/-- The nested queries before the first argument of another kind. -/
def Query.front (q : Query) : List Value :=
  q.args.takeWhile Value.isNode

def survives (f : Rewriting) (leaves : List (Query × Nat)) : Bool :=
  leaves.any fun p => (f p.2 p.1).isSome

/-- Some leaf below the connective stays. -/
def Stays (f : Rewriting) (p : Query × Nat) : Prop :=
  survives f (p.1.leaves.zipIdx p.2) = true
instance (f p) : Decidable (Stays f p) := by
  unfold Stays; infer_instance

/-- Some leaf below the front of the connective stays. -/
def KeepsFront (f : Rewriting) (p : Query × Nat) : Prop :=
  survives f ((leavesOfArgs p.1.front).zipIdx p.2) = true
instance (f p) : Decidable (KeepsFront f p) := by
  unfold KeepsFront; infer_instance

def Steady (f : Rewriting) (connectives : List (Query × Nat)) : Prop :=
  ∀ p ∈ connectives, Stays f p → KeepsFront f p
instance (f connectives) : Decidable (Steady f connectives) := by
  unfold Steady; infer_instance

def pruned (f : Rewriting) (p : Query × Nat) : Option Query :=
  (p.1.toValue.rewrite f p.2).1.bind Value.query?

theorem connectivesNested {op : Operator} {args : List Value} (n : Nat)
    (h : Query.startsNested args = true) : (Value.node op args).connectives n =
      (⟨op, args⟩, n) :: connectivesOfArgs args n := by
  rw [Value.connectives, if_pos h]

theorem survivesAppend (f : Rewriting) (left right : List (Query × Nat)) :
    survives f (left ++ right) = (survives f left || survives f right) :=
  List.any_append

theorem imagesOfLost {f : Rewriting} {leaves : List (Query × Nat)} (h : survives f leaves = false) :
    images f leaves = [] :=
  List.filterMap_eq_nil_iff.mpr fun p member => by
    simpa using List.any_eq_false.mp h p member

mutual
theorem nodeLeft (f : Rewriting) : ∀ (v : Value) (n : Nat),
    (v.rewrite f n).1.toList.any Value.isNode = survives f (v.leaves.zipIdx n)
  | .string _, _ | .integer _, _ | .notANumber, _ | .list _, _ => rfl
  | .node op args, n => by
    cases nested : Query.startsNested args with
    | true =>
      rw [leavesOfConnective nested, ← nodesLeft f args n, rewriteConnective f n nested]
      split
      · rename_i some
        exact some.symm
      · rename_i none
        exact (Bool.eq_false_iff.mpr none).symm
    | false =>
      rw [leavesAlone nested, rewriteComparison f n nested]
      cases image : f n ⟨op, args⟩ <;> simp [survives, image, Query.toValue, Value.isNode]

theorem nodesLeft (f : Rewriting) : ∀ (vs : List Value) (n : Nat),
    (rewriteArgs f vs n).1.any Value.isNode = survives f ((leavesOfArgs vs).zipIdx n)
  | [], _ => rfl
  | v :: vs, n => by
    have head := nodeLeft f v n
    have tail := nodesLeft f vs (v.rewrite f n).2
    rw [rewriteArgsCons, List.any_append, head, tail, leavesOfArgs, List.zipIdx_append,
      survivesAppend, rewriteCount]
end

theorem frontLeft (f : Rewriting) (vs : List Value) (n : Nat) :
    Query.startsNested (rewriteArgs f vs n).1 =
      survives f ((leavesOfArgs (vs.takeWhile Value.isNode)).zipIdx n) := by
  induction vs generalizing n with
  | nil => rfl
  | cons v vs ih =>
    cases node : v.isNode with
    | false =>
      have stays : (v.rewrite f n).1 = some v := by
        cases v with
        | node op args => cases node
        | _ => rfl
      rw [rewriteArgsCons, stays, List.takeWhile_cons, node]
      exact node
    | true =>
      have here := nodeLeft f v n
      rw [List.takeWhile_cons, node, if_pos rfl, leavesOfArgs, List.zipIdx_append, survivesAppend,
        ← here, ← rewriteCount f v n, ← ih]
      cases kept : (v.rewrite f n).1 with
      | none => rw [rewriteArgsCons, kept]; rfl
      | some w =>
        have first := rewriteNode node kept
        rw [rewriteArgsCons, kept]
        simp [Query.startsNested, first]

section
variable {f : Rewriting} {op : Operator} {args : List Value} {n : Nat}

theorem frontKept :
    Query.startsNested (rewriteArgs f args n).1 = true ↔ KeepsFront f (⟨op, args⟩, n) := by
  rw [frontLeft]
  rfl

variable (nested : Query.startsNested args = true)
include nested

theorem nodeKeptIff :
    (rewriteArgs f args n).1.any Value.isNode = true ↔ Stays f (⟨op, args⟩, n) := by
  have leaves : (Query.mk op args).leaves = leavesOfArgs args := leavesOfConnective nested
  rw [nodesLeft, Stays, leaves]

theorem prunedNested : ((Value.node op args).rewrite f n).1 =
    if Stays f (⟨op, args⟩, n) then some (.node op (rewriteArgs f args n).1) else none := by
  rw [rewriteConnective f n nested]
  exact ite_congr (propext (nodeKeptIff nested)) (fun _ => rfl) fun _ => rfl

end

theorem prunedSome {f : Rewriting} {p : Query × Nat} (connective : p.1.isConnective = true)
    {w : Query} : pruned f p = some w ↔
      Stays f p ∧ w = ⟨p.1.operator, (rewriteArgs f p.1.args p.2).1⟩ := by
  obtain ⟨⟨op, args⟩, n⟩ := p
  unfold pruned Query.toValue
  rw [prunedNested connective]
  split
  · rename_i stays
    simp [stays, Value.query?, eq_comm]
  · rename_i gone
    simp [gone]

theorem prunedConnective {f : Rewriting} {p : Query × Nat} (connective : p.1.isConnective = true)
    {w : Query} (kept : pruned f p = some w) : w.isConnective = true ↔ KeepsFront f p := by
  obtain ⟨_, rfl⟩ := (prunedSome connective).mp kept
  exact frontKept

mutual
theorem connectivesConnect : ∀ (v : Value) (n : Nat), ∀ p ∈ v.connectives n,
    p.1.isConnective = true
  | .string _, _, _, member | .integer _, _, _, member | .notANumber, _, _, member
  | .list _, _, _, member => by cases member
  | .node op args, n, p, member => by
    rw [Value.connectives] at member
    split at member
    · rename_i nested
      rcases List.mem_cons.mp member with rfl | inside
      · exact nested
      · exact connectivesConnectArgs args n p inside
    · cases member

theorem connectivesConnectArgs : ∀ (vs : List Value) (n : Nat), ∀ p ∈ connectivesOfArgs vs n,
    p.1.isConnective = true
  | [], _, _, member => by cases member
  | v :: vs, n, p, member => by
    rcases List.mem_append.mp member with here | later
    · exact connectivesConnect v n p here
    · exact connectivesConnectArgs vs _ p later
end

mutual
theorem prunedNestedIn {f : Rewriting} {p : Query × Nat} {w : Query}
    (kept : pruned f p = some w) : ∀ (v : Value) (n : Nat), p ∈ v.connectives n →
    w ∈ nestedOfArgs (v.rewrite f n).1.toList
  | .string _, _, member | .integer _, _, member | .notANumber, _, member | .list _, _, member => by
    cases member
  | .node op args, n, member => by
    cases nested : Query.startsNested args with
    | false => simp [Value.connectives, nested] at member
    | true =>
      rw [connectivesNested n nested] at member
      rcases List.mem_cons.mp member with rfl | inside
      · obtain ⟨stays, rfl⟩ := (prunedSome (p := (⟨op, args⟩, n)) nested).mp kept
        rw [prunedNested nested, if_pos stays]
        simp [nestedOfArgs, Value.nested]
      · have below := prunedNestedInArgs kept args n inside
        rw [rewriteConnective f n nested, if_pos (nodesOfNestedQueries below)]
        simp [nestedOfArgs, Value.nested, below]

theorem prunedNestedInArgs {f : Rewriting} {p : Query × Nat} {w : Query}
    (kept : pruned f p = some w) : ∀ (vs : List Value) (n : Nat), p ∈ connectivesOfArgs vs n →
    w ∈ nestedOfArgs (rewriteArgs f vs n).1
  | [], _, member => by cases member
  | v :: vs, n, member => by
    rw [connectivesOfArgs, List.mem_append] at member
    rw [rewriteArgsCons, nestedOfArgsAppend, rewriteCount, List.mem_append]
    exact member.imp (prunedNestedIn kept v n) (prunedNestedInArgs kept vs _)
end

/-- How many queries some queries consist of, themselves included. -/
def bulk (qs : List Query) : Nat :=
  (qs.flatMap fun q => q.toValue.nested).length

theorem bulkAppend (left right : List Query) : bulk (left ++ right) = bulk left + bulk right := by
  rw [bulk, List.flatMap_append, List.length_append, bulk, bulk]

theorem bulkOne (q : Query) : bulk [q] = 1 + (nestedOfArgs q.args).length := by
  simp [bulk, Query.toValue, Value.nested, Nat.add_comm]

mutual
theorem imagesBulk (f : Rewriting) : ∀ (v : Value) (n : Nat),
    bulk (images f (v.leaves.zipIdx n)) ≤ (nestedOfArgs (v.rewrite f n).1.toList).length
  | .string _, _ | .integer _, _ | .notANumber, _ | .list _, _ => Nat.zero_le _
  | .node op args, n => by
    cases nested : Query.startsNested args with
    | true =>
      have inside := imagesBulkArgs f args n
      rw [leavesOfConnective nested]
      cases some : (rewriteArgs f args n).1.any Value.isNode with
      | true =>
        rw [rewriteConnective f n nested, if_pos some]
        simp only [Option.toList_some, nestedOfArgs, Value.nested, List.append_nil,
          List.length_cons]
        omega
      | false =>
        rw [nodesLeft] at some
        rw [imagesOfLost some]
        exact Nat.zero_le _
    | false =>
      rw [leavesAlone nested, rewriteComparison f n nested]
      cases image : f n ⟨op, args⟩ <;> simp [images, image, bulk, nestedOfArgs]

theorem imagesBulkArgs (f : Rewriting) : ∀ (vs : List Value) (n : Nat),
    bulk (images f ((leavesOfArgs vs).zipIdx n)) ≤ (nestedOfArgs (rewriteArgs f vs n).1).length
  | [], _ => Nat.le_refl 0
  | v :: vs, n => by
    have head := imagesBulk f v n
    have tail := imagesBulkArgs f vs (v.rewrite f n).2
    rw [rewriteCount] at tail
    rw [leavesOfArgs, List.zipIdx_append, imagesAppend, bulkAppend, rewriteArgsCons,
      nestedOfArgsAppend, List.length_append, rewriteCount]
    exact Nat.add_le_add head tail
end

theorem steadyCons {f : Rewriting} {p : Query × Nat} {ps : List (Query × Nat)} :
    Steady f (p :: ps) ↔ (Stays f p → KeepsFront f p) ∧ Steady f ps :=
  List.forall_mem_cons

theorem steadyAppend {f : Rewriting} {left right : List (Query × Nat)} :
    Steady f (left ++ right) ↔ Steady f left ∧ Steady f right :=
  List.forall_mem_append

/-- Either every image is in its place, or a connective stands whole among the leaves. -/
def Accounted (f : Rewriting) (connectives leaves : List (Query × Nat)) (found : List Query) :
    Prop :=
  Steady f connectives ∧ found = images f leaves ∨
  ¬ Steady f connectives ∧ bulk (images f leaves) < bulk found

theorem accountedAppend {f : Rewriting} {cs cs' ls ls' : List (Query × Nat)} {qs qs' : List Query}
    (left : Accounted f cs ls qs) (right : Accounted f cs' ls' qs') :
    Accounted f (cs ++ cs') (ls ++ ls') (qs ++ qs') := by
  unfold Accounted
  rw [steadyAppend, imagesAppend, bulkAppend, bulkAppend]
  rcases left with ⟨steady, rfl⟩ | ⟨unsteady, more⟩
  · rcases right with ⟨steady', rfl⟩ | ⟨unsteady', more'⟩
    · exact .inl ⟨⟨steady, steady'⟩, rfl⟩
    · exact .inr ⟨fun both => unsteady' both.2, by omega⟩
  · rcases right with ⟨_, rfl⟩ | ⟨_, more'⟩
    · exact .inr ⟨fun both => unsteady both.1, by omega⟩
    · exact .inr ⟨fun both => unsteady both.1, by omega⟩

theorem accountedNested {f : Rewriting} {op : Operator} {args : List Value} {n : Nat}
    (nested : Query.startsNested args = true)
    (inside : Accounted f (connectivesOfArgs args n) ((leavesOfArgs args).zipIdx n)
      (leavesOfArgs (rewriteArgs f args n).1)) :
    Accounted f ((Value.node op args).connectives n) ((leavesOfArgs args).zipIdx n)
      (leavesOfArgs ((Value.node op args).rewrite f n).1.toList) := by
  have bound := imagesBulkArgs f args n
  unfold Accounted
  rw [connectivesNested n nested, steadyCons, prunedNested nested]
  split
  · rename_i stays
    rw [Option.toList_some, leavesOfOne]
    cases front : Query.startsNested (rewriteArgs f args n).1 with
    | true =>
      have keeps : KeepsFront f (⟨op, args⟩, n) := frontKept.mp front
      rw [leavesOfConnective front]
      simpa [Accounted, keeps] using inside
    | false =>
      have lost : ¬ KeepsFront f (⟨op, args⟩, n) := by
        rw [← frontKept, front]
        exact Bool.false_ne_true
      refine .inr ⟨fun steady => lost (steady.1 stays), ?_⟩
      rw [leavesAlone front, bulkOne]
      exact Nat.lt_one_add_iff.mpr bound
  · rename_i gone
    -- without a leaf that stays there is nothing to find inside either
    have none : (rewriteArgs f args n).1.any Value.isNode = false := by
      rwa [← nodeKeptIff nested, Bool.not_eq_true] at gone
    have lost : survives f ((leavesOfArgs args).zipIdx n) = false := by rw [← nodesLeft, none]
    rw [Accounted, leavesWithoutNodes none] at inside
    rw [imagesOfLost lost] at inside ⊢
    rcases inside with ⟨steady, _⟩ | ⟨_, more⟩
    · exact .inl ⟨⟨fun stays => absurd stays gone, steady⟩, rfl⟩
    · cases more

mutual
theorem leavesAccounted {f : Rewriting} (comparing : Comparing f) : ∀ (v : Value) (n : Nat),
    Accounted f (v.connectives n) (v.leaves.zipIdx n) (leavesOfArgs (v.rewrite f n).1.toList)
  | .string _, _ | .integer _, _ | .notANumber, _ | .list _, _ =>
    .inl ⟨fun _ member => (by cases member), rfl⟩
  | .node op args, n => by
    cases nested : Query.startsNested args with
    | true =>
      rw [leavesOfConnective nested]
      exact accountedNested nested (argsLeavesAccounted comparing args n)
    | false =>
      have alone : (Value.node op args).connectives n = [] := by simp [Value.connectives, nested]
      rw [alone, leavesOfImage comparing n nested, leavesAlone nested]
      exact .inl ⟨fun _ member => (by cases member), rfl⟩

theorem argsLeavesAccounted {f : Rewriting} (comparing : Comparing f) :
    ∀ (vs : List Value) (n : Nat), Accounted f (connectivesOfArgs vs n)
      ((leavesOfArgs vs).zipIdx n) (leavesOfArgs (rewriteArgs f vs n).1)
  | [], _ => .inl ⟨fun _ member => (by cases member), rfl⟩
  | v :: vs, n => by
    have head := leavesAccounted comparing v n
    have tail := argsLeavesAccounted comparing vs (v.rewrite f n).2
    rw [rewriteCount] at tail
    rw [connectivesOfArgs, leavesOfArgs, List.zipIdx_append, rewriteArgsCons, leavesOfArgsAppend,
      rewriteCount]
    exact accountedAppend head tail
end

namespace Query

theorem rewrittenLeaves {f : Rewriting} {q r : Query} (h : q.rewriteLeaves f = some r) :
    leavesOfArgs (q.toValue.rewrite f 0).1.toList = r.leaves := by
  rw [rewrittenQuery, h]
  exact leavesOfOne r.toValue

theorem leavesPruned {f : Rewriting} (comparing : Comparing f) {q r : Query}
    (h : q.rewriteLeaves f = some r) :
    r.leaves = images f q.leaves.zipIdx ↔ Steady f (q.toValue.connectives 0) := by
  have accounted := leavesAccounted comparing q.toValue 0
  rw [rewrittenLeaves h] at accounted
  constructor
  · intro same
    refine (accounted.resolve_right ?_).1
    rintro ⟨_, more⟩
    rw [same] at more
    exact absurd more (Nat.lt_irrefl _)
  · intro steady
    exact (accounted.resolve_right fun lost => lost.1 steady).2

end Query
end FacetSearch
