import FacetSearch.Proofs.Criteria.WriteBack
import FacetSearch.Proofs.Query.RoundTrip

/-! Well-named operators under writing back. A criterion writes its own operator or a known one and
nests nothing, and a rewriting brings in no operators but those of its images. So the criteria of a
well-named query are written back as a well-named query, which reads back from its rendering. -/
namespace FacetSearch

theorem operatorsOfAppend (vs ws : List Value) :
    operatorsOf (vs ++ ws) = operatorsOf vs ++ operatorsOf ws := by
  induction vs with
  | nil => rfl
  | cons v vs ih => rw [List.cons_append, operatorsOf, operatorsOf, ih, List.append_assoc]

theorem operatorsOfOne (v : Value) : operatorsOf [v] = v.operators := by
  simp [operatorsOf]

theorem operatorsOfStrings (texts : List String) : operatorsOf (texts.map .string) = [] := by
  induction texts with
  | nil => rfl
  | cons text texts ih => simpa [operatorsOf, Value.operators] using ih

mutual
theorem leavesNamed : ∀ v : Value, AllNamed v.operators → ∀ l ∈ v.leaves, l.WellNamed
  | .string _, _, _, member | .integer _, _, _, member | .notANumber, _, _, member
  | .list _, _, _, member => by cases member
  | .node op args, named, l, member => by
    rw [Value.leaves] at member
    split at member
    · exact argsLeavesNamed args (List.forall_mem_cons.mp named).2 l member
    · cases List.mem_singleton.mp member
      exact named

theorem argsLeavesNamed : ∀ vs : List Value, AllNamed (operatorsOf vs) →
    ∀ l ∈ leavesOfArgs vs, l.WellNamed
  | [], _, _, member => by cases member
  | v :: vs, named, l, member => by
    obtain ⟨head, tail⟩ := allNamedAppend named
    rcases List.mem_append.mp member with here | later
    · exact leavesNamed v head l here
    · exact argsLeavesNamed vs tail l later
end

mutual
theorem rewriteNamed {f : Rewriting} : ∀ (v : Value) (n : Nat), AllNamed v.operators →
    (∀ r ∈ images f (v.leaves.zipIdx n), r.WellNamed) →
    AllNamed (operatorsOf (v.rewrite f n).1.toList)
  | .string _, _, named, _ | .integer _, _, named, _ | .notANumber, _, named, _
  | .list _, _, named, _ => (operatorsOfOne _).symm ▸ named
  | .node op args, n, named, images => by
    obtain ⟨own, inside⟩ := List.forall_mem_cons.mp named
    cases nested : Query.startsNested args with
    | true =>
      rw [leavesOfConnective nested] at images
      have kept := rewriteArgsNamed args n inside images
      rw [rewriteConnective f n nested]
      split
      · rw [Option.toList_some, operatorsOfOne]
        exact List.forall_mem_cons.mpr ⟨own, kept⟩
      · exact List.forall_mem_nil _
    | false =>
      rw [rewriteComparison f n nested]
      cases image : f n ⟨op, args⟩ with
      | none => exact List.forall_mem_nil _
      | some r =>
        rw [Option.map_some, Option.toList_some, operatorsOfOne]
        refine images r (List.mem_filterMap.mpr ⟨(⟨op, args⟩, n), ?_, image⟩)
        rw [Value.leaves, nested]
        exact List.mem_singleton_self _

theorem rewriteArgsNamed {f : Rewriting} : ∀ (vs : List Value) (n : Nat),
    AllNamed (operatorsOf vs) → (∀ r ∈ images f ((leavesOfArgs vs).zipIdx n), r.WellNamed) →
    AllNamed (operatorsOf (rewriteArgs f vs n).1)
  | [], _, named, _ => named
  | v :: vs, n, named, images => by
    obtain ⟨head, tail⟩ := allNamedAppend named
    rw [leavesOfArgs, List.zipIdx_append, imagesAppend] at images
    obtain ⟨here, later⟩ := List.forall_mem_append.mp images
    rw [rewriteArgsCons, rewriteCount, operatorsOfAppend]
    exact List.forall_mem_append.mpr
      ⟨rewriteNamed v n head here, rewriteArgsNamed vs _ tail later⟩
end

namespace Criterion

theorem boundOperators (bound : String) : (boundValue bound).operators = [] := by
  unfold boundValue
  split <;> rfl

theorem nodeOperators (c : Criterion) (path : String) : operatorsOf (c.node path).args = [] := by
  obtain ⟨⟨v, kind, classified⟩, op, selection⟩ := c
  cases selection with
  | terms names =>
    simp only [node, Selection.node, Selection.termsNode]
    split
    · rfl
    · simp [operatorsOf, Value.operators, operatorsOfStrings]
  | range low high =>
    simp only [node, Selection.node, Selection.rangeNode]
    split
    · rfl
    · split
      · rfl
      · simp [operatorsOf, Value.operators, boundOperators]
      · simp [operatorsOf, Value.operators, boundOperators]
      · simp [operatorsOf, Value.operators, boundOperators]
  | words text => rfl

theorem termsOperatorKnown (v : Vocabulary) (op : Operator) (names : List String) :
    Selection.termsOperator v op names ∈ Operator.known := by
  unfold Selection.termsOperator
  split
  · split
    · rename_i presence
      simp only [Operator.isPresence, Bool.or_eq_true, beq_iff_eq] at presence
      rcases presence with rfl | rfl <;> decide
    · decide
  · split
    · rename_i membership
      simp only [Operator.isMembership, Bool.or_eq_true, beq_iff_eq] at membership
      rcases membership with rfl | rfl <;> decide
    · decide

theorem nodeOperator (c : Criterion) (path : String) :
    (c.node path).operator = c.operator ∨ (c.node path).operator ∈ Operator.known := by
  obtain ⟨⟨v, kind, classified⟩, op, selection⟩ := c
  cases selection with
  | terms names => exact .inr (termsOperatorKnown v op names)
  | range low high =>
    simp only [node, Selection.node, Selection.rangeNode]
    split
    · exact .inl rfl
    · split
      · exact .inl rfl
      · exact .inr (show Operator.atLeast ∈ Operator.known by decide)
      · exact .inr (show Operator.atMost ∈ Operator.known by decide)
      · exact .inr (show Operator.between ∈ Operator.known by decide)
  | words text => exact .inl rfl

theorem nodeNamed {c : Criterion} (path : String) (named : c.operator.WellNamed) :
    (c.node path).WellNamed := by
  have own : (c.node path).operator.WellNamed := by
    rcases nodeOperator c path with same | known
    · rwa [same]
    · exact knownNamed _ known
  refine List.forall_mem_cons.mpr ⟨own, ?_⟩
  rw [nodeOperators]
  exact List.forall_mem_nil _

end Criterion

namespace CriteriaSet

/-- Whatever the edits, where every operator in use is well named the written query is. -/
theorem keptNamed {s : CriteriaSet} {path : String} {r : Query}
    (source : ∀ q, s.source = some q → q.WellNamed)
    (owners : ∀ i c, s.owner? i = some c → c.operator.WellNamed) (kept : s.kept? path = some r) :
    r.WellNamed := by
  obtain ⟨q, given, rewritten⟩ := Option.bind_eq_some_iff.mp kept
  have leaves := leavesNamed q.toValue (source q given)
  have images : ∀ r ∈ images (replacement s.owners path) q.leaves.zipIdx, r.WellNamed := by
    rw [imagesOfSource given]
    intro r member
    obtain ⟨⟨l, i⟩, leaf, written⟩ := List.mem_filterMap.mp member
    unfold writing at written
    split at written
    · rename_i c owner
      obtain ⟨_, rfl⟩ := writtenSome.mp written
      exact Criterion.nodeNamed path (owners i c owner)
    · cases written
      exact leaves l (List.mem_of_getElem? (List.mem_zipIdx_iff_getElem?.mp leaf))
  have named := rewriteNamed q.toValue 0 (source q given) images
  rw [rewrittenQuery, rewritten, Option.map_some, Option.toList_some, operatorsOfOne] at named
  exact named

end CriteriaSet
end FacetSearch
