import FacetSearch.Proofs.Criteria.WriteBack
import FacetSearch.Proofs.Query.Pruning

/-! Connectives of a query whose criteria are written back. A leaf vanishes with an inactive owner;
a connective above it stays while another leaf does, and is entered again, and added to, only while
one of the leaves at its front stays. -/
namespace FacetSearch.CriteriaSet

theorem attachConjunction {root : Query} (conjunction : root.operator = .conjunction)
    (fresh : List Query) : attach (some root) fresh =
      if root.isConnective then some { root with args := root.args ++ fresh.map Query.toValue }
      else if fresh.isEmpty then some root else some (.all (root :: fresh)) := by
  simp only [attach, conjunction, true_and]

theorem replacementStays (owners : List (Option Criterion)) (path : String) (leaf : Nat)
    (q : Query) : (replacement owners path leaf q).isSome = true ↔
      ∀ c, owners[leaf]? = some (some c) → c.isActive = true := by
  unfold replacement
  split
  · rename_i c owner
    cases active : c.isActive <;> simp [owner, written?, active]
  · rename_i other
    simpa using fun c owner => absurd owner (other c)

theorem connectivesKeptExactly {q : Query} (connective : q.isConnective = true)
    (owners : List (Option Criterion)) (path : String) {r : Query}
    (written : q.rewriteLeaves (replacement owners path) = some r) :
    let f := replacement owners path
    let within := q.toValue.connectives 0
    (∀ leaf l, (f leaf l).isSome = true ↔
      ∀ c, owners[leaf]? = some (some c) → c.isActive = true) ∧
    (∀ p ∈ within, ∀ w, pruned f p = some w →
      w ∈ r.toValue.nested ∧ (w.isConnective = true ↔ KeepsFront f p)) ∧
    (r.isConnective = true ↔ KeepsFront f (q, 0)) ∧
    ((∀ p ∈ within, ∀ w, pruned f p = some w → w.isConnective = true) ↔ Steady f within) ∧
    (r.leaves = images f q.leaves.zipIdx ↔ Steady f within) ∧
    ∀ fresh, r.operator = .conjunction → attach (some r) fresh =
      if KeepsFront f (q, 0) then some { r with args := r.args ++ fresh.map Query.toValue }
      else if fresh.isEmpty then some r else some (.all (r :: fresh)) := by
  intro f within
  have placed : leavesOfArgs [r.toValue] = r.leaves := leavesOfOne r.toValue
  have kept : (q.toValue.rewrite f 0).1 = some r.toValue := by rw [rewrittenQuery, written]; rfl
  have root : r.isConnective = true ↔ KeepsFront f (q, 0) :=
    prunedConnective (p := (q, 0)) connective written
  have image : ∀ p ∈ within, ∀ w, pruned f p = some w →
      w ∈ r.toValue.nested ∧ (w.isConnective = true ↔ KeepsFront f p) := by
    intro p member w stays
    have inside := prunedNestedIn stays q.toValue 0 member
    rw [kept] at inside
    exact ⟨by simpa [nestedOfArgs] using inside,
      prunedConnective (connectivesConnect q.toValue 0 p member) stays⟩
  refine ⟨replacementStays owners path, image, root, ?_,
    q.leavesPruned (ownersComparing owners path) written, ?_⟩
  · constructor
    · intro connects p member stays
      have some := (prunedSome (connectivesConnect q.toValue 0 p member)).mpr ⟨stays, rfl⟩
      exact (image p member _ some).2.mp (connects p member _ some)
    · intro steady p member w some
      have stays := ((prunedSome (connectivesConnect q.toValue 0 p member)).mp some).1
      exact (image p member w some).2.mpr (steady p member stays)
  · intro fresh conjunction
    rw [attachConjunction conjunction]
    exact ite_congr (propext root) (fun _ => rfl) fun _ => rfl

def shortenedSource : Query :=
  let sex := ⟨.oneOf, [.string "Mica.sex", .list []]⟩
  let age := ⟨.atLeast, [.string "Mica.age", .integer 3]⟩
  let other := ⟨⟨"eq"⟩, [.string "Mica.other", .integer 1]⟩
  let near := ⟨⟨"near"⟩, [Query.toValue sex, Query.toValue age, .string "x", Query.toValue other]⟩
  ⟨.conjunction, [Query.toValue near, .integer 7]⟩

theorem connectivesKeptShortened :
    shortenedSource.isConnective = true ∧
    let f := replacement (ofTaxonomy sample (some shortenedSource)).owners "Mica"
    ∃ r, shortenedSource.rewriteLeaves f = some r ∧
      Steady f (shortenedSource.toValue.connectives 0) ∧ r.isConnective = true ∧
      r.leaves = [⟨.atLeast, [.string "Mica.age", .integer 3]⟩,
        ⟨⟨"eq"⟩, [.string "Mica.other", .integer 1]⟩] := by
  let owners := (ofTaxonomy sample (some shortenedSource)).owners
  let r : Query := ⟨.conjunction, [.node ⟨"near"⟩ [.node .atLeast [.string "Mica.age", .integer 3],
    .string "x", .node ⟨"eq"⟩ [.string "Mica.other", .integer 1]], .integer 7]⟩
  have connective : shortenedSource.isConnective = true := rfl
  have written : shortenedSource.rewriteLeaves (replacement owners "Mica") = some r := by decide
  obtain ⟨_, _, root, _, leaves, _⟩ := connectivesKeptExactly connective owners "Mica" written
  have steady : Steady (replacement owners "Mica") (shortenedSource.toValue.connectives 0) := by
    decide
  exact ⟨connective, r, written, steady, root.mpr (by decide), (leaves.mpr steady).trans (by decide)⟩

def partedSource : Query :=
  ⟨.conjunction, [.node .oneOf [.string "Mica.sex", .list []], .string "x",
    .node .atLeast [.string "Mica.age", .integer 3]]⟩

/-- What is left of the conjunction is a comparison: the leaf in it is out of reach, and a criterion
that is added stands beside it. -/
theorem frontLost :
    let s := (ofTaxonomy sample (some partedSource)).run [("name", .enter (.words "asthma"))]
    let r : Query := ⟨.conjunction, [.string "x",
      .node .atLeast [.string "Mica.age", .integer 3]]⟩
    partedSource.isConnective = true ∧
    partedSource.rewriteLeaves (replacement s.owners "Mica") = some r ∧
    r.isConnective = false ∧ r.leaves = [r] ∧
    s.toQuery? "Mica" = some (.all [r, ⟨.matching, [.string "asthma", .string "Mica.name"]⟩]) := by
  decide

end FacetSearch.CriteriaSet
