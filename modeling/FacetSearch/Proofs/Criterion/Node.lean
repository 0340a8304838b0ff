import FacetSearch.Criterion.Basic
import FacetSearch.Proofs.Query.Rewriting

/-! The shape of the comparison that stands for a criterion: the field path comes second after
words, or first before at most one argument that is neither text nor nested. So the comparison is a
leaf, and its field path tells the vocabulary. -/
namespace FacetSearch.Criterion

theorem boundScalar (bound : String) :
    (boundValue bound).isNode = false ∧ (boundValue bound).string? = none := by
  unfold boundValue
  split <;> exact ⟨rfl, rfl⟩

theorem wordsArgs (c : Criterion) (taxonomy : String) (kind : c.kind = .text) :
    ∃ words, (c.node taxonomy).args =
      [.string words, .string (fieldPath taxonomy c.facet.vocabulary)] := by
  obtain ⟨⟨vocabulary, _, classified⟩, op, selection⟩ := c
  cases kind
  cases selection
  exact ⟨_, rfl⟩

theorem fieldArgs (c : Criterion) (taxonomy : String) (kind : c.kind ≠ .text) :
    ∃ rest : Option Value,
      (c.node taxonomy).args = .string (fieldPath taxonomy c.facet.vocabulary) :: rest.toList ∧
      ∀ v, rest = some v → v.isNode = false ∧ v.string? = none := by
  obtain ⟨⟨vocabulary, _, classified⟩, op, selection⟩ := c
  cases selection with
  | words text => exact absurd rfl kind
  | terms names =>
    simp only [node, Selection.node, Selection.termsNode]
    split
    · exact ⟨none, rfl, by simp⟩
    · refine ⟨some _, rfl, ?_⟩
      rintro v ⟨⟩
      exact ⟨rfl, rfl⟩
  | range low high =>
    have boundOnly := fun bound v (same : some (boundValue bound) = some v) =>
      Option.some.inj same ▸ boundScalar bound
    have listOnly : ∀ items v, some (Value.list items) = some v →
        v.isNode = false ∧ v.string? = none := by
      rintro items v ⟨⟩
      exact ⟨rfl, rfl⟩
    simp only [node, Selection.node, Selection.rangeNode]
    split
    · exact ⟨some _, rfl, listOnly _⟩
    · split
      · exact ⟨some _, rfl, listOnly _⟩
      · exact ⟨some _, rfl, boundOnly low⟩
      · exact ⟨some _, rfl, boundOnly high⟩
      · exact ⟨some _, rfl, listOnly _⟩

theorem nodeArgs (c : Criterion) (taxonomy : String) :
    (∃ words, (c.node taxonomy).args =
      [.string words, .string (fieldPath taxonomy c.facet.vocabulary)]) ∨
    ∃ rest : Option Value,
      (c.node taxonomy).args = .string (fieldPath taxonomy c.facet.vocabulary) :: rest.toList ∧
      ∀ v, rest = some v → v.isNode = false ∧ v.string? = none := by
  by_cases kind : c.kind = .text
  · exact .inl (wordsArgs c taxonomy kind)
  · exact .inr (fieldArgs c taxonomy kind)

theorem nodeFlat (c : Criterion) (taxonomy : String) :
    (c.node taxonomy).args.any Value.isNode = false := by
  obtain ⟨words, same⟩ | ⟨rest, same, plain⟩ := nodeArgs c taxonomy
  · rw [same]
    rfl
  · rw [same]
    cases rest with
    | none => rfl
    | some v => simpa [Value.isNode] using (plain v rfl).1

theorem nodeComparison (c : Criterion) (taxonomy : String) :
    (c.node taxonomy).isConnective = false := by
  cases nested : (c.node taxonomy).isConnective with
  | false => rfl
  | true => exact absurd (nodesOfNested nested) (by simp [nodeFlat])

def fieldOf (q : Query) : Option String :=
  match q.args with
  | [_, .string path] => some path
  | .string path :: _ => some path
  | _ => none

theorem fieldOfNode (c : Criterion) (taxonomy : String) :
    fieldOf (c.node taxonomy) = some (fieldPath taxonomy c.facet.vocabulary) := by
  unfold fieldOf
  obtain ⟨words, same⟩ | ⟨rest, same, plain⟩ := nodeArgs c taxonomy
  · rw [same]
  · rw [same]
    cases rest with
    | none => rfl
    | some v =>
      cases v with
      | string text => exact absurd (plain _ rfl).2 (by simp [Value.string?])
      | _ => rfl

theorem fieldPathName {taxonomy : String} {v w : Vocabulary}
    (h : fieldPath taxonomy v = fieldPath taxonomy w) : v.name = w.name :=
  (String.append_right_inj (taxonomy ++ ".")).mp h

theorem nameOfNode {c d : Criterion} {taxonomy : String}
    (h : c.node taxonomy = d.node taxonomy) : c.name = d.name := by
  have fields := congrArg fieldOf h
  rw [fieldOfNode, fieldOfNode] at fields
  exact fieldPathName (Option.some.inj fields)

end FacetSearch.Criterion
