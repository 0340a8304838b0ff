import FacetSearch.Proofs.Command.Editing
import FacetSearch.Proofs.Criteria.Edits
import FacetSearch.Proofs.Taxonomy.Lookup

/-! When an edit fails, and with what. The vocabulary is looked up first, the query is read next and
the values are set last. Main statement: the exact condition of each error and of success; neither
the settings nor the operator nor the prefix have a part in it. -/
namespace FacetSearch

theorem bindError {α β ε : Type} {x : Except ε α} {next : α → Except ε β} {e : ε} :
    x >>= next = .error e ↔ x = .error e ∨ ∃ a, x = .ok a ∧ next a = .error e := by
  cases x <;> simp [bind, Except.bind]

namespace Command
open CriteriaSet

/-- More values than a range has bounds. -/
def Surplus (kind : Kind) (values : List String) : Prop :=
  kind = .numeric ∧ 2 < values.length

def Readable (query : Option String) : Prop :=
  ∀ text, query = some text → ∃ q, Query.parse text = .ok q

theorem entryError {kind : Kind} {values : List String} {e : CommandError} :
    entry kind values = .error e ↔ Surplus kind values ∧ e = .surplusValues values.length := by
  cases kind with
  | numeric =>
    by_cases surplus : 2 < values.length <;> simp [entry, Surplus, surplus, eq_comm]
  | _ => simp [entry, Surplus]

theorem appliedError {c : Criterion} {operator : Option String} {values : List String}
    {e : CommandError} : applied c operator values = .error e ↔
      Surplus c.kind values ∧ e = .surplusValues values.length := by
  rw [← entryError]
  cases values with
  | nil => cases operator <;> simp [applied, entryError, Surplus, bind, Except.bind]
  | cons value values =>
    unfold applied
    cases entry c.kind (value :: values) <;> cases operator <;>
      simp [bind, Except.bind, Except.map]

theorem readableIff {query : Option String} :
    (∃ source, readSource query = .ok source) ↔ Readable query := by
  unfold Readable
  cases query with
  | none => simp [readSource]
  | some text =>
    rw [readSourceText]
    cases read : Query.parse text <;> simp [read]

theorem ofNodesKind (f : Facet) (leaves : List Query) :
    (Criterion.ofNodes f leaves).kind = f.kind :=
  congrArg Facet.kind (Criterion.ofNodesFacet f leaves)

theorem findFacetError {t : Taxonomy} {name : String} {e : CommandError} :
    findFacet t name = .error e ↔ t.facet? name = none ∧
      (t.vocabulary? name ≠ none ∧ e = .noCriterion name ∨
        t.vocabulary? name = none ∧ e = .vocabularyNotFound name) := by
  unfold findFacet
  cases t.facet? name <;> cases t.vocabulary? name <;> simp [eq_comm]

section
variable {s : Settings} {t : Taxonomy} {name : String} {query operator : Option String}
  {values : List String} {taxonomy : Option String}

theorem editError {e : CommandError} :
    edit s t name query operator values taxonomy = .error e ↔
      findFacet t name = .error e ∨ ∃ f, t.Offers name f ∧
        (readSource query = .error e ∨
          Readable query ∧ Surplus f.kind values ∧ e = .surplusValues values.length) := by
  simp only [edit, bindError, findFacetOk, Taxonomy.facetOffered, appliedError, ofNodesKind,
    reduceCtorEq, and_false, exists_false, or_false, ← readableIff, exists_and_right]

end

end Command
end FacetSearch
