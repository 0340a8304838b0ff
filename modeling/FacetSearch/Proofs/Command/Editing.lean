import FacetSearch.Command.Basic

/-! Commands that succeed, taken apart: the facet that was looked up, the source that was read, and
the criterion after its values and its operator were set. -/
namespace FacetSearch

theorem bindOk {α β ε : Type} {x : Except ε α} {next : α → Except ε β} {b : β} :
    x >>= next = .ok b ↔ ∃ a, x = .ok a ∧ next a = .ok b := by
  cases x <;> simp [bind, Except.bind]

namespace Command
open CriteriaSet

theorem findFacetOk {t : Taxonomy} {name : String} {f : Facet} :
    findFacet t name = .ok f ↔ t.facet? name = some f := by
  unfold findFacet
  split <;> simp_all

theorem readSourceText (text : String) : readSource (some text) =
    match Query.parse text with
    | .ok q => .ok (some q)
    | .error cause => .error (.query cause) := by
  simp only [readSource, readQuery]
  cases Query.parse text <;> rfl

theorem readSourceOk {query : Option String} {source : Option Query} :
    readSource query = .ok source ↔
      query = none ∧ source = none ∨
      ∃ text q, query = some text ∧ source = some q ∧ Query.parse text = .ok q := by
  cases query with
  | none => simp [readSource, eq_comm]
  | some text =>
    rw [readSourceText]
    cases read : Query.parse text <;> simp [read, eq_comm]

theorem readSourceError {query : Option String} {e : CommandError} :
    readSource query = .error e ↔
      ∃ text cause, query = some text ∧ Query.parse text = .error cause ∧ e = .query cause := by
  cases query with
  | none => simp [readSource]
  | some text =>
    rw [readSourceText]
    cases read : Query.parse text <;> simp [read, eq_comm]

theorem appliedOk {c d : Criterion} {operator : Option String} {values : List String} :
    applied c operator values = .ok d ↔ ∃ filled : Criterion,
      (values = [] ∧ filled = c ∨
        values ≠ [] ∧ ∃ e, entry c.kind values = .ok e ∧ filled = c.enter e) ∧
      operator.elim filled (filled.setOperator ⟨·⟩) = d := by
  unfold applied
  cases values with
  | nil => cases operator <;> simp [bind, Except.bind]
  | cons value values =>
    cases entry c.kind (value :: values) <;> cases operator <;>
      simp [bind, Except.bind, Except.map]

/-- Values and operator leave the facet, and values leave the operator. -/
theorem appliedKeeps {c d : Criterion} {operator : Option String} {values : List String}
    (h : applied c operator values = .ok d) :
    d.facet = c.facet ∧ d.operator = (operator.map Operator.mk).getD c.operator := by
  obtain ⟨filled, given, rfl⟩ := appliedOk.mp h
  have kept : filled.facet = c.facet ∧ filled.operator = c.operator := by
    rcases given with ⟨_, rfl⟩ | ⟨_, e, _, rfl⟩ <;> exact ⟨rfl, rfl⟩
  cases operator with
  | none => exact kept
  | some name => exact ⟨kept.1, rfl⟩

section
variable {s : Settings} {t : Taxonomy} {query taxonomy : Option String}

theorem editOk {vocabulary : String} {operator : Option String} {values : List String}
    {r : Report} :
    edit s t vocabulary query operator values taxonomy = .ok r ↔
      ∃ f source c, t.facet? vocabulary = some f ∧ readSource query = .ok source ∧
        applied (.ofNodes f (sourceLeaves source)) operator values = .ok c ∧
        .ofCriterion s.localizer (pathPrefix s t taxonomy) c = r := by
  simp only [edit, bindOk, findFacetOk, Except.ok.injEq]
  constructor
  · rintro ⟨f, facet, source, read, c, set, report⟩
    exact ⟨f, source, c, facet, read, set, report⟩
  · rintro ⟨f, source, c, facet, read, set, report⟩
    exact ⟨f, facet, source, read, c, set, report⟩

theorem builtOk {b : BuildReport} :
    build s t query taxonomy = .ok b ↔ ∃ source, readSource query = .ok source ∧
      let set := ofTaxonomy t source
      let path := pathPrefix s t taxonomy
      ⟨set.criteria.map (.ofCriterion s.localizer path), set.display s.localizer,
        set.toQuery? path⟩ = b := by
  simp only [build, bindOk, Except.ok.injEq]

theorem builtError {e : CommandError} :
    build s t query taxonomy = .error e ↔ readSource query = .error e := by
  unfold build
  cases readSource query <;> simp [bind, Except.bind]

end

end Command
end FacetSearch
