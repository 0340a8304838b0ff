import FacetSearch.Proofs.Criterion.Restoring
import Mathlib.Data.List.Perm.Subperm

/-! What terms select among records, before they are written and after. As many terms as the
vocabulary has are written as the presence of the field, whichever they are. Main statement: for
which selections, and on which records, that makes a difference. -/
namespace FacetSearch

/-- Values of fields, by field path. -/
abbrev Record := String → Option String

/-- Whether an operator with some terms admits a value, or the lack of one. -/
def Operator.admits (op : Operator) (names : List String) (value : Option String) : Bool :=
  match op with
  | .oneOf => value.any names.contains
  | .noneOf => !value.any names.contains
  | .present => value.isSome
  | .missing => value.isNone
  | _ => false

def Query.selects (q : Query) (record : Record) : Bool :=
  match q.args with
  | [.string path] => q.operator.admits [] (record path)
  | [.string path, .list items] => q.operator.admits (items.filterMap Value.string?) (record path)
  | _ => false

def Selection.names : Selection kind → List String
  | .terms names => names
  | .range _ _ | .words _ => []

namespace Operator
variable (names : List String) (value : Option String)

theorem presentAsOneOf : present.admits [] value = oneOf.admits names value ↔
    ∀ name, value = some name → name ∈ names := by
  change value.isSome = value.any names.contains ↔ _
  cases value with
  | none => simp
  | some name => simp

theorem presentAsNoneOf : present.admits [] value = noneOf.admits names value ↔
    ∃ name, value = some name ∧ name ∉ names := by
  change value.isSome = !value.any names.contains ↔ _
  cases value with
  | none => simp
  | some name => simp

end Operator

namespace Selection
variable {v : Vocabulary} {names : List String} {op : Operator}

theorem completePresent (all : isComplete v names = true) (membership : op.isMembership = true) :
    termsOperator v op names = .present := by
  rw [termsOperator, if_pos all, if_neg (by simp [membershipNotPresence membership])]

theorem partialSelects (lacking : isComplete v names = false) (membership : op.isMembership = true)
    (path : String) (record : Record) :
    (termsNode v path op names).selects record = op.admits names (record path) := by
  have listed : (names.map Value.string).filterMap Value.string? = names := by
    simp [List.filterMap_map, Function.comp_def, Value.string?]
  simp [termsNode, partialKept lacking membership, membershipNotPresence membership, Query.selects,
    listed]

theorem completeSelects (all : isComplete v names = true) (membership : op.isMembership = true)
    (path : String) (record : Record) :
    (termsNode v path op names).selects record = Operator.present.admits [] (record path) := by
  have presence : Operator.present.isPresence = true := rfl
  simp [termsNode, completePresent all membership, presence, Query.selects]

theorem completeIff : isComplete v names = true ↔ names.length = v.termNames.length := by
  simp [isComplete, Vocabulary.termNames]

end Selection

theorem coversAll {names all : List String} (distinct : names.Nodup) (known : names ⊆ all)
    (same : names.length = all.length) : all ⊆ names := by
  have within : names.Subperm all := List.subperm_of_subset distinct known
  exact (within.perm_of_length_le same.ge).symm.subset

namespace Criterion
variable {c : Criterion} (terms : c.kind = .terms) (membership : c.operator.isMembership = true)
  (taxonomy : String)

/-- Whether a record is selected by the comparison as it is by the operator and the terms. -/
def Agrees (c : Criterion) (taxonomy : String) (record : Record) : Prop :=
  (c.node taxonomy).selects record =
    c.operator.admits c.selection.names (record (fieldPath taxonomy c.facet.vocabulary))

instance (taxonomy : String) (record : Record) : Decidable (c.Agrees taxonomy record) :=
  inferInstanceAs (Decidable (_ = _))

/-- Agreement on every record that has one of the terms in the field, or nothing. -/
def Faithful (c : Criterion) (taxonomy : String) : Prop :=
  ∀ record : Record, (∀ name, record (fieldPath taxonomy c.facet.vocabulary) = some name →
    name ∈ c.facet.vocabulary.termNames) → c.Agrees taxonomy record

include terms in
theorem termsWritten : c.node taxonomy = Selection.termsNode c.facet.vocabulary
    (fieldPath taxonomy c.facet.vocabulary) c.operator c.selection.names := by
  obtain ⟨⟨v, kind, classified⟩, op, selection⟩ := c
  cases selection with
  | terms names => rfl
  | range low high => cases terms
  | words text => cases terms

include terms membership

theorem presentIff : (c.node taxonomy).operator = .present ↔
    c.selection.names.length = c.facet.vocabulary.termNames.length := by
  have different : c.operator ≠ .present := by
    intro same
    rw [same] at membership
    cases membership
  rw [termsWritten terms, ← Selection.completeIff]
  cases all : Selection.isComplete c.facet.vocabulary c.selection.names with
  | true => simp [Selection.termsNode, Selection.completePresent all membership]
  | false => simpa [Selection.termsNode, Selection.partialKept all membership] using different

theorem agreesIff (record : Record) :
    let names := c.selection.names
    let value := record (fieldPath taxonomy c.facet.vocabulary)
    c.Agrees taxonomy record ↔ names.length ≠ c.facet.vocabulary.termNames.length ∨
      c.operator = .oneOf ∧ (∀ name, value = some name → name ∈ names) ∨
      c.operator = .noneOf ∧ ∃ name, value = some name ∧ name ∉ names := by
  intro names value
  have complete : Selection.isComplete c.facet.vocabulary names = true ↔ _ := Selection.completeIff
  rw [Agrees, termsWritten terms, ne_eq, ← complete]
  cases all : Selection.isComplete c.facet.vocabulary c.selection.names with
  | false =>
    have kept := Selection.partialSelects all membership
    simp [names, kept]
  | true =>
    rw [Selection.completeSelects all membership]
    have either : c.operator = .oneOf ∨ c.operator = .noneOf := by
      simpa [Operator.isMembership] using membership
    rcases either with same | same
    · have other : Operator.oneOf ≠ .noneOf := by decide
      simpa [same, other] using Operator.presentAsOneOf names value
    · have other : Operator.noneOf ≠ .oneOf := by decide
      simpa [same, other] using Operator.presentAsNoneOf names value

theorem faithfulIff :
    let names := c.selection.names
    let all := c.facet.vocabulary.termNames
    c.Faithful taxonomy ↔ names.length ≠ all.length ∨ c.operator = .oneOf ∧ all ⊆ names := by
  intro names all
  have exactly := agreesIff terms membership taxonomy
  constructor
  · intro faithful
    rcases ne_or_eq names.length all.length with other | same
    · exact .inl other
    -- A record without the field tells the operator, one for each term tells the names.
    have lacking := faithful (fun _ => none) (fun _ held => nomatch held)
    have oneOf : c.operator = .oneOf := by
      rcases (exactly _).mp lacking with other | ⟨oneOf, _⟩ | ⟨_, _, held, _⟩
      · exact absurd same other
      · exact oneOf
      · cases held
    refine .inr ⟨oneOf, fun name term => ?_⟩
    have holding := faithful (fun _ => some name) (fun _ held => Option.some.inj held ▸ term)
    rcases (exactly _).mp holding with other | ⟨_, listed⟩ | ⟨noneOf, _⟩
    · exact absurd same other
    · exact listed name rfl
    · exact absurd (oneOf.symm.trans noneOf) (by decide)
  · rintro (other | ⟨oneOf, covered⟩) record known
    · exact (exactly record).mpr (.inl other)
    · refine (exactly record).mpr (.inr (.inl ⟨oneOf, fun name held => ?_⟩))
      exact covered (known name held)

/-- Two ways to be wrong: names that repeat or are no terms are counted, and the presence of the
field is put in the place of `out` as well. -/
theorem meaningKept :
    let names := c.selection.names
    let all := c.facet.vocabulary.termNames
    ((c.node taxonomy).operator = .present ↔ names.length = all.length) ∧
    (∀ record : Record, c.Agrees taxonomy record ↔
      let value := record (fieldPath taxonomy c.facet.vocabulary)
      names.length ≠ all.length ∨
        c.operator = .oneOf ∧ (∀ name, value = some name → name ∈ names) ∨
        c.operator = .noneOf ∧ ∃ name, value = some name ∧ name ∉ names) ∧
    (c.Faithful taxonomy ↔ names.length ≠ all.length ∨ c.operator = .oneOf ∧ all ⊆ names) ∧
    (names.Nodup → names ⊆ all →
      (c.Faithful taxonomy ↔ names.length ≠ all.length ∨ c.operator = .oneOf)) := by
  intro names all
  have whole := faithfulIff terms membership taxonomy
  refine ⟨presentIff terms membership taxonomy, agreesIff terms membership taxonomy, whole,
    fun distinct known => whole.trans ?_⟩
  rcases ne_or_eq names.length all.length with other | same
  · exact ⟨fun _ => .inl other, fun _ => .inl other⟩
  · have covered : all ⊆ names := coversAll distinct known same
    exact or_congr_right (and_iff_left covered)

omit terms membership

def sexFacet : Facet :=
  ⟨⟨"sex", .empty, some [⟨"male", .empty⟩, ⟨"female", .empty⟩], []⟩, .terms, by decide⟩

theorem meaningKeptReordered :
    let c : Criterion := ⟨sexFacet, .oneOf, .terms ["female", "male"]⟩
    c.node "Mica" = ⟨.present, [.string "Mica.sex"]⟩ ∧ c.Faithful "Mica" := by
  intro c
  obtain ⟨_, _, whole, _⟩ := meaningKept (c := c) rfl rfl "Mica"
  exact ⟨by decide, whole.mpr (.inr ⟨rfl, by decide⟩)⟩

/-- Every term under `out`, and one term twice under `in`. -/
theorem meaningLost :
    let v := sexFacet.vocabulary
    let excluding : Criterion := ⟨sexFacet, .noneOf, .terms ["male", "female"]⟩
    let repeating : Criterion := ⟨sexFacet, .oneOf, .terms ["male", "male"]⟩
    v.termNames ≠ [] ∧ v.termNames.Nodup ∧
    excluding.node "Mica" = ⟨.present, [.string "Mica.sex"]⟩ ∧
    ¬ excluding.Agrees "Mica" (fun _ => some "male") ∧ ¬ excluding.Agrees "Mica" (fun _ => none) ∧
    repeating.node "Mica" = ⟨.present, [.string "Mica.sex"]⟩ ∧
    ¬ repeating.Agrees "Mica" (fun _ => some "female") := by
  decide

end Criterion
end FacetSearch
