import FacetSearch.Proofs.Command.Editing
import FacetSearch.Proofs.Criteria.WriteBack
import FacetSearch.Proofs.Criterion.Meaning
import FacetSearch.Proofs.Criterion.Presence

/-! Presence operators in reports. One that is given to an edit is applied last and leaves nothing
of the query and the values. One that comes from the query can be followed by values: terms are then
written as a list, although operator and display still speak of presence. Main statements: what two
such edits have in common, and when the comparison of a report has the operator of the report. -/
namespace FacetSearch

namespace Selection
variable {v : Vocabulary} {kind : Kind} {op : Operator}

theorem wholeNames (terms : kind = .terms) : (whole v kind).names = v.termNames := by
  subst terms
  rfl

theorem enteredNames (terms : kind = .terms) (s : Selection kind) (names : List String) :
    (s.enter (.terms names)).names = names := by
  cases s with
  | terms before => rfl
  | range low high => cases terms
  | words text => cases terms

theorem restoredNames (terms : kind = .terms) (s : Selection kind) {q : Query}
    (presence : q.operator.isPresence = true) : (s.ofNode v q).names = v.termNames := by
  cases s with
  | terms before => simp [ofNode, presence, names]
  | range low high => cases terms
  | words text => cases terms

variable (presence : op.isPresence = true) (path : String) {names : List String}
include presence

theorem presenceLost (lacking : isComplete v names = false) :
    termsNode v path op names = ⟨.oneOf, [.string path, .list (names.map .string)]⟩ := by
  have other := Operator.presenceNotMembership presence
  have put : termsOperator v op names = .oneOf := by simp [termsOperator, lacking, other]
  have listed : Operator.oneOf.isPresence = false := rfl
  simp [termsNode, put, listed]

end Selection

def presenceReport (localize : Localizer) (taxonomy : String) (f : Facet) (op : Operator) :
    Report where
  vocabulary := f.name
  kind := f.kind
  operator := op
  active := true
  display := localize f.vocabulary.title ++ if op = .missing then ":none" else ":any"
  node := ⟨op, presenceArgs (fieldPath taxonomy f.vocabulary) f.kind⟩

namespace Criterion
variable (c : Criterion)

theorem presenceReported {op : Operator} (presence : op.isPresence = true) (localize : Localizer)
    (taxonomy : String) : Report.ofCriterion localize taxonomy (c.setOperator op) =
      presenceReport localize taxonomy c.facet op := by
  have active : (c.setOperator op).isActive = true := setPresenceActive c presence
  have shown : (c.setOperator op).display localize =
      presenceText (localize c.facet.vocabulary.title) op := if_pos presence
  rw [Report.ofCriterion, active, shown, presenceNode c presence]
  rfl

/-- Only terms are written with another operator, and only if they are not complete. -/
theorem presenceWritten {c : Criterion} (presence : c.operator.isPresence = true)
    (taxonomy : String) (kept : c.kind = .terms →
      c.selection.names.length = c.facet.vocabulary.termNames.length) :
    (c.node taxonomy).operator = c.operator := by
  obtain ⟨⟨v, kind, classified⟩, op, selection⟩ := c
  cases selection with
  | terms names =>
    have all := Selection.completeIff.mpr (kept rfl)
    exact congrArg Query.operator (Selection.presenceKept presence _ all)
  | range low high => exact congrArg Query.operator (if_pos presence)
  | words text => rfl

theorem restoredPresence {f : Facet} {nodes : List Query} (terms : f.kind = .terms)
    (presence : (ofNodes f nodes).operator.isPresence = true) :
    (ofNodes f nodes).selection.names = f.vocabulary.termNames := by
  revert presence
  unfold ofNodes
  split
  · exact fun presence => Selection.restoredNames terms _ presence
  · intro presence
    have default : (fresh f).operator = .oneOf := congrArg Kind.defaultOperator terms
    rw [default] at presence
    cases presence

end Criterion

namespace Command
open CriteriaSet

/-- Values that take the place of the terms that a restored presence operator stands for. -/
def Overriding (f : Facet) (operator : Option String) (values : List String) : Prop :=
  f.kind = .terms ∧ operator = none ∧ values ≠ [] ∧ values.length ≠ f.vocabulary.termNames.length

section
variable {f : Facet} {nodes : List Query} {operator : Option String} {values : List String}
  {c : Criterion} (set : applied (.ofNodes f nodes) operator values = .ok c)
include set

theorem appliedFacet : c.facet = f :=
  (appliedKeeps set).1.trans (Criterion.ofNodesFacet f nodes)

variable (presence : c.operator.isPresence = true)
include presence

/-- A presence operator stands for every term, unless it came before the values. -/
theorem appliedNames (terms : f.kind = .terms) : c.selection.names =
    if operator = none ∧ values ≠ [] then values else f.vocabulary.termNames := by
  have termsToo : (Criterion.ofNodes f nodes).kind = .terms :=
    (congrArg Facet.kind (Criterion.ofNodesFacet f nodes)).trans terms
  have facet : c.facet = f := appliedFacet set
  obtain ⟨filled, given, rfl⟩ := appliedOk.mp set
  cases operator with
  | some name =>
    change filled.facet = f at facet
    change Operator.isPresence ⟨name⟩ = true at presence
    subst facet
    simpa [Criterion.setOperator, presence] using Selection.wholeNames terms
  | none =>
    rcases given with ⟨rfl, rfl⟩ | ⟨filled, e, entered, rfl⟩
    · simpa using Criterion.restoredPresence terms presence
    · rw [termsToo] at entered
      cases entered
      rw [if_pos ⟨rfl, filled⟩]
      exact Selection.enteredNames termsToo _ values

theorem overriddenNode (path : String) (overrides : Overriding f operator values) : c.node path =
    ⟨.oneOf, [.string (fieldPath path f.vocabulary), .list (values.map .string)]⟩ := by
  obtain ⟨terms, without, filled, other⟩ := overrides
  have facet : c.facet = f := appliedFacet set
  have names : c.selection.names = values := by
    rw [appliedNames set presence terms, if_pos ⟨without, filled⟩]
  have lacking : Selection.isComplete f.vocabulary values = false := by
    rw [← Bool.not_eq_true, Selection.completeIff]
    exact other
  rw [Criterion.termsWritten ((congrArg Facet.kind facet).trans terms), names, facet]
  exact Selection.presenceLost presence _ lacking

theorem presenceNodeIff (path : String) :
    (c.node path).operator = c.operator ↔ ¬ Overriding f operator values := by
  have facet : c.facet = f := appliedFacet set
  constructor
  · intro same overrides
    rw [overriddenNode set presence path overrides] at same
    rw [← same] at presence
    cases presence
  · intro kept
    refine Criterion.presenceWritten presence path fun terms => ?_
    have termsToo : f.kind = .terms := (congrArg Facet.kind facet).symm.trans terms
    rw [appliedNames set presence termsToo, facet]
    split
    · rename_i given
      exact not_not.mp fun other => kept ⟨termsToo, given.1, given.2, other⟩
    · rfl

end

section
variable {s : Settings} {t : Taxonomy} {name : String} {query operator taxonomy : Option String}
  {values : List String} {r : Report}

theorem presenceEdited {op : Operator} (presence : op.isPresence = true)
    (edited : edit s t name query (some op.name) values taxonomy = .ok r) :
    ∃ f, t.facet? name = some f ∧
      r = presenceReport s.localizer (pathPrefix s t taxonomy) f op := by
  obtain ⟨f, source, c, found, _, set, rfl⟩ := editOk.mp edited
  have facet : c.facet = f := appliedFacet set
  obtain ⟨filled, _, rfl⟩ := appliedOk.mp set
  refine ⟨f, found, ?_⟩
  rw [← facet]
  exact Criterion.presenceReported filled presence s.localizer _

theorem presenceShown (edited : edit s t name query operator values taxonomy = .ok r)
    (presence : r.operator.isPresence = true) :
    ∃ f, t.facet? name = some f ∧
      r.display = (s.localizer f.vocabulary.title ++
        if r.operator = .missing then ":none" else ":any") ∧
      (r.node.operator = r.operator ↔ ¬ Overriding f operator values) ∧
      (Overriding f operator values → r.node = ⟨.oneOf,
        [.string (fieldPath (pathPrefix s t taxonomy) f.vocabulary),
          .list (values.map .string)]⟩) := by
  obtain ⟨f, source, c, found, _, set, rfl⟩ := editOk.mp edited
  have shown : c.display s.localizer =
      presenceText (s.localizer c.facet.vocabulary.title) c.operator := if_pos presence
  rw [appliedFacet set] at shown
  exact ⟨f, found, shown, presenceNodeIff set presence _, overriddenNode set presence _⟩

end

theorem presenceErases (s : Settings) (t : Taxonomy) (name : String) (taxonomy : Option String)
    {op : Operator} (presence : op.isPresence = true) :
    (∀ query query' values values' r r',
      edit s t name query (some op.name) values taxonomy = .ok r →
      edit s t name query' (some op.name) values' taxonomy = .ok r' →
      r = r' ∧ ∃ f, t.facet? name = some f ∧
        r = presenceReport s.localizer (pathPrefix s t taxonomy) f op) ∧
    ∀ (localize : Localizer) (path : String) (c : Criterion),
      .ofCriterion localize path (c.setOperator op) = presenceReport localize path c.facet op := by
  refine ⟨fun query query' values values' r r' edited edited' => ?_,
    fun localize path c => Criterion.presenceReported c presence localize path⟩
  -- Both are the one report of the facet, which mentions neither query nor values.
  obtain ⟨f, found, rfl⟩ := presenceEdited presence edited
  obtain ⟨f', found', rfl⟩ := presenceEdited presence edited'
  cases Option.some.inj (found.symm.trans found')
  exact ⟨rfl, f, found, rfl⟩

/-- The report of any age at all. -/
def anyAge : Report :=
  ⟨"age", .numeric, .present, true, ":any", ⟨.present, [.string "Mica.age", .list []]⟩⟩

theorem presenceErasesAge :
    let query := some "and(in(Mica.sex,(male)),between(Mica.age,(3,7)))"
    ∃ r r', Operator.present.isPresence = true ∧
      edit .default sample "age" query (some "exists") ["1", "many"] none = .ok r ∧
      edit .default sample "age" none (some "exists") [] none = .ok r' ∧
      r = r' ∧ r.query = "exists(Mica.age,())" ∧ r.display = ":any" := by
  intro query
  have given : edit .default sample "age" query (some "exists") ["1", "many"] none =
      .ok anyAge := by
    decide +kernel
  have plain : edit .default sample "age" none (some "exists") [] none = .ok anyAge := by
    decide +kernel
  have presence : Operator.present.isPresence = true := rfl
  obtain ⟨two, _⟩ := presenceErases .default sample "age" none presence
  obtain ⟨same, _⟩ := two query none _ _ anyAge anyAge given plain
  exact ⟨anyAge, anyAge, presence, given, plain, same, by decide +kernel, rfl⟩

/-- Showing takes no values, so it never overrides. -/
theorem presenceReportsExactly (s : Settings) (t : Taxonomy) (name : String)
    (query operator : Option String) (values : List String) (taxonomy : Option String) :
    (∀ r, edit s t name query operator values taxonomy = .ok r → r.operator.isPresence = true →
      ∃ f, t.facet? name = some f ∧
        r.display = (s.localizer f.vocabulary.title ++
          if r.operator = .missing then ":none" else ":any") ∧
        (r.node.operator = r.operator ↔ ¬ Overriding f operator values) ∧
        (Overriding f operator values → r.node = ⟨.oneOf,
          [.string (fieldPath (pathPrefix s t taxonomy) f.vocabulary),
            .list (values.map .string)]⟩)) ∧
    ∀ r, inspect s t name query taxonomy = .ok r → r.operator.isPresence = true →
      ∃ f, t.facet? name = some f ∧
        r.display = (s.localizer f.vocabulary.title ++
          if r.operator = .missing then ":none" else ":any") ∧
        r.node.operator = r.operator := by
  refine ⟨fun r edited presence => presenceShown edited presence, fun r inspected presence => ?_⟩
  obtain ⟨f, found, shown, same, _⟩ := presenceShown inspected presence
  exact ⟨f, found, shown, same.mpr fun overrides => overrides.2.2.1 rfl⟩

/-- The report of a term that was entered after a restored presence operator. -/
def missingSex : Report :=
  ⟨"sex", .terms, .missing, true, ":none",
    ⟨.oneOf, [.string "Mica.sex", .list [.string "male"]]⟩⟩

/-- The report of a bound that was. -/
def missingAge : Report :=
  ⟨"age", .numeric, .missing, true, ":none", ⟨.missing, [.string "Mica.age", .list []]⟩⟩

/-- Terms that were entered after a restored presence operator, and bounds that were. -/
theorem presenceContradicted :
    (∃ r, edit .default sample "sex" (some "missing(Mica.sex)") none ["male"] none = .ok r ∧
      r.operator = .missing ∧ r.display = ":none" ∧ r.query = "in(Mica.sex,(male))" ∧
      r.node.operator ≠ r.operator) ∧
    ∃ r, edit .default sample "age" (some "missing(Mica.age)") none ["3"] none = .ok r ∧
      r.operator = .missing ∧ r.display = ":none" ∧ r.query = "missing(Mica.age,())" := by
  refine ⟨⟨missingSex, ?_, rfl, rfl, ?_, ?_⟩, missingAge, ?_, rfl, rfl, ?_⟩ <;> decide +kernel

end Command
end FacetSearch
