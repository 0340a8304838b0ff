import FacetSearch.Proofs.Command.Editing
import FacetSearch.Proofs.Criteria.Unedited

/-! One criterion against all. Showing the criterion of a vocabulary looks up one facet and restores
it, building restores those of all facets. Main statement: both fail alike, and what is shown is the
first entry of that name in what is built, restored from the leaf that is kept for it. -/
namespace FacetSearch

namespace CriteriaSet

theorem restoredLeaf (leaves : List Query) (f : Facet) :
    (restored leaves f).leaf.bind (leaves[·]?) = f.find? leaves := by
  rw [restoredEq]
  cases place : leaves.findIdx? f.accepts with
  | none =>
    have absent : leaves.find? f.accepts = none := by
      rw [List.find?_eq_none]
      simpa using List.findIdx?_eq_none_iff.mp place
    simp [Facet.find?, absent]
  | some i =>
    obtain ⟨bound, _⟩ := List.findIdx?_eq_some_iff_getElem.mp place
    have leaf : leaves[i]? = some leaves[i] := List.getElem?_eq_getElem bound
    simp [Facet.find?, leaf, findAtIndex place leaf]

theorem entryBuilt (t : Taxonomy) (source : Option Query) (name : String) :
    (ofTaxonomy t source).entries.find? (·.criterion.name = name) =
      (t.facet? name).map (restored (sourceLeaves source)) := by
  have names (f : Facet) : (restored (sourceLeaves source) f).criterion.name = f.name :=
    congrArg Facet.name (restoredFacet (sourceLeaves source) f)
  simp only [ofTaxonomy, List.find?_map, Function.comp_def, names, Taxonomy.facet?]

end CriteriaSet

namespace Command
open CriteriaSet

theorem reportBuilt (localize : Localizer) (path : String) (t : Taxonomy) (source : Option Query)
    (name : String) :
    ((ofTaxonomy t source).criteria.map (Report.ofCriterion localize path)).find?
        (·.vocabulary = name) =
      (t.facet? name).map fun f =>
        .ofCriterion localize path (.ofNodes f (sourceLeaves source)) := by
  have entry := congrArg (Option.map fun e => Report.ofCriterion localize path e.criterion)
    (entryBuilt t source name)
  rw [Option.map_map, funext (restoredEq _)] at entry
  rw [criteria, List.map_map, List.find?_map]
  exact entry

section
variable {t : Taxonomy} {name : String} {f : Facet} (found : t.facet? name = some f) {s : Settings}
  {query taxonomy : Option String}
include found

theorem inspectFound : inspect s t name query taxonomy = (readSource query).map fun source =>
    .ofCriterion s.localizer (pathPrefix s t taxonomy) (.ofNodes f (sourceLeaves source)) := by
  unfold inspect edit findFacet
  rw [found]
  cases readSource query <;> rfl

theorem inspectOk {r : Report} :
    inspect s t name query taxonomy = .ok r ↔
      ∃ source, readSource query = .ok source ∧ r =
        .ofCriterion s.localizer (pathPrefix s t taxonomy) (.ofNodes f (sourceLeaves source)) := by
  rw [inspectFound found]
  cases readSource query <;> simp [Except.map, eq_comm]

theorem inspectError {e : CommandError} :
    inspect s t name query taxonomy = .error e ↔ readSource query = .error e := by
  rw [inspectFound found]
  cases readSource query <;> simp [Except.map]

end

/-- Only the query can be at fault, and the first entry of the name comes from the leaf that the set
keeps for it. -/
theorem inspectsBuilt {t : Taxonomy} {name : String} {f : Facet} (found : t.facet? name = some f)
    (s : Settings) (query taxonomy : Option String) :
    let shown := inspect s t name query taxonomy
    let built := build s t query taxonomy
    (∀ e, shown = .error e ↔ built = .error e) ∧
    (∀ e, built = .error e → ∃ text cause,
      query = some text ∧ Query.parse text = .error cause ∧ e = .query cause) ∧
    (∀ r, shown = .ok r ↔
      ∃ b, built = .ok b ∧ b.criteria.find? (·.vocabulary = name) = some r) ∧
    ∀ source, readSource query = .ok source →
      ∃ e, (ofTaxonomy t source).entries.find? (·.criterion.name = name) = some e ∧
        e.leaf.bind ((sourceLeaves source)[·]?) = f.find? (sourceLeaves source) := by
  intro shown built
  have first := fun source => reportBuilt s.localizer (pathPrefix s t taxonomy) t source name
  have entry := fun source => entryBuilt t source name
  simp only [found, Option.map_some] at first entry
  refine ⟨fun e => (inspectError found).trans builtError.symm,
    fun e fails => readSourceError.mp (builtError.mp fails), fun r => ⟨fun shows => ?_, ?_⟩,
    fun source _ => ⟨_, entry source, restoredLeaf _ f⟩⟩
  · obtain ⟨source, read, rfl⟩ := (inspectOk found).mp shows
    exact ⟨_, builtOk.mpr ⟨source, read, rfl⟩, first source⟩
  · rintro ⟨b, builds, listed⟩
    obtain ⟨source, read, rfl⟩ := builtOk.mp builds
    exact (inspectOk found).mpr ⟨source, read, Option.some.inj (listed.symm.trans (first source))⟩

/-- Three vocabularies of one name, the first of which supports no criterion. -/
def repeated : Taxonomy :=
  .ofVocabularies "Mica" .empty [
    ⟨"age", .empty, some [], []⟩,
    ⟨"sex", .empty, some [⟨"male", .empty⟩, ⟨"female", .empty⟩], []⟩,
    ⟨"age", .empty, none, [⟨"type", "integer"⟩]⟩,
    ⟨"age", .empty, none, [⟨"type", "string"⟩]⟩]

def repeatedReport : Report :=
  ⟨"age", .numeric, .atMost, true, ":<9", ⟨.atMost, [.string "Mica.age", .integer 9]⟩⟩

theorem inspectsBuiltRepeated :
    let query := some "and(match(ten,Mica.age),or(le(x.age,9),ge(x.age,5)))"
    (build .default repeated query none).map (·.criteria.map Report.query) =
      .ok ["in(Mica.sex,())", "le(Mica.age,9)", "match(ten,Mica.age)"] ∧
    ∃ f b r, repeated.facet? "age" = some f ∧ f.kind = .numeric ∧
      inspect .default repeated "age" query none = .ok r ∧ r.query = "le(Mica.age,9)" ∧
      build .default repeated query none = .ok b ∧
      b.criteria.find? (·.vocabulary = "age") = some r := by
  intro query
  have found : repeated.facet? "age" = some Criterion.ageFacet := by decide
  have shows : inspect .default repeated "age" query none = .ok repeatedReport := by
    decide +kernel
  obtain ⟨_, _, agree, _⟩ := inspectsBuilt found .default query none
  obtain ⟨b, builds, listed⟩ := (agree repeatedReport).mp shows
  exact ⟨by decide +kernel, Criterion.ageFacet, b, repeatedReport, found, rfl, shows,
    by decide +kernel, builds, listed⟩

end Command
end FacetSearch
