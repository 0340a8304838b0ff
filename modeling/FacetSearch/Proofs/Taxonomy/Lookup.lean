import FacetSearch.Taxonomy.Basic

/-! Look-ups by name where names repeat. A name stands for the first vocabulary of that name, but
its facet comes from the first one that supports a criterion; without such a vocabulary there is
none, even if the name is taken. -/
namespace FacetSearch

namespace Facet

theorem supported {v : Vocabulary} : (∃ f, ofVocabulary? v = some f) ↔ v.kind? ≠ none := by
  constructor
  · rintro ⟨f, found⟩ none
    rw [← ofVocabularyEqSome.mp found, f.classified] at none
    cases none
  · intro classified
    obtain ⟨kind, same⟩ := Option.ne_none_iff_exists'.mp classified
    exact ⟨⟨v, kind, same⟩, ofVocabularyEqSome.mpr rfl⟩

theorem supportedAs {v : Vocabulary} {name : String} :
    (ofVocabulary? v).any (·.name = name) = true ↔ v.name = name ∧ v.kind? ≠ none := by
  rw [← supported, Option.any_eq_true]
  constructor
  · rintro ⟨f, found, same⟩
    rw [← ofVocabularyEqSome.mp found]
    exact ⟨of_decide_eq_true same, f, ofVocabularyEqSome.mpr rfl⟩
  · rintro ⟨rfl, f, found⟩
    exact ⟨f, found, decide_eq_true (congrArg Vocabulary.name (ofVocabularyEqSome.mp found))⟩

theorem unsupportedAs {v : Vocabulary} {name : String} :
    ¬ (ofVocabulary? v).any (·.name = name) = true ↔ (v.name = name → v.kind? = none) := by
  rw [supportedAs, not_and, Decidable.not_not]

end Facet

namespace Taxonomy

/-- The facet's vocabulary is the first one of the name that supports a criterion. -/
def Offers (t : Taxonomy) (name : String) (f : Facet) : Prop :=
  ∃ before after, t.vocabularies = before ++ f.vocabulary :: after ∧ f.name = name ∧
    ∀ v ∈ before, v.name = name → v.kind? = none

theorem facetFirst (t : Taxonomy) (name : String) : t.facet? name =
    (t.vocabularies.find? fun v => (Facet.ofVocabulary? v).any (·.name = name)).bind
      Facet.ofVocabulary? := by
  rw [facet?, facetsOfVocabularies]
  exact List.find?_filterMap

theorem facetOffered {t : Taxonomy} {name : String} {f : Facet} :
    t.facet? name = some f ↔ t.Offers name f := by
  have first : t.facet? name = some f ↔
      t.vocabularies.find? (fun v => (Facet.ofVocabulary? v).any (·.name = name)) =
        some f.vocabulary := by
    simp [facetFirst, Option.bind_eq_some_iff, Facet.ofVocabularyEqSome]
  rw [first, List.find?_eq_some_iff_append, Facet.supportedAs]
  simp only [Bool.not_eq_true', ← Bool.not_eq_true, Facet.unsupportedAs]
  constructor
  · rintro ⟨⟨named, _⟩, before, after, split, earlier⟩
    exact ⟨before, after, split, named, earlier⟩
  · rintro ⟨before, after, split, named, earlier⟩
    exact ⟨⟨named, by simp [f.classified]⟩, before, after, split, earlier⟩

theorem facetNone {t : Taxonomy} {name : String} :
    t.facet? name = none ↔ ∀ v ∈ t.vocabularies, v.name = name → v.kind? = none := by
  simp only [← Facet.unsupportedAs, ← List.find?_eq_none]
  rw [facetFirst]
  constructor
  · intro none
    cases found : t.vocabularies.find? fun v => (Facet.ofVocabulary? v).any (·.name = name) with
    | none => rfl
    | some v =>
      -- the search stops at supported vocabularies only
      have stops := List.find?_some found
      obtain ⟨f, supported⟩ := Facet.supported.mpr (Facet.supportedAs.mp stops).2
      rw [found, Option.bind_some, supported] at none
      cases none
  · intro none
    rw [none]
    rfl

theorem vocabularyNone {t : Taxonomy} {name : String} :
    t.vocabulary? name = none ↔ ∀ v ∈ t.vocabularies, v.name ≠ name := by
  simp [vocabulary?, List.find?_eq_none]

def Leads (t : Taxonomy) (name : String) (v : Vocabulary) : Prop :=
  ∃ before after, t.vocabularies = before ++ v :: after ∧ v.name = name ∧
    ∀ w ∈ before, w.name ≠ name

theorem vocabularyLeads {t : Taxonomy} {name : String} {v : Vocabulary} :
    t.vocabulary? name = some v ↔ t.Leads name v := by
  unfold vocabulary? Leads
  rw [List.find?_eq_some_iff_append]
  constructor
  · rintro ⟨named, before, after, split, earlier⟩
    exact ⟨before, after, split, of_decide_eq_true named, by simpa using earlier⟩
  · rintro ⟨before, after, split, named, earlier⟩
    exact ⟨decide_eq_true named, before, after, split, by simpa using earlier⟩

theorem leaderAmong {t : Taxonomy} {name : String} {first : Vocabulary}
    (leads : t.Leads name first) : first ∈ t.vocabularies ∧ first.name = name :=
  vocabularyName (vocabularyLeads.mpr leads)

theorem leaderUnique {t : Taxonomy} {name : String} {first other : Vocabulary}
    (leads : t.Leads name first) (leads' : t.Leads name other) : first = other :=
  Option.some.inj ((vocabularyLeads.mpr leads).symm.trans (vocabularyLeads.mpr leads'))

theorem leaderExists {t : Taxonomy} {name : String}
    (named : ∃ v ∈ t.vocabularies, v.name = name) : ∃ first, t.Leads name first := by
  cases found : t.vocabulary? name with
  | none =>
    obtain ⟨v, member, same⟩ := named
    exact absurd same (vocabularyNone.mp found v member)
  | some first => exact ⟨first, vocabularyLeads.mp found⟩

theorem kindOfLeader {t : Taxonomy} {name : String} {first : Vocabulary}
    (leads : t.Leads name first) : t.kindOf? name = first.kind? := by
  rw [kindOfFirst, vocabularyLeads.mpr leads, Option.bind_some]

end Taxonomy
end FacetSearch
