import FacetSearch.Criteria.Basic
import Mathlib.Data.List.Nodup

/-! Runs of edits on the criteria of a taxonomy. An edit changes operator and selection of one
criterion, the first of its name, so the source query, the facets and the leaves they were restored
from stay as they were built. -/
namespace FacetSearch.CriteriaSet

theorem editFirstFinds {name : String} {e : Edit} {entries next : List Restored}
    (edited : editFirst name e entries = some next) (other : String) :
    next.find? (·.criterion.name = other) =
      (entries.find? (·.criterion.name = other)).map fun r =>
        if other = name then { r with criterion := r.criterion.edit e } else r := by
  induction entries generalizing next with
  | nil => cases edited
  | cons r rest ih =>
    unfold editFirst at edited
    split at edited
    · rename_i named
      cases edited
      have kept : (r.criterion.edit e).name = name :=
        (congrArg Facet.name (r.criterion.editFacet e)).trans named
      by_cases same : name = other
      · simp [kept, named, same]
      · simp [kept, named, same, Ne.symm same]
    · rename_i unnamed
      obtain ⟨later, deeper, rfl⟩ := Option.map_eq_some_iff.mp edited
      by_cases same : r.criterion.name = other
      · simp [same, same ▸ unnamed]
      · simp [same, ih deeper]

theorem editFirstNone {name : String} {e : Edit} {entries : List Restored} :
    editFirst name e entries = none ↔ entries.find? (·.criterion.name = name) = none := by
  induction entries with
  | nil => simp [editFirst]
  | cons r rest ih => by_cases named : r.criterion.name = name <;> simp [editFirst, named, ih]

/-- An edit is one of the first criterion of the name, and fails only where there is none. -/
theorem editFinds (s : CriteriaSet) (name : String) (e : Edit) :
    (s.edit? name e = none ↔ s.criterion? name = none) ∧
    ∀ next, s.edit? name e = some next → ∀ other, next.criterion? other =
      (s.criterion? other).map fun c => if other = name then c.edit e else c := by
  have found (u : CriteriaSet) (other : String) : u.criterion? other =
      (u.entries.find? (·.criterion.name = other)).map Restored.criterion :=
    List.find?_map
  refine ⟨?_, fun next edited other => ?_⟩
  · rw [edit?, found, Option.map_eq_none_iff, Option.map_eq_none_iff, editFirstNone]
  · obtain ⟨entries, first, rfl⟩ := Option.map_eq_some_iff.mp edited
    rw [found, found, editFirstFinds first, Option.map_map, Option.map_map]
    congr 1
    funext r
    simp only [Function.comp_apply]
    split <;> rfl

/-- An edit of a name that no criterion has is no edit. -/
def run (s : CriteriaSet) : List (String × Edit) → CriteriaSet
  | [] => s
  | (name, e) :: rest => ((s.edit? name e).getD s).run rest

def origin (r : Restored) : Facet × Option Nat :=
  (r.criterion.facet, r.leaf)

theorem editFirstKeeps {name : String} {e : Edit} {entries next : List Restored}
    (h : editFirst name e entries = some next) : next.map origin = entries.map origin := by
  induction entries generalizing next with
  | nil => cases h
  | cons r rest ih =>
    unfold editFirst at h
    split at h
    · cases h
      simp [origin, Criterion.editFacet]
    · obtain ⟨later, edited, rfl⟩ := Option.map_eq_some_iff.mp h
      rw [List.map_cons, ih edited, List.map_cons]

theorem editKeeps (s : CriteriaSet) (name : String) (e : Edit) :
    ((s.edit? name e).getD s).source = s.source ∧
    ((s.edit? name e).getD s).entries.map origin = s.entries.map origin := by
  unfold edit?
  cases edited : editFirst name e s.entries with
  | none => exact ⟨rfl, rfl⟩
  | some next => exact ⟨rfl, editFirstKeeps edited⟩

theorem runKeeps (s : CriteriaSet) (edits : List (String × Edit)) :
    (s.run edits).source = s.source ∧ (s.run edits).entries.map origin = s.entries.map origin := by
  induction edits generalizing s with
  | nil => exact ⟨rfl, rfl⟩
  | cons first rest ih =>
    obtain ⟨source, entries⟩ := ih ((s.edit? first.1 first.2).getD s)
    obtain ⟨source', entries'⟩ := editKeeps s first.1 first.2
    exact ⟨source.trans source', entries.trans entries'⟩

/-- After any edits an entry has the leaf that its facet was restored from. -/
theorem runLeaf {t : Taxonomy} {source : Option Query} {edits : List (String × Edit)} {e : Restored}
    (member : e ∈ ((ofTaxonomy t source).run edits).entries) :
    e.criterion.facet ∈ t.facets ∧
    e.leaf = (sourceLeaves source).findIdx? e.criterion.facet.accepts := by
  have kept : origin e ∈ (ofTaxonomy t source).entries.map origin :=
    (runKeeps (ofTaxonomy t source) edits).2 ▸ List.mem_map_of_mem member
  obtain ⟨built, among, same⟩ := List.mem_map.mp kept
  obtain ⟨f, facet, rfl⟩ := List.mem_map.mp among
  rw [restoredEq] at same
  obtain ⟨facets, leaves⟩ := Prod.mk.inj same
  have own : f = e.criterion.facet := (Criterion.ofNodesFacet f _).symm.trans facets
  exact ⟨own ▸ facet, own ▸ leaves.symm⟩

theorem facetNames (vs : List Vocabulary) :
    ((vs.filterMap Facet.ofVocabulary?).map Facet.name).Sublist (vs.map Vocabulary.name) := by
  induction vs with
  | nil => exact .slnil
  | cons v vs ih =>
    cases found : Facet.ofVocabulary? v with
    | none =>
      rw [List.filterMap_cons_none found, List.map_cons]
      exact ih.cons v.name
    | some f =>
      have same : f.name = v.name := congrArg Vocabulary.name (Facet.ofVocabularyEqSome.mp found)
      rw [List.filterMap_cons_some found, List.map_cons, List.map_cons, same]
      exact ih.cons_cons v.name

theorem runNames (t : Taxonomy) (source : Option Query) (edits : List (String × Edit)) :
    ((ofTaxonomy t source).run edits).entries.map (fun r => r.criterion.name) =
      t.facets.map Facet.name := by
  have kept := congrArg (List.map fun o => o.1.name) (runKeeps (ofTaxonomy t source) edits).2
  have built := congrArg (List.map Facet.name) (facetsOfTaxonomy t source)
  simp only [List.map_map] at kept
  simp only [criteria, List.map_map] at built
  exact kept.trans built

theorem namesDistinct {t : Taxonomy} (distinct : (t.vocabularies.map Vocabulary.name).Nodup)
    (source : Option Query) (edits : List (String × Edit)) :
    (((ofTaxonomy t source).run edits).entries.map fun r => r.criterion.name).Nodup := by
  rw [runNames, Taxonomy.facetsOfVocabularies]
  exact distinct.sublist (facetNames t.vocabularies)

theorem entryOfName {entries : List Restored}
    (distinct : (entries.map fun r => r.criterion.name).Nodup) {r r' : Restored}
    (left : r ∈ entries) (right : r' ∈ entries) (same : r.criterion.name = r'.criterion.name) :
    r = r' :=
  List.inj_on_of_nodup_map distinct left right same

end FacetSearch.CriteriaSet
