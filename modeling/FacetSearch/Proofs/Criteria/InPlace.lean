import FacetSearch.Proofs.Criteria.WriteBack
import FacetSearch.Proofs.Query.Replacing

/-! Writing criteria back where no leaf vanishes and none is added. The result is the source query
with each owned leaf replaced in its place; everything around the leaves is as it was. -/
namespace FacetSearch.CriteriaSet

def ownerNode? (s : CriteriaSet) (path : String) (leaf : Nat) : Option Query :=
  (s.owner? leaf).map (·.node path)

theorem addedNone {s : CriteriaSet} (path : String)
    (inactive : ∀ e ∈ s.entries, e.leaf = none → e.criterion.isActive = false) :
    s.added path = [] := by
  refine List.filterMap_eq_nil_iff.mpr fun e free => ?_
  obtain ⟨member, none⟩ := List.mem_filter.mp free
  rw [written?, inactive e member (Option.isNone_iff_eq_none.mp none)]
  rfl

theorem toQueryKept {s : CriteriaSet} {path : String} (none : s.added path = []) :
    s.toQuery? path = s.kept? path := by
  rw [toQuery?, none]
  cases s.kept? path with
  | none => rfl
  | some root => exact attachNone root

theorem followsOwners {s : CriteriaSet} (path : String)
    (active : ∀ i c, s.owner? i = some c → c.isActive = true) :
    Follows (replacement s.owners path) (s.ownerNode? path) (sourceLeaves s.source).zipIdx := by
  intro p member
  rw [replacementAt s path p.1 (leafBound member), writing, ownerNode?]
  cases owner : s.owner? p.2 with
  | none => rfl
  | some c => exact writtenSome.mpr ⟨active _ c owner, rfl⟩

/-- With every owner active and nothing to add, the owners' nodes stand in the places of their
leaves, and the query stays as it is where they are the leaves themselves. -/
theorem ownersInPlace (t : Taxonomy) (q : Query) (edits : List (String × Edit)) (path : String)
    (active : ∀ e ∈ ((ofTaxonomy t (some q)).run edits).entries, e.leaf ≠ none →
      e.criterion.isActive = true)
    (inactive : ∀ e ∈ ((ofTaxonomy t (some q)).run edits).entries, e.leaf = none →
      e.criterion.isActive = false) :
    let s := (ofTaxonomy t (some q)).run edits
    (∃ r, s.toQuery? path = some r ∧ Replaced (s.ownerNode? path) 0 q.toValue r.toValue) ∧
    ((∀ p ∈ q.leaves.zipIdx, ∀ c, s.owner? p.2 = some c → c.node path = p.1) →
      s.toQuery? path = some q) ∧
    ((∀ f ∈ t.facets, ∀ l ∈ q.leaves, f.accepts l = false) → s.toQuery? path = some q) := by
  intro s
  have source : s.source = some q := (runKeeps (ofTaxonomy t (some q)) edits).1
  have leaves : sourceLeaves s.source = q.leaves := by rw [source]; rfl
  have owners : ∀ i c, s.owner? i = some c → c.isActive = true := by
    intro i c owner
    obtain ⟨e, member, place, rfl⟩ := ownerEntry owner
    exact active e member (by simp [place])
  have follows := followsOwners path owners
  rw [leaves] at follows
  obtain ⟨r, kept, replaced⟩ := Query.rewriteReplaces (replacementComparing s path) follows
  have written : s.toQuery? path = some r := by
    rw [toQueryKept (addedNone path inactive), kept?, source]
    exact kept
  have same (stays : ∀ p ∈ q.leaves.zipIdx, (s.ownerNode? path p.2).getD p.1 = p.1) :
      s.toQuery? path = some q := by
    rw [written, Query.valueInjective (replacedSame replaced stays)]
  refine ⟨⟨r, written, replaced⟩, fun nodes => same fun p member => ?_, fun foreign => same ?_⟩
  · rw [ownerNode?]
    cases owner : s.owner? p.2 with
    | none => rfl
    | some c => exact nodes p member c owner
  · intro p _
    have unowned : s.owner? p.2 = none := by
      refine Option.eq_none_iff_forall_ne_some.mpr fun c owner => ?_
      obtain ⟨e, member, place, _⟩ := ownerEntry owner
      obtain ⟨facet, leaf⟩ := runLeaf member
      have nowhere := List.findIdx?_eq_none_iff.mpr (foreign _ facet)
      exact absurd (place.symm.trans (leaf.trans nowhere)) (by simp)
    rw [ownerNode?, unowned]
    rfl

/-- Connectives with other arguments before, between and after their nested queries. -/
def mixedSource : Query :=
  let sex := ⟨.oneOf, [.string "Mica.sex", .list [.string "male"]]⟩
  let other := ⟨⟨"eq"⟩, [.string "Mica.other", .integer 1]⟩
  let age := ⟨.atLeast, [.string "Mica.age", .integer 18]⟩
  let narrow := ⟨⟨"near"⟩, [Query.toValue other, .string "x", Query.toValue age, .list []]⟩
  ⟨.disjunction, [Query.toValue narrow, .integer 7, Query.toValue sex, .notANumber]⟩

theorem ownersInPlaceMixed :
    let s := (ofTaxonomy sample (some mixedSource)).run
      [("age", .operator .missing), ("sex", .enter (.terms ["female"]))]
    (∀ e ∈ s.entries, e.leaf ≠ none → e.criterion.isActive = true) ∧
    (∀ e ∈ s.entries, e.leaf = none → e.criterion.isActive = false) ∧
    s.toQuery? "Mica" = some ⟨.disjunction, [
      .node ⟨"near"⟩ [.node ⟨"eq"⟩ [.string "Mica.other", .integer 1], .string "x",
        .node .missing [.string "Mica.age", .list []], .list []],
      .integer 7, .node .oneOf [.string "Mica.sex", .list [.string "female"]], .notANumber]⟩ ∧
    ∃ r, s.toQuery? "Mica" = some r ∧
      Replaced (s.ownerNode? "Mica") 0 mixedSource.toValue r.toValue := by
  intro s
  have active : ∀ e ∈ s.entries, e.leaf ≠ none → e.criterion.isActive = true := by decide
  have inactive : ∀ e ∈ s.entries, e.leaf = none → e.criterion.isActive = false := by decide
  exact ⟨active, inactive, by decide, (ownersInPlace sample mixedSource _ "Mica" active inactive).1⟩

end FacetSearch.CriteriaSet
