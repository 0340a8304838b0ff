import FacetSearch.Proofs.Criteria.InPlace
import FacetSearch.Proofs.Criterion.Activity

/-! Criteria as they are built from a query, before any edit. A facet that accepts no leaf has a
fresh criterion, which adds nothing; every other one is restored from the first leaf it accepts, and
is active exactly when that leaf restricts the field. -/
namespace FacetSearch

theorem findAtIndex {α : Type} {p : α → Bool} {xs : List α} {i : Nat} {x : α}
    (first : xs.findIdx? p = some i) (place : xs[i]? = some x) : xs.find? p = some x := by
  obtain ⟨bound, found, before⟩ := List.findIdx?_eq_some_iff_getElem.mp first
  obtain ⟨_, rfl⟩ := List.getElem?_eq_some_iff.mp place
  exact List.find?_eq_some_iff_getElem.mpr ⟨found, i, bound, rfl, fun j less => by
    simpa using before j less⟩

theorem Criterion.ofNodesFound {f : Facet} {nodes : List Query} {i : Nat} {l : Query}
    (first : nodes.findIdx? f.accepts = some i) (place : nodes[i]? = some l) :
    ofNodes f nodes = (fresh f).restore l := by
  rw [ofNodes, Facet.find?, findAtIndex first place]

namespace CriteriaSet

theorem builtEntry {t : Taxonomy} {source : Option Query} {e : Restored}
    (member : e ∈ (ofTaxonomy t source).entries) :
    ∃ f ∈ t.facets, e = restored (sourceLeaves source) f := by
  obtain ⟨f, facet, rfl⟩ := List.mem_map.mp member
  exact ⟨f, facet, rfl⟩

theorem builtInactive {t : Taxonomy} {source : Option Query} {e : Restored}
    (member : e ∈ (ofTaxonomy t source).entries) (free : e.leaf = none) :
    e.criterion.isActive = false := by
  obtain ⟨f, _, rfl⟩ := builtEntry member
  rw [restoredFree free]
  exact Criterion.freshInactive f

theorem builtKept (t : Taxonomy) (source : Option Query) (path : String) :
    (ofTaxonomy t source).toQuery? path = (ofTaxonomy t source).kept? path :=
  toQueryKept (addedNone path fun _ member => builtInactive member)

theorem builtRestored {t : Taxonomy} {q l : Query} {e : Restored} {i : Nat}
    (member : e ∈ (ofTaxonomy t (some q)).entries) (place : e.leaf = some i)
    (leaf : (l, i) ∈ q.leaves.zipIdx) :
    e.criterion = (Criterion.fresh e.criterion.facet).restore l := by
  obtain ⟨f, _, rfl⟩ := builtEntry member
  rw [restoredFacet]
  rw [restoredEq] at place ⊢
  exact Criterion.ofNodesFound place (List.mem_zipIdx_iff_getElem?.mp leaf)

theorem imageKept {s : CriteriaSet} {path : String} {q r : Query} (source : s.source = some q)
    (image : r ∈ images (s.writing path) q.leaves.zipIdx) :
    ∃ root, s.kept? path = some root ∧ r ∈ root.toValue.nested := by
  rw [← imagesOfSource source] at image
  have inside := imageNested q.toValue 0 image
  rw [rewrittenQuery] at inside
  cases kept : q.rewriteLeaves (replacement s.owners path) with
  | none =>
    rw [kept] at inside
    cases inside
  | some root =>
    refine ⟨root, ?_, ?_⟩
    · rw [kept?, source]
      exact kept
    · simpa [kept, nestedOfArgs] using inside

/-- Terms and words are active whenever their leaf restricts them in its place for values; ranges
only by the bounds that are read. The last criterion of a leaf that is active keeps its leaf. -/
theorem restrictionKept (t : Taxonomy) (q : Query) (path : String) {e : Restored} {l : Query}
    {i : Nat} (member : e ∈ (ofTaxonomy t (some q)).entries) (place : e.leaf = some i)
    (leaf : (l, i) ∈ q.leaves.zipIdx) :
    let s := ofTaxonomy t (some q)
    let kind := e.criterion.kind
    e.criterion.isActive = (l.operator.isPresence || l.restricts kind) ∧
    (kind ≠ .numeric → (l.place kind).any Value.restricts = true → e.criterion.isActive = true) ∧
    (e.criterion.isActive = true → s.owner? i = some e.criterion →
      ∃ r, s.toQuery? path = some r ∧ e.criterion.node path ∈ r.toValue.nested) := by
  intro s kind
  have activity : e.criterion.isActive = (l.operator.isPresence || l.restricts kind) := by
    rw [builtRestored member place leaf]
    exact Criterion.restoredActive e.criterion.facet l
  refine ⟨activity, fun other value => ?_, fun active owner => ?_⟩
  · rw [activity, Query.placeRestricts other value, Bool.or_true]
  · have image : s.writing path i l = some (e.criterion.node path) := by
      rw [writing, owner]
      exact writtenSome.mpr ⟨active, rfl⟩
    obtain ⟨r, kept, found⟩ :=
      imageKept rfl (List.mem_filterMap.mpr ⟨(l, i), leaf, image⟩)
    exact ⟨r, (builtKept t (some q) path).trans kept, found⟩

/-- A range with one bound that is blank, beside other kinds of comparison. -/
def halfOpenSource : Query :=
  let sex := ⟨.present, [.string "Mica.sex"]⟩
  let age := ⟨.between, [.string "Mica.age", .list [.string " ", .integer 10]]⟩
  let name := ⟨.matching, [.integer 42, .string "Mica.name"]⟩
  ⟨.disjunction, [.node .negation [Query.toValue sex], Query.toValue age, Query.toValue name]⟩

def halfOpenLeaf : Query :=
  ⟨.between, [.string "Mica.age", .list [.string " ", .integer 10]]⟩

def halfOpenAge : Restored :=
  ⟨⟨Criterion.ageFacet, .between, .range " " "10"⟩, some 1⟩

theorem restrictionKeptHalfOpen :
    ∃ e ∈ (ofTaxonomy sample (some halfOpenSource)).entries, ∃ l : Query,
      e.leaf = some 1 ∧ (l, 1) ∈ halfOpenSource.leaves.zipIdx ∧
      l.restricts e.criterion.kind = true ∧ e.criterion.isActive = true ∧
      ∃ r, (ofTaxonomy sample (some halfOpenSource)).toQuery? "Mica" = some r ∧
        e.criterion.node "Mica" ∈ r.toValue.nested := by
  have member : halfOpenAge ∈ (ofTaxonomy sample (some halfOpenSource)).entries := by decide
  have leaf : (halfOpenLeaf, 1) ∈ halfOpenSource.leaves.zipIdx := by decide
  have restricts : halfOpenLeaf.restricts .numeric = true := by decide
  obtain ⟨activity, _, kept⟩ := restrictionKept sample halfOpenSource "Mica" member rfl leaf
  have active : halfOpenAge.criterion.isActive = true :=
    activity.trans (Bool.or_eq_true_iff.mpr (.inr restricts))
  exact ⟨halfOpenAge, member, halfOpenLeaf, rfl, leaf, restricts, active, kept active (by decide)⟩

/-- A comparison with an operator that no range is read from. -/
def unreadSource : Query :=
  ⟨⟨"eq"⟩, [.string "Mica.age", .integer 5]⟩

/-- The facet is restored from the leaf, but not the value in it, and so the leaf is dropped. -/
theorem restrictionLost :
    (sample.vocabularies.map Vocabulary.name).Nodup ∧
    (∃ e ∈ (ofTaxonomy sample (some unreadSource)).entries,
      e.leaf = some 0 ∧ (unreadSource, 0) ∈ unreadSource.leaves.zipIdx ∧
      (unreadSource.place e.criterion.kind).any Value.restricts = true ∧
      e.criterion.isActive = false) ∧
    (ofTaxonomy sample (some unreadSource)).toQuery? "Mica" = none := by
  decide

end CriteriaSet
end FacetSearch
