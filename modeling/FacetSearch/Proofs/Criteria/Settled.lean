import FacetSearch.Proofs.Criteria.Unedited
import FacetSearch.Proofs.Criterion.Matching

/-! Queries that writing back leaves as they are: each leaf with an owner is what its owner is
written as. A query that was itself written back has new leaves and may have lost some, so that
facets are found elsewhere in it. Main statement: a facet is settled there as long as what its own
leaf is written as still filters on it. -/
namespace FacetSearch

theorem firstIff {α : Type} {p : α → Bool} {before after : List α} {x : α} :
    (before ++ x :: after).findIdx? p = some before.length ↔
      p x = true ∧ ∀ y ∈ before, p y = false := by
  rw [List.findIdx?_append, ← List.findIdx?_eq_none_iff]
  cases early : before.findIdx? p with
  | none => simp [List.findIdx?_cons]
  | some i =>
    obtain ⟨bound, _⟩ := List.findIdx?_eq_some_iff_getElem.mp early
    simp [Nat.ne_of_lt bound]

theorem findBoth {α : Type} {p q : α → Bool} {xs : List α} {a b : α} (left : xs.find? p = some a)
    (right : xs.find? q = some b) (cross : q a = true) (cross' : p b = true) : a = b := by
  induction xs with
  | nil => cases left
  | cons x xs ih =>
    cases here : p x with
    | true =>
      rw [List.find?_cons_of_pos here] at left
      cases left
      rw [List.find?_cons_of_pos cross] at right
      exact Option.some.inj right
    | false =>
      rw [List.find?_cons_of_neg (by simp [here])] at left
      cases here' : q x with
      | true =>
        rw [List.find?_cons_of_pos here'] at right
        cases right
        exact absurd cross' (by simp [here])
      | false =>
        rw [List.find?_cons_of_neg (by simp [here'])] at right
        exact ih left right

theorem imageSplit {f : Rewriting} {leaves : List Query} {p : Query × Nat}
    (member : p ∈ (images f leaves.zipIdx).zipIdx) :
    ∃ before l after, leaves = before ++ l :: after ∧ f before.length l = some p.1 ∧
      p.2 = (images f before.zipIdx).length ∧
      ∃ later, images f leaves.zipIdx = images f before.zipIdx ++ p.1 :: later := by
  obtain ⟨left, right, split⟩ := List.mem_iff_append.mp member
  obtain ⟨first, rest, cut, _, tail⟩ := List.zipIdx_eq_append_iff.mp split
  obtain ⟨r, later, rfl, rfl, _⟩ := List.zipIdx_eq_cons_iff.mp tail.symm
  obtain ⟨ps, qs, numbered, rfl, found⟩ := List.filterMap_eq_append_iff.mp cut
  obtain ⟨gone, o, os, rfl, none, image, _⟩ := List.filterMap_eq_cons_iff.mp found
  rw [← List.append_assoc] at numbered
  obtain ⟨before, others, rfl, kept, tail⟩ := List.zipIdx_eq_append_iff.mp numbered
  obtain ⟨l, after, rfl, rfl, _⟩ := List.zipIdx_eq_cons_iff.mp tail.symm
  have same : images f before.zipIdx = ps.filterMap fun p => f p.2 p.1 := by
    rw [← kept, imagesAppend, images, images, List.filterMap_eq_nil_iff.mpr none, List.append_nil]
  rw [Nat.zero_add] at image
  exact ⟨before, l, after, rfl, image, by rw [same, Nat.zero_add], later, by rw [same, ← cut]⟩

namespace CriteriaSet

theorem ownerFound (t : Taxonomy) (q : Query) (i : Nat) :
    (ofTaxonomy t (some q)).owner? i =
      (t.facets.reverse.find? fun f => q.leaves.findIdx? f.accepts = some i).map
        (Criterion.ofNodes · q.leaves) := by
  rw [owner?, ofTaxonomy, funext (restoredEq _), List.filter_map, List.getLast?_map,
    List.getLast?_filter, Option.map_map]
  rfl

/-- Every leaf with an owner among the given facets is what its owner is written as. -/
def Settled (t : Taxonomy) (path : String) (q : Query) (among : Facet → Prop) : Prop :=
  ∀ p ∈ q.leaves.zipIdx, ∀ c ∈ (ofTaxonomy t (some q)).owner? p.2, among c.facet →
    c.isActive = true ∧ c.node path = p.1

instance (t path q among) [DecidablePred among] : Decidable (Settled t path q among) :=
  inferInstanceAs (Decidable (∀ p ∈ q.leaves.zipIdx, ∀ c ∈ (ofTaxonomy t (some q)).owner? p.2,
    among c.facet → c.isActive = true ∧ c.node path = p.1))

/-- The leaf that the facet is restored from is written as one that the facet accepts. -/
def Keeps (t : Taxonomy) (path : String) (q : Query) (f : Facet) : Prop :=
  ∃ p ∈ q.leaves.zipIdx, q.leaves.findIdx? f.accepts = some p.2 ∧
    ∃ l ∈ (ofTaxonomy t (some q)).writing path p.2 p.1, f.accepts l = true

instance (t path q f) : Decidable (Keeps t path q f) :=
  inferInstanceAs (Decidable (∃ p ∈ q.leaves.zipIdx, q.leaves.findIdx? f.accepts = some p.2 ∧
    ∃ l ∈ (ofTaxonomy t (some q)).writing path p.2 p.1, f.accepts l = true))

theorem settledIff (t : Taxonomy) (path : String) (q : Query) :
    (ofTaxonomy t (some q)).toQuery? path = some q ↔ Settled t path q fun _ => True := by
  let s := ofTaxonomy t (some q)
  have written : ∀ p ∈ q.leaves.zipIdx, replacement s.owners path p.2 p.1 = some p.1 ↔
      ∀ c, s.owner? p.2 = some c → True → c.isActive = true ∧ c.node path = p.1 := by
    intro p member
    have bound : p.2 < (sourceLeaves s.source).length := leafBound member
    rw [replacementAt s path p.1 bound, writing]
    cases s.owner? p.2 with
    | none => simp
    | some c => simp [writtenSome]
  rw [builtKept, kept?]
  exact (Query.rewriteSameIff (replacementComparing s path)).trans (forall₂_congr written)

section
variable {t : Taxonomy} {path : String} {q : Query}

theorem ownerLast {i : Nat} {c : Criterion} (owner : (ofTaxonomy t (some q)).owner? i = some c) :
    t.facets.reverse.find? (fun f => q.leaves.findIdx? f.accepts = some i) = some c.facet := by
  rw [ownerFound] at owner
  obtain ⟨f, last, rfl⟩ := Option.map_eq_some_iff.mp owner
  rw [Criterion.ofNodesFacet]
  exact last

theorem ownerFirst {i : Nat} {c : Criterion} (owner : (ofTaxonomy t (some q)).owner? i = some c) :
    q.leaves.findIdx? c.facet.accepts = some i := by
  simpa using List.find?_some (ownerLast owner)

theorem ownerExists {i : Nat} {f : Facet} (facet : f ∈ t.facets)
    (first : q.leaves.findIdx? f.accepts = some i) :
    ∃ c, (ofTaxonomy t (some q)).owner? i = some c := by
  rw [ownerFound]
  cases last : t.facets.reverse.find? fun f => q.leaves.findIdx? f.accepts = some i with
  | none =>
    have other := List.find?_eq_none.mp last f (List.mem_reverse.mpr facet)
    exact absurd first (by simpa using other)
  | some g => exact ⟨_, rfl⟩

theorem ownerRestored {l : Query} {i : Nat} {c : Criterion}
    (owner : (ofTaxonomy t (some q)).owner? i = some c) (leaf : (l, i) ∈ q.leaves.zipIdx) :
    c = (Criterion.fresh c.facet).restore l ∧ c.facet.accepts l = true := by
  have found := findAtIndex (ownerFirst owner) (List.mem_zipIdx_iff_getElem?.mp leaf)
  obtain ⟨e, member, place, rfl⟩ := ownerEntry owner
  exact ⟨builtRestored member place leaf, List.find?_some found⟩

theorem writtenBack (plain : '.' ∉ path.toList) {p : Query × Nat} (leaf : p ∈ q.leaves.zipIdx)
    {m : Query} (image : (ofTaxonomy t (some q)).writing path p.2 p.1 = some m) {f : Facet}
    (found : f.accepts m = true) : f.accepts p.1 = true := by
  unfold writing at image
  split at image
  · rename_i c owner
    obtain ⟨_, rfl⟩ := writtenSome.mp image
    obtain ⟨fresh, own⟩ := ownerRestored owner leaf
    rw [fresh] at found
    exact Criterion.acceptsBack plain own found
  · cases image
    exact found

theorem leafAt {before after : List Query} {l : Query} (split : q.leaves = before ++ l :: after) :
    (l, before.length) ∈ q.leaves.zipIdx := by
  rw [List.mem_zipIdx_iff_getElem?, split]
  simp

section
variable {before after : List Query} {l m : Query} (plain : '.' ∉ path.toList)
  (split : q.leaves = before ++ l :: after)
include plain split

theorem imageBack {x : Query}
    (member : x ∈ images ((ofTaxonomy t (some q)).writing path) before.zipIdx) {f : Facet}
    (found : f.accepts x = true) : ∃ y ∈ before, f.accepts y = true := by
  obtain ⟨p, leaf, image⟩ := List.mem_filterMap.mp member
  have among : p ∈ q.leaves.zipIdx := by
    rw [split, List.zipIdx_append]
    exact List.mem_append_left _ leaf
  refine ⟨p.1, ?_, writtenBack plain among image found⟩
  exact List.mem_of_getElem? (List.mem_zipIdx_iff_getElem?.mp leaf)

theorem unseenBefore {f : Facet} (unseen : ∀ y ∈ before, f.accepts y = false) :
    ∀ x ∈ images ((ofTaxonomy t (some q)).writing path) before.zipIdx, f.accepts x = false := by
  intro x member
  refine Bool.eq_false_iff.mpr fun found => ?_
  obtain ⟨y, early, accepted⟩ := imageBack plain split member found
  exact absurd accepted (by simp [unseen y early])

/-- A facet that keeps its leaf and is found at an image first was found at its leaf first. -/
theorem keptFirst {f : Facet} (keeps : Keeps t path q f)
    (image : (ofTaxonomy t (some q)).writing path before.length l = some m)
    (found : f.accepts m = true)
    (unseen : ∀ x ∈ images ((ofTaxonomy t (some q)).writing path) before.zipIdx,
      f.accepts x = false) : q.leaves.findIdx? f.accepts = some before.length := by
  obtain ⟨p, leaf, first, x, written, accepted⟩ := keeps
  have here := leafAt split
  rw [split, firstIff, ← List.findIdx?_eq_none_iff]
  refine ⟨writtenBack plain here image found, ?_⟩
  cases early : before.findIdx? f.accepts with
  | none => rfl
  | some i =>
    -- its own leaf would come before, and with it the image that it accepts
    rw [split, List.findIdx?_append, early, Option.some_or, Option.some_inj] at first
    obtain ⟨bound, _⟩ := List.findIdx?_eq_some_iff_getElem.mp early
    have among : p ∈ before.zipIdx := by
      rw [List.mem_zipIdx_iff_getElem?, split] at leaf
      rw [List.mem_zipIdx_iff_getElem?, ← leaf, List.getElem?_append_left (first ▸ bound)]
    exact absurd accepted (by simp [unseen x (List.mem_filterMap.mpr ⟨p, among, written⟩)])

end

theorem keptSettled (plain : '.' ∉ path.toList) {r : Query}
    (leaves : r.leaves = images ((ofTaxonomy t (some q)).writing path) q.leaves.zipIdx) :
    Settled t path r (Keeps t path q) := by
  intro p member c owner keeps
  obtain ⟨before, l, after, split, image, place, later, cut⟩ := imageSplit (leaves ▸ member)
  have last := ownerLast owner
  have first := ownerFirst owner
  have facet := List.mem_reverse.mp (List.mem_of_find?_eq_some last)
  rw [leaves, cut, place, firstIff] at first
  have first' := keptFirst plain split keeps image first.1 first.2
  -- the same facet owned the leaf before
  obtain ⟨d, owner'⟩ := ownerExists facet first'
  rw [writing, owner'] at image
  obtain ⟨active, node⟩ := writtenSome.mp image
  obtain ⟨fresh, own⟩ := ownerRestored owner' (leafAt split)
  have again : r.leaves.findIdx? d.facet.accepts = some p.2 := by
    have unseen := ownerFirst owner'
    rw [split, firstIff] at unseen
    rw [leaves, cut, place, firstIff, ← node, fresh]
    exact ⟨Criterion.acceptsOwn plain own, unseenBefore plain split unseen.2⟩
  have same : c.facet = d.facet :=
    findBoth last (ownerLast owner') (by simpa using first') (by simpa using again)
  have listed : d.kind = .terms → d.selection.isSet = true := by
    rw [fresh] at active ⊢
    exact Criterion.restoredListed _ active
  rw [(ownerRestored owner member).1, ← node]
  exact ⟨Criterion.activeAgain d _ path same active listed,
    Criterion.nodeAgain d _ path same (.inl active)⟩

theorem builtLeaves
    (safe : q.toValue.OnlyNested ∨
      ∀ i c, (ofTaxonomy t (some q)).owner? i = some c → c.isActive = true)
    {r : Query} (written : (ofTaxonomy t (some q)).toQuery? path = some r) :
    r.leaves = images ((ofTaxonomy t (some q)).writing path) q.leaves.zipIdx := by
  have nested := safe.imp_left fun only => fun q' (source : some q = some q') =>
    Option.some.inj source ▸ only
  have kept := @keptLeaves (ofTaxonomy t (some q)) path nested
  rw [← builtKept, written] at kept
  exact kept

/-- Only facets that lose their leaf and find another one can unsettle what is written back. -/
theorem settledByLosers (plain : '.' ∉ path.toList)
    (safe : q.toValue.OnlyNested ∨
      ∀ i c, (ofTaxonomy t (some q)).owner? i = some c → c.isActive = true)
    {r : Query} (written : (ofTaxonomy t (some q)).toQuery? path = some r) :
    (Settled t path r fun _ => True) ↔ Settled t path r fun f => ¬ Keeps t path q f := by
  constructor
  · intro settled p member c owner _
    exact settled p member c owner trivial
  · intro others p member c owner _
    by_cases keeps : Keeps t path q c.facet
    · exact keptSettled plain (builtLeaves safe written) p member c owner keeps
    · exact others p member c owner keeps

end
end CriteriaSet
end FacetSearch
