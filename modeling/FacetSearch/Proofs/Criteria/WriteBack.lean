import FacetSearch.Criteria.Basic
import FacetSearch.Proofs.Criteria.Edits
import FacetSearch.Proofs.Criterion.Node
import FacetSearch.Proofs.Query.Rewriting

/-! What is found in a query after its criteria are written back. Each leaf stands for the node of
its owner, leaves without an owner stand for themselves, and added nodes come last. An active
criterion is found unless another one owns its leaf or the leaf is out of reach. -/
namespace FacetSearch.CriteriaSet

theorem leavesOfJoined (op : Operator) {args : List Value} (more : List Value)
    (nested : Query.startsNested args = true) :
    (Query.mk op (args ++ more)).leaves = leavesOfArgs args ++ leavesOfArgs more := by
  have joined : Query.startsNested (args ++ more) = true := by
    cases args with
    | nil => cases nested
    | cons v vs => exact nested
  calc (Query.mk op (args ++ more)).leaves
      = leavesOfArgs (args ++ more) := leavesOfConnective joined
    _ = leavesOfArgs args ++ leavesOfArgs more := leavesOfArgsAppend args more

theorem attachLeaves (kept : Option Query) {fresh : List Query}
    (plain : ∀ q ∈ fresh, q.isConnective = false) :
    sourceLeaves (attach kept fresh) = sourceLeaves kept ++ fresh := by
  have freshLeaves := leavesOfComparisons plain
  cases kept with
  | none =>
    match fresh with
    | [] => rfl
    | [q] => exact leavesOfComparing (plain q List.mem_cons_self)
    | q :: p :: qs => exact (leavesOfAll q (p :: qs)).trans freshLeaves
  | some root =>
    rw [attach]
    split
    · rename_i conjunction
      have rootLeaves : root.leaves = leavesOfArgs root.args := leavesOfConnective conjunction.2
      have joined := leavesOfJoined root.operator (fresh.map Query.toValue) conjunction.2
      rw [freshLeaves, ← rootLeaves] at joined
      exact joined
    · split
      · rename_i empty
        rw [List.isEmpty_iff.mp empty, List.append_nil]
      · have wrapped := leavesOfAll root fresh
        rw [List.map_cons, leavesOfArgs, freshLeaves] at wrapped
        exact wrapped

theorem writtenSome {path : String} {c : Criterion} {q : Query} :
    written? path c = some q ↔ c.isActive = true ∧ c.node path = q := by
  unfold written?
  split <;> simp_all

theorem addedPlain (s : CriteriaSet) (path : String) :
    ∀ q ∈ s.added path, q.isConnective = false := by
  intro q member
  obtain ⟨e, _, written⟩ := List.mem_filterMap.mp member
  obtain ⟨_, rfl⟩ := writtenSome.mp written
  exact Criterion.nodeComparison e.criterion path

theorem toQueryLeaves (s : CriteriaSet) (path : String) :
    sourceLeaves (s.toQuery? path) = sourceLeaves (s.kept? path) ++ s.added path :=
  attachLeaves _ (addedPlain s path)

def writing (s : CriteriaSet) (path : String) : Rewriting :=
  fun leaf q => match s.owner? leaf with
    | some c => written? path c
    | none => some q

theorem ownersAt (s : CriteriaSet) {leaf : Nat} (bound : leaf < (sourceLeaves s.source).length) :
    s.owners[leaf]? = some (s.owner? leaf) := by
  rw [owners, List.getElem?_map, List.getElem?_range bound]
  rfl

theorem replacementAt (s : CriteriaSet) (path : String) {leaf : Nat} (q : Query)
    (bound : leaf < (sourceLeaves s.source).length) :
    replacement s.owners path leaf q = s.writing path leaf q := by
  unfold replacement writing
  rw [ownersAt s bound]
  cases s.owner? leaf <;> rfl

theorem leafBound {s : CriteriaSet} {p : Query × Nat}
    (member : p ∈ (sourceLeaves s.source).zipIdx) : p.2 < (sourceLeaves s.source).length := by
  obtain ⟨_, bound, _⟩ := List.mem_zipIdx member
  simpa using bound

theorem imagesWritten (s : CriteriaSet) (path : String) {leaves : List (Query × Nat)}
    (numbered : ∀ p ∈ leaves, p ∈ (sourceLeaves s.source).zipIdx) :
    images (replacement s.owners path) leaves = images (s.writing path) leaves :=
  List.filterMap_congr fun p member => replacementAt s path p.1 (leafBound (numbered p member))

theorem imagesOfSource {s : CriteriaSet} {q : Query} (source : s.source = some q) (path : String) :
    images (replacement s.owners path) q.leaves.zipIdx = images (s.writing path) q.leaves.zipIdx := by
  refine imagesWritten s path fun p member => ?_
  rw [source]
  exact member

theorem ownersComparing (owners : List (Option Criterion)) (path : String) :
    Comparing (replacement owners path) := by
  intro n q r plain image
  unfold replacement at image
  split at image
  · obtain ⟨_, rfl⟩ := writtenSome.mp image
    exact Criterion.nodeComparison _ path
  · cases image
    exact plain

theorem replacementComparing (s : CriteriaSet) (path : String) :
    Comparing (replacement s.owners path) :=
  ownersComparing s.owners path

theorem replacementKeeps {s : CriteriaSet} (path : String)
    (active : ∀ i c, s.owner? i = some c → c.isActive = true) :
    KeepsAll (replacement s.owners path) := by
  intro n q
  unfold replacement
  split
  · rename_i c found
    obtain ⟨i, _, owner⟩ := List.mem_map.mp (List.mem_of_getElem? found)
    rw [written?, if_pos (active i c owner)]
    rfl
  · rfl

theorem leavesOfRewriting (f : Rewriting) (q : Query) :
    sourceLeaves (q.rewriteLeaves f) = leavesOfArgs (q.toValue.rewrite f 0).1.toList := by
  rw [rewrittenQuery]
  cases q.rewriteLeaves f with
  | none => rfl
  | some r => exact (leavesOfOne r.toValue).symm

theorem keptLeaves {s : CriteriaSet} (path : String)
    (safe : (∀ q, s.source = some q → q.toValue.OnlyNested) ∨
      ∀ i c, s.owner? i = some c → c.isActive = true) :
    sourceLeaves (s.kept? path) = images (s.writing path) (sourceLeaves s.source).zipIdx := by
  rw [← imagesWritten s path fun _ member => member, kept?]
  cases source : s.source with
  | none => rfl
  | some q =>
    have inside := safe.imp (fun only => only q source) (replacementKeeps path)
    have kept := leavesRewritten (replacementComparing s path) q.toValue 0 inside
    exact (leavesOfRewriting _ q).trans kept

def rebuilt (s : CriteriaSet) (path : String) : List Query :=
  images (s.writing path) (sourceLeaves s.source).zipIdx ++ s.added path

def sample : Taxonomy :=
  .ofVocabularies "Mica" .empty [
    ⟨"sex", .empty, some [⟨"male", .empty⟩, ⟨"female", .empty⟩], []⟩,
    ⟨"age", .empty, none, [⟨"type", "integer"⟩]⟩,
    ⟨"name", .empty, none, [⟨"localized", "true"⟩]⟩]

/-- The leaves of the source that stay within reach when criteria are written back. -/
def reach (s : CriteriaSet) (path : String) : List (Query × Nat) :=
  (s.source.map fun q => q.toValue.reach (replacement s.owners path) 0).getD []

theorem reachNumbered (s : CriteriaSet) (path : String) :
    ∀ p ∈ s.reach path, p ∈ (sourceLeaves s.source).zipIdx := by
  intro p member
  unfold reach at member
  cases source : s.source with
  | none => simp [source] at member
  | some q =>
    rw [source] at member
    exact reachLeaves _ q.toValue 0 member

theorem keptFlat (s : CriteriaSet) (path : String) {r : Query}
    (flat : r.args.any Value.isNode = false) :
    r ∈ sourceLeaves (s.kept? path) ↔ r ∈ images (s.writing path) (s.reach path) := by
  rw [← imagesWritten s path (reachNumbered s path), kept?, reach]
  cases s.source with
  | none => exact Iff.rfl
  | some q =>
    have found := flatLeaves (replacementComparing s path) flat q.toValue 0
    rw [← leavesOfRewriting] at found
    exact found

theorem ownerEntry {s : CriteriaSet} {leaf : Nat} {c : Criterion} (h : s.owner? leaf = some c) :
    ∃ e ∈ s.entries, e.leaf = some leaf ∧ e.criterion = c := by
  obtain ⟨e, last, rfl⟩ := Option.map_eq_some_iff.mp h
  have member := List.mem_filter.mp (List.mem_of_getLast? last)
  exact ⟨e, member.1, by simpa using member.2, rfl⟩

section
variable {s : CriteriaSet} {e : Restored}
  (distinct : (s.entries.map fun r => r.criterion.name).Nodup) (member : e ∈ s.entries)
include distinct member

theorem ownLeaf {path : String} {leaf : Nat} {c : Criterion} (owner : s.owner? leaf = some c)
    (same : c.node path = e.criterion.node path) : e.leaf = some leaf ∧ c = e.criterion := by
  obtain ⟨o, among, place, rfl⟩ := ownerEntry owner
  cases entryOfName distinct among member (Criterion.nameOfNode same)
  exact ⟨place, rfl⟩

theorem addedIff {path : String} (active : e.criterion.isActive = true) :
    e.criterion.node path ∈ s.added path ↔ e.leaf = none := by
  constructor
  · intro found
    obtain ⟨o, free, written⟩ := List.mem_filterMap.mp found
    obtain ⟨among, place⟩ := List.mem_filter.mp free
    cases entryOfName distinct among member (Criterion.nameOfNode (writtenSome.mp written).2)
    exact Option.isNone_iff_eq_none.mp place
  · intro free
    have among : e ∈ s.entries.filter (·.leaf.isNone) :=
      List.mem_filter.mpr ⟨member, Option.isNone_iff_eq_none.mpr free⟩
    exact List.mem_filterMap.mpr ⟨e, among, writtenSome.mpr ⟨active, rfl⟩⟩

theorem writingIff {path : String} (active : e.criterion.isActive = true) (q : Query) (leaf : Nat) :
    s.writing path leaf q = some (e.criterion.node path) ↔
      e.leaf = some leaf ∧ s.owner? leaf = some e.criterion ∨
      s.owner? leaf = none ∧ q = e.criterion.node path := by
  unfold writing
  cases owner : s.owner? leaf with
  | none => simp
  | some c =>
    constructor
    · intro written
      obtain ⟨place, rfl⟩ := ownLeaf distinct member owner (writtenSome.mp written).2
      exact .inl ⟨place, rfl⟩
    · rintro (⟨_, same⟩ | ⟨none, _⟩)
      · cases same
        exact writtenSome.mpr ⟨active, rfl⟩
      · cases none

end

/-- Apart from criteria without a leaf, what is found of an active criterion is the node it owns, or
a leaf without an owner that happens to be the same. -/
theorem foundExactly {t : Taxonomy} (distinct : (t.vocabularies.map Vocabulary.name).Nodup)
    (source : Option Query) (edits : List (String × Edit)) (path : String) {e : Restored}
    (member : e ∈ ((ofTaxonomy t source).run edits).entries)
    (active : e.criterion.isActive = true) :
    let s := (ofTaxonomy t source).run edits
    (∃ r, s.toQuery? path = some r ∧ e.criterion.node path ∈ r.leaves) ↔
      e.leaf = none ∨ ∃ q leaf, (q, leaf) ∈ s.reach path ∧
        (e.leaf = some leaf ∧ s.owner? leaf = some e.criterion ∨
          s.owner? leaf = none ∧ q = e.criterion.node path) := by
  intro s
  have among : e ∈ s.entries := member
  have names : (s.entries.map fun r => r.criterion.name).Nodup :=
    namesDistinct distinct source edits
  have leaves : (∃ r, s.toQuery? path = some r ∧ e.criterion.node path ∈ r.leaves) ↔
      e.criterion.node path ∈ sourceLeaves (s.toQuery? path) := by
    cases s.toQuery? path <;> simp [sourceLeaves]
  have kept := keptFlat s path (Criterion.nodeFlat e.criterion path)
  rw [leaves, toQueryLeaves, List.mem_append, kept, addedIff names among active, or_comm, images]
  simp only [List.mem_filterMap, Prod.exists, writingIff names among active]

/-- A leaf that facets of two kinds accept. -/
def sharedSource : Query :=
  ⟨.matching, [.string "Mica.age", .string "Mica.name"]⟩

def sharedOwner : Restored :=
  ⟨⟨⟨⟨"name", .empty, none, [⟨"localized", "true"⟩]⟩, .text, by decide⟩, .matching,
    .words "asthma"⟩, some 0⟩

theorem foundShared :
    (sample.vocabularies.map Vocabulary.name).Nodup ∧
    ∃ e ∈ ((ofTaxonomy sample (some sharedSource)).run
        [("age", .enter (.range "1" "")), ("name", .enter (.words "asthma"))]).entries,
      e.criterion.isActive = true ∧ e.leaf = some 0 ∧
      ∃ r, ((ofTaxonomy sample (some sharedSource)).run
          [("age", .enter (.range "1" "")), ("name", .enter (.words "asthma"))]).toQuery? "Mica" =
            some r ∧
        e.criterion.node "Mica" ∈ r.leaves := by
  have distinct : (sample.vocabularies.map Vocabulary.name).Nodup := by decide
  refine ⟨distinct, sharedOwner, by decide, by decide, rfl, ?_⟩
  exact (foundExactly distinct (some sharedSource) _ "Mica" (e := sharedOwner) (by decide)
    (by decide)).mpr (.inr ⟨sharedSource, 0, by decide, .inl (by decide)⟩)

/-- The only active criterion is lost with the leaf, which an inactive one owns. -/
theorem sharedLost :
    (sample.vocabularies.map Vocabulary.name).Nodup ∧
    let s := (ofTaxonomy sample (some sharedSource)).run
      [("name", .enter (.words "")), ("age", .enter (.range "1" ""))]
    s.active.map (·.node "Mica") = [⟨.atLeast, [.string "Mica.age", .integer 1]⟩] ∧
    s.toQuery? "Mica" = none := by
  decide

end FacetSearch.CriteriaSet
