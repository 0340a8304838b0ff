import FacetSearch.Proofs.Criteria.WriteBack
import FacetSearch.Proofs.Query.Visiting

/-! The table of owners, filled and looked up with bounds that are checked. The leaves kept for
criteria are leaves of the source however the criteria are edited, so every criterion finds its
place in the table. Main statement: writing back looks up each leaf under its number in the order of
the leaves, and neither filling the table nor looking it up goes outside. -/
namespace FacetSearch.CriteriaSet

/-- Puts a criterion in the place of its leaf. Outside the table there is none. -/
def put? (table : List (Option Criterion)) (e : Restored) : Option (List (Option Criterion)) :=
  match e.leaf with
  | none => some table
  | some leaf => if leaf < table.length then some (table.set leaf (some e.criterion)) else none

def filled? (s : CriteriaSet) : Option (List (Option Criterion)) :=
  s.entries.foldlM put? (List.replicate (sourceLeaves s.source).length none)

/-- A leaf that is kept for a criterion is one of the source. -/
def Inside (source : Option Query) (e : Restored) : Prop :=
  ∀ leaf, e.leaf = some leaf → leaf < (sourceLeaves source).length

theorem ownersLength (s : CriteriaSet) : s.owners.length = (sourceLeaves s.source).length := by
  simp [owners]

section
variable (source : Option Query) (done : List Restored) (e : Restored)

theorem ownerAdded (leaf : Nat) : (CriteriaSet.mk source (done ++ [e])).owner? leaf =
    if e.leaf = some leaf then some e.criterion else (CriteriaSet.mk source done).owner? leaf := by
  unfold owner?
  rw [List.filter_append]
  split <;> simp_all

theorem putOwner (inside : Inside source e) :
    put? (CriteriaSet.mk source done).owners e =
      some (CriteriaSet.mk source (done ++ [e])).owners := by
  cases place : e.leaf with
  | none => simp [put?, owners, ownerAdded, place]
  | some leaf =>
    have bound : leaf < (CriteriaSet.mk source done).owners.length :=
      (ownersLength _).symm ▸ inside leaf place
    simp only [put?, place, if_pos bound]
    refine congrArg some (List.ext_getElem? fun i => ?_)
    -- the place of the leaf has the new owner, every other place the one it had
    rw [List.getElem?_set, if_pos bound]
    by_cases within : i < (sourceLeaves source).length
    · rw [ownersAt _ within, ownersAt _ within, ownerAdded, place]
      by_cases here : leaf = i <;> simp [here]
    · have outside (entries : List Restored) : (CriteriaSet.mk source entries).owners[i]? = none :=
        List.getElem?_eq_none (by rw [ownersLength]; exact Nat.le_of_not_lt within)
      rw [outside, outside, if_neg]
      rintro rfl
      exact within (inside leaf place)

end

theorem putOwners (source : Option Query) (done later : List Restored)
    (inside : ∀ e ∈ later, Inside source e) :
    later.foldlM put? (CriteriaSet.mk source done).owners =
      some (CriteriaSet.mk source (done ++ later)).owners := by
  induction later generalizing done with
  | nil => simp
  | cons e later ih =>
    obtain ⟨here, others⟩ := List.forall_mem_cons.mp inside
    have rest := ih (done ++ [e]) others
    rw [List.append_assoc, List.singleton_append] at rest
    rw [List.foldlM_cons, putOwner source done e here]
    exact rest

/-- Filled entry by entry, the table has the last of the criteria of a leaf in its place. -/
theorem filledOwners {s : CriteriaSet} (inside : ∀ e ∈ s.entries, Inside s.source e) :
    s.filled? = some s.owners := by
  have empty : (CriteriaSet.mk s.source []).owners =
      List.replicate (sourceLeaves s.source).length none := by
    have nobody : (CriteriaSet.mk s.source []).owner? = fun _ => none := rfl
    rw [owners, nobody, List.map_const', List.length_range]
  rw [filled?, ← empty]
  exact putOwners s.source [] s.entries inside

theorem runInside {t : Taxonomy} {source : Option Query} {edits : List (String × Edit)} :
    let s := (ofTaxonomy t source).run edits
    ∀ e ∈ s.entries, Inside s.source e := by
  intro s e member leaf place
  have same : s.source = source := (runKeeps (ofTaxonomy t source) edits).1
  have found := (runLeaf member).2.symm.trans place
  rw [same]
  exact (List.findIdx?_eq_some_iff_getElem.mp found).1

/-- Looks up the table of owners and fails outside. -/
def strict (owners : List (Option Criterion)) (path : String) : Lookup :=
  fun leaf q => (owners[leaf]?).map fun owner => match owner with
    | some c => written? path c
    | none => some q

theorem strictAnswers {owners : List (Option Criterion)} (path : String)
    {leaves : List (Query × Nat)} (inside : ∀ p ∈ leaves, p.2 < owners.length) :
    Answers (strict owners path) (replacement owners path) leaves := by
  intro p member
  have bound := inside p member
  have entry : owners[p.2]? = some owners[p.2] := List.getElem?_eq_getElem bound
  unfold strict replacement
  rw [entry]
  cases owners[p.2] <;> rfl

theorem visitStrict {s : CriteriaSet} {q : Query} (known : s.source = some q) (path : String) :
    (q.toValue.visit (logging (strict s.owners path)) 0).run [] =
      some (((s.kept? path).map Query.toValue, q.leaves.length), q.leaves.zipIdx) := by
  have within : ∀ p ∈ q.leaves.zipIdx, p.2 < s.owners.length := by
    intro p member
    rw [ownersLength]
    refine leafBound ?_
    rw [known]
    exact member
  have count := rewriteCount (replacement s.owners path) q.toValue 0
  have kept : s.kept? path = q.rewriteLeaves (replacement s.owners path) := by
    rw [kept?, known, Option.bind_some]
  rw [Nat.zero_add] at count
  rw [visitLogged q.toValue 0 (strictAnswers path within) [], kept, ← rewrittenQuery]
  exact congrArg some (Prod.ext (Prod.ext rfl count) rfl)

theorem visitsNumbered :
    (∀ (q : Query) (owners : List (Option Criterion)) (path : String) (n : Nat),
      let f := replacement owners path
      (q.toValue.rewrite f n).2 = n + q.leaves.length ∧
      (q.toValue.visit (logging fun leaf r => some (f leaf r)) n).run [] =
        some (q.toValue.rewrite f n, q.leaves.zipIdx n)) ∧
    (∀ (q : Query) (n k : Nat) (leaf : Query), Consults (q.toValue.rewrite · n) k leaf ↔
      n ≤ k ∧ q.leaves[k - n]? = some leaf) ∧
    ∀ (t : Taxonomy) (source : Option Query) (edits : List (String × Edit)),
      let s := (ofTaxonomy t source).run edits
      (∀ e ∈ s.entries, ∀ leaf, e.leaf = some leaf → leaf < (sourceLeaves s.source).length) ∧
      s.filled? = some s.owners ∧
      ∀ q path, s.source = some q →
        (q.toValue.visit (logging (strict s.owners path)) 0).run [] =
          some (((s.kept? path).map Query.toValue, q.leaves.length), q.leaves.zipIdx) := by
  refine ⟨fun q owners path n => ⟨rewriteCount _ q.toValue n, visitAlways _ q.toValue n⟩,
    fun q n k leaf => ?_, fun t source edits => ?_⟩
  · exact (consultsIff q.toValue n k leaf).trans List.mem_zipIdx_iff_le_and_getElem?_sub
  · exact ⟨runInside, filledOwners runInside, fun q path known => visitStrict known path⟩

end FacetSearch.CriteriaSet
