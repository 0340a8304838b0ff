import FacetSearch.Criterion.Basic

/-! The criteria of all facets of a taxonomy, each with the number of the source query's leaf that
it was restored from, and writing them back into that query. A leaf that criteria were restored from
is replaced by the node of the last of them, or dropped where that one is inactive; other leaves
stay. Active criteria without a leaf are added in a conjunction. -/
namespace FacetSearch

structure Restored where
  criterion : Criterion
  leaf : Option Nat
  deriving DecidableEq, Repr

structure CriteriaSet where
  source : Option Query
  entries : List Restored
  deriving DecidableEq, Repr

namespace CriteriaSet

def sourceLeaves (source : Option Query) : List Query :=
  (source.map Query.leaves).getD []

/-- The criterion of a facet with the position of the leaf that it takes over. -/
def restored (leaves : List Query) (f : Facet) : Restored :=
  match leaves.zipIdx.find? (f.accepts ·.1) with
  | some (leaf, position) => ⟨(Criterion.fresh f).restore leaf, some position⟩
  | none => ⟨.fresh f, none⟩

/-- The leaf that is taken over is the one that a single criterion is restored from. -/
theorem restoredEq (leaves : List Query) (f : Facet) :
    restored leaves f = ⟨.ofNodes f leaves, leaves.findIdx? f.accepts⟩ := by
  have leaf : leaves.find? f.accepts =
      (leaves.zipIdx.find? (f.accepts ·.1)).map Prod.fst := by
    rw [← Function.comp_def, ← List.find?_map, List.zipIdx_map_fst]
  rw [Criterion.ofNodes, Facet.find?, leaf, List.findIdx?_eq_fst_find?_zipIdx, restored]
  cases leaves.zipIdx.find? (f.accepts ·.1) <;> rfl

theorem restoredFacet (leaves : List Query) (f : Facet) :
    (restored leaves f).criterion.facet = f := by
  rw [restoredEq, Criterion.ofNodesFacet]

theorem restoredFree {leaves : List Query} {f : Facet} (free : (restored leaves f).leaf = none) :
    (restored leaves f).criterion = .fresh f := by
  unfold restored at *
  split at free
  · cases free
  · rfl

def ofTaxonomy (t : Taxonomy) (source : Option Query) : CriteriaSet :=
  ⟨source, t.facets.map (restored (sourceLeaves source))⟩

def criteria (s : CriteriaSet) : List Criterion :=
  s.entries.map Restored.criterion

theorem facetsOfTaxonomy (t : Taxonomy) (source : Option Query) :
    (ofTaxonomy t source).criteria.map Criterion.facet = t.facets := by
  simp only [criteria, ofTaxonomy, List.map_map]
  exact List.map_id'' (restoredFacet _) _

def criterion? (s : CriteriaSet) (name : String) : Option Criterion :=
  s.criteria.find? (·.name = name)

def editFirst (name : String) (e : Edit) : List Restored → Option (List Restored)
  | [] => none
  | r :: rest =>
    if r.criterion.name = name then some ({ r with criterion := r.criterion.edit e } :: rest)
    else (editFirst name e rest).map (r :: ·)

def edit? (s : CriteriaSet) (name : String) (e : Edit) : Option CriteriaSet :=
  (editFirst name e s.entries).map fun entries => { s with entries }

def active (s : CriteriaSet) : List Criterion :=
  s.criteria.filter Criterion.isActive

def display (localize : Localizer) (s : CriteriaSet) : String :=
  String.intercalate ", " (s.active.map (·.display localize))

def owner? (s : CriteriaSet) (leaf : Nat) : Option Criterion :=
  ((s.entries.filter (·.leaf = some leaf)).getLast?).map Restored.criterion

def owners (s : CriteriaSet) : List (Option Criterion) :=
  (List.range (sourceLeaves s.source).length).map s.owner?

def written? (taxonomy : String) (c : Criterion) : Option Query :=
  if c.isActive then some (c.node taxonomy) else none

def replacement (owners : List (Option Criterion)) (taxonomy : String) : Rewriting :=
  fun leaf q => match owners[leaf]? with
    | some (some c) => written? taxonomy c
    | _ => some q

def kept? (s : CriteriaSet) (taxonomy : String) : Option Query :=
  s.source.bind (Query.rewriteLeaves (replacement s.owners taxonomy))

def added (s : CriteriaSet) (taxonomy : String) : List Query :=
  (s.entries.filter (·.leaf.isNone)).filterMap fun r => written? taxonomy r.criterion

def attach : Option Query → List Query → Option Query
  | none, [] => none
  | none, [q] => some q
  | none, qs => some (.all qs)
  | some root, qs =>
    if root.operator = .conjunction ∧ root.isConnective then
      some { root with args := root.args ++ qs.map Query.toValue }
    else if qs.isEmpty then some root
    else some (.all (root :: qs))

theorem attachNone (root : Query) : attach (some root) [] = some root := by
  simp [attach]

def toQuery? (s : CriteriaSet) (taxonomy : String) : Option Query :=
  attach (s.kept? taxonomy) (s.added taxonomy)

end CriteriaSet
end FacetSearch
