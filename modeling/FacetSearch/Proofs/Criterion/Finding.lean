import FacetSearch.Proofs.Criterion.Matching

/-! Finding the comparison that a criterion was written as. The field path is put together from
prefix and name, and its second segment is compared with the name, so dots of either count: a name
with a dot is never met, and a prefix with a dot brings a second segment of its own. Main statement:
which comparisons their own facet finds again, and which no other facet takes for its own. -/
namespace FacetSearch

namespace Text

/-- The text of a path up to its first separator, or all of it. -/
def Leads (separator : Char) (piece path : List Char) : Prop :=
  separator ∉ piece ∧ (path = piece ∨ ∃ rest, path = piece ++ separator :: rest)

/-- The text of a path between its first two separators, or all that follows the only one. -/
def Second (separator : Char) (piece path : List Char) : Prop :=
  ∃ first rest, separator ∉ first ∧ path = first ++ separator :: rest ∧ Leads separator piece rest

section
variable {separator : Char}

theorem leadingPiece {piece path : List Char} :
    (pieces separator path)[0]? = some piece ↔ Leads separator piece path := by
  constructor
  · intro leading
    refine ⟨piecesFree (List.mem_of_getElem? leading), ?_⟩
    by_cases cut : separator ∈ path
    · obtain ⟨first, rest, rfl, free⟩ := List.eq_append_cons_of_mem cut
      rw [piecesAppend first rest free] at leading
      cases leading
      exact .inr ⟨rest, rfl⟩
    · rw [piecesOfFree path cut] at leading
      cases leading
      exact .inl rfl
  · rintro ⟨free, rfl | ⟨rest, rfl⟩⟩
    · rw [piecesOfFree path free]
      rfl
    · rw [piecesAppend piece rest free]
      rfl

theorem secondPiece {piece path : List Char} :
    (pieces separator path)[1]? = some piece ↔ Second separator piece path := by
  constructor
  · intro second
    by_cases cut : separator ∈ path
    · obtain ⟨first, rest, rfl, free⟩ := List.eq_append_cons_of_mem cut
      rw [piecesAppend first rest free] at second
      exact ⟨first, rest, free, rfl, leadingPiece.mp second⟩
    · rw [piecesOfFree path cut] at second
      cases second
  · rintro ⟨first, rest, free, rfl, leading⟩
    rw [piecesAppend first rest free]
    exact leadingPiece.mpr leading

theorem leadingKept (path more : List Char) :
    (pieces separator (path ++ separator :: more))[0]? = (pieces separator path)[0]? := by
  by_cases cut : separator ∈ path
  · obtain ⟨first, rest, rfl, free⟩ := List.eq_append_cons_of_mem cut
    rw [List.append_assoc, List.cons_append, piecesAppend first _ free, piecesAppend first _ free]
    rfl
  · rw [piecesAppend path more cut, piecesOfFree path cut]
    rfl

theorem secondOfJoined (path more : List Char) :
    (pieces separator (path ++ separator :: more))[1]? =
      if separator ∈ path then (pieces separator path)[1]? else (pieces separator more)[0]? := by
  split
  · rename_i cut
    obtain ⟨first, rest, rfl, free⟩ := List.eq_append_cons_of_mem cut
    rw [List.append_assoc, List.cons_append, piecesAppend first _ free, piecesAppend first _ free]
    exact leadingKept rest more
  · rename_i free
    rw [piecesAppend path more free]
    rfl

theorem leadsSelf {piece : List Char} : Leads separator piece piece ↔ separator ∉ piece :=
  ⟨And.left, fun free => ⟨free, .inl rfl⟩⟩

theorem secondCut {piece path : List Char} (h : Second separator piece path) :
    separator ∈ path ∧ separator ∉ piece := by
  obtain ⟨first, rest, _, rfl, leading⟩ := h
  exact ⟨by simp, leading.1⟩

theorem secondJoined {path name : List Char} : Second separator name (path ++ separator :: name) ↔
    separator ∉ name ∧ (separator ∉ path ∨ Second separator name path) := by
  rw [← secondPiece, secondOfJoined]
  split
  · rename_i cut
    -- the name does not count here: the front part has a second segment of its own
    rw [secondPiece]
    exact ⟨fun second => ⟨(secondCut second).2, .inr second⟩,
      fun ⟨_, either⟩ => either.resolve_left fun free => free cut⟩
  · rename_i free
    rw [leadingPiece, leadsSelf]
    exact ⟨fun plain => ⟨plain, .inl free⟩, And.left⟩

end
end Text

/-- A dotted path stands in a place of the comparison, and its second segment is the name. -/
def Query.Names (q : Query) (place : Nat) (name : String) : Prop :=
  ∃ path : String, q.args[place]? = some (.string path) ∧ Text.Second '.' name.toList path.toList

/-- Terms and ranges are looked up by the first argument, words by operator and second argument. -/
def Facet.Filters (f : Facet) (q : Query) : Prop :=
  match f.kind with
  | .terms | .numeric => q.Names 0 f.name
  | .text => q.operator = .matching ∧ q.Names 1 f.name

theorem pathNameIff {path name : String} :
    Facet.pathName? (some (.string path)) = some name ↔ Text.Second '.' name.toList path.toList := by
  rw [← Text.secondPiece, Facet.pathName?, Option.map_eq_some_iff]
  constructor
  · rintro ⟨piece, second, rfl⟩
    rwa [String.toList_ofList]
  · intro second
    exact ⟨name.toList, second, String.ofList_toList⟩

theorem namesIff {q : Query} {place : Nat} {name : String} :
    Facet.pathName? q.args[place]? = some name ↔ q.Names place name := by
  constructor
  · intro named
    cases arg : q.args[place]? with
    | none => rw [arg] at named; cases named
    | some v =>
      rw [arg] at named
      cases v with
      | string path => exact ⟨path, arg, pathNameIff.mp named⟩
      | _ => cases named
  · rintro ⟨path, arg, second⟩
    rw [arg]
    exact pathNameIff.mpr second

namespace Facet

theorem acceptsIff {f : Facet} {q : Query} : f.accepts q = true ↔ f.Filters q := by
  unfold Filters
  split
  · rename_i kind
    rw [acceptsField (by simp [kind]), namesIff]
  · rename_i kind
    rw [acceptsField (by simp [kind]), namesIff]
  · rename_i kind
    rw [acceptsWords kind, namesIff]

theorem findFirst {f : Facet} {nodes : List Query} {q : Query} : f.find? nodes = some q ↔
    ∃ before after, nodes = before ++ q :: after ∧ f.Filters q ∧ ∀ b ∈ before, ¬ f.Filters b := by
  simp only [find?, List.find?_eq_some_iff_append, ← acceptsIff, Bool.not_eq_true,
    Bool.not_eq_eq_eq_not, Bool.not_true]
  constructor
  · rintro ⟨found, before, after, split, none⟩
    exact ⟨before, after, split, found, none⟩
  · rintro ⟨before, after, split, found, none⟩
    exact ⟨found, before, after, split, none⟩

theorem findNothing {f : Facet} {nodes : List Query} :
    f.find? nodes = none ↔ ∀ q ∈ nodes, ¬ f.Filters q := by
  simp only [find?, List.find?_eq_none, acceptsIff]

theorem findAlone {f : Facet} {q : Query} : f.find? [q] = some q ↔ f.Filters q := by
  rw [← acceptsIff, find?, List.find?_singleton]
  cases f.accepts q <;> simp

end Facet

namespace Criterion

theorem fieldNames {path : String} {v : Vocabulary} :
    Text.Second '.' v.name.toList (fieldPath path v).toList ↔
      '.' ∉ v.name.toList ∧ ('.' ∉ path.toList ∨ Text.Second '.' v.name.toList path.toList) := by
  have cut : (fieldPath path v).toList = path.toList ++ '.' :: v.name.toList := by
    simp [fieldPath, String.toList_append]
  rw [cut, Text.secondJoined]

theorem wordsOperator {c : Criterion} (kind : c.kind = .text) (path : String) :
    (c.node path).operator = c.operator := by
  obtain ⟨⟨v, _, classified⟩, op, selection⟩ := c
  cases kind
  cases selection
  rfl

theorem ownField (c : Criterion) (path : String) : c.facet.Filters (c.node path) ↔
    Text.Second '.' c.name.toList (fieldPath path c.facet.vocabulary).toList ∧
      (c.kind = .text → c.operator = .matching) := by
  rw [← Facet.acceptsIff, ← pathNameIff]
  by_cases kind : c.kind = .text
  · obtain ⟨words, args⟩ := wordsArgs c path kind
    rw [Facet.acceptsWords kind, wordsOperator kind, args]
    exact and_comm.trans (and_congr_right fun _ => ⟨fun same _ => same, fun same => same kind⟩)
  · obtain ⟨rest, args, _⟩ := fieldArgs c path kind
    rw [Facet.acceptsField kind, args]
    exact ⟨fun field => ⟨field, fun text => absurd text kind⟩, And.left⟩

theorem foreignField {c : Criterion} (kind : c.kind ≠ .text) {path : String}
    (plain : '.' ∉ path.toList) (plain' : '.' ∉ c.name.toList) {f : Facet}
    (other : f.name ≠ c.name) : ¬ f.Filters (c.node path) := by
  rw [← Facet.acceptsIff]
  intro found
  by_cases kind' : f.kind = .text
  · have second := ((Facet.acceptsWords kind' _).mp found).2
    rw [secondUnnamed c path kind] at second
    cases second
  · obtain ⟨rest, args, _⟩ := fieldArgs c path kind
    have first := (Facet.acceptsField kind' _).mp found
    rw [args] at first
    have field := pathNameOfField plain plain'
    exact other (Option.some.inj (first.symm.trans field))

theorem nodeFoundExactly (c : Criterion) (path : String) :
    (c.facet.find? [c.node path] = some (c.node path) ↔
      '.' ∉ c.name.toList ∧
      ('.' ∉ path.toList ∨ Text.Second '.' c.name.toList path.toList) ∧
      (c.kind = .text → c.operator = .matching)) ∧
    (∀ (f : Facet) (nodes : List Query) (q : Query), f.find? nodes = some q ↔
      ∃ before after, nodes = before ++ q :: after ∧ f.Filters q ∧ ∀ b ∈ before, ¬ f.Filters b) ∧
    (∀ (f : Facet) (nodes : List Query),
      f.find? nodes = none ↔ ∀ q ∈ nodes, ¬ f.Filters q) ∧
    (c.kind ≠ .text → '.' ∉ c.name.toList → '.' ∉ path.toList →
      ∀ f : Facet, f.name ≠ c.name → ¬ f.Filters (c.node path)) := by
  refine ⟨?_, fun f nodes q => Facet.findFirst, fun f nodes => Facet.findNothing,
    fun kind plain' plain f other => foreignField kind plain plain' other⟩
  calc c.facet.find? [c.node path] = some (c.node path)
      ↔ c.facet.Filters (c.node path) := Facet.findAlone
    _ ↔ Text.Second '.' c.name.toList (fieldPath path c.facet.vocabulary).toList ∧
          (c.kind = .text → c.operator = .matching) := ownField c path
    _ ↔ '.' ∉ c.name.toList ∧
          ('.' ∉ path.toList ∨ Text.Second '.' c.name.toList path.toList) ∧
          (c.kind = .text → c.operator = .matching) := by
        rw [name, Facet.name, fieldNames, and_assoc]

end Criterion
end FacetSearch
