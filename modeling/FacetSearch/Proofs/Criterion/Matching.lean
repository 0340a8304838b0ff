import FacetSearch.Proofs.Criterion.Node
import FacetSearch.Proofs.Criterion.Restoring

/-! Which facets accept the comparison that a criterion is written as. Where the prefix of the field
path has no dot of its own, the path names the criterion's vocabulary. So a criterion restored from
a comparison is written as one that its facet accepts, and that no facet accepts which did not
accept the comparison before. -/
namespace FacetSearch

theorem pathNamePlain {text : String} (plain : '.' ∉ text.toList) :
    Facet.pathName? (some (.string text)) = none := by
  simp [Facet.pathName?, Text.piecesOfFree _ plain]

theorem pathNameFree {arg : Option Value} {name : String} (h : Facet.pathName? arg = some name) :
    '.' ∉ name.toList := by
  unfold Facet.pathName? at h
  split at h
  · obtain ⟨piece, second, rfl⟩ := Option.map_eq_some_iff.mp h
    rw [String.toList_ofList]
    exact Text.piecesFree (List.mem_of_getElem? second)
  · cases h

theorem pathNameOfField {path : String} {v : Vocabulary} (plain : '.' ∉ path.toList)
    (plain' : '.' ∉ v.name.toList) :
    Facet.pathName? (some (.string (fieldPath path v))) = some v.name := by
  have cut : (fieldPath path v).toList = path.toList ++ '.' :: v.name.toList := by
    simp [fieldPath, String.toList_append]
  rw [Facet.pathName?, cut, Text.piecesAppend _ _ plain, Text.piecesOfFree _ plain']
  simp

theorem pathNameOfText (arg : Option Value) :
    Facet.pathName? (some (.string (argText arg))) = Facet.pathName? arg := by
  cases arg with
  | none => exact @pathNamePlain "" (by decide)
  | some v =>
    cases v with
    | string text => rfl
    | integer n =>
      refine @pathNamePlain (String.ofList (Text.decimal n)) fun dot => ?_
      rw [String.toList_ofList] at dot
      rcases Text.decimalChars dot with minus | digit
      · cases minus
      · exact absurd digit (by decide)
    | notANumber => exact @pathNamePlain "NaN" (by decide)
    | list items => exact @pathNamePlain "" (by decide)
    | node op args => exact @pathNamePlain "" (by decide)

namespace Facet

theorem acceptsField {f : Facet} (kind : f.kind ≠ .text) (q : Query) :
    f.accepts q = true ↔ pathName? q.args[0]? = some f.name := by
  unfold accepts
  split
  · exact beq_iff_eq
  · exact beq_iff_eq
  · rename_i text
    exact absurd text kind

theorem acceptsWords {f : Facet} (kind : f.kind = .text) (q : Query) :
    f.accepts q = true ↔ q.operator = .matching ∧ pathName? q.args[1]? = some f.name := by
  simp [accepts, kind]

theorem acceptedPlain {f : Facet} {q : Query} (h : f.accepts q = true) : '.' ∉ f.name.toList := by
  by_cases kind : f.kind = .text
  · exact pathNameFree ((acceptsWords kind q).mp h).2
  · exact pathNameFree ((acceptsField kind q).mp h)

end Facet

namespace Criterion

/-- Behind the field path there is no other text, so terms and ranges do not pass for words. -/
theorem secondUnnamed (c : Criterion) (path : String) (kind : c.kind ≠ .text) :
    Facet.pathName? (c.node path).args[1]? = none := by
  obtain ⟨rest, args, scalar⟩ := fieldArgs c path kind
  rw [args]
  cases rest with
  | none => rfl
  | some v =>
    cases v with
    | string text => exact absurd (scalar _ rfl).2 (by simp [Value.string?])
    | _ => rfl

theorem restoredWords {g : Facet} (kind : g.kind = .text) (l : Query) (path : String) :
    ((fresh g).restore l).node path =
      Selection.wordsNode (fieldPath path g.vocabulary) l.operator (argText l.args[0]?) := by
  obtain ⟨v, _, classified⟩ := g
  cases kind
  rfl

section
variable {f g : Facet} {l : Query} {path : String} (plain : '.' ∉ path.toList)
  (own : g.accepts l = true)
include plain own

theorem acceptsOwn : g.accepts (((fresh g).restore l).node path) = true := by
  have field := pathNameOfField plain (Facet.acceptedPlain own)
  by_cases kind : g.kind = .text
  · rw [Facet.acceptsWords kind, restoredWords kind]
    exact ⟨((Facet.acceptsWords kind l).mp own).1, field⟩
  · obtain ⟨rest, args, _⟩ := fieldArgs ((fresh g).restore l) path kind
    rw [Facet.acceptsField kind, args]
    exact field

/-- A facet of another name can only meet the words of a text, which stood in the comparison. -/
theorem acceptsBack (found : f.accepts (((fresh g).restore l).node path) = true) :
    f.accepts l = true := by
  have field := pathNameOfField plain (Facet.acceptedPlain own)
  by_cases kind : g.kind = .text
  · obtain ⟨matching, second⟩ := (Facet.acceptsWords kind l).mp own
    rw [restoredWords kind] at found
    by_cases kind' : f.kind = .text
    · have same := field.symm.trans ((Facet.acceptsWords kind' _).mp found).2
      exact (Facet.acceptsWords kind' l).mpr ⟨matching, second.trans same⟩
    · have words := (Facet.acceptsField kind' _).mp found
      refine (Facet.acceptsField kind' l).mpr ?_
      by_cases blank : Text.allBlank (argText l.args[0]?) = true
      · simp [Selection.wordsNode, blank, pathNamePlain] at words
      · simpa [Selection.wordsNode, blank, pathNameOfText] using words
  · obtain ⟨rest, args, _⟩ := fieldArgs ((fresh g).restore l) path kind
    by_cases kind' : f.kind = .text
    · have second := ((Facet.acceptsWords kind' _).mp found).2
      rw [secondUnnamed ((fresh g).restore l) path kind] at second
      cases second
    · have first := (Facet.acceptsField kind' _).mp found
      rw [args] at first
      have same := field.symm.trans first
      exact (Facet.acceptsField kind' l).mpr (((Facet.acceptsField kind l).mp own).trans same)

end
end Criterion
end FacetSearch
