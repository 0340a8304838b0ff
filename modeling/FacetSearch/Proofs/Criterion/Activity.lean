import FacetSearch.Proofs.Criterion.Restoring

/-! Which comparisons restrict the field of a fresh criterion that is restored from them. For terms
any scalar counts and for words one that is not blank. A range is taken from few operators and from
the places where each has its bounds; what other comparisons say of the field is not read. -/
namespace FacetSearch

/-- A scalar whose text is not blank. -/
def Value.restricts (v : Value) : Bool :=
  v.text?.any fun text => !Text.allBlank text

/-- The items of a list, or the one argument. -/
def argValues : Option Value → List Value
  | some (.list items) => items
  | arg => arg.toList

namespace Query

/-- Where a comparison has what it compares its field with. -/
def place (q : Query) : Kind → List Value
  | .text => q.args[0]?.toList
  | .terms | .numeric => argValues q.args[1]?

/-- What a comparison has for bounds of a range. -/
def bounds (q : Query) : List Value :=
  match q.operator with
  | .atLeast | .atMost => q.args[1]?.toList
  | .between => (argItems q.args[1]?).take 2
  | _ => []

def restricts (q : Query) : Kind → Bool
  | .terms => (q.place .terms).any fun v => v.text?.isSome
  | .numeric => q.bounds.any Value.restricts
  | .text => (q.place .text).any Value.restricts

theorem placeRestricts {q : Query} {kind : Kind} (other : kind ≠ .numeric)
    (h : (q.place kind).any Value.restricts = true) : q.restricts kind = true := by
  cases kind with
  | numeric => exact absurd rfl other
  | text => exact h
  | terms =>
    obtain ⟨v, member, filled⟩ := List.any_eq_true.mp h
    refine List.any_eq_true.mpr ⟨v, member, ?_⟩
    cases text : v.text? with
    | none => simp [Value.restricts, text] at filled
    | some _ => rfl

end Query

theorem argTextFilled (arg : Option Value) :
    (!Text.allBlank (argText arg)) = arg.toList.any Value.restricts := by
  cases arg with
  | none => rfl
  | some v =>
    rw [Option.toList_some, List.any_cons, List.any_nil, Bool.or_false]
    cases v <;> rfl

theorem argTextsFilled (arg : Option Value) :
    (!(argTexts arg).isEmpty) = (argValues arg).any fun v => v.text?.isSome := by
  cases arg with
  | none => rfl
  | some v =>
    cases v with
    | list items =>
      change (!(items.filterMap Value.text?).isEmpty) = items.any fun v => v.text?.isSome
      induction items with
      | nil => rfl
      | cons v vs ih => cases text : v.text? <;> simp_all
    | _ => rfl

theorem boundsRestrict (items : List Value) :
    (items[0]?.toList.any Value.restricts || items[1]?.toList.any Value.restricts) =
      (items.take 2).any Value.restricts := by
  match items with
  | [] => rfl
  | [v] => simp
  | v :: w :: rest => simp

theorem boundsNone {op : Operator} (args : List Value) (h : op ∉ [.atLeast, .atMost, .between]) :
    (Query.mk op args).bounds = [] := by
  simp only [Query.bounds]
  split
  · exact absurd h (by decide)
  · exact absurd h (by decide)
  · exact absurd h (by decide)
  · rfl

namespace Selection

theorem rangeSet (low high : String) :
    (range low high).isSet = (!Text.allBlank low || !Text.allBlank high) := by
  simp [isSet, Bool.not_and]

theorem rangeRead (v : Vocabulary) (q : Query) :
    (ofNode v q (.range "" "")).isSet = q.restricts .numeric := by
  obtain ⟨op, args⟩ := q
  by_cases bounded : op ∈ [.atLeast, .atMost, .between]
  · simp only [List.mem_cons, List.not_mem_nil, or_false] at bounded
    rcases bounded with rfl | rfl | rfl
    · change _ = args[1]?.toList.any Value.restricts
      rw [lowOfNode, rangeSet, argTextFilled, Text.allBlankEmpty, Bool.not_true, Bool.or_false]
    · change _ = args[1]?.toList.any Value.restricts
      rw [highOfNode, rangeSet, argTextFilled, Text.allBlankEmpty, Bool.not_true, Bool.false_or]
    · rw [bothOfNode, rangeSet, argTextFilled, argTextFilled]
      exact boundsRestrict (argItems args[1]?)
  · rw [otherOfNode v args _ bounded, Query.restricts, boundsNone args bounded]
    rfl

end Selection

theorem Criterion.restoredActive (f : Facet) (q : Query) :
    ((fresh f).restore q).isActive = (q.operator.isPresence || q.restricts f.kind) := by
  obtain ⟨v, kind, classified⟩ := f
  change (q.operator.isPresence || ((Selection.empty kind).ofNode v q).isSet) = _
  cases presence : q.operator.isPresence with
  | true => rfl
  | false =>
    rw [Bool.false_or, Bool.false_or]
    cases kind with
    | terms =>
      simp only [Selection.empty, Selection.ofNode, presence, Bool.false_eq_true, if_false]
      exact argTextsFilled q.args[1]?
    | numeric => exact Selection.rangeRead v q
    | text => exact argTextFilled q.args[0]?

end FacetSearch
