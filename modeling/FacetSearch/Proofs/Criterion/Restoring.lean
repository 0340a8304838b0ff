import FacetSearch.Criterion.Basic
import FacetSearch.Proofs.Text.Opening

/-! Restoring a criterion from its own node. The node keeps what the next node is made of, although
not the whole state: bounds come back as clamped decimals and a full selection comes back as every
term. Main statement: writing, restoring and writing again gives the same node. -/
namespace FacetSearch

theorem Facet.eqOfVocabulary {f g : Facet} (h : f.vocabulary = g.vocabulary) : f = g := by
  have left : ofVocabulary? g.vocabulary = some f := ofVocabularyEqSome.mpr h
  have right : ofVocabulary? g.vocabulary = some g := ofVocabularyEqSome.mpr rfl
  exact Option.some.inj (left.symm.trans right)

theorem termsFilled {v : Vocabulary} (h : v.kind? = some .terms) : v.termNames ≠ [] := by
  unfold Vocabulary.kind? at h
  split at h
  · rename_i filled
    simpa [Vocabulary.termNames] using filled
  · split at h
    · cases h
    · split at h <;> cases h

theorem argTextsOfStrings (names : List String) :
    argTexts (some (.list (names.map .string))) = names := by
  simp [argTexts, List.filterMap_map, Function.comp_def, Value.text?]

/-- A bound is written as a decimal or `NaN`, and either reads as the bound that was written. -/
theorem boundAgain (bound : String) :
    Text.allBlank (argText (some (boundValue bound))) = false ∧
    boundValue (argText (some (boundValue bound))) = boundValue bound := by
  unfold boundValue
  cases Text.leadingInteger? bound with
  | some n =>
    refine ⟨Text.decimalNotBlank n, ?_⟩
    simp only [argText, Option.bind_some, Value.text?, Option.getD_some, Text.leadingOfDecimal]
  | none => exact ⟨rfl, rfl⟩

namespace Selection

theorem wholeComplete (v : Vocabulary) : isComplete v v.termNames = true := by
  simp [isComplete, Vocabulary.termNames]

theorem completeOperator {v : Vocabulary} {names : List String} (h : isComplete v names = true)
    (op : Operator) : (termsOperator v op names).isPresence = true := by
  rw [termsOperator, if_pos h]
  split
  · assumption
  · rfl

theorem partialOperator {v : Vocabulary} {names : List String} (h : isComplete v names = false)
    (op : Operator) : (termsOperator v op names).isMembership = true := by
  rw [termsOperator, if_neg (by simp [h])]
  split
  · assumption
  · rfl

theorem membershipNotPresence {op : Operator} (h : op.isMembership = true) :
    op.isPresence = false := by
  cases presence : op.isPresence with
  | false => rfl
  | true => exact absurd h (by simp [Operator.presenceNotMembership presence])

theorem completeKept {v : Vocabulary} {names : List String} {op : Operator}
    (all : isComplete v names = true) (presence : op.isPresence = true) :
    termsOperator v op names = op := by
  rw [termsOperator, if_pos all, if_pos presence]

theorem partialKept {v : Vocabulary} {names : List String} {op : Operator}
    (lacking : isComplete v names = false) (membership : op.isMembership = true) :
    termsOperator v op names = op := by
  rw [termsOperator, if_neg (by simp [lacking]), if_pos membership]

theorem termsRestored (v : Vocabulary) (path : String) (op : Operator) (names old : List String) :
    (ofNode v (termsNode v path op names) (.terms old)).node v path
      (termsNode v path op names).operator = termsNode v path op names := by
  cases complete : isComplete v names with
  | true =>
    have presence := completeOperator complete op
    have again := completeKept (wholeComplete v) presence
    simp only [ofNode, node, termsNode, presence, if_true, again]
  | false =>
    have membership := partialOperator complete op
    have listed := membershipNotPresence membership
    have again := partialKept complete membership
    simp [ofNode, node, termsNode, listed, again, argTextsOfStrings]

section
variable (v : Vocabulary) (args : List Value) (old : Selection .numeric)

theorem lowOfNode : ofNode v ⟨.atLeast, args⟩ old = .range (argText args[1]?) "" := by
  cases old
  rfl

theorem highOfNode : ofNode v ⟨.atMost, args⟩ old = .range "" (argText args[1]?) := by
  cases old
  rfl

theorem bothOfNode : ofNode v ⟨.between, args⟩ old =
    .range (argText (argItems args[1]?)[0]?) (argText (argItems args[1]?)[1]?) := by
  cases old
  rfl

theorem otherOfNode {op : Operator} (h : op ∉ [.atLeast, .atMost, .between]) :
    ofNode v ⟨op, args⟩ old = old := by
  cases old
  simp only [ofNode]
  split
  · exact absurd h (by decide)
  · exact absurd h (by decide)
  · exact absurd h (by decide)
  · rfl

end

theorem presenceNotBound {op : Operator} (h : op.isPresence = true) :
    op ∉ [.atLeast, .atMost, .between] := by
  simp only [Operator.isPresence, Bool.or_eq_true, beq_iff_eq] at h
  rcases h with rfl | rfl <;> decide

theorem openRange (v : Vocabulary) (path : String) (op : Operator) :
    ofNode v ⟨op, [.string path, .list []]⟩ (.range "" "") = .range "" "" := by
  simp only [ofNode]
  split <;> rfl

theorem lowNode (path : String) {low : String} (filled : Text.allBlank low = false) :
    rangeNode path .atLeast low "" = ⟨.atLeast, [.string path, boundValue low]⟩ := by
  rw [rangeNode, if_neg (by decide), filled, Text.allBlankEmpty]

theorem highNode (path : String) {high : String} (filled : Text.allBlank high = false) :
    rangeNode path .atMost "" high = ⟨.atMost, [.string path, boundValue high]⟩ := by
  rw [rangeNode, if_neg (by decide), filled, Text.allBlankEmpty]

theorem bothNode (path : String) {low high : String} (filled : Text.allBlank low = false)
    (filled' : Text.allBlank high = false) : rangeNode path .between low high =
      ⟨.between, [.string path, .list [boundValue low, boundValue high]]⟩ := by
  rw [rangeNode, if_neg (by decide), filled, filled']

theorem rangeRestored (v : Vocabulary) (path : String) (op : Operator) (low high : String)
    (old : Selection .numeric)
    (state : op.isPresence = true ∨ (range low high).isSet = true ∨ old = .range "" "") :
    (ofNode v (rangeNode path op low high) old).node v path (rangeNode path op low high).operator
      = rangeNode path op low high := by
  unfold rangeNode
  split
  · rename_i presence
    rw [otherOfNode v _ old (presenceNotBound presence)]
    cases old
    simp only [node, rangeNode, if_pos presence]
  · rename_i comparing
    split
    · rename_i blank blank'
      have fresh : old = .range "" "" := by simpa [comparing, isSet, blank, blank'] using state
      rw [fresh, openRange]
      simp [node, rangeNode, comparing, Text.allBlankEmpty]
    · obtain ⟨filled, same⟩ := boundAgain low
      rw [lowOfNode]
      exact (lowNode path filled).trans (by rw [same])
    · obtain ⟨filled, same⟩ := boundAgain high
      rw [highOfNode]
      exact (highNode path filled).trans (by rw [same])
    · obtain ⟨filled, same⟩ := boundAgain low
      obtain ⟨filled', same'⟩ := boundAgain high
      rw [bothOfNode]
      exact (bothNode path filled filled').trans (by rw [same, same'])

theorem wordsRestored (v : Vocabulary) (path : String) (op : Operator) (text : String)
    (old : Selection .text) :
    (ofNode v (wordsNode path op text) old).node v path (wordsNode path op text).operator
      = wordsNode path op text := by
  cases old
  change wordsNode path op (if Text.allBlank text then "" else text) = wordsNode path op text
  unfold wordsNode
  cases blank : Text.allBlank text with
  | true => simp [Text.allBlankEmpty]
  | false => simp [blank]

end Selection

namespace Criterion

theorem nodeAgain (c d : Criterion) (path : String) (same : d.facet = c.facet)
    (state : c.isActive = true ∨ d = fresh d.facet) :
    (d.restore (c.node path)).node path = c.node path := by
  obtain ⟨⟨v, kind, classified⟩, op, selection⟩ := c
  obtain ⟨f, op', old⟩ := d
  cases same
  cases selection with
  | terms names =>
    cases old with
    | terms before => exact Selection.termsRestored v (fieldPath path v) op names before
  | range low high =>
    refine Selection.rangeRestored v (fieldPath path v) op low high old ?_
    rcases state with active | unset
    · exact (Bool.or_eq_true_iff.mp active).imp_right .inl
    · simp only [fresh, Selection.empty, mk.injEq, true_and, heq_eq_eq] at unset
      exact .inr (.inr unset.2)
  | words text => exact Selection.wordsRestored v (fieldPath path v) op text old

/-- A fresh state, which has nothing to lose, also takes over an inactive node. -/
theorem nodeRestored (c d : Criterion) (path : String)
    (same : d.facet.vocabulary = c.facet.vocabulary)
    (state : c.isActive = true ∨ d = fresh d.facet) :
    (d.restore (c.node path)).node path = c.node path :=
  nodeAgain c d path (Facet.eqOfVocabulary same) state

def ageFacet : Facet :=
  ⟨⟨"age", .empty, none, [⟨"type", "integer"⟩]⟩, .numeric, by decide⟩

/-- One bound is out of range and the other is no number; the older state has bounds of its own. -/
theorem nodeRestoredClamped :
    let c : Criterion := ⟨ageFacet, .present, .range " +99999999999999999999 years" "many"⟩
    let c' := c.setOperator .oneOf
    let c'' := c'.enter (.range " +99999999999999999999 years" "many")
    let d : Criterion := ⟨ageFacet, .atMost, .range "7" "8"⟩
    c''.isActive = true ∧
    c''.node "Mica" = ⟨.between, [.string "Mica.age",
      .list [.integer 9223372036854775807, .notANumber]]⟩ ∧
    (d.restore (c''.node "Mica")).node "Mica" = c''.node "Mica" := by
  intro c c' c'' d
  exact ⟨by decide, by decide, nodeRestored c'' d "Mica" rfl (.inl (by decide))⟩

theorem restoredListed (d : Criterion) {q : Query} (active : (d.restore q).isActive = true)
    (terms : d.kind = .terms) : (d.restore q).selection.isSet = true := by
  obtain ⟨⟨v, kind, classified⟩, op, selection⟩ := d
  cases selection with
  | terms names =>
    cases presence : q.operator.isPresence with
    | true =>
      simpa [restore, Selection.ofNode, presence, Selection.isSet] using termsFilled classified
    | false => simpa [isActive, restore, presence] using active
  | range low high => cases terms
  | words text => cases terms

/-- A presence operator on an empty list of terms would be written as that list. -/
theorem activeAgain (c d : Criterion) (path : String) (same : d.facet = c.facet)
    (active : c.isActive = true) (listed : c.kind = .terms → c.selection.isSet = true) :
    (d.restore (c.node path)).isActive = true := by
  obtain ⟨⟨v, kind, classified⟩, op, selection⟩ := c
  obtain ⟨f, op', old⟩ := d
  cases same
  cases selection with
  | terms names =>
    have filled : (Selection.terms names).isSet = true := listed rfl
    cases old with
    | terms before =>
      cases complete : Selection.isComplete v names with
      | true =>
        have presence := Selection.completeOperator complete op
        exact Bool.or_eq_true_iff.mpr (.inl presence)
      | false =>
        have plain := Selection.membershipNotPresence (Selection.partialOperator complete op)
        simpa [isActive, restore, node, Selection.node, Selection.termsNode, plain,
          Selection.ofNode, argTextsOfStrings] using filled
  | range low high =>
    cases old with
    | range low' high' =>
      simp only [node, Selection.node, Selection.rangeNode]
      split
      · rename_i presence
        exact Bool.or_eq_true_iff.mpr (.inl presence)
      · rename_i comparing
        split
        · rename_i blank blank'
          exact absurd active (by simp [isActive, comparing, Selection.isSet, blank, blank'])
        · simp [isActive, restore, Selection.lowOfNode, Selection.isSet, (boundAgain low).1]
        · simp [isActive, restore, Selection.highOfNode, Selection.isSet, (boundAgain high).1]
        · simp [isActive, restore, Selection.bothOfNode, Selection.isSet, argItems,
            (boundAgain low).1]
  | words text =>
    cases old with
    | words text' =>
      rcases Bool.or_eq_true_iff.mp active with presence | filled
      · exact Bool.or_eq_true_iff.mpr (.inl presence)
      · have solid : Text.allBlank text = false := by simpa [Selection.isSet] using filled
        simp [isActive, restore, node, Selection.node, Selection.wordsNode, Selection.ofNode,
          Selection.isSet, argText, Value.text?, solid]

end Criterion
end FacetSearch
