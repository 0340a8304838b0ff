import FacetSearch.Criterion.Basic
import FacetSearch.Proofs.Criterion.Restoring

/-! Presence operators that are set and presence comparisons that are taken over. Both give terms
and words the same selection. A range keeps the bounds it had when it takes a presence comparison
over; they do not show until the operator changes again. Main statement: in which states the two
agree, and in which no edit that follows tells them apart. -/
namespace FacetSearch

theorem Selection.presenceKept {v : Vocabulary} {op : Operator} (presence : op.isPresence = true)
    (path : String) {names : List String} (all : isComplete v names = true) :
    termsNode v path op names = ⟨op, [.string path]⟩ := by
  simp [termsNode, completeKept all presence, presence]

theorem Selection.boundsOverwritten {op : Operator} (bounded : op ∈ [.atLeast, .atMost, .between])
    (v : Vocabulary) (args : List Value) (s t : Selection .numeric) :
    ofNode v ⟨op, args⟩ s = ofNode v ⟨op, args⟩ t := by
  simp only [List.mem_cons, List.not_mem_nil, or_false] at bounded
  rcases bounded with rfl | rfl | rfl
  · rw [lowOfNode, lowOfNode]
  · rw [highOfNode, highOfNode]
  · rw [bothOfNode, bothOfNode]

def presenceArgs (path : String) : Kind → List Value
  | .terms => [.string path]
  | .numeric => [.string path, .list []]
  | .text => [.string "*", .string path]

namespace Criterion

theorem presenceNode (c : Criterion) {op : Operator} (presence : op.isPresence = true)
    (taxonomy : String) : (c.setOperator op).node taxonomy =
      ⟨op, presenceArgs (fieldPath taxonomy c.facet.vocabulary) c.facet.kind⟩ := by
  obtain ⟨⟨v, kind, classified⟩, before, selection⟩ := c
  simp only [setOperator, presence, if_true, node]
  cases selection with
  | terms names => exact Selection.presenceKept presence _ (Selection.wholeComplete v)
  | range low high => exact if_pos presence
  | words text => rfl

theorem presenceTaken (d : Criterion) {op : Operator} (presence : op.isPresence = true)
    (path : String) : d.restore ⟨op, presenceArgs path d.facet.kind⟩ =
      if d.kind = .numeric then { d with operator := op } else d.setOperator op := by
  obtain ⟨⟨v, kind, classified⟩, before, selection⟩ := d
  cases selection with
  | terms names => simp [restore, setOperator, kind, Selection.ofNode, Selection.whole, presence]
  | range low high =>
    have kept := Selection.otherOfNode v (presenceArgs path .numeric) (.range low high)
      (Selection.presenceNotBound presence)
    simp [restore, kind, kept]
  | words text =>
    simp [restore, setOperator, kind, Selection.ofNode, Selection.whole, presence, presenceArgs,
      argText, Value.text?]

theorem leftoverEqual {d : Criterion} (numeric : d.kind = .numeric) {op : Operator}
    (presence : op.isPresence = true) :
    { d with operator := op } = d.setOperator op ↔ d.selection = .empty d.facet.kind := by
  obtain ⟨⟨v, kind, classified⟩, before, selection⟩ := d
  cases numeric
  simp [setOperator, presence, Selection.whole, Selection.empty]

def run (c : Criterion) (edits : List Edit) : Criterion :=
  edits.foldl edit c

/-- States of one criterion that differ at most in the blanks of an open range. -/
inductive Alike : Criterion → Criterion → Prop where
  | same (c : Criterion) : Alike c c
  | unbounded {f : Facet} {op : Operator} {s t : Selection f.kind} (numeric : f.kind = .numeric)
      (unset : s.isSet = false) (unset' : t.isSet = false) : Alike ⟨f, op, s⟩ ⟨f, op, t⟩

/-- Nothing that is written or shown tells two states apart, whatever edits follow. -/
def Interchangeable (c d : Criterion) : Prop :=
  ∀ edits, (c.run edits).operator = (d.run edits).operator ∧
    (c.run edits).isActive = (d.run edits).isActive ∧
    (∀ path, (c.run edits).node path = (d.run edits).node path) ∧
    ∀ localize, (c.run edits).display localize = (d.run edits).display localize

theorem alikeEdit {c d : Criterion} (alike : Alike c d) (e : Edit) :
    Alike (c.edit e) (d.edit e) := by
  cases alike with
  | same => exact .same _
  | @unbounded f op s t numeric unset unset' =>
    obtain ⟨v, kind, classified⟩ := f
    cases numeric
    cases e with
    | operator op' =>
      simp only [edit, setOperator]
      split
      · exact .same _
      · exact .unbounded rfl unset unset'
    | enter entry =>
      cases s
      cases t
      cases entry with
      | range low high => exact .same _
      | terms names => exact .unbounded rfl unset unset'
      | words text => exact .unbounded rfl unset unset'
    | restore q =>
      obtain ⟨op', args⟩ := q
      simp only [edit, restore]
      by_cases bounded : op' ∈ [.atLeast, .atMost, .between]
      · rw [Selection.boundsOverwritten bounded v args s t]
        exact .same _
      · rw [Selection.otherOfNode v args s bounded, Selection.otherOfNode v args t bounded]
        exact .unbounded rfl unset unset'

theorem alikeRun {c d : Criterion} (alike : Alike c d) (edits : List Edit) :
    Alike (c.run edits) (d.run edits) := by
  induction edits generalizing c d with
  | nil => exact alike
  | cons e edits ih => exact ih (alikeEdit alike e)

theorem alikeShown {c d : Criterion} (alike : Alike c d) :
    c.operator = d.operator ∧ c.isActive = d.isActive ∧
    (∀ path, c.node path = d.node path) ∧ ∀ localize, c.display localize = d.display localize := by
  cases alike with
  | same => exact ⟨rfl, rfl, fun _ => rfl, fun _ => rfl⟩
  | @unbounded f op s t numeric unset unset' =>
    obtain ⟨v, kind, classified⟩ := f
    cases numeric
    cases s with
    | range low high =>
      cases t with
      | range low' high' =>
        simp only [Selection.isSet, Bool.not_eq_false', Bool.and_eq_true] at unset unset'
        simp [isActive, node, display, Selection.isSet, Selection.node, Selection.rangeNode,
          Selection.display, Selection.rangeText, unset, unset']

theorem alikeInterchangeable {c d : Criterion} (alike : Alike c d) : c.Interchangeable d :=
  fun edits => alikeShown (alikeRun alike edits)

theorem leftoverAlike {d : Criterion} (numeric : d.kind = .numeric) {op : Operator}
    (presence : op.isPresence = true) :
    Interchangeable { d with operator := op } (d.setOperator op) ↔ d.selection.isSet = false := by
  obtain ⟨⟨v, kind, classified⟩, before, selection⟩ := d
  cases numeric
  simp only [setOperator, presence, if_true, Selection.whole]
  constructor
  · intro same
    -- bounds that were left behind show once the operator gives way to a range again
    have shown := (same [.operator .between]).2.1
    have plain : Operator.between.isPresence = false := rfl
    simpa [run, edit, setOperator, isActive, plain, Selection.isSet, Text.allBlankEmpty] using shown
  · intro unset
    exact alikeInterchangeable (.unbounded rfl unset rfl)

theorem presenceIngested (c d : Criterion) {op : Operator} (presence : op.isPresence = true)
    (same : d.facet.vocabulary = c.facet.vocabulary) (path : String) :
    let taken := d.restore ((c.setOperator op).node path)
    let set := d.setOperator op
    (taken = if d.kind = .numeric then { d with operator := op } else set) ∧
    (taken = set ↔ d.kind ≠ .numeric ∨ d.selection = .empty d.facet.kind) ∧
    (taken.Interchangeable set ↔ d.kind ≠ .numeric ∨ d.selection.isSet = false) := by
  intro taken set
  have taking : taken = if d.kind = .numeric then { d with operator := op } else set := by
    have facet : d.facet = c.facet := Facet.eqOfVocabulary same
    change d.restore ((c.setOperator op).node path) = _
    rw [presenceNode c presence, ← facet]
    exact presenceTaken d presence (fieldPath path d.facet.vocabulary)
  refine ⟨taking, ?_⟩
  by_cases numeric : d.kind = .numeric
  · rw [taking, if_pos numeric]
    exact ⟨by simpa [numeric] using leftoverEqual numeric presence,
      by simpa [numeric] using leftoverAlike numeric presence⟩
  · rw [taking, if_neg numeric]
    exact ⟨by simp [numeric], by simpa [numeric] using alikeInterchangeable (.same set)⟩

theorem presenceIngestedBlank :
    let d := (fresh ageFacet).run [.enter (.range " " "")]
    let taken := d.restore (((fresh ageFacet).setOperator .missing).node "Mica")
    Operator.missing.isPresence = true ∧
    d.facet.vocabulary = (fresh ageFacet).facet.vocabulary ∧
    taken ≠ d.setOperator .missing ∧ taken.Interchangeable (d.setOperator .missing) := by
  intro d taken
  have presence : Operator.missing.isPresence = true := rfl
  obtain ⟨_, _, alike⟩ := presenceIngested (fresh ageFacet) d presence rfl "Mica"
  exact ⟨presence, rfl, by decide, alike.mpr (.inr (by decide))⟩

/-- Bounds are left behind, and come back with the next operator. -/
theorem presenceLeavesBounds :
    let d := (fresh ageFacet).run [.enter (.range "1" "9")]
    let taken := d.restore (((fresh ageFacet).setOperator .missing).node "Mica")
    let set := d.setOperator .missing
    taken = ⟨ageFacet, .missing, .range "1" "9"⟩ ∧ set = ⟨ageFacet, .missing, .range "" ""⟩ ∧
    taken ≠ set ∧
    (taken.run [.operator .between]).node "Mica" =
      ⟨.between, [.string "Mica.age", .list [.integer 1, .integer 9]]⟩ ∧
    (set.run [.operator .between]).node "Mica" = ⟨.between, [.string "Mica.age", .list []]⟩ := by
  decide

end Criterion
end FacetSearch
