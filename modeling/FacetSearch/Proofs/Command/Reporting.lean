import FacetSearch.Proofs.Command.Editing
import FacetSearch.Proofs.Command.Rebuilding

/-! Reported queries as query text. Names, prefixes and values are encoded, operators are written as
they are: those of leaves that were read are words, and so are those that a kind puts in place of
them, but an operator that is given to a command may be any text. Main statement: a report is read
back as its node unless such an operator is no word and stands in the node. -/
namespace FacetSearch

namespace Criterion

theorem nodeReads (c : Criterion) (path : String) :
    Query.parse (c.node path).render = .ok (c.node path) ↔ (c.node path).operator.WellNamed := by
  have named : (c.node path).WellNamed ↔ (c.node path).operator.WellNamed := by
    unfold Query.WellNamed Query.toValue
    rw [Value.operators, nodeOperators]
    simp [AllNamed]
  exact (parseRenderExactly (c.node path)).1.trans named

theorem presenceNamed {op : Operator} (h : op.isPresence = true) : op.WellNamed := by
  simp only [Operator.isPresence, Bool.or_eq_true, beq_iff_eq] at h
  rcases h with rfl | rfl
  · exact knownNamed _ (by decide)
  · exact knownNamed _ (by decide)

/-- Terms put a known operator in the place of any other, ranges do where a bound is given. -/
theorem writtenNamed (c : Criterion) (path : String) : (c.node path).operator.WellNamed ↔
    c.operator.WellNamed ∨ c.kind = .terms ∨ c.kind = .numeric ∧ c.isActive = true := by
  obtain ⟨⟨v, kind, classified⟩, op, selection⟩ := c
  cases selection with
  | terms names =>
    have known := knownNamed _ (termsOperatorKnown v op names)
    exact ⟨fun _ => .inr (.inl rfl), fun _ => known⟩
  | words text => simp [node, Selection.node, Selection.wordsNode, kind]
  | range low high =>
    have atLeast := knownNamed .atLeast (by decide)
    have atMost := knownNamed .atMost (by decide)
    have between := knownNamed .between (by decide)
    cases presence : op.isPresence with
    | true =>
      have named := presenceNamed presence
      simp [node, Selection.node, Selection.rangeNode, presence, named]
    | false =>
      cases lowOpen : Text.allBlank low <;> cases highOpen : Text.allBlank high <;>
        simp [node, Selection.node, Selection.rangeNode, presence, lowOpen, highOpen, kind,
          isActive, Selection.isSet, atLeast, atMost, between]

theorem defaultNamed (kind : Kind) : kind.defaultOperator.WellNamed := by
  cases kind
  · exact knownNamed .oneOf (by decide)
  · exact knownNamed .between (by decide)
  · exact knownNamed .matching (by decide)

theorem ofNodesNamed {f : Facet} {nodes : List Query} (named : ∀ l ∈ nodes, l.WellNamed) :
    (ofNodes f nodes).operator.WellNamed := by
  unfold ofNodes
  split
  · rename_i l found
    have inside := named l (List.mem_of_find?_eq_some found)
    exact (List.forall_mem_cons.mp inside).1
  · exact defaultNamed f.kind

end Criterion

namespace Report

theorem criterionReads (localize : Localizer) (path : String) (c : Criterion) :
    let r := ofCriterion localize path c
    Query.parse r.query = .ok r.node ↔
      c.operator.WellNamed ∨ r.kind = .terms ∨ r.kind = .numeric ∧ r.active = true :=
  (Criterion.nodeReads c path).trans (Criterion.writtenNamed c path)

end Report

namespace Command
open CriteriaSet

theorem sourceNamed {query : Option String} {source : Option Query}
    (read : readSource query = .ok source) : ∀ l ∈ sourceLeaves source, l.WellNamed := by
  rcases readSourceOk.mp read with ⟨_, rfl⟩ | ⟨text, q, _, rfl, parsed⟩
  · exact List.forall_mem_nil _
  · exact leavesNamed q.toValue (parsedNamed parsed)

theorem editReads {s : Settings} {t : Taxonomy} {vocabulary : String}
    {query operator taxonomy : Option String} {values : List String} {r : Report}
    (edited : edit s t vocabulary query operator values taxonomy = .ok r) :
    Query.parse r.query = .ok r.node ↔
      (∀ name, operator = some name → Operator.WellNamed ⟨name⟩) ∨
        r.kind = .terms ∨ r.kind = .numeric ∧ r.active = true := by
  obtain ⟨f, source, c, _, read, set, rfl⟩ := editOk.mp edited
  have own : c.operator.WellNamed ↔ ∀ name, operator = some name → Operator.WellNamed ⟨name⟩ := by
    rw [(appliedKeeps set).2]
    cases operator with
    | none => simpa using Criterion.ofNodesNamed (sourceNamed read)
    | some name => simp
  exact (Report.criterionReads s.localizer _ c).trans (or_congr own Iff.rfl)

theorem builtReads {s : Settings} {t : Taxonomy} {query taxonomy : Option String} {b : BuildReport}
    (built : build s t query taxonomy = .ok b) :
    ∀ r ∈ b.criteria, Query.parse r.query = .ok r.node := by
  obtain ⟨source, read, rfl⟩ := builtOk.mp built
  intro r member
  obtain ⟨c, among, rfl⟩ := List.mem_map.mp member
  obtain ⟨e, entry, rfl⟩ := List.mem_map.mp among
  obtain ⟨f, _, rfl⟩ := builtEntry entry
  rw [restoredEq]
  exact (Report.criterionReads s.localizer _ _).mpr
    (.inl (Criterion.ofNodesNamed (sourceNamed read)))

theorem builtQueryReads {s : Settings} {t : Taxonomy} {query taxonomy : Option String}
    {b : BuildReport} {u : String} (built : build s t query taxonomy = .ok b)
    (given : b.query = some u) : ∃ q, b.query? = some q ∧ Query.parse u = .ok q ∧ q.render = u := by
  obtain ⟨source, read, rfl⟩ := builtOk.mp built
  obtain ⟨q, written, rfl⟩ := Option.map_eq_some_iff.mp given
  refine ⟨q, written, parseRendered ?_, rfl⟩
  rcases readSourceOk.mp read with ⟨_, rfl⟩ | ⟨text, p, _, rfl, parsed⟩
  · rw [builtKept] at written
    cases written
  · exact builtNamed (parsedNamed parsed) written

/-- Only the operator given to an edit can be no word. Terms never write it, ranges write it only
while they are open on both sides. -/
theorem reportsRead (s : Settings) (t : Taxonomy) (vocabulary : String)
    (query operator : Option String) (values : List String) (taxonomy : Option String) :
    (∀ r, edit s t vocabulary query operator values taxonomy = .ok r →
      (Query.parse r.query = .ok r.node ↔
        (∀ name, operator = some name → Operator.WellNamed ⟨name⟩) ∨
          r.kind = .terms ∨ r.kind = .numeric ∧ r.active = true)) ∧
    (∀ r, inspect s t vocabulary query taxonomy = .ok r → Query.parse r.query = .ok r.node) ∧
    ∀ b, build s t query taxonomy = .ok b →
      (∀ r ∈ b.criteria, Query.parse r.query = .ok r.node) ∧
      ∀ u, b.query = some u → ∃ q, b.query? = some q ∧ Query.parse u = .ok q ∧ q.render = u := by
  refine ⟨fun r edited => editReads edited, fun r inspected => ?_, fun b built => ?_⟩
  · exact (editReads inspected).mpr (.inl fun name given => by cases given)
  · exact ⟨builtReads built, fun u given => builtQueryReads built given⟩

/-- An operator of two words is written as it is, and so its second word is refused. -/
theorem operatorUnread :
    ∃ r, edit .default sample "name" none (some "starts with") ["lung"] none = .ok r ∧
      r.query = "starts with(lung,Mica.name)" ∧
      Query.parse r.query = .error (.unexpected .openingBracket (.word "with")) := by
  refine ⟨_, rfl, ?_, ?_⟩ <;> decide +kernel

end Command
end FacetSearch
