import FacetSearch.Proofs.Command.Editing
import FacetSearch.Proofs.Criteria.Naming
import FacetSearch.Proofs.Criteria.Settled

/-! Building on the text that a build reports. The text reads back as the query that was written, so
the second build starts from it. Main statement: the second build reports the same text exactly when
the written query is settled. Only facets that lost their leaf and found another can prevent that.
-/
namespace FacetSearch

namespace CriteriaSet

theorem builtNamed {t : Taxonomy} {path : String} {q r : Query} (named : q.WellNamed)
    (written : (ofTaxonomy t (some q)).toQuery? path = some r) : r.WellNamed := by
  rw [builtKept] at written
  refine @keptNamed (ofTaxonomy t (some q)) path r ?_ (fun i c owner => ?_) written
  · rintro _ ⟨⟩
    exact named
  obtain ⟨bound, _⟩ := List.findIdx?_eq_some_iff_getElem.mp (ownerFirst owner)
  have leaf : (q.leaves[i], i) ∈ q.leaves.zipIdx :=
    List.mem_zipIdx_iff_getElem?.mpr (List.getElem?_eq_getElem bound)
  rw [(ownerRestored owner leaf).1]
  have inside := leavesNamed q.toValue named q.leaves[i] (List.getElem_mem bound)
  exact (List.forall_mem_cons.mp inside).1

end CriteriaSet

namespace Command
open CriteriaSet

def reportOn (s : Settings) (t : Taxonomy) (taxonomy : Option String) (q : Query) : BuildReport :=
  let set := ofTaxonomy t (some q)
  let path := pathPrefix s t taxonomy
  ⟨set.criteria.map (.ofCriterion s.localizer path), set.display s.localizer, set.toQuery? path⟩

theorem buildOk {s : Settings} {t : Taxonomy} {text : String} {taxonomy : Option String}
    {b : BuildReport} : build s t (some text) taxonomy = .ok b ↔
      ∃ q, Query.parse text = .ok q ∧ reportOn s t taxonomy q = b := by
  rw [builtOk]
  constructor
  · rintro ⟨source, read, rfl⟩
    rcases readSourceOk.mp read with ⟨missing, _⟩ | ⟨_, q, same, rfl, parsed⟩
    · cases missing
    · cases same
      exact ⟨q, parsed, rfl⟩
  · rintro ⟨q, parsed, rfl⟩
    exact ⟨some q, readSourceOk.mpr (.inr ⟨text, q, rfl, rfl, parsed⟩), rfl⟩

theorem renderInjective {q r : Query} (named : q.WellNamed) (named' : r.WellNamed)
    (same : q.render = r.render) : q = r := by
  have read := parseRendered named
  rw [same, parseRendered named'] at read
  exact (Except.ok.inj read).symm

/-- The second build never fails. Dots in the prefix and connectives that lose their leading nested
query are apart, as the field paths and the leaves then are not read as they were written. -/
theorem rebuildSettles (s : Settings) (t : Taxonomy) (text : String) (taxonomy : Option String)
    {b : BuildReport} {u : String} (built : build s t (some text) taxonomy = .ok b)
    (given : b.query = some u) :
    let path := pathPrefix s t taxonomy
    ∃ q r b', Query.parse text = .ok q ∧ Query.parse u = .ok r ∧ b.query? = some r ∧
      build s t (some u) taxonomy = .ok b' ∧
      (b'.query = some u ↔ Settled t path r fun _ => True) ∧
      ('.' ∉ path.toList →
        q.toValue.OnlyNested ∨
          (∀ i c, (ofTaxonomy t (some q)).owner? i = some c → c.isActive = true) →
        (b'.query = some u ↔ Settled t path r fun f => ¬ Keeps t path q f)) := by
  intro path
  obtain ⟨q, read, rfl⟩ := buildOk.mp built
  obtain ⟨r, written, rfl⟩ := Option.map_eq_some_iff.mp given
  have named := builtNamed (parsedNamed read) written
  have read' := parseRendered named
  have again : (reportOn s t taxonomy r).query = some r.render ↔
      Settled t path r fun _ => True := by
    rw [← settledIff]
    constructor
    · intro same
      obtain ⟨r', written', render⟩ := Option.map_eq_some_iff.mp same
      cases renderInjective (builtNamed named written') named render
      exact written'
    · intro same
      exact congrArg (Option.map Query.render) same
  refine ⟨q, r, _, read, read', written, buildOk.mpr ⟨r, read', rfl⟩, again, fun plain safe => ?_⟩
  exact again.trans (settledByLosers plain safe written)

def narrowText : String :=
  "or(and(in(Mica.sex,(male,female)),not(match(,Mica.name))),ge(Mica.age,8x),le(Mica.age,070))"

def narrowSource : Query :=
  let sex := ⟨.oneOf, [.string "Mica.sex", .list [.string "male", .string "female"]]⟩
  let name := ⟨.matching, [.string "", .string "Mica.name"]⟩
  let low := ⟨.atLeast, [.string "Mica.age", .string "8x"]⟩
  let high := ⟨.atMost, [.string "Mica.age", .integer 70]⟩
  let narrow := ⟨.conjunction, [Query.toValue sex, .node .negation [Query.toValue name]]⟩
  ⟨.disjunction, [Query.toValue narrow, Query.toValue low, Query.toValue high]⟩

def narrowRebuilt : Query :=
  let sex := ⟨.present, [.string "Mica.sex"]⟩
  let low := ⟨.atLeast, [.string "Mica.age", .integer 8]⟩
  let high := ⟨.atMost, [.string "Mica.age", .integer 70]⟩
  ⟨.disjunction, [.node .conjunction [Query.toValue sex], Query.toValue low, Query.toValue high]⟩

/-- One leaf is dropped, two are written anew, and one is left alone beside another on its field. -/
theorem rebuildSettlesNarrow :
    let u := "or(and(exists(Mica.sex)),ge(Mica.age,8),le(Mica.age,70))"
    ∃ b r b', build .default sample (some narrowText) none = .ok b ∧ b.query = some u ∧
      narrowSource.toValue.OnlyNested ∧ Query.parse u = .ok r ∧
      (Settled sample "Mica" r fun f => ¬ Keeps sample "Mica" narrowSource f) ∧
      build .default sample (some u) none = .ok b' ∧ b'.query = some u := by
  intro u
  have read : Query.parse narrowText = .ok narrowSource := by decide +kernel
  have built : build .default sample (some narrowText) none =
      .ok (reportOn .default sample none narrowSource) := buildOk.mpr ⟨narrowSource, read, rfl⟩
  have given : (reportOn .default sample none narrowSource).query = some u := by decide +kernel
  have only : narrowSource.toValue.OnlyNested := by
    simp [narrowSource, Query.toValue, Value.OnlyNested, OnlyNestedArgs, Value.isNode,
      Query.startsNested]
  obtain ⟨q, r, b', same, read', _, built', _, losers⟩ :=
    rebuildSettles .default sample narrowText none built given
  cases Except.ok.inj (read.symm.trans same)
  have settled : Settled sample "Mica" r fun f => ¬ Keeps sample "Mica" narrowSource f := by
    have rebuilt : Query.parse u = .ok narrowRebuilt := by decide +kernel
    cases Except.ok.inj (read'.symm.trans rebuilt)
    decide +kernel
  exact ⟨_, r, b', built, given, only, read', settled, built',
    (losers (by decide) (.inl only)).mpr settled⟩

/-- The first of two leaves on one field is dropped, and so the other one is written anew by the
next build. -/
theorem rebuildDiffers :
    (build .default sample (some "and(in(Mica.sex,()),eq(Mica.sex,(male)))") none).map
      BuildReport.query = .ok (some "and(eq(Mica.sex,(male)))") ∧
    (build .default sample (some "and(eq(Mica.sex,(male)))") none).map
      BuildReport.query = .ok (some "and(in(Mica.sex,(male)))") := by
  decide +kernel

end Command
end FacetSearch
