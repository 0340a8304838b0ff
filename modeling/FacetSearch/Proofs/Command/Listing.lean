import FacetSearch.Proofs.Command.Inspecting
import FacetSearch.Proofs.Command.Refusing
import FacetSearch.Proofs.Taxonomy.Document

/-! The listing of the vocabularies against the other commands. A listed kind is looked up by name,
so it is the one of the first vocabulary of that name, while a criterion is found for any of them.
Main statement: the exact conditions under which the listing has the kind of each vocabulary, and
under which it tells for a name whether a criterion can be shown. -/
namespace FacetSearch.Command

/-- How a vocabulary is listed where its own kind counts. -/
def ownEntry (v : Vocabulary) : Classification :=
  ⟨v.name, v.kind?⟩

section
variable {t : Taxonomy}

theorem listedAt (t : Taxonomy) (i : Nat) :
    (classify t)[i]? = (t.vocabularies[i]?).map fun v => ⟨v.name, t.kindOf? v.name⟩ :=
  List.getElem?_map

theorem listedKinds {name : String} {first : Vocabulary} (leads : t.Leads name first)
    (named : ∃ v ∈ t.vocabularies, v.name = name) :
    (∀ c ∈ classify t, c.name = name → c.kind? = none) ↔ first.kind? = none := by
  rw [← Taxonomy.kindOfLeader leads]
  constructor
  · intro none
    obtain ⟨v, member, rfl⟩ := named
    exact none _ (List.mem_map_of_mem member) rfl
  · intro none c listed same
    obtain ⟨v, _, rfl⟩ := List.mem_map.mp listed
    rw [← none, ← same]

theorem listedOwn : classify t = t.vocabularies.map ownEntry ↔
    ∀ v ∈ t.vocabularies, ∀ w ∈ t.vocabularies, v.name = w.name → v.kind? = w.kind? := by
  rw [classify, List.map_inj_left]
  constructor
  · intro own v left w right same
    have ofName (u : Vocabulary) (member : u ∈ t.vocabularies) : t.kindOf? u.name = u.kind? :=
      congrArg Classification.kind? (own u member)
    rw [← ofName v left, ← ofName w right, same]
  · intro alike v member
    obtain ⟨first, leads⟩ := Taxonomy.leaderExists ⟨v, member, rfl⟩
    obtain ⟨among, named⟩ := Taxonomy.leaderAmong leads
    rw [Taxonomy.kindOfLeader leads, alike first among v member named, ownEntry]

theorem inspectRefused {name : String} (named : ∃ v ∈ t.vocabularies, v.name = name)
    (s : Settings) (taxonomy : Option String) (e : CommandError) :
    inspect s t name none taxonomy = .error e ↔
      e = .noCriterion name ∧ ∀ v ∈ t.vocabularies, v.name = name → v.kind? = none := by
  obtain ⟨first, leads⟩ := Taxonomy.leaderExists named
  have taken := Taxonomy.vocabularyLeads.mpr leads
  unfold inspect
  rw [editError, findFacetError, Taxonomy.facetNone]
  simp [taken, readSource, Surplus, and_comm]

end

/-- A name is listed without a kind where its first vocabulary supports no criterion, whatever the
later ones support. -/
theorem listsExactly (s : Settings) (t : Taxonomy) (taxonomy : Option String) :
    (classify t).length = t.vocabularies.length ∧
    (∀ (i : Nat) v, t.vocabularies[i]? = some v →
      ∃ first, t.Leads v.name first ∧ (classify t)[i]? = some ⟨v.name, first.kind?⟩) ∧
    ((∀ i : Nat, (classify t)[i]? = (t.vocabularies[i]?).map ownEntry) ↔
      ∀ v ∈ t.vocabularies, ∀ w ∈ t.vocabularies, v.name = w.name → v.kind? = w.kind?) ∧
    ∀ name, (∃ v ∈ t.vocabularies, v.name = name) →
      (∀ e, inspect s t name none taxonomy = .error e ↔
        e = .noCriterion name ∧ ∀ v ∈ t.vocabularies, v.name = name → v.kind? = none) ∧
      (((∃ e, inspect s t name none taxonomy = .error e) ↔
          ∀ c ∈ classify t, c.name = name → c.kind? = none) ↔
        ∀ first, t.Leads name first → first.kind? = none →
          ∀ v ∈ t.vocabularies, v.name = name → v.kind? = none) := by
  refine ⟨List.length_map _, fun (i : Nat) v place => ?_, ?_, fun name named => ?_⟩
  · obtain ⟨first, leads⟩ := Taxonomy.leaderExists ⟨v, List.mem_of_getElem? place, rfl⟩
    refine ⟨first, leads, ?_⟩
    rw [listedAt, place, Option.map_some, Taxonomy.kindOfLeader leads]
  · rw [← listedOwn, List.ext_getElem?_iff]
    simp only [List.getElem?_map]
  · obtain ⟨first, leads⟩ := Taxonomy.leaderExists named
    have refused := inspectRefused named s taxonomy
    refine ⟨refused, ?_⟩
    simp only [refused, exists_eq_left, listedKinds leads named]
    constructor
    · intro told other leads' none
      rw [Taxonomy.leaderUnique leads' leads] at none
      exact told.mpr none
    · intro told
      obtain ⟨among, same⟩ := Taxonomy.leaderAmong leads
      exact ⟨fun all => all first among same, told first leads⟩

theorem listingContradicted :
    Taxonomy.read? repeated.write = some repeated ∧
    (∀ c ∈ classify repeated, c.name = "age" → c.kind? = none) ∧
    (classify repeated)[2]? = some ⟨"age", none⟩ ∧
    (repeated.vocabularies[2]?).map Vocabulary.kind? = some (some .numeric) ∧
    (inspect .default repeated "age" none none).map Report.kind = .ok .numeric := by
  exact ⟨(Taxonomy.readBack repeated).1, by decide, by decide, by decide, by decide +kernel⟩

end FacetSearch.Command
