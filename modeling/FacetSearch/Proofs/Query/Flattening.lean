import FacetSearch.Proofs.Query.Rewriting

/-! Flattening a query, place by place. A query stands at a path below another one when every step
of the path goes from a connective to one of its nested queries. Main statement: the leaves are the
queries that stand at some path and are no connectives, one for each path and in the order of the
paths. A conjunction flattens to what its parts flatten to, and flattening again changes nothing. -/
namespace FacetSearch

namespace Query

/-- The second query stands at the path below the first. A path counts the arguments at each step. -/
inductive At : Query → List Nat → Query → Prop where
  | root (q : Query) : At q [] q
  | nested {q child r : Query} {i : Nat} {path : List Nat} (connective : q.isConnective = true)
      (argument : q.args[i]? = some child.toValue) (inside : At child path r) : At q (i :: path) r

theorem atNil {q r : Query} : q.At [] r ↔ r = q := by
  constructor
  · intro h
    cases h
    rfl
  · rintro rfl
    exact .root r

theorem atCons {q r : Query} {i : Nat} {path : List Nat} : q.At (i :: path) r ↔
    q.isConnective = true ∧ ∃ child : Query, q.args[i]? = some child.toValue ∧ child.At path r := by
  constructor
  · intro h
    cases h with
    | nested connective argument inside => exact ⟨connective, _, argument, inside⟩
  · rintro ⟨connective, child, argument, inside⟩
    exact .nested connective argument inside

end Query

mutual
/-- The leaves of a value, each with its path. -/
def Value.placed : Value → List (List Nat × Query)
  | .node operator args =>
    if Query.startsNested args then placedOfArgs 0 args else [([], ⟨operator, args⟩)]
  | .string _ | .integer _ | .notANumber | .list _ => []
def placedOfArgs : Nat → List Value → List (List Nat × Query)
  | _, [] => []
  | i, v :: vs => v.placed.map (fun p => (i :: p.1, p.2)) ++ placedOfArgs (i + 1) vs
end

section
variable {op : Operator} {args : List Value}

theorem placedNested (h : Query.startsNested args = true) :
    (Value.node op args).placed = placedOfArgs 0 args := by
  rw [Value.placed, if_pos h]

theorem placedAlone (h : Query.startsNested args = false) :
    (Value.node op args).placed = [([], ⟨op, args⟩)] := by
  rw [Value.placed, if_neg (by simp [h])]

end

mutual
theorem placedLeaves : ∀ v : Value, v.placed.map Prod.snd = v.leaves
  | .string _ | .integer _ | .notANumber | .list _ => rfl
  | .node op args => by
    cases nested : Query.startsNested args with
    | true => rw [placedNested nested, leavesOfConnective nested, placedArgsLeaves 0 args]
    | false =>
      rw [placedAlone nested, Value.leaves, nested]
      rfl

theorem placedArgsLeaves : ∀ (i : Nat) (vs : List Value),
    (placedOfArgs i vs).map Prod.snd = leavesOfArgs vs
  | _, [] => rfl
  | i, v :: vs => by
    have head := placedLeaves v
    have tail := placedArgsLeaves (i + 1) vs
    rw [placedOfArgs, leavesOfArgs, List.map_append, List.map_map, tail, ← head]
    rfl
end

/-- The first step of a path picks an argument, the others go on from there. -/
theorem placedArgument {i : Nat} {vs : List Value} {path : List Nat} {r : Query} :
    (path, r) ∈ placedOfArgs i vs ↔
      ∃ k v rest, path = (i + k) :: rest ∧ vs[k]? = some v ∧ (rest, r) ∈ v.placed := by
  induction vs generalizing i with
  | nil => simp [placedOfArgs]
  | cons v vs ih =>
    rw [placedOfArgs, List.mem_append, ih]
    constructor
    · rintro (here | ⟨k, w, rest, rfl, argument, inside⟩)
      · obtain ⟨⟨rest, r⟩, inside, same⟩ := List.mem_map.mp here
        cases same
        exact ⟨0, v, rest, rfl, rfl, inside⟩
      · exact ⟨k + 1, w, rest, by rw [Nat.add_assoc, Nat.add_comm 1], argument, inside⟩
    · rintro ⟨k, w, rest, rfl, argument, inside⟩
      cases k with
      | zero =>
        cases argument
        exact .inl (List.mem_map.mpr ⟨(rest, r), inside, rfl⟩)
      | succ k => exact .inr ⟨k, w, rest, by rw [Nat.add_assoc, Nat.add_comm 1], argument, inside⟩

theorem placedQuery {v : Value} {p : List Nat × Query} (h : p ∈ v.placed) :
    ∃ q : Query, v = q.toValue := by
  cases v with
  | node op args => exact ⟨⟨op, args⟩, rfl⟩
  | _ => cases h

theorem placedIff {path : List Nat} {q r : Query} :
    (path, r) ∈ q.toValue.placed ↔ q.At path r ∧ r.isConnective = false := by
  induction path generalizing q with
  | nil =>
    rw [Query.atNil]
    cases nested : q.isConnective with
    | true =>
      rw [Query.toValue, placedNested nested, placedArgument]
      constructor
      · rintro ⟨k, v, rest, same, _⟩
        cases same
      · rintro ⟨rfl, alone⟩
        cases nested.symm.trans alone
    | false =>
      rw [Query.toValue, placedAlone nested, List.mem_singleton]
      constructor
      · intro same
        cases same
        exact ⟨rfl, nested⟩
      · rintro ⟨rfl, _⟩
        rfl
  | cons i path ih =>
    rw [Query.atCons]
    cases nested : q.isConnective with
    | true =>
      rw [Query.toValue, placedNested nested, placedArgument]
      constructor
      · rintro ⟨k, v, rest, same, argument, inside⟩
        obtain ⟨child, rfl⟩ := placedQuery inside
        rw [Nat.zero_add] at same
        cases same
        obtain ⟨stands, alone⟩ := ih.mp inside
        exact ⟨⟨rfl, child, argument, stands⟩, alone⟩
      · rintro ⟨⟨_, child, argument, stands⟩, alone⟩
        exact ⟨i, child.toValue, path, by rw [Nat.zero_add], argument, ih.mpr ⟨stands, alone⟩⟩
    | false => simp [Query.toValue, placedAlone nested]

mutual
theorem placedOrdered : ∀ v : Value, (v.placed.map Prod.fst).Pairwise (· < ·)
  | .string _ | .integer _ | .notANumber | .list _ => .nil
  | .node op args => by
    cases nested : Query.startsNested args with
    | true =>
      rw [placedNested nested]
      exact placedArgsOrdered 0 args
    | false =>
      rw [placedAlone nested]
      exact List.pairwise_singleton _ _

theorem placedArgsOrdered : ∀ (i : Nat) (vs : List Value),
    ((placedOfArgs i vs).map Prod.fst).Pairwise (· < ·)
  | _, [] => .nil
  | i, v :: vs => by
    have head := placedOrdered v
    have tail := placedArgsOrdered (i + 1) vs
    have paths : (v.placed.map fun p => (i :: p.1, p.2)).map Prod.fst =
        (v.placed.map Prod.fst).map (i :: ·) := by simp
    rw [placedOfArgs, List.map_append, paths, List.pairwise_append]
    refine ⟨List.pairwise_map.mpr (head.imp fun earlier => ?_), tail,
      fun path left path' right => ?_⟩
    · exact List.cons_lt_cons_iff.mpr (.inr ⟨rfl, earlier⟩)
    · -- the paths of one argument begin alike, those of later arguments with a greater number
      obtain ⟨rest, _, rfl⟩ := List.mem_map.mp left
      obtain ⟨⟨_, r⟩, later, rfl⟩ := List.mem_map.mp right
      obtain ⟨k, w, rest', rfl, _⟩ := placedArgument.mp later
      exact List.cons_lt_cons_iff.mpr (.inl (by omega))
end

theorem leavesCompare {q r : Query} (h : r ∈ q.leaves) : r.isConnective = false := by
  rw [Query.leaves, ← placedLeaves] at h
  obtain ⟨⟨path, _⟩, placed, rfl⟩ := List.mem_map.mp h
  exact (placedIff.mp placed).2

theorem leavesOfQueries (qs : List Query) :
    leavesOfArgs (qs.map Query.toValue) = qs.flatMap Query.leaves := by
  induction qs with
  | nil => rfl
  | cons q qs ih => rw [List.map_cons, leavesOfArgs, ih, List.flatMap_cons, Query.leaves]

theorem leavesAgain (q : Query) : (Query.all q.leaves).leaves = q.leaves := by
  have same := leavesOfComparisons fun r => leavesCompare (q := q) (r := r)
  obtain ⟨first, rest, leaves⟩ := List.exists_cons_of_ne_nil (leavesFilled q.toValue rfl)
  change q.leaves = first :: rest at leaves
  rw [leaves] at same ⊢
  exact (leavesOfAll first rest).trans same

/-- Paths are compared by the first step in which they differ. -/
theorem flattensExactly :
    (∀ q : Query, q.leaves ≠ [] ∧ (∀ r ∈ q.leaves, r.isConnective = false) ∧
      ∃ places : List (List Nat × Query), places.map Prod.snd = q.leaves ∧
        (places.map Prod.fst).Pairwise (· < ·) ∧
        ∀ path r, (path, r) ∈ places ↔ q.At path r ∧ r.isConnective = false) ∧
    (∀ q qs, (Query.all (q :: qs)).leaves = (q :: qs).flatMap Query.leaves) ∧
    ∀ q : Query, (Query.all q.leaves).leaves = q.leaves := by
  refine ⟨fun q => ⟨leavesFilled q.toValue rfl, fun r => leavesCompare, q.toValue.placed,
    placedLeaves q.toValue, placedOrdered q.toValue, fun path r => placedIff⟩, fun q qs => ?_,
    leavesAgain⟩
  exact (leavesOfAll q qs).trans (leavesOfQueries (q :: qs))

/-- Queries that are not reached: in a list, and behind a text in front. -/
def strayed : Query :=
  let sex := .node .present [.string "Mica.sex"]
  let age := .node .atLeast [.string "Mica.age", .integer 3]
  ⟨.conjunction, [sex, .string "stray", .node .negation [.node .disjunction [.string "x", age]],
    .list [age]]⟩

theorem flattensStrayed :
    let sex : Query := ⟨.present, [.string "Mica.sex"]⟩
    let either : Query :=
      ⟨.disjunction, [.string "x", .node .atLeast [.string "Mica.age", .integer 3]]⟩
    strayed.leaves = [sex, either] ∧ either.isConnective = false ∧
      (∃ path, strayed.At path either) ∧ (Query.all [strayed, sex]).leaves = [sex, either, sex] := by
  intro sex either
  have leaves : strayed.leaves = [sex, either] := by decide
  have member : either ∈ strayed.leaves := by decide
  obtain ⟨flat, joined, _⟩ := flattensExactly
  obtain ⟨_, plain, places, found, _, exact⟩ := flat strayed
  obtain ⟨⟨path, _⟩, place, rfl⟩ := List.mem_map.mp (found ▸ member)
  exact ⟨leaves, plain _ member, ⟨path, ((exact _ _).mp place).1⟩,
    (joined strayed [sex]).trans (by rw [List.flatMap_cons, leaves]; decide)⟩

end FacetSearch
