import FacetSearch.Proofs.Query.Rewriting

/-! The tree of a rewritten query. A tree agrees with another one up to its leaves when connectives
stand for connectives with the same operator and the same places of their arguments. A rewriting
that keeps every leaf gives such a tree, and it changes nothing exactly when it changes no leaf.
Whichever leaves vanish, the image of a leaf that stays is found in the result. -/
namespace FacetSearch

mutual
/-- The second value is the first one with its leaves, numbered from `n`, replaced by the queries
given for their numbers. Leaves without a query and arguments that are not nested stay. -/
inductive Replaced (new : Nat → Option Query) : Nat → Value → Value → Prop where
  | leaf {n q r} (comparison : q.isConnective = false) (image : r = (new n).getD q)
      (comparison' : r.isConnective = false) : Replaced new n q.toValue r.toValue
  | connective {n op args args'} (nested : Query.startsNested args = true)
      (nested' : Query.startsNested args' = true) (inside : ReplacedArgs new n args args') :
      Replaced new n (.node op args) (.node op args')
  | plain {n v} (flat : v.isNode = false) : Replaced new n v v
inductive ReplacedArgs (new : Nat → Option Query) : Nat → List Value → List Value → Prop where
  | nil {n} : ReplacedArgs new n [] []
  | cons {n v w vs ws} (head : Replaced new n v w)
      (tail : ReplacedArgs new (n + v.leaves.length) vs ws) : ReplacedArgs new n (v :: vs) (w :: ws)
end

/-- A rewriting that keeps the given leaves, as the queries in `new` or as they are. -/
def Follows (f : Rewriting) (new : Nat → Option Query) (leaves : List (Query × Nat)) : Prop :=
  ∀ p ∈ leaves, f p.2 p.1 = some ((new p.2).getD p.1)

theorem leavesAlone {op : Operator} {args : List Value} (h : Query.startsNested args = false) :
    (Value.node op args).leaves = [⟨op, args⟩] :=
  @leavesOfComparing ⟨op, args⟩ h

mutual
theorem rewriteReplaced {f : Rewriting} {new : Nat → Option Query} (comparing : Comparing f) :
    ∀ (v : Value) (n : Nat), Follows f new (v.leaves.zipIdx n) →
    ∃ w, (v.rewrite f n).1 = some w ∧ Replaced new n v w
  | .string _, _, _ | .integer _, _, _ | .notANumber, _, _ | .list _, _, _ => ⟨_, rfl, .plain rfl⟩
  | .node op args, n, follows => by
    cases nested : Query.startsNested args with
    | true =>
      rw [leavesOfConnective nested] at follows
      obtain ⟨inside, head⟩ := rewriteArgsReplaced comparing args n follows
      have nested' := head nested
      rw [rewriteConnective f n nested, if_pos (nodesOfNested nested')]
      exact ⟨_, rfl, .connective nested nested' inside⟩
    | false =>
      have image := follows (⟨op, args⟩, n) (by simp [leavesAlone nested])
      have plain := comparing n ⟨op, args⟩ _ nested image
      rw [rewriteComparison f n nested, image]
      exact ⟨_, rfl, .leaf (q := ⟨op, args⟩) nested rfl plain⟩

theorem rewriteArgsReplaced {f : Rewriting} {new : Nat → Option Query} (comparing : Comparing f) :
    ∀ (vs : List Value) (n : Nat),
    Follows f new ((leavesOfArgs vs).zipIdx n) → ReplacedArgs new n vs (rewriteArgs f vs n).1 ∧
      (Query.startsNested vs = true → Query.startsNested (rewriteArgs f vs n).1 = true)
  | [], _, _ => ⟨.nil, fun nested => by cases nested⟩
  | v :: vs, n, follows => by
    rw [leavesOfArgs, List.zipIdx_append] at follows
    obtain ⟨here, later⟩ := List.forall_mem_append.mp follows
    obtain ⟨w, kept, head⟩ := rewriteReplaced comparing v n here
    have tail := (rewriteArgsReplaced comparing vs _ later).1
    rw [rewriteArgsCons, rewriteCount, kept]
    exact ⟨.cons head tail, fun nested => rewriteNode nested kept⟩
end

mutual
theorem replacedSame {new : Nat → Option Query} : ∀ {n v w}, Replaced new n v w →
    (∀ p ∈ v.leaves.zipIdx n, (new p.2).getD p.1 = p.1) → w = v
  | n, _, _, @Replaced.leaf _ _ q r comparison image _, same => by
    have stays := same (q, n) (by simp [leavesOfComparing comparison])
    rw [image, stays]
  | _, _, _, @Replaced.connective _ _ op args args' nested _ inside, same => by
    rw [leavesOfConnective nested] at same
    rw [replacedArgsSame inside same]
  | _, _, _, .plain _, _ => rfl

theorem replacedArgsSame {new : Nat → Option Query} : ∀ {n vs ws}, ReplacedArgs new n vs ws →
    (∀ p ∈ (leavesOfArgs vs).zipIdx n, (new p.2).getD p.1 = p.1) → ws = vs
  | _, _, _, .nil, _ => rfl
  | _, _, _, .cons head tail, same => by
    rw [leavesOfArgs, List.zipIdx_append] at same
    obtain ⟨here, later⟩ := List.forall_mem_append.mp same
    rw [replacedSame head here, replacedArgsSame tail later]
end

theorem rewriteArgsShorter (f : Rewriting) (vs : List Value) (n : Nat) :
    (rewriteArgs f vs n).1.length ≤ vs.length := by
  induction vs generalizing n with
  | nil => exact Nat.le_refl 0
  | cons v vs ih =>
    have tail := ih (v.rewrite f n).2
    have head : (v.rewrite f n).1.toList.length ≤ 1 := by cases (v.rewrite f n).1 <;> simp
    rw [rewriteArgsCons, List.length_append, List.length_cons]
    omega

theorem Query.valueInjective {q r : Query} (h : q.toValue = r.toValue) : q = r := by
  cases q
  cases r
  cases h
  rfl

mutual
theorem rewriteFixed {f : Rewriting} : ∀ (v : Value) (n : Nat), (v.rewrite f n).1 = some v →
    ∀ p ∈ v.leaves.zipIdx n, f p.2 p.1 = some p.1
  | .string _, _, _, _, member | .integer _, _, _, _, member | .notANumber, _, _, _, member
  | .list _, _, _, _, member => by cases member
  | .node op args, n, fixed, p, member => by
    cases nested : Query.startsNested args with
    | true =>
      rw [leavesOfConnective nested] at member
      rw [rewriteConnective f n nested] at fixed
      split at fixed
      · have same : (rewriteArgs f args n).1 = args := by simpa using fixed
        exact rewriteArgsFixed args n same p member
      · cases fixed
    | false =>
      rw [rewriteComparison f n nested] at fixed
      obtain ⟨r, image, same⟩ := Option.map_eq_some_iff.mp fixed
      rw [leavesAlone nested] at member
      cases List.mem_singleton.mp member
      rwa [Query.valueInjective (r := ⟨op, args⟩) same] at image

theorem rewriteArgsFixed {f : Rewriting} : ∀ (vs : List Value) (n : Nat),
    (rewriteArgs f vs n).1 = vs → ∀ p ∈ (leavesOfArgs vs).zipIdx n, f p.2 p.1 = some p.1
  | [], _, _, _, member => by cases member
  | v :: vs, n, fixed, p, member => by
    rw [rewriteArgsCons] at fixed
    rw [leavesOfArgs, List.zipIdx_append, List.mem_append] at member
    cases kept : (v.rewrite f n).1 with
    | none =>
      -- the rest is too short to make up for an argument that vanished
      have short := rewriteArgsShorter f vs (v.rewrite f n).2
      rw [kept, Option.toList_none, List.nil_append] at fixed
      rw [fixed, List.length_cons] at short
      omega
    | some w =>
      rw [kept] at fixed
      obtain ⟨rfl, rest⟩ := List.cons.inj fixed
      rw [rewriteCount] at rest
      rcases member with here | later
      · exact rewriteFixed w n kept p here
      · exact rewriteArgsFixed vs _ rest p later
end

namespace Query

theorem rewriteReplaces {f : Rewriting} {new : Nat → Option Query} (comparing : Comparing f)
    {q : Query} (follows : Follows f new q.leaves.zipIdx) :
    ∃ r, q.rewriteLeaves f = some r ∧ Replaced new 0 q.toValue r.toValue := by
  obtain ⟨w, kept, replaced⟩ := rewriteReplaced comparing q.toValue 0 follows
  rw [rewrittenQuery] at kept
  obtain ⟨r, rewritten, rfl⟩ := Option.map_eq_some_iff.mp kept
  exact ⟨r, rewritten, replaced⟩

theorem rewriteSameIff {f : Rewriting} (comparing : Comparing f) {q : Query} :
    q.rewriteLeaves f = some q ↔ ∀ p ∈ q.leaves.zipIdx, f p.2 p.1 = some p.1 := by
  constructor
  · intro fixed
    refine rewriteFixed q.toValue 0 ?_
    rw [rewrittenQuery, fixed]
    rfl
  · intro stays
    obtain ⟨r, kept, replaced⟩ := @rewriteReplaces f (fun _ => none) comparing q stays
    rw [kept, valueInjective (replacedSame replaced fun _ _ => rfl)]

end Query

mutual
/-- A query and the queries nested in it at any depth. Lists are not entered. -/
def Value.nested : Value → List Query
  | .node operator args => ⟨operator, args⟩ :: nestedOfArgs args
  | .string _ | .integer _ | .notANumber | .list _ => []
def nestedOfArgs : List Value → List Query
  | [] => []
  | v :: vs => v.nested ++ nestedOfArgs vs
end

theorem nestedOfArgsAppend (vs ws : List Value) :
    nestedOfArgs (vs ++ ws) = nestedOfArgs vs ++ nestedOfArgs ws := by
  induction vs with
  | nil => rfl
  | cons v vs ih => rw [List.cons_append, nestedOfArgs, nestedOfArgs, ih, List.append_assoc]

theorem nestedSelf (q : Query) : q ∈ q.toValue.nested :=
  List.mem_cons_self

theorem nodesOfNestedQueries {vs : List Value} {r : Query} (h : r ∈ nestedOfArgs vs) :
    vs.any Value.isNode = true := by
  induction vs with
  | nil => cases h
  | cons v vs ih =>
    rw [nestedOfArgs] at h
    rcases List.mem_append.mp h with here | later
    · cases v with
      | node op args => rfl
      | _ => cases here
    · rw [List.any_cons, ih later, Bool.or_true]

mutual
theorem imageNested {f : Rewriting} {r : Query} : ∀ (v : Value) (n : Nat),
    r ∈ images f (v.leaves.zipIdx n) → r ∈ nestedOfArgs (v.rewrite f n).1.toList
  | .string _, _, member | .integer _, _, member | .notANumber, _, member | .list _, _, member => by
    cases member
  | .node op args, n, member => by
    cases nested : Query.startsNested args with
    | true =>
      rw [leavesOfConnective nested] at member
      have inside := imageArgsNested args n member
      rw [rewriteConnective f n nested, if_pos (nodesOfNestedQueries inside)]
      simp [nestedOfArgs, Value.nested, inside]
    | false =>
      rw [leavesAlone nested] at member
      obtain ⟨p, single, image⟩ := List.mem_filterMap.mp member
      cases List.mem_singleton.mp single
      rw [rewriteComparison f n nested, image]
      simp [nestedOfArgs, nestedSelf]

theorem imageArgsNested {f : Rewriting} {r : Query} : ∀ (vs : List Value) (n : Nat),
    r ∈ images f ((leavesOfArgs vs).zipIdx n) → r ∈ nestedOfArgs (rewriteArgs f vs n).1
  | [], _, member => by cases member
  | v :: vs, n, member => by
    rw [leavesOfArgs, List.zipIdx_append, imagesAppend, List.mem_append] at member
    rw [rewriteArgsCons, nestedOfArgsAppend, rewriteCount, List.mem_append]
    exact member.imp (imageNested v n) (imageArgsNested vs _)
end

end FacetSearch
