import FacetSearch.Query.Basic

/-! The leaves of a rewritten query. A rewriting numbers the leaves in order, whichever vanish.
Where no connective loses its leading nested query, the leaves of the result are the images of the
leaves; in general they are the images of those leaves that stay within reach. -/
namespace FacetSearch

def images (f : Rewriting) (leaves : List (Query × Nat)) : List Query :=
  leaves.filterMap fun p => f p.2 p.1

theorem imagesAppend (f : Rewriting) (left right : List (Query × Nat)) :
    images f (left ++ right) = images f left ++ images f right :=
  List.filterMap_append

theorem leavesOfArgsAppend (vs ws : List Value) :
    leavesOfArgs (vs ++ ws) = leavesOfArgs vs ++ leavesOfArgs ws := by
  induction vs with
  | nil => rfl
  | cons v vs ih => rw [List.cons_append, leavesOfArgs, leavesOfArgs, ih, List.append_assoc]

theorem leavesOfOne (v : Value) : leavesOfArgs [v] = v.leaves := by
  simp [leavesOfArgs]

theorem leavesOfConnective {op : Operator} {args : List Value}
    (h : Query.startsNested args = true) : (Value.node op args).leaves = leavesOfArgs args := by
  rw [Value.leaves, if_pos h]

theorem leavesOfComparing {q : Query} (h : q.isConnective = false) : q.toValue.leaves = [q] :=
  Query.leavesOfComparison h

theorem leavesOfComparisons {qs : List Query} (plain : ∀ q ∈ qs, q.isConnective = false) :
    leavesOfArgs (qs.map Query.toValue) = qs := by
  induction qs with
  | nil => rfl
  | cons q qs ih =>
    have rest := ih fun p member => plain p (List.mem_cons_of_mem q member)
    rw [List.map_cons, leavesOfArgs, leavesOfComparing (plain q List.mem_cons_self), rest]
    rfl

theorem leavesOfAll (q : Query) (qs : List Query) :
    (Query.all (q :: qs)).leaves = leavesOfArgs ((q :: qs).map Query.toValue) :=
  leavesOfConnective (Query.allConnective q qs)

theorem leavesWithoutNodes {vs : List Value} (h : vs.any Value.isNode = false) :
    leavesOfArgs vs = [] := by
  induction vs with
  | nil => rfl
  | cons v vs ih =>
    simp only [List.any_cons, Bool.or_eq_false_iff] at h
    rw [leavesOfArgs, ih h.2, List.append_nil]
    cases v with
    | node op args => exact absurd h.1 (by simp [Value.isNode])
    | _ => rfl

theorem nodesOfNested {args : List Value} (h : Query.startsNested args = true) :
    args.any Value.isNode = true := by
  cases args with
  | nil => cases h
  | cons v vs => exact Bool.or_eq_true_iff.mpr (.inl h)

theorem leavesFilled : ∀ v : Value, v.isNode = true → v.leaves ≠ []
  | .node op [], _ => by simp [Value.leaves, Query.startsNested]
  | .node op (w :: ws), _ => by
    rw [Value.leaves]
    split
    · rename_i nested
      have head := leavesFilled w nested
      simp [leavesOfArgs, head]
    · simp
  | .string _, node | .integer _, node | .notANumber, node | .list _, node => by cases node

mutual
theorem rewriteCount (f : Rewriting) : ∀ (v : Value) (n : Nat),
    (v.rewrite f n).2 = n + v.leaves.length
  | .string _, _ | .integer _, _ | .notANumber, _ | .list _, _ => rfl
  | .node op args, n => by
    have inside := rewriteArgsCount f args n
    rw [Value.rewrite, Value.leaves]
    split
    · exact inside
    · rfl

theorem rewriteArgsCount (f : Rewriting) : ∀ (vs : List Value) (n : Nat),
    (rewriteArgs f vs n).2 = n + (leavesOfArgs vs).length
  | [], _ => rfl
  | v :: vs, n => by
    have head := rewriteCount f v n
    have tail := rewriteArgsCount f vs (v.rewrite f n).2
    rw [rewriteArgs, leavesOfArgs, List.length_append]
    exact tail.trans (by rw [head, Nat.add_assoc])
end

def Comparing (f : Rewriting) : Prop :=
  ∀ n q r, q.isConnective = false → f n q = some r → r.isConnective = false

def KeepsAll (f : Rewriting) : Prop :=
  ∀ n q, (f n q).isSome = true

theorem rewriteComparison (f : Rewriting) {op : Operator} {args : List Value} (n : Nat)
    (h : Query.startsNested args = false) :
    (Value.node op args).rewrite f n = ((f n ⟨op, args⟩).map Query.toValue, n + 1) := by
  rw [Value.rewrite, if_neg (by simp [h])]

theorem rewriteConnective (f : Rewriting) {op : Operator} {args : List Value} (n : Nat)
    (h : Query.startsNested args = true) :
    ((Value.node op args).rewrite f n).1 =
      if (rewriteArgs f args n).1.any Value.isNode then some (.node op (rewriteArgs f args n).1)
      else none := by
  rw [Value.rewrite, if_pos h]

theorem rewriteNode {f : Rewriting} {v w : Value} {n : Nat} (node : v.isNode = true)
    (h : (v.rewrite f n).1 = some w) : w.isNode = true := by
  cases v with
  | node op args =>
    cases nested : Query.startsNested args with
    | true =>
      rw [rewriteConnective f n nested] at h
      split at h
      · cases h
        rfl
      · cases h
    | false =>
      rw [rewriteComparison f n nested] at h
      obtain ⟨r, _, rfl⟩ := Option.map_eq_some_iff.mp h
      rfl
  | _ => cases node

theorem rewrittenQuery (f : Rewriting) (q : Query) :
    (q.toValue.rewrite f 0).1 = (q.rewriteLeaves f).map Query.toValue := by
  unfold Query.rewriteLeaves
  cases kept : (q.toValue.rewrite f 0).1 with
  | none => rfl
  | some w =>
    have node := rewriteNode rfl kept
    cases w with
    | node op args => rfl
    | _ => cases node

theorem rewriteArgsCons (f : Rewriting) (v : Value) (vs : List Value) (n : Nat) :
    (rewriteArgs f (v :: vs) n).1 =
      (v.rewrite f n).1.toList ++ (rewriteArgs f vs (v.rewrite f n).2).1 := rfl

theorem headKept {f : Rewriting} {v : Value} {n : Nat} (node : v.isNode = true)
    (kept : (v.rewrite f n).1.isSome = true) (vs : List Value) :
    Query.startsNested (rewriteArgs f (v :: vs) n).1 = true := by
  obtain ⟨w, same⟩ := Option.isSome_iff_exists.mp kept
  rw [rewriteArgsCons, same]
  exact rewriteNode node same

theorem nodeKept {f : Rewriting} (keeps : KeepsAll f) : ∀ (v : Value) (n : Nat),
    v.isNode = true → (v.rewrite f n).1.isSome = true
  | .node op [], n, _ => by
    rw [rewriteComparison f n rfl]
    simpa using keeps n ⟨op, []⟩
  | .node op (w :: ws), n, _ => by
    cases nested : Query.startsNested (w :: ws) with
    | true =>
      have head := headKept nested (nodeKept keeps w n nested) ws
      rw [rewriteConnective f n nested, if_pos (nodesOfNested head)]
      rfl
    | false =>
      rw [rewriteComparison f n nested]
      simpa using keeps n ⟨op, w :: ws⟩
  | .string _, _, node | .integer _, _, node | .notANumber, _, node | .list _, _, node => by
    cases node

theorem nodesRewritten (f : Rewriting) {vs : List Value} (h : vs.all Value.isNode = true)
    (n : Nat) : (rewriteArgs f vs n).1.all Value.isNode = true := by
  induction vs generalizing n with
  | nil => rfl
  | cons v vs ih =>
    simp only [List.all_cons, Bool.and_eq_true] at h
    rw [rewriteArgsCons, List.all_append, ih h.2, Bool.and_true]
    cases kept : (v.rewrite f n).1 with
    | none => rfl
    | some w => simpa using rewriteNode h.1 kept

mutual
/-- The connectives that lead to leaves have nested queries as their only arguments. -/
def Value.OnlyNested : Value → Prop
  | .node _ args => Query.startsNested args = true →
      args.all Value.isNode = true ∧ OnlyNestedArgs args
  | .string _ | .integer _ | .notANumber | .list _ => True
def OnlyNestedArgs : List Value → Prop
  | [] => True
  | v :: vs => v.OnlyNested ∧ OnlyNestedArgs vs
end

theorem headSafe {f : Rewriting} {args : List Value} (n : Nat)
    (nested : Query.startsNested args = true)
    (safe : args.all Value.isNode = true ∨ KeepsAll f)
    (some : (rewriteArgs f args n).1.any Value.isNode = true) :
    Query.startsNested (rewriteArgs f args n).1 = true := by
  rcases safe with nodes | keeps
  -- whatever is left of nested arguments only begins with a nested one
  · have all := nodesRewritten f nodes n
    cases kept : (rewriteArgs f args n).1 with
    | nil => simp [kept] at some
    | cons w ws =>
      rw [kept, List.all_cons, Bool.and_eq_true] at all
      exact all.1
  · cases args with
    | nil => cases nested
    | cons v vs => exact headKept nested (nodeKept keeps v n nested) vs

theorem leavesOfRewritten {f : Rewriting} {op : Operator} {args : List Value} (n : Nat)
    (nested : Query.startsNested args = true)
    (head : (rewriteArgs f args n).1.any Value.isNode = true →
      Query.startsNested (rewriteArgs f args n).1 = true) :
    leavesOfArgs ((Value.node op args).rewrite f n).1.toList =
      leavesOfArgs (rewriteArgs f args n).1 := by
  rw [rewriteConnective f n nested]
  split
  · rename_i some
    rw [Option.toList_some, leavesOfOne, leavesOfConnective (head some)]
  · rename_i none
    exact (leavesWithoutNodes (Bool.eq_false_iff.mpr none)).symm

theorem leavesOfImage {f : Rewriting} (comparing : Comparing f) {op : Operator}
    {args : List Value} (n : Nat) (comparison : Query.startsNested args = false) :
    leavesOfArgs ((Value.node op args).rewrite f n).1.toList = images f [(⟨op, args⟩, n)] := by
  rw [rewriteComparison f n comparison]
  cases image : f n ⟨op, args⟩ with
  | none => simp [images, image, leavesOfArgs]
  | some r =>
    have plain := comparing n ⟨op, args⟩ r comparison image
    simp [images, image, leavesOfOne, leavesOfComparing plain]

mutual
theorem leavesRewritten {f : Rewriting} (comparing : Comparing f) : ∀ (v : Value) (n : Nat),
    v.OnlyNested ∨ KeepsAll f →
    leavesOfArgs (v.rewrite f n).1.toList = images f (v.leaves.zipIdx n)
  | .string _, _, _ | .integer _, _, _ | .notANumber, _, _ | .list _, _, _ => rfl
  | .node op args, n, safe => by
    cases nested : Query.startsNested args with
    | true =>
      have nodes := safe.imp_left fun only => (only nested).1
      have inside := safe.imp_left fun only => (only nested).2
      rw [leavesOfRewritten n nested (headSafe n nested nodes), leavesOfConnective nested]
      exact argsLeavesRewritten comparing args n inside
    | false =>
      rw [leavesOfImage comparing n nested]
      exact congrArg _ (by rw [Value.leaves, nested]; rfl)

theorem argsLeavesRewritten {f : Rewriting} (comparing : Comparing f) :
    ∀ (vs : List Value) (n : Nat), OnlyNestedArgs vs ∨ KeepsAll f →
    leavesOfArgs (rewriteArgs f vs n).1 = images f ((leavesOfArgs vs).zipIdx n)
  | [], _, _ => rfl
  | v :: vs, n, safe => by
    have head := leavesRewritten comparing v n (safe.imp_left And.left)
    have tail := argsLeavesRewritten comparing vs (v.rewrite f n).2 (safe.imp_left And.right)
    rw [rewriteArgsCons, leavesOfArgsAppend, head, tail, leavesOfArgs, List.zipIdx_append,
      imagesAppend, rewriteCount]
end

mutual
/-- The leaves that stay within reach, with their numbers: every connective above them still begins
with a nested query once it is rewritten. -/
def Value.reach (f : Rewriting) : Value → Nat → List (Query × Nat)
  | .node operator args, n =>
    if Query.startsNested args then
      if Query.startsNested (rewriteArgs f args n).1 then reachOfArgs f args n else []
    else [(⟨operator, args⟩, n)]
  | .string _, _ | .integer _, _ | .notANumber, _ | .list _, _ => []
def reachOfArgs (f : Rewriting) : List Value → Nat → List (Query × Nat)
  | [], _ => []
  | v :: vs, n => v.reach f n ++ reachOfArgs f vs (v.rewrite f n).2
end

mutual
theorem reachLeaves (f : Rewriting) : ∀ (v : Value) (n : Nat) {p : Query × Nat},
    p ∈ v.reach f n → p ∈ v.leaves.zipIdx n
  | .string _, _, _, member | .integer _, _, _, member | .notANumber, _, _, member
  | .list _, _, _, member => by cases member
  | .node op args, n, p, member => by
    rw [Value.reach] at member
    rw [Value.leaves]
    split at member
    · rename_i nested
      split at member
      · rw [if_pos nested]
        exact reachArgsLeaves f args n member
      · cases member
    · rename_i comparison
      rw [if_neg comparison]
      exact member

theorem reachArgsLeaves (f : Rewriting) : ∀ (vs : List Value) (n : Nat) {p : Query × Nat},
    p ∈ reachOfArgs f vs n → p ∈ (leavesOfArgs vs).zipIdx n
  | [], _, _, member => by cases member
  | v :: vs, n, p, member => by
    rw [leavesOfArgs, List.zipIdx_append, List.mem_append]
    refine (List.mem_append.mp member).imp (reachLeaves f v n) fun later => ?_
    rw [← rewriteCount f v n]
    exact reachArgsLeaves f vs _ later
end

theorem headLost {f : Rewriting} {op : Operator} {args : List Value} {n : Nat} {r : Query}
    (flat : r.args.any Value.isNode = false) (nested : Query.startsNested args = true)
    (lost : Query.startsNested (rewriteArgs f args n).1 = false) :
    r ∉ leavesOfArgs ((Value.node op args).rewrite f n).1.toList := by
  rw [rewriteConnective f n nested]
  split
  · rename_i some
    -- without its head the connective is a comparison, but one with a nested argument
    have alone : (Value.node op (rewriteArgs f args n).1).leaves = [⟨op, (rewriteArgs f args n).1⟩] :=
      @leavesOfComparing ⟨op, (rewriteArgs f args n).1⟩ lost
    rw [Option.toList_some, leavesOfOne, alone, List.mem_singleton]
    rintro rfl
    exact absurd some (Bool.eq_false_iff.mp flat)
  · simp [leavesOfArgs]

mutual
theorem flatLeaves {f : Rewriting} (comparing : Comparing f) {r : Query}
    (flat : r.args.any Value.isNode = false) : ∀ (v : Value) (n : Nat),
    r ∈ leavesOfArgs (v.rewrite f n).1.toList ↔ r ∈ images f (v.reach f n)
  | .string _, _ | .integer _, _ | .notANumber, _ | .list _, _ => Iff.rfl
  | .node op args, n => by
    cases nested : Query.startsNested args with
    | true =>
      rw [Value.reach, if_pos nested]
      cases head : Query.startsNested (rewriteArgs f args n).1 with
      | true =>
        rw [if_pos rfl, leavesOfRewritten n nested fun _ => head]
        exact flatArgsLeaves comparing flat args n
      | false => simpa [images] using headLost flat nested head
    | false =>
      rw [leavesOfImage comparing n nested, Value.reach, if_neg (by simp [nested])]

theorem flatArgsLeaves {f : Rewriting} (comparing : Comparing f) {r : Query}
    (flat : r.args.any Value.isNode = false) : ∀ (vs : List Value) (n : Nat),
    r ∈ leavesOfArgs (rewriteArgs f vs n).1 ↔ r ∈ images f (reachOfArgs f vs n)
  | [], _ => Iff.rfl
  | v :: vs, n => by
    have head := flatLeaves comparing flat v n
    have tail := flatArgsLeaves comparing flat vs (v.rewrite f n).2
    rw [rewriteArgsCons, leavesOfArgsAppend, List.mem_append, head, tail, reachOfArgs,
      imagesAppend, List.mem_append]
end

end FacetSearch
