import FacetSearch.Text.Basic

/-! Query trees. A node has an operator and positional arguments; an argument is a scalar, a list of
values or a nested node. An operator is its name; the names that criteria write or recognise are
listed here, any other name is carried along as it stands. A node whose first argument is a nested
node is a connective, every other node is a comparison. The comparisons of a query stand in order
and are replaced in place; a connective whose nested queries have all vanished vanishes too. -/
namespace FacetSearch

structure Operator where
  name : String
  deriving DecidableEq, Repr

namespace Operator

@[match_pattern] def oneOf : Operator := ⟨"in"⟩
@[match_pattern] def noneOf : Operator := ⟨"out"⟩
@[match_pattern] def present : Operator := ⟨"exists"⟩
@[match_pattern] def missing : Operator := ⟨"missing"⟩
@[match_pattern] def between : Operator := ⟨"between"⟩
@[match_pattern] def atLeast : Operator := ⟨"ge"⟩
@[match_pattern] def atMost : Operator := ⟨"le"⟩
@[match_pattern] def matching : Operator := ⟨"match"⟩
@[match_pattern] def conjunction : Operator := ⟨"and"⟩
@[match_pattern] def disjunction : Operator := ⟨"or"⟩
@[match_pattern] def negation : Operator := ⟨"not"⟩

def known : List Operator :=
  [oneOf, noneOf, present, missing, between, atLeast, atMost, matching, conjunction, disjunction,
    negation]

def shortNames : List (Operator × String) :=
  [(oneOf, "In"), (noneOf, "Out"), (present, "Exists"), (missing, "Missing"), (between, "Between"),
    (atLeast, "Ge"), (atMost, "Le"), (matching, "Match"), (conjunction, "And"), (disjunction, "Or"),
    (negation, "Not")]

theorem shortNamesKnown : shortNames.map Prod.fst = known := rfl

/-- Operators as developers see them: the known ones by short names, others by the quoted name. -/
def debug (beyond : Char → Bool) (op : Operator) : List Char :=
  match shortNames.find? (·.1 = op) with
  | some (_, short) => short.toList
  | none => "Other(".toList ++ Text.quoteShown beyond op.name ++ [')']

def isPresence (op : Operator) : Bool :=
  op == missing || op == present

def isMembership (op : Operator) : Bool :=
  op == oneOf || op == noneOf

theorem presenceNotMembership {op : Operator} (h : op.isPresence = true) :
    op.isMembership = false := by
  simp only [isPresence, Bool.or_eq_true, beq_iff_eq] at h
  rcases h with rfl | rfl <;> decide

end Operator

inductive Value where
  | string (text : String)
  | integer (number : Int64)
  /-- Stands where an integer was wanted and no digits were found. -/
  | notANumber
  | list (items : List Value)
  | node (operator : Operator) (args : List Value)
  deriving Repr

structure Query where
  operator : Operator
  args : List Value
  deriving Repr

namespace Value

mutual
def decEq : (a b : Value) → Decidable (a = b)
  | .string s, .string t =>
    if h : s = t then .isTrue (by rw [h]) else .isFalse (by simp [h])
  | .integer m, .integer n =>
    if h : m = n then .isTrue (by rw [h]) else .isFalse (by simp [h])
  | .notANumber, .notANumber => .isTrue rfl
  | .list xs, .list ys =>
    match decEqList xs ys with
    | .isTrue h => .isTrue (by rw [h])
    | .isFalse h => .isFalse (by simp [h])
  | .node o xs, .node p ys =>
    if h : o = p then
      match decEqList xs ys with
      | .isTrue same => .isTrue (by rw [h, same])
      | .isFalse other => .isFalse (by simp [other])
    else .isFalse (by simp [h])
  | .string _, .integer _ | .string _, .notANumber | .string _, .list _ | .string _, .node _ _
  | .integer _, .string _ | .integer _, .notANumber | .integer _, .list _ | .integer _, .node _ _
  | .notANumber, .string _ | .notANumber, .integer _ | .notANumber, .list _
  | .notANumber, .node _ _ | .list _, .string _ | .list _, .integer _ | .list _, .notANumber
  | .list _, .node _ _ | .node _ _, .string _ | .node _ _, .integer _ | .node _ _, .notANumber
  | .node _ _, .list _ => .isFalse (by simp)
def decEqList : (xs ys : List Value) → Decidable (xs = ys)
  | [], [] => .isTrue rfl
  | x :: xs, y :: ys =>
    match decEq x y with
    | .isTrue h =>
      match decEqList xs ys with
      | .isTrue same => .isTrue (by rw [h, same])
      | .isFalse other => .isFalse (by simp [other])
    | .isFalse h => .isFalse (by simp [h])
  | [], _ :: _ | _ :: _, [] => .isFalse (by simp)
end

instance : DecidableEq Value := decEq

def text? : Value → Option String
  | .string text => some text
  | .integer number => some (String.ofList (Text.decimal number))
  | .notANumber => some "NaN"
  | .list _ | .node _ _ => none

def isNode : Value → Bool
  | .node _ _ => true
  | _ => false

def query? : Value → Option Query
  | .node operator args => some ⟨operator, args⟩
  | _ => none

def string? : Value → Option String
  | .string text => some text
  | _ => none

end Value

namespace Query

instance : DecidableEq Query
  | ⟨o, xs⟩, ⟨p, ys⟩ =>
    if h : o = p ∧ xs = ys then .isTrue (by rw [h.1, h.2])
    else .isFalse (by simpa using h)

def toValue (q : Query) : Value :=
  .node q.operator q.args

def startsNested : List Value → Bool
  | v :: _ => v.isNode
  | [] => false

def isConnective (q : Query) : Bool :=
  startsNested q.args

def all (children : List Query) : Query :=
  ⟨.conjunction, children.map toValue⟩

theorem allConnective (q : Query) (rest : List Query) : (all (q :: rest)).isConnective = true := rfl

end Query

mutual
def Value.leaves : Value → List Query
  | .node operator args =>
    if Query.startsNested args then leavesOfArgs args else [⟨operator, args⟩]
  | _ => []
def leavesOfArgs : List Value → List Query
  | [] => []
  | v :: vs => v.leaves ++ leavesOfArgs vs
end

abbrev Rewriting := Nat → Query → Option Query

mutual
/-- Rewrites the leaves of a value, the first of which has the given number. The second result is
the number of the next leaf. -/
def Value.rewrite (f : Rewriting) : Value → Nat → Option Value × Nat
  | .node operator args, n =>
    if Query.startsNested args then
      let (kept, next) := rewriteArgs f args n
      (if kept.any Value.isNode then some (.node operator kept) else none, next)
    else ((f n ⟨operator, args⟩).map Query.toValue, n + 1)
  | v, n => (some v, n)
def rewriteArgs (f : Rewriting) : List Value → Nat → List Value × Nat
  | [], n => ([], n)
  | v :: vs, n =>
    let (head, next) := v.rewrite f n
    let (tail, last) := rewriteArgs f vs next
    (head.toList ++ tail, last)
end

namespace Query

def leaves (q : Query) : List Query :=
  q.toValue.leaves

theorem leavesOfComparison {q : Query} (h : q.isConnective = false) : q.leaves = [q] := by
  simp only [isConnective] at h
  simp [leaves, toValue, Value.leaves, h]

def rewriteLeaves (f : Rewriting) (q : Query) : Option Query :=
  (q.toValue.rewrite f 0).1.bind Value.query?

end Query
end FacetSearch
