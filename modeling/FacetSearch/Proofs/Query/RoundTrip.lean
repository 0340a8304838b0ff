import FacetSearch.Proofs.Query.Reading
import FacetSearch.Proofs.Query.Words
import FacetSearch.Query.Text

/-! Rendering against reading. The tokens of a rendered value derive it in the grammar when each of
its operators has a name that is one word; operators that were read have such names. Main statement:
exactly the queries with well-named operators read back from their rendering. -/
namespace FacetSearch
open Grammar

mutual
/-- The operators of a value, at any depth and also in lists. -/
def Value.operators : Value → List Operator
  | .node operator args => operator :: operatorsOf args
  | .list items => operatorsOf items
  | .string _ | .integer _ | .notANumber => []
def operatorsOf : List Value → List Operator
  | [] => []
  | v :: vs => v.operators ++ operatorsOf vs
end

def Operator.WellNamed (op : Operator) : Prop :=
  op.name ≠ "" ∧ ∀ c ∈ op.name.toList, Text.isBlank c = false ∧ c ∉ reserved

def AllNamed (ops : List Operator) : Prop :=
  ∀ op ∈ ops, op.WellNamed

def Query.WellNamed (q : Query) : Prop :=
  AllNamed q.toValue.operators

theorem wellNamedIff (op : Operator) :
    op.WellNamed ↔ op.name.toList ≠ [] ∧ ∀ c ∈ op.name.toList, Token.isWordChar c = true := by
  simp only [Operator.WellNamed, Token.wordCharIff, ne_eq, String.toList_eq_nil_iff]

theorem knownNamed : AllNamed Operator.known := by
  have words : ∀ op ∈ Operator.known,
      op.name.toList ≠ [] ∧ op.name.toList.all Token.isWordChar = true := by decide
  intro op member
  obtain ⟨filled, letters⟩ := words op member
  exact (wellNamedIff op).mpr ⟨filled, List.all_eq_true.mp letters⟩

theorem scanName {op : Operator} (h : op.WellNamed) :
    Token.scan [] op.name.toList = [.word op.name] := by
  obtain ⟨filled, letters⟩ := (wellNamedIff op).mp h
  rw [Token.scanOneWord filled letters, String.ofList_toList]

theorem scanClosed (cs : List Char) :
    Token.scan [] (cs ++ [')']) = Token.scan [] cs ++ [.closes .round] :=
  Token.scanCut [] cs (show Token.ofChar? ')' = _ from rfl) (by decide) []

theorem scanList (cs : List Char) : Token.scan [] ('(' :: cs ++ [')']) =
    .opens .round :: (Token.scan [] cs ++ [.closes .round]) := by
  have opened := Token.scanCut [] [] (show Token.ofChar? '(' = _ from rfl) (by decide) (cs ++ [')'])
  rw [scanClosed] at opened
  exact opened

theorem scanCall {op : Operator} (h : op.WellNamed) (cs : List Char) :
    Token.scan [] (op.name.toList ++ '(' :: cs ++ [')']) =
      .word op.name :: .opens .round :: (Token.scan [] cs ++ [.closes .round]) := by
  rw [List.append_assoc, List.cons_append,
    Token.scanCut [] _ (show Token.ofChar? '(' = _ from rfl) (by decide), scanName h, scanClosed]
  rfl

theorem literalArg {cs : List Char} {v : Value} (filled : cs ≠ [])
    (letters : ∀ c ∈ cs, Token.isWordChar c = true) (reads : Literal.readChars cs = .ok v) :
    Arg (Token.scan [] cs) v := by
  rw [Token.scanOneWord filled letters]
  exact .literal (by rw [Literal.read, String.toList_ofList, reads])

theorem stringArg (s : String) : Arg (Token.scan [] (Literal.writeString s)) (.string s) := by
  by_cases empty : Literal.writeString s = []
  · rw [empty, Literal.writtenEmpty empty]
    exact .empty
  · exact literalArg empty (Literal.writtenWordChars s) (Literal.readWritten s)

theorem integerArg (n : Int64) : Arg (Token.scan [] (Text.decimal n)) (.integer n) := by
  refine literalArg ?_ (Literal.decimalWordChars n) (Literal.readDecimal n)
  intro empty
  have number := Text.decimalIsInteger n
  rw [empty] at number
  cases number

theorem nanArg : Arg (Token.scan [] Literal.nanWord) .notANumber :=
  literalArg (by decide) Literal.nanWordChars Literal.readNan

theorem argNothing {ts v} (h : Arg ts v) (empty : ts = []) : v = .string "" := by
  cases h with
  | empty => rfl
  | literal reads => cases empty
  | list inside => cases empty
  | call nested =>
    cases nested with
    | intro arguments => cases empty

theorem itemsNothing {ts vs} (h : Items ts vs) (empty : ts = []) : vs = [.string ""] := by
  cases h with
  | one item => rw [argNothing item empty]
  | more item rest => simp at empty

def bracketed (vs : List Value) : List Char :=
  if isLoneEmpty vs then Literal.stringMark else writeItems vs

theorem argsOfItems {vs : List Value} (h : vs ≠ [] → Items (Token.scan [] (writeItems vs)) vs) :
    Args (Token.scan [] (bracketed vs)) vs := by
  have mark : Arg (Token.scan [] Literal.stringMark) (.string "") :=
    literalArg (by decide) Literal.markWordChars Literal.readMark
  unfold bracketed
  split
  · rename_i lone
    have same : vs = [.string ""] := by
      unfold isLoneEmpty at lone
      split at lone
      · rw [String.isEmpty_iff.mp lone]
      · cases lone
    rw [same]
    refine .some (.one mark) ?_
    rw [Token.scanOneWord (by decide) Literal.markWordChars]
    simp
  · rename_i several
    by_cases none : vs = []
    · rw [none]
      exact .none
    · refine .some (h none) fun empty => several ?_
      rw [itemsNothing (h none) empty]
      rfl

theorem allNamedAppend {left right : List Operator} (h : AllNamed (left ++ right)) :
    AllNamed left ∧ AllNamed right :=
  List.forall_mem_append.mp h

theorem callOfItems {op : Operator} {args : List Value}
    (named : AllNamed (Value.node op args).operators)
    (h : args ≠ [] → AllNamed (operatorsOf args) → Items (Token.scan [] (writeItems args)) args) :
    Call (Token.scan [] (Value.node op args).write) ⟨op, args⟩ := by
  obtain ⟨opNamed, argsNamed⟩ := List.forall_mem_cons.mp named
  have inside := argsOfItems fun filled => h filled argsNamed
  exact scanCall opNamed (bracketed args) ▸ .intro inside

mutual
theorem writtenArg : ∀ v : Value, AllNamed v.operators → Arg (Token.scan [] v.write) v
  | .string s, _ => stringArg s
  | .integer n, _ => integerArg n
  | .notANumber, _ => nanArg
  | .list vs, named => by
    have inside := argsOfItems fun filled => writtenItems vs filled named
    exact scanList (bracketed vs) ▸ .list inside
  | .node op args, named => .call (callOfItems named (writtenItems args))

theorem writtenItems : ∀ vs : List Value, vs ≠ [] → AllNamed (operatorsOf vs) →
    Items (Token.scan [] (writeItems vs)) vs
  | [], filled, _ => absurd rfl filled
  | [v], _, named => .one (writtenArg v (allNamedAppend named).1)
  | v :: w :: vs, _, named => by
    have head := writtenArg v (allNamedAppend named).1
    have tail := writtenItems (w :: vs) (by simp) (allNamedAppend named).2
    -- the equation for two or more values asks that the rest is not empty
    rw [writeItems, Token.scanCut [] v.write (show Token.ofChar? ',' = _ from rfl) (by decide)]
    · exact .more head tail
    · simp
end

theorem writtenCall {q : Query} (h : q.WellNamed) : Call (Token.scan [] q.toValue.write) q :=
  callOfItems h (writtenItems q.args)

def Allowed (cs : List Char) : Prop :=
  ∀ c ∈ cs, Token.isForbidden c = false

theorem allowedWord {cs : List Char} (h : ∀ c ∈ cs, Token.isWordChar c = true) : Allowed cs :=
  fun c member => (Token.wordCharParts (h c member)).2.2

theorem allowedAppend {left right : List Char} (hl : Allowed left) (hr : Allowed right) :
    Allowed (left ++ right) :=
  List.forall_mem_append.mpr ⟨hl, hr⟩

theorem allowedCons {c : Char} {cs : List Char} (hc : Token.isForbidden c = false)
    (h : Allowed cs) : Allowed (c :: cs) :=
  List.forall_mem_cons.mpr ⟨hc, h⟩

theorem allowedList {vs : List Value} (h : Allowed (writeItems vs)) :
    Allowed ('(' :: bracketed vs ++ [')']) := by
  refine allowedAppend (allowedCons (by decide) ?_) (allowedCons (by decide) (by simp [Allowed]))
  unfold bracketed
  split
  · exact allowedWord Literal.markWordChars
  · exact h

mutual
theorem writtenAllowed : ∀ v : Value, AllNamed v.operators → Allowed v.write
  | .string s, _ => allowedWord (Literal.writtenWordChars s)
  | .integer n, _ => allowedWord (Literal.decimalWordChars n)
  | .notANumber, _ => allowedWord Literal.nanWordChars
  | .list vs, named => allowedList (itemsAllowed vs named)
  | .node op args, named => by
    obtain ⟨opNamed, argsNamed⟩ := List.forall_mem_cons.mp named
    have name := allowedWord ((wellNamedIff op).mp opNamed).2
    have inside := allowedAppend name (allowedList (itemsAllowed args argsNamed))
    rw [← List.append_assoc] at inside
    exact inside

theorem itemsAllowed : ∀ vs : List Value, AllNamed (operatorsOf vs) → Allowed (writeItems vs)
  | [], _ => by simp [Allowed, writeItems]
  | [v], named => writtenAllowed v (allNamedAppend named).1
  | v :: w :: vs, named => by
    have head := writtenAllowed v (allNamedAppend named).1
    have tail := itemsAllowed (w :: vs) (allNamedAppend named).2
    rw [writeItems]
    · exact allowedAppend head (allowedCons (by decide) tail)
    · simp
end

theorem parseRendered {q : Query} (h : q.WellNamed) : Query.parse q.render = .ok q := by
  have scanned := tokenizeAllowed (writtenAllowed q.toValue h)
  simp only [Query.parse, Query.render, Value.render, scanned, bind, Except.bind]
  exact callRead (writtenCall h)

theorem decodeOperators {cs : List Char} {v : Value} (h : Literal.decode cs = .ok v) :
    v.operators = [] := by
  unfold Literal.decode at h
  split at h <;> cases h
  rfl

theorem numberOperators {cs : List Char} {v : Value} (h : Literal.readNumber cs = .ok v) :
    v.operators = [] := by
  unfold Literal.readNumber at h
  split at h
  · cases h
    rfl
  · split at h <;> cases h
    rfl

theorem bareOperators {cs : List Char} {v : Value} (h : Literal.bareNumber? cs = some v) :
    v.operators = [] := by
  unfold Literal.bareNumber? at h
  split at h
  · cases h
    rfl
  · split at h
    · obtain ⟨n, _, rfl⟩ := Option.map_eq_some_iff.mp h
      rfl
    · cases h

theorem literalOperators {w : String} {v : Value} (h : Literal.read w = .ok v) :
    v.operators = [] := by
  unfold Literal.read Literal.readChars at h
  split at h
  · exact decodeOperators h
  · split at h
    · exact numberOperators h
    · split at h
      · rename_i bare
        cases h
        exact bareOperators bare
      · exact decodeOperators h

def WordsName (ts : List Token) : Prop :=
  ∀ w, .word w ∈ ts → Operator.WellNamed ⟨w⟩

mutual
theorem callNamed : ∀ {ts q}, Call ts q → WordsName ts → q.WellNamed
  | _, _, @Call.intro name ts args arguments, words => by
    have inside := argsNamed arguments fun w member => words w (by simp [member])
    exact List.forall_mem_cons.mpr ⟨words name (by simp), inside⟩

theorem argsNamed : ∀ {ts vs}, Args ts vs → WordsName ts → AllNamed (operatorsOf vs)
  | _, _, .none, _ => by simp [AllNamed, operatorsOf]
  | _, _, .some items _, words => itemsNamed items words

theorem itemsNamed : ∀ {ts vs}, Items ts vs → WordsName ts → AllNamed (operatorsOf vs)
  | _, _, .one item, words => by
    have named := argNamed item words
    simpa [operatorsOf] using named
  | _, _, @Items.more ts v us vs item rest, words => by
    have head := argNamed item fun w member => words w (by simp [member])
    have tail := itemsNamed rest fun w member => words w (by simp [member])
    exact List.forall_mem_append.mpr ⟨head, tail⟩

theorem argNamed : ∀ {ts v}, Arg ts v → WordsName ts → AllNamed v.operators
  | _, _, .empty, _ => by simp [AllNamed, Value.operators]
  | _, _, .literal reads, _ => by
    rw [literalOperators reads]
    simp [AllNamed]
  | _, _, .list inside, words => argsNamed inside fun w member => words w (by simp [member])
  | _, _, .call nested, words => callNamed nested words
end

theorem parsedNamed {text : String} {q : Query} (h : Query.parse text = .ok q) : q.WellNamed := by
  cases scanned : tokenize text with
  | error e => simp [Query.parse, scanned, bind, Except.bind] at h
  | ok ts =>
    simp only [Query.parse, scanned, bind, Except.bind] at h
    refine callNamed (readCall h) fun w member => (wellNamedIff ⟨w⟩).mpr ?_
    exact tokenizeWords scanned member

/-- A query reads back from its rendering exactly when its operators are well named, as they are in
every query that was read. -/
theorem parseRenderExactly (q : Query) :
    (Query.parse q.render = .ok q ↔ q.WellNamed) ∧
    ∀ text, Query.parse text = .ok q → q.WellNamed ∧ Query.parse q.render = .ok q := by
  refine ⟨⟨parsedNamed, parseRendered⟩, fun text read => ?_⟩
  have named := parsedNamed read
  exact ⟨named, parseRendered named⟩

end FacetSearch
