import FacetSearch.Query.Text

/-! The grammar of queries over tokens, and the reader against it. A call is a word and arguments in
round brackets; an argument is a call, a list in either kind of bracket, a literal or nothing, which
is the empty text. Main statement: the reader returns exactly the tree that the grammar derives. -/
namespace FacetSearch.Grammar
open Reader

mutual
inductive Call : List Token → Query → Prop where
  | intro {name ts args} (arguments : Args ts args) :
      Call (.word name :: .opens .round :: (ts ++ [.closes .round])) ⟨⟨name⟩, args⟩
/-- A single argument without tokens is not derived, so empty brackets hold no argument. -/
inductive Args : List Token → List Value → Prop where
  | none : Args [] []
  | some {ts args} (items : Items ts args) (tokens : ts ≠ []) : Args ts args
inductive Items : List Token → List Value → Prop where
  | one {ts v} (item : Arg ts v) : Items ts [v]
  | more {ts v us vs} (item : Arg ts v) (rest : Items us vs) :
      Items (ts ++ .comma :: us) (v :: vs)
inductive Arg : List Token → Value → Prop where
  | empty : Arg [] (.string "")
  | literal {word v} (reads : Literal.read word = .ok v) : Arg [.word word] v
  | list {b ts items} (inside : Args ts items) :
      Arg (.opens b :: (ts ++ [.closes b])) (.list items)
  | call {ts q} (nested : Call ts q) : Arg ts q.toValue
end

def EndsItem : Token → Prop
  | .comma | .closes _ => True
  | _ => False

theorem argStarts {ts v} (h : Arg ts v) (b : Bracket) : ts.head? ≠ some (.closes b) := by
  cases h with
  | empty => simp
  | literal reads => simp
  | list inside => simp
  | call nested =>
    cases nested with
    | intro arguments => simp

theorem itemsStart {ts vs} (h : Items ts vs) (b : Bracket) : ts.head? ≠ some (.closes b) := by
  cases h with
  | one item => exact argStarts item b
  | @more ts _ _ _ item _ =>
    have first := argStarts item b
    cases ts with
    | nil => simp
    | cons t ts => simpa using first

def pushAll (s : Stack) (vs : List Value) : Stack :=
  vs.foldl (fun s v => s.push v) s

theorem bracketPush (s : Stack) (v : Value) : (s.push v).bracket = s.bracket := by
  cases s <;> rfl

theorem pushAllOutermost (op : Operator) (items vs : List Value) :
    pushAll (.outermost op items) vs = .outermost op (vs.reverse ++ items) := by
  induction vs generalizing items with
  | nil => rfl
  | cons v vs ih =>
    have next := ih (v :: items)
    simpa [pushAll, Stack.push] using next

theorem pushAllInside (o : Opening) (items vs : List Value) (outer : Stack) :
    pushAll (.inside o items outer) vs = .inside o (vs.reverse ++ items) outer := by
  induction vs generalizing items with
  | nil => rfl
  | cons v vs ih =>
    have next := ih (v :: items)
    simpa [pushAll, Stack.push] using next

theorem closeOutermost (op : Operator) (vs : List Value) :
    close (pushAll (.outermost op []) vs) = .done ⟨op, vs⟩ := by
  rw [pushAllOutermost, close, List.append_nil, List.reverse_reverse]

theorem closeInside (o : Opening) (vs : List Value) (outer : Stack) :
    close (pushAll (.inside o [] outer) vs) = .filled (outer.push (o.value vs)) := by
  rw [pushAllInside, close, List.append_nil, List.reverse_reverse]

theorem runStep {stage next : Stage} {t : Token} (h : step stage t = .ok next) (ts : List Token) :
    run stage (t :: ts) = run next ts := by
  simp [run, h, bind, Except.bind]

theorem stepOpened {s : Stack} {t : Token} (h : t ≠ .closes s.bracket) :
    step (.opened s) t = step (.separated s) t := by
  simp [step, h]

theorem afterComma (s : Stack) : afterItem s .comma = .ok (.separated s) := rfl

theorem afterClosing (s : Stack) : afterItem s (.closes s.bracket) = .ok (close s) := by
  simp [afterItem]

def ArgRuns (ts : List Token) (v : Value) : Prop :=
  ∀ (s : Stack) (t : Token) (rest : List Token), EndsItem t →
    run (.separated s) (ts ++ t :: rest) = (afterItem (s.push v) t).bind (run · rest)

mutual
theorem callRuns : ∀ {ts q}, Call ts q → ∀ (s : Stack) (rest : List Token),
    run (.separated s) (ts ++ rest) = run (.filled (s.push q.toValue)) rest
  | _, _, @Call.intro name ts args arguments, s, rest => by
    have inner := argsRun arguments (.inside (.call ⟨name⟩) [] s) rest
    rw [closeInside] at inner
    simp only [List.cons_append, List.append_assoc, List.nil_append]
    rw [runStep (show step (.separated s) (.word name) = .ok (.pending name s) from rfl),
      runStep (show step (.pending name s) (.opens .round) = _ from rfl)]
    exact inner

theorem argsRun : ∀ {ts vs}, Args ts vs → ∀ (s : Stack) (rest : List Token),
    run (.opened s) (ts ++ .closes s.bracket :: rest) = run (close (pushAll s vs)) rest
  | _, _, .none, s, rest => runStep (by simp [step, pushAll]) rest
  | _, _, .some items tokens, s, rest => by
    have inner := itemsRun items s rest
    have start := itemsStart items s.bracket
    obtain ⟨t, us, rfl⟩ := List.exists_cons_of_ne_nil tokens
    have differs : t ≠ .closes s.bracket := by simpa using start
    rw [List.cons_append] at inner ⊢
    simpa only [run, stepOpened differs] using inner

theorem itemsRun : ∀ {ts vs}, Items ts vs → ∀ (s : Stack) (rest : List Token),
    run (.separated s) (ts ++ .closes s.bracket :: rest) = run (close (pushAll s vs)) rest
  | _, _, @Items.one _ v item, s, rest => by
    rw [argRuns item s (.closes _) rest trivial, ← bracketPush s v, afterClosing]
    rfl
  | _, _, @Items.more ts v us vs item tail, s, rest => by
    have inner := itemsRun tail (s.push v) rest
    rw [bracketPush] at inner
    rw [List.append_assoc, List.cons_append, argRuns item s .comma _ trivial, afterComma]
    exact inner

theorem argRuns : ∀ {ts v}, Arg ts v → ArgRuns ts v
  | _, _, .empty, s, t, rest, ends => by
    cases t with
    | word w => exact ends.elim
    | opens b => exact ends.elim
    | closes b => rfl
    | comma => rfl
  | _, _, @Arg.literal word v reads, s, t, rest, ends => by
    have pending : step (.pending word s) t = afterItem (s.push v) t := by
      cases t with
      | word w => exact ends.elim
      | opens b => exact ends.elim
      | closes b => simp [step, reads, bind, Except.bind]
      | comma => simp [step, reads, bind, Except.bind]
    rw [List.cons_append, runStep (show step (.separated s) (.word word) = _ from rfl)]
    simp only [List.nil_append, run, pending, bind]
  | _, _, @Arg.list b ts items inside, s, t, rest, ends => by
    have inner := argsRun inside (.inside (.list b) [] s) (t :: rest)
    rw [closeInside] at inner
    simp only [List.cons_append, List.append_assoc, List.nil_append]
    rw [runStep (show step (.separated s) (.opens b) = _ from rfl)]
    exact inner
  | _, _, .call nested, s, t, rest, _ => callRuns nested s (t :: rest)
end

theorem callRead {ts q} (h : Call ts q) : Query.ofTokens ts = .ok q := by
  cases h with
  | @intro name ts args arguments =>
    have inner := argsRun arguments (.outermost ⟨name⟩ []) []
    rw [closeOutermost] at inner
    have whole : run .start (.word name :: .opens .round :: (ts ++ [.closes .round])) =
        .ok (.done ⟨⟨name⟩, args⟩) := inner
    simp only [Query.ofTokens, whole, bind, Except.bind, finish]

end FacetSearch.Grammar
