import FacetSearch.Proofs.Query.Reading

/-! What the tokens behind a list that was read can still change. A token is refused for what stands
before it alone, so nothing that follows mends it; a list that ends too early is completed by the
closing brackets of what is open, the innermost first; behind a query every token is refused. -/
namespace FacetSearch

namespace QueryError

/-- Some token stands where it cannot. -/
def isMisplaced : QueryError → Bool
  | unexpected _ _ | trailing _ => true
  | _ => false

/-- The tokens end before the query does. -/
def isIncomplete : QueryError → Bool
  | unexpectedEnd | unclosed _ => true
  | _ => false

end QueryError

namespace Literal

theorem decodeError {cs : List Char} {e : QueryError} (h : decode cs = .error e) :
    ∃ word, e = .badEncoding word := by
  unfold decode at h
  split at h <;> cases h
  exact ⟨_, rfl⟩

theorem readError {word : String} {e : QueryError} (h : read word = .error e) :
    e.isMisplaced = false ∧ e.isIncomplete = false := by
  have encoding : ∀ {cs}, decode cs = .error e →
      e.isMisplaced = false ∧ e.isIncomplete = false := by
    intro cs failed
    obtain ⟨word, rfl⟩ := decodeError failed
    exact ⟨rfl, rfl⟩
  unfold read readChars at h
  split at h
  · exact encoding h
  · split at h
    · unfold readNumber at h
      split at h
      · cases h
      · split at h <;> cases h
        exact ⟨rfl, rfl⟩
    · split at h
      · cases h
      · exact encoding h

end Literal

namespace Grammar
open Reader

theorem afterItemError {s : Stack} {t : Token} {e : QueryError} (h : afterItem s t = .error e) :
    e.isIncomplete = false := by
  unfold afterItem at h
  split at h
  · cases h
  · split at h <;> cases h
    rfl

theorem beginItemError {s : Stack} {t : Token} {e : QueryError} (h : beginItem s t = .error e) :
    e.isIncomplete = false := by
  cases t with
  | word w => cases h
  | opens b => cases h
  | closes b => exact afterItemError h
  | comma => exact afterItemError h

/-- A step refuses the token at hand; that the tokens end too early is found at their end only. -/
theorem stepError {stage : Stage} {t : Token} {e : QueryError} (h : step stage t = .error e) :
    e.isIncomplete = false := by
  cases stage with
  | start => cases t <;> cases h <;> rfl
  | named name =>
    cases t with
    | opens b =>
      cases b <;> cases h
      rfl
    | _ =>
      cases h
      rfl
  | opened s =>
    simp only [step] at h
    split at h
    · cases h
    · exact beginItemError h
  | separated s => exact beginItemError h
  | pending word s =>
    by_cases call : t = .opens .round
    · rw [call] at h
      cases h
    · rw [stepPending call] at h
      cases read : Literal.read word with
      | error other =>
        rw [read] at h
        cases h
        exact (Literal.readError read).2
      | ok v =>
        rw [read] at h
        exact afterItemError h
  | filled s => exact afterItemError h
  | done q =>
    cases h
    rfl

theorem runError {stage : Stage} {ts : List Token} {e : QueryError} (h : run stage ts = .error e) :
    e.isIncomplete = false := by
  induction ts generalizing stage with
  | nil => cases h
  | cons t ts ih =>
    cases first : step stage t with
    | error other =>
      simp only [run, first, bind, Except.bind] at h
      cases h
      exact stepError first
    | ok next =>
      rw [runStep first] at h
      exact ih h

theorem finishPending {word : String} {s : Stack} {e : QueryError}
    (h : finish (.pending word s) = .error e) :
    Literal.read word = .error e ∨ e = .unclosed s.bracket ∧ ∃ v, Literal.read word = .ok v := by
  simp only [finish, bind] at h
  cases read : Literal.read word with
  | error other =>
    rw [read] at h
    cases h
    exact .inl rfl
  | ok v =>
    rw [read] at h
    cases h
    exact .inr ⟨rfl, v, rfl⟩

theorem finishError {stage : Stage} {e : QueryError} (h : finish stage = .error e) :
    e.isMisplaced = false := by
  cases stage with
  | pending word s =>
    rcases finishPending h with unread | ⟨rfl, _⟩
    · exact (Literal.readError unread).1
    · rfl
  | done q => cases h
  | _ =>
    cases h
    rfl

theorem ofTokensAppend (ts us : List Token) :
    Query.ofTokens (ts ++ us) =
      (run .start ts).bind fun stage => (run stage us).bind finish := by
  simp only [Query.ofTokens, runAppend, bind]
  cases run .start ts <;> rfl

theorem ofTokensError {ts : List Token} {e : QueryError} (h : Query.ofTokens ts = .error e) :
    run .start ts = .error e ∨ ∃ stage, run .start ts = .ok stage ∧ finish stage = .error e := by
  unfold Query.ofTokens at h
  cases ran : run .start ts with
  | error other =>
    rw [ran] at h
    cases h
    exact .inl rfl
  | ok stage =>
    rw [ran] at h
    exact .inr ⟨stage, rfl, h⟩

theorem misplacedStays {ts : List Token} {e : QueryError} (h : Query.ofTokens ts = .error e)
    (misplaced : e.isMisplaced = true) (us : List Token) :
    Query.ofTokens (ts ++ us) = .error e := by
  rcases ofTokensError h with ran | ⟨stage, _, ended⟩
  · rw [ofTokensAppend, ran]
    rfl
  · rw [finishError ended] at misplaced
    cases misplaced

theorem incompleteStage {ts : List Token} {e : QueryError} (h : Query.ofTokens ts = .error e)
    (incomplete : e.isIncomplete = true) :
    ∃ stage, finish stage = .error e ∧
      ∀ us, Query.ofTokens (ts ++ us) = (run stage us).bind finish := by
  rcases ofTokensError h with ran | ⟨stage, ran, ended⟩
  · rw [runError ran] at incomplete
    cases incomplete
  · refine ⟨stage, ended, fun us => ?_⟩
    rw [ofTokensAppend, ran]
    rfl

theorem finishEnd {stage : Stage} (h : finish stage = .error .unexpectedEnd) :
    stage = .start ∨ ∃ name, stage = .named name := by
  cases stage with
  | start => exact .inl rfl
  | named name => exact .inr ⟨name, rfl⟩
  | pending word s =>
    rcases finishPending h with unread | ⟨other, _⟩
    · cases (Literal.readError unread).2
    · cases other
  | _ => cases h

/-- The brackets around the innermost open list, which is closed by its own. -/
def enclosing : Stack → List Bracket
  | .outermost _ _ => []
  | .inside _ _ outer => outer.bracket :: enclosing outer

def closers (bs : List Bracket) : List Token :=
  bs.map .closes

theorem filledCloses (s : Stack) (v : Value) :
    ∃ q, run (.filled (s.push v)) (closers (s.bracket :: enclosing s)) = .ok (.done q) := by
  induction s generalizing v with
  | outermost op items => exact ⟨⟨op, (v :: items).reverse⟩, rfl⟩
  | inside o items outer ih =>
    -- The list that is closed is an item of the one around it, where the next bracket fits.
    obtain ⟨q, outwards⟩ := ih (o.value (v :: items).reverse)
    have closes : step (.filled (.inside o (v :: items) outer)) (.closes o.bracket) =
        .ok (close (.inside o (v :: items) outer)) :=
      afterClosing (.inside o (v :: items) outer)
    exact ⟨q, (runStep closes _).trans outwards⟩

theorem closeCloses (s : Stack) : ∃ q, run (close s) (closers (enclosing s)) = .ok (.done q) := by
  cases s with
  | outermost op items => exact ⟨⟨op, items.reverse⟩, rfl⟩
  | inside o items outer => exact filledCloses outer (o.value items.reverse)

theorem finishOpen {stage : Stage} {b : Bracket} (h : finish stage = .error (.unclosed b)) :
    ∃ s, step stage (.closes b) = .ok (close s) := by
  cases stage with
  | start => cases h
  | named name => cases h
  | opened s =>
    cases h
    exact ⟨s, if_pos rfl⟩
  | separated s =>
    cases h
    refine ⟨s.push (.string ""), ?_⟩
    rw [← bracketPush s (.string "")]
    exact afterClosing _
  | pending word s =>
    rcases finishPending h with unread | ⟨same, v, read⟩
    · cases (Literal.readError unread).2
    · cases same
      refine ⟨s.push v, ?_⟩
      rw [stepPending (by simp), read, ← bracketPush s v]
      exact afterClosing _
  | filled s =>
    cases h
    exact ⟨s, afterClosing s⟩
  | done q => cases h

theorem endContinues {ts : List Token} (h : Query.ofTokens ts = .error .unexpectedEnd) :
    ∃ us q, Query.ofTokens (ts ++ us) = .ok q := by
  obtain ⟨stage, ended, continues⟩ := incompleteStage h rfl
  rcases finishEnd ended with rfl | ⟨name, rfl⟩
  · exact ⟨[.word "and", .opens .round, .closes .round], ⟨.conjunction, []⟩, continues _⟩
  · exact ⟨[.opens .round, .closes .round], ⟨⟨name⟩, []⟩, continues _⟩

theorem unclosedContinues {ts : List Token} {b : Bracket}
    (h : Query.ofTokens ts = .error (.unclosed b)) :
    ∃ bs q, Query.ofTokens (ts ++ closers (b :: bs)) = .ok q := by
  obtain ⟨stage, ended, continues⟩ := incompleteStage h rfl
  obtain ⟨s, closes⟩ := finishOpen ended
  obtain ⟨q, outwards⟩ := closeCloses s
  have closed : run stage (closers (b :: enclosing s)) = .ok (.done q) :=
    (runStep closes _).trans outwards
  refine ⟨enclosing s, q, ?_⟩
  rw [continues, closed]
  rfl

theorem completeRefuses {ts : List Token} {q : Query} (h : Query.ofTokens ts = .ok q) (u : Token)
    (us : List Token) : Query.ofTokens (ts ++ u :: us) = .error (.trailing u) := by
  have complete : run .start ts = .ok (.done q) := by
    cases ran : run .start ts with
    | error e => simp [Query.ofTokens, ran, bind, Except.bind] at h
    | ok stage =>
      simp only [Query.ofTokens, ran, bind, Except.bind] at h
      rw [finishDone h]
  rw [ofTokensAppend, complete]
  rfl

/-- A misplaced token stays misplaced whatever follows; an incomplete list can be completed, where
something is open by closing brackets alone; a complete one cannot be continued. -/
theorem readingOn (ts : List Token) :
    (∀ e, Query.ofTokens ts = .error e → e.isMisplaced = true →
      ∀ us, Query.ofTokens (ts ++ us) = .error e) ∧
    (Query.ofTokens ts = .error .unexpectedEnd → ∃ us q, Query.ofTokens (ts ++ us) = .ok q) ∧
    (∀ b, Query.ofTokens ts = .error (.unclosed b) →
      ∃ bs q, Query.ofTokens (ts ++ closers (b :: bs)) = .ok q) ∧
    (∀ q, Query.ofTokens ts = .ok q →
      ∀ u us, Query.ofTokens (ts ++ u :: us) = .error (.trailing u)) := by
  refine ⟨?_, endContinues, fun b => unclosedContinues, fun q => completeRefuses⟩
  exact fun e failed misplaced us => misplacedStays failed misplaced us

end Grammar
end FacetSearch
