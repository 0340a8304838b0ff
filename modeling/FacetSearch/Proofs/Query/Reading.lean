import FacetSearch.Proofs.Query.Grammar

/-! What the reader has seen at each stage. The tokens up to the innermost opening bracket are fixed
by the open lists, each of which has read arguments followed by commas. A step keeps this
correspondence, so a reader that ends with a query has read a derivation of it. -/
namespace FacetSearch.Grammar
open Reader

def items : Stack → List Value
  | .outermost _ items => items
  | .inside _ items _ => items

/-- Arguments that are each followed by a comma, the last one first. -/
inductive Leading : List Token → List Value → Prop where
  | none : Leading [] []
  | next {lead ts vs v} (before : Leading lead vs) (item : Arg ts v) :
      Leading (lead ++ (ts ++ [.comma])) (v :: vs)

theorem leadingEmpty {lead vs} (h : Leading lead vs) (filled : vs ≠ []) : lead ≠ [] := by
  cases h with
  | none => exact absurd rfl filled
  | next before item => simp

theorem itemsOfLeading {lead vs} (h : Leading lead vs) {ts us} (last : Items ts us) :
    Items (lead ++ ts) (vs.reverse ++ us) := by
  induction h generalizing ts us with
  | none => exact last
  | next before item ih =>
    have next := ih (.more item last)
    simpa using next

def openingTokens : Opening → List Token
  | .call op => [.word op.name, .opens .round]
  | .list b => [.opens b]

theorem argOfOpening (o : Opening) {ts vs} (h : Args ts vs) :
    Arg (openingTokens o ++ (ts ++ [.closes o.bracket])) (o.value vs) := by
  cases o with
  | call op => exact .call (.intro h)
  | list b => exact .list h

/-- The tokens up to the innermost bracket that is still open. -/
def Base : Stack → List Token → Prop
  | .outermost op _, ts => ts = [.word op.name, .opens .round]
  | .inside o _ outer, ts => ∃ base lead, Base outer base ∧ Leading lead (items outer) ∧
      ts = base ++ lead ++ openingTokens o

def Open (s : Stack) (ts : List Token) : Prop :=
  ∃ base lead, Base s base ∧ Leading lead (items s) ∧ ts = base ++ lead

theorem basePush (s : Stack) (v : Value) (ts : List Token) : Base (s.push v) ts ↔ Base s ts := by
  cases s <;> rfl

theorem itemsPush (s : Stack) (v : Value) : items (s.push v) = v :: items s := by
  cases s <;> rfl

/-- The tokens that have led to a stage. -/
def Reads : Stage → List Token → Prop
  | .start, ts => ts = []
  | .named name, ts => ts = [.word name]
  | .opened s, ts => Base s ts ∧ items s = []
  | .separated s, ts => Open s ts ∧ items s ≠ []
  | .pending word s, ts => ∃ before, Open s before ∧ ts = before ++ [.word word]
  | .filled s, ts => ∃ before outer us v, Open outer before ∧ Arg us v ∧ us ≠ [] ∧
      s = outer.push v ∧ ts = before ++ us
  | .done q, ts => Call ts q

theorem closeReads {s base us} (h : Base s base) (args : Args us (items s).reverse) :
    Reads (close s) (base ++ us ++ [.closes s.bracket]) := by
  cases s with
  | outermost op vs =>
    subst h
    exact .intro args
  | inside o vs outer =>
    obtain ⟨before, lead, based, leading, rfl⟩ := h
    refine ⟨before ++ lead, outer, _, _, ⟨before, lead, based, leading, rfl⟩,
      argOfOpening o args, ?_, rfl, ?_⟩
    · cases o <;> simp [openingTokens]
    · simp [Stack.bracket]

theorem afterItemReads {s base lead us v t next} (based : Base s base)
    (leading : Leading lead (items s)) (item : Arg us v) (tokens : lead ++ us ≠ [] ∨ t = .comma)
    (ok : afterItem (s.push v) t = .ok next) : Reads next (base ++ lead ++ us ++ [t]) := by
  unfold afterItem at ok
  split at ok
  · rename_i comma
    cases ok
    subst comma
    refine ⟨⟨base, lead ++ (us ++ [.comma]), (basePush s v base).mpr based, ?_, by simp⟩, ?_⟩
    · rw [itemsPush]
      exact .next leading item
    · simp [itemsPush]
  · split at ok
    · rename_i closing
      cases ok
      subst closing
      have list : Items (lead ++ us) (items (s.push v)).reverse := by
        rw [itemsPush, List.reverse_cons]
        exact itemsOfLeading leading (.one item)
      have whole := closeReads ((basePush s v base).mpr based)
        (.some list (tokens.resolve_right (by simp)))
      simpa using whole
    · cases ok

theorem beginItemReads {s base lead t next} (based : Base s base)
    (leading : Leading lead (items s)) (filled : lead ≠ [] ∨ t ≠ .closes s.bracket)
    (ok : beginItem s t = .ok next) : Reads next (base ++ lead ++ [t]) := by
  cases t with
  | word w =>
    cases ok
    exact ⟨base ++ lead, ⟨base, lead, based, leading, rfl⟩, rfl⟩
  | opens b =>
    cases ok
    exact ⟨⟨base, lead, based, leading, rfl⟩, rfl⟩
  | comma =>
    have read := afterItemReads based leading .empty (.inr rfl) ok
    simpa using read
  | closes b =>
    have tokens : lead ≠ [] := by
      rcases filled with filled | other
      · exact filled
      · simp only [beginItem, afterItem] at ok
        rw [if_neg (by simp), if_neg (by rwa [bracketPush])] at ok
        cases ok
    have read := afterItemReads based leading .empty (.inl (by simpa using tokens)) ok
    simpa using read

theorem stepPending {word : String} {s : Stack} {t : Token} (h : t ≠ .opens .round) :
    step (.pending word s) t = (Literal.read word).bind fun v => afterItem (s.push v) t := by
  cases t with
  | opens b =>
    cases b with
    | round => exact absurd rfl h
    | square => rfl
  | _ => rfl

theorem pendingReads {word s before t next} (opened : Open s before)
    (ok : step (.pending word s) t = .ok next) : Reads next (before ++ [.word word] ++ [t]) := by
  obtain ⟨base, lead, based, leading, rfl⟩ := opened
  by_cases call : t = .opens .round
  · subst call
    cases ok
    refine ⟨⟨base, lead, based, leading, ?_⟩, rfl⟩
    simp [openingTokens]
  · rw [stepPending call] at ok
    cases read : Literal.read word with
    | error e => simp [read, Except.bind] at ok
    | ok v =>
      simp only [read, Except.bind] at ok
      exact afterItemReads based leading (.literal read) (.inl (by simp)) ok

theorem filledReads {s before t next us v} (opened : Open s before) (item : Arg us v)
    (tokens : us ≠ []) (ok : step (.filled (s.push v)) t = .ok next) :
    Reads next (before ++ us ++ [t]) := by
  obtain ⟨base, lead, based, leading, rfl⟩ := opened
  exact afterItemReads based leading item (.inl (by simp [tokens])) ok

theorem stepReads {stage next : Stage} {ts : List Token} {t : Token} (h : Reads stage ts)
    (ok : step stage t = .ok next) : Reads next (ts ++ [t]) := by
  cases stage with
  | start =>
    subst h
    cases t with
    | word w =>
      cases ok
      rfl
    | _ => cases ok
  | named name =>
    subst h
    cases t with
    | opens b =>
      cases b with
      | round =>
        cases ok
        exact ⟨rfl, rfl⟩
      | square => cases ok
    | _ => cases ok
  | opened s =>
    obtain ⟨based, empty⟩ := h
    by_cases closing : t = .closes s.bracket
    · subst closing
      simp only [step, if_true] at ok
      cases ok
      have nothing : Args [] (items s).reverse := by rw [empty]; exact .none
      simpa using closeReads based nothing
    · have nothing : Leading [] (items s) := by rw [empty]; exact .none
      simp only [step, if_neg closing] at ok
      simpa using beginItemReads based nothing (.inr closing) ok
  | separated s =>
    obtain ⟨⟨base, lead, based, leading, rfl⟩, filled⟩ := h
    exact beginItemReads based leading (.inl (leadingEmpty leading filled)) ok
  | pending word s =>
    obtain ⟨before, opened, rfl⟩ := h
    exact pendingReads opened ok
  | filled s =>
    obtain ⟨before, outer, us, v, opened, item, tokens, rfl, rfl⟩ := h
    exact filledReads opened item tokens ok
  | done q => cases ok

theorem runReads {stage next : Stage} {ts us : List Token} (h : Reads stage ts)
    (ok : run stage us = .ok next) : Reads next (ts ++ us) := by
  induction us generalizing stage ts with
  | nil =>
    cases ok
    simpa using h
  | cons t us ih =>
    cases first : step stage t with
    | error e => simp [run, first, bind, Except.bind] at ok
    | ok middle =>
      rw [runStep first] at ok
      have whole := ih (stepReads h first) ok
      simpa using whole

theorem finishDone {stage : Stage} {q : Query} (ok : finish stage = .ok q) : stage = .done q := by
  cases stage with
  | done r =>
    cases ok
    rfl
  | pending word s =>
    cases read : Literal.read word <;> simp [finish, read, bind, Except.bind] at ok
  | _ => cases ok

theorem readCall {ts : List Token} {q : Query} (ok : Query.ofTokens ts = .ok q) : Call ts q := by
  unfold Query.ofTokens at ok
  cases ran : run .start ts with
  | error e => simp [ran, bind, Except.bind] at ok
  | ok stage =>
    simp only [ran, bind, Except.bind] at ok
    have begins : Reads .start [] := rfl
    have read := runReads begins ran
    rw [finishDone ok] at read
    exact read

theorem readsCall (ts : List Token) (q : Query) : Query.ofTokens ts = .ok q ↔ Call ts q :=
  ⟨readCall, callRead⟩

/-- The reader decides the grammar: it returns the one tree that the tokens derive, and refuses
tokens that derive none. -/
theorem readsExactlyDerived (ts : List Token) :
    (∀ q, Query.ofTokens ts = .ok q ↔ Call ts q) ∧
    (∀ q r, Call ts q → Call ts r → q = r) ∧
    ((∀ q, ¬ Call ts q) → ∃ e, Query.ofTokens ts = .error e) := by
  refine ⟨readsCall ts, ?_, ?_⟩
  · intro q r left right
    exact Except.ok.inj ((callRead left).symm.trans (callRead right))
  · intro none
    cases read : Query.ofTokens ts with
    | error e => exact ⟨e, rfl⟩
    | ok q => exact absurd (readCall read) (none q)

end FacetSearch.Grammar
