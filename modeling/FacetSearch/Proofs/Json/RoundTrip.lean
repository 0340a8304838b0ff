import FacetSearch.Json.Read
import FacetSearch.Json.Basic
import FacetSearch.Proofs.Json.Scanning

/-! Written values read back. The reader delivers a value to what is open around it as soon as its
tokens are read. Main statement: both written forms of a value are read as the value. -/
namespace FacetSearch.Json

def named (members : List (String × Json)) : List (Option String × Json) :=
  members.map fun (name, value) => (some name, value)

theorem closeNamed (members : List (String × Json)) :
    closeObject (named members).reverse = .object members := by
  have whole : (named members).reverse.any (fun member => member.1.isNone) = false := by
    simp [named]
  rw [closeObject, whole, List.reverse_reverse, named, List.filterMap_map]
  exact congrArg object List.filterMap_some

theorem stepScalar {j : Json} {t : Token} (scalar : scalar? t = some j) (fresh : Bool)
    (stack : List Open) : step (.value fresh stack) t = some (deliver j stack) := by
  cases t with
  | openArray | closeArray | openObject | closeObject | colon | comma => cases scalar
  | null | bool value | number written => simp [step, scalar]
  | string text => simp [step, scalar]

theorem stepOpenArray (fresh : Bool) (stack : List Open) :
    step (.value fresh stack) .openArray = some (.value true (.array [] :: stack)) := by
  simp [step]

theorem stepOpenObject (fresh : Bool) (stack : List Open) :
    step (.value fresh stack) .openObject = some (.name true [] stack) := by
  simp [step]

theorem runCons {stage next : Stage} {t : Token} (h : step stage t = some next) (ts : List Token) :
    run stage (t :: ts) = run next ts := by
  simp [run, h]

theorem runName (fresh : Bool) (read : List (Option String × Json)) (name : String)
    (stack : List Open) (ts : List Token) :
    run (.name fresh read stack) (.string (some name) :: .colon :: ts) =
      run (.value false (.member read (some name) :: stack)) ts := by
  have known : step (.name fresh read stack) (.string (some name)) =
      some (.colon read (some name) stack) := by simp [step]
  have opened : step (.colon read (some name) stack) .colon =
      some (.value false (.member read (some name) :: stack)) := rfl
  rw [runCons known, runCons opened]

mutual
theorem runTokens : ∀ (j : Json) (fresh : Bool) (stack : List Open) (rest : List Token),
    run (.value fresh stack) (j.tokens ++ rest) = run (deliver j stack) rest
  | .null, fresh, stack, rest => runCons (stepScalar rfl fresh stack) rest
  | .bool _, fresh, stack, rest => runCons (stepScalar rfl fresh stack) rest
  | .number _, fresh, stack, rest => runCons (stepScalar rfl fresh stack) rest
  | .string _, fresh, stack, rest => runCons (stepScalar rfl fresh stack) rest
  | .unpaired, fresh, stack, rest => runCons (stepScalar rfl fresh stack) rest
  | .array [], fresh, stack, rest => runCons (stepOpenArray fresh stack) _
  | .array (j :: js), fresh, stack, rest => by
    have items := runItems (j :: js) (List.cons_ne_nil j js) true [] stack rest
    rw [tokens, List.cons_append, List.append_assoc, runCons (stepOpenArray fresh stack)]
    exact items
  | .object [], fresh, stack, rest => runCons (stepOpenObject fresh stack) _
  | .object (m :: ms), fresh, stack, rest => by
    have members := runMembers (m :: ms) (List.cons_ne_nil m ms) true [] stack rest
    rw [List.append_nil, closeNamed] at members
    rw [tokens, List.cons_append, List.append_assoc, runCons (stepOpenObject fresh stack)]
    exact members
theorem runItems : ∀ (js : List Json), js ≠ [] → ∀ (fresh : Bool) (read : List Json)
    (stack : List Open) (rest : List Token),
    run (.value fresh (.array read :: stack)) (itemTokens js ++ .closeArray :: rest) =
      run (deliver (.array (read.reverse ++ js)) stack) rest
  | [], filled, _, _, _, _ => absurd rfl filled
  | [j], _, fresh, read, stack, rest => by
    have closed : step (deliver j (.array read :: stack)) .closeArray =
        some (deliver (.array (j :: read).reverse) stack) := rfl
    rw [itemTokens, runTokens j, runCons closed, List.reverse_cons]
  | j :: k :: js, _, fresh, read, stack, rest => by
    have more : step (deliver j (.array read :: stack)) .comma =
        some (.value false (.array (j :: read) :: stack)) := rfl
    have written : itemTokens (j :: k :: js) ++ .closeArray :: rest =
        j.tokens ++ .comma :: (itemTokens (k :: js) ++ .closeArray :: rest) :=
      List.append_assoc _ _ _
    rw [written, runTokens j, runCons more, runItems (k :: js) (List.cons_ne_nil k js),
      List.reverse_cons, List.append_assoc, List.singleton_append]
theorem runMembers : ∀ (ms : List (String × Json)), ms ≠ [] → ∀ (fresh : Bool)
    (read : List (Option String × Json)) (stack : List Open) (rest : List Token),
    run (.name fresh read stack) (memberTokens ms ++ .closeObject :: rest) =
      run (deliver (closeObject ((named ms).reverse ++ read)) stack) rest
  | [], filled, _, _, _, _ => absurd rfl filled
  | [(name, value)], _, fresh, read, stack, rest => by
    have closed : step (deliver value (.member read (some name) :: stack)) .closeObject =
        some (deliver (closeObject ((some name, value) :: read)) stack) := rfl
    rw [memberTokens, List.cons_append, List.cons_append, runName, runTokens value, runCons closed]
    rfl
  | (name, value) :: m :: ms, _, fresh, read, stack, rest => by
    have more : step (deliver value (.member read (some name) :: stack)) .comma =
        some (.name false ((some name, value) :: read) stack) := rfl
    have written : memberTokens ((name, value) :: m :: ms) ++ .closeObject :: rest =
        .string (some name) :: .colon ::
          (value.tokens ++ .comma :: (memberTokens (m :: ms) ++ .closeObject :: rest)) :=
      congrArg (Token.string (some name) :: .colon :: ·) (List.append_assoc _ _ _)
    have order : (named ((name, value) :: m :: ms)).reverse ++ read =
        (named (m :: ms)).reverse ++ (some name, value) :: read := by simp [named]
    rw [written, runName, runTokens value, runCons more,
      runMembers (m :: ms) (List.cons_ne_nil m ms), order]
end

theorem tokensRead (j : Json) : ofTokens? j.tokens = some j := by
  have whole := runTokens j false [] []
  rw [List.append_nil] at whole
  rw [ofTokens?, whole]
  rfl

theorem scansRead {j : Json} {cs : List Char} (h : Scans cs j.tokens) :
    read? (String.ofList cs) = some j := by
  have whole := h [] endsNothing
  rw [List.append_nil] at whole
  rw [read?, String.toList_ofList, whole]
  simp [scan, endToken?, tokensRead]

theorem writtenRead {j : Json} (proper : j.isProper = true) :
    read? j.compact = some j ∧ read? j.pretty = some j :=
  ⟨scansRead (scansWritten j proper), scansRead (scansIndented 0 j proper)⟩

theorem writtenApart {j k : Json} (left : j.isProper = true) (right : k.isProper = true) :
    (j.compact = k.compact ↔ j = k) ∧ (j.pretty = k.pretty ↔ j = k) := by
  obtain ⟨compact, pretty⟩ := writtenRead left
  obtain ⟨compact', pretty'⟩ := writtenRead right
  refine ⟨⟨fun same => ?_, congrArg Json.compact⟩, ⟨fun same => ?_, congrArg Json.pretty⟩⟩
  · rw [same, compact'] at compact
    exact (Option.some.inj compact).symm
  · rw [same, pretty'] at pretty
    exact (Option.some.inj pretty).symm

theorem listWritten {α β : Type} {read : Json → Option β} {write : α → Json} {view : α → β}
    (one : ∀ a, read (write a) = some (view a)) (as : List α) :
    (Json.array (as.map write)).list? read = some (as.map view) := by
  induction as with
  | nil => rfl
  | cons a as ih =>
    simp only [list?] at ih
    simp [list?, List.mapM_cons, one, ih]

theorem listKept {α : Type} {read : Json → Option α} {write : α → Json}
    (one : ∀ a, read (write a) = some a) (as : List α) :
    (Json.array (as.map write)).list? read = some as := by
  have same : ∀ a, read (write a) = some (id a) := one
  have whole := listWritten same as
  rwa [List.map_id] at whole

end FacetSearch.Json
