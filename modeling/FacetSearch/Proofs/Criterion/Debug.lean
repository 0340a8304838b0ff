import FacetSearch.Criterion.Basic

/-! Criteria as developers see them. An escaped character is read back whatever follows it, so
quoted text ends at its closing quote. Main statement: two criteria look the same exactly if they
have the same kind, name and operator, whichever characters beyond ASCII are shown. -/
namespace FacetSearch

namespace Text

def hexNumber (digits : List Char) : Nat :=
  digits.foldl (fun n c => 16 * n + (hexValue? c).getD 0) 0

theorem hexValueDigit : ∀ n < 16, hexValue? n.digitChar = some n := by decide

theorem hexNumberDigits (n : Nat) : hexNumber (Nat.toDigits 16 n) = n := by
  induction n using Nat.strongRecOn with
  | ind n ih =>
    by_cases small : n < 16
    · simp [hexNumber, Nat.toDigits_of_lt_base small, hexValueDigit n small]
    · have front := ih (n / 16) (by omega)
      unfold hexNumber at front ⊢
      rw [Nat.toDigits_of_base_le (by decide) (Nat.le_of_not_lt small), List.foldl_append, front,
        List.foldl_cons, List.foldl_nil, hexValueDigit _ (Nat.mod_lt n (by decide)),
        Option.getD_some]
      omega

theorem hexDigitsOpen (n : Nat) : ∀ c ∈ Nat.toDigits 16 n, (c != '\x7d') = true := by
  have digit : ∀ k < 16, (k.digitChar != '\x7d') = true := by decide
  induction n using Nat.strongRecOn with
  | ind n ih =>
    intro c member
    by_cases small : n < 16
    · rw [Nat.toDigits_of_lt_base small, List.mem_singleton] at member
      rw [member]
      exact digit n small
    · rw [Nat.toDigits_of_base_le (by decide) (Nat.le_of_not_lt small)] at member
      rcases List.mem_append.mp member with front | last
      · exact ih (n / 16) (by omega) c front
      · rw [List.mem_singleton.mp last]
        exact digit _ (Nat.mod_lt n (by decide))

def ofShortEscape? : Char → Option Char
  | '0' => some '\x00'
  | 't' => some '\t'
  | 'r' => some '\r'
  | 'n' => some '\n'
  | '"' => some '"'
  | '\\' => some '\\'
  | _ => none

/-- The first character that escaped text stands for, with what follows. -/
def unescape? : List Char → Option (Char × List Char)
  | '\\' :: 'u' :: '\x7b' :: rest =>
    some (Char.ofNat (hexNumber (rest.takeWhile (· != '\x7d'))),
      (rest.dropWhile (· != '\x7d')).tail)
  | '\\' :: mark :: rest => (ofShortEscape? mark).map (·, rest)
  | c :: rest => some (c, rest)
  | [] => none

variable {beyond : Char → Bool}

theorem unescapeNumber (c : Char) (rest : List Char) :
    unescape? ('\\' :: 'u' :: '\x7b' :: Nat.toDigits 16 c.toNat ++ '\x7d' :: rest) =
      some (c, rest) := by
  have digits := hexDigitsOpen c.toNat
  rw [List.cons_append, List.cons_append, List.cons_append, unescape?,
    List.takeWhile_append_of_pos digits, List.dropWhile_append_of_pos digits]
  simp [hexNumberDigits]

theorem unescapeEscaped (c : Char) (rest : List Char) :
    unescape? (escapeShown beyond c ++ rest) = some (c, rest) := by
  unfold escapeShown
  split
  · rename_i mark short
    unfold shortEscape? at short
    split at short <;> cases short <;> rfl
  · rename_i plain
    split
    · have other : c ≠ '\\' := by
        rintro rfl
        cases plain
      simp [unescape?, other]
    · rw [List.append_assoc, List.singleton_append]
      exact unescapeNumber c rest

theorem escapedApart {c d : Char} {rest rest' : List Char}
    (same : escapeShown beyond c ++ rest = escapeShown beyond d ++ rest') :
    c = d ∧ rest = rest' := by
  have read := congrArg unescape? same
  rw [unescapeEscaped, unescapeEscaped] at read
  exact Prod.mk.inj (Option.some.inj read)

theorem escapedInside (c : Char) (rest rest' : List Char) :
    escapeShown beyond c ++ rest ≠ '"' :: rest' := by
  unfold escapeShown
  split
  · simp
  · rename_i plain
    split
    · rintro same
      cases (List.cons.inj same).1
      cases plain
    · simp

theorem quotedApart {s t : List Char} {rest rest' : List Char}
    (same : s.flatMap (escapeShown beyond) ++ '"' :: rest =
      t.flatMap (escapeShown beyond) ++ '"' :: rest') : s = t ∧ rest = rest' := by
  induction s generalizing t with
  | nil =>
    cases t with
    | nil => exact ⟨rfl, (List.cons.inj same).2⟩
    | cons d t =>
      rw [List.flatMap_cons, List.append_assoc] at same
      exact absurd same.symm (escapedInside d _ _)
  | cons c s ih =>
    cases t with
    | nil =>
      rw [List.flatMap_cons, List.append_assoc] at same
      exact absurd same (escapedInside c _ _)
    | cons d t =>
      rw [List.flatMap_cons, List.flatMap_cons, List.append_assoc, List.append_assoc] at same
      obtain ⟨rfl, tails⟩ := escapedApart same
      obtain ⟨rfl, after⟩ := ih tails
      exact ⟨rfl, after⟩

theorem quoteApart {s t : String} {rest rest' : List Char}
    (same : quoteShown beyond s ++ rest = quoteShown beyond t ++ rest') : s = t ∧ rest = rest' := by
  unfold quoteShown at same
  simp only [List.cons_append, List.append_assoc] at same
  obtain ⟨chars, after⟩ := quotedApart (List.cons.inj same).2
  exact ⟨String.toList_inj.mp chars, after⟩

end Text

namespace Operator
variable {beyond : Char → Bool}

theorem shortNamesApart : ∀ p ∈ shortNames, ∀ q ∈ shortNames, p.2 = q.2 → p.1 = q.1 := by decide

theorem shortNamesPlain : ∀ p ∈ shortNames, ¬ "Other(".toList <+: p.2.toList := by decide

theorem debugKnown (beyond : Char → Bool) {op : Operator} (member : op ∈ known) :
    ∃ short, (op, short) ∈ shortNames ∧ op.debug beyond = short.toList := by
  cases found : shortNames.find? (·.1 = op) with
  | none =>
    rw [← shortNamesKnown] at member
    obtain ⟨p, listed, rfl⟩ := List.mem_map.mp member
    have other := List.find?_eq_none.mp found p listed
    simp at other
  | some p =>
    obtain rfl : p.1 = op := by simpa using List.find?_some found
    refine ⟨p.2, List.mem_of_find?_eq_some found, ?_⟩
    rw [debug, found]

theorem debugOther {op : Operator} (unknown : op ∉ known) :
    op.debug beyond = "Other(".toList ++ (Text.quoteShown beyond op.name ++ [')']) := by
  have none : shortNames.find? (·.1 = op) = none := by
    refine List.find?_eq_none.mpr fun p listed => ?_
    have member : p.1 ∈ known := shortNamesKnown ▸ List.mem_map_of_mem listed
    simpa using ne_of_mem_of_not_mem member unknown
  rw [debug, none, List.append_assoc]

theorem debugApart {op op' : Operator} (same : op.debug beyond = op'.debug beyond) : op = op' := by
  by_cases member : op ∈ known
  · obtain ⟨short, listed, shown⟩ := debugKnown beyond member
    rw [shown] at same
    by_cases member' : op' ∈ known
    · obtain ⟨short', listed', shown'⟩ := debugKnown beyond member'
      rw [shown'] at same
      exact shortNamesApart _ listed _ listed' (String.toList_inj.mp same)
    · rw [debugOther member'] at same
      exact absurd ⟨_, same.symm⟩ (shortNamesPlain _ listed)
  · rw [debugOther member] at same
    by_cases member' : op' ∈ known
    · obtain ⟨short', listed', shown'⟩ := debugKnown beyond member'
      rw [shown'] at same
      exact absurd ⟨_, same⟩ (shortNamesPlain _ listed')
    · rw [debugOther member'] at same
      have names := (Text.quoteApart (List.append_cancel_left same)).1
      exact congrArg Operator.mk names

end Operator

namespace Kind

theorem debugFirst (k : Kind) (rest : List Char) : (k.debug ++ rest).head? = k.debug.head? := by
  cases k <;> rfl

theorem debugApart {k k' : Kind} {rest rest' : List Char}
    (same : k.debug ++ rest = k'.debug ++ rest') : k = k' ∧ rest = rest' := by
  have first : k.debug.head? = k'.debug.head? := by
    rw [← debugFirst k rest, same, debugFirst]
  have kinds : k = k' := by
    revert first
    cases k <;> cases k' <;> decide
  subst kinds
  exact ⟨rfl, List.append_cancel_left same⟩

end Kind

namespace Criterion

theorem debugApart (beyond : Char → Bool) (c d : Criterion) :
    c.debug beyond = d.debug beyond ↔
      c.kind = d.kind ∧ c.name = d.name ∧ c.operator = d.operator := by
  unfold debug
  constructor
  · intro same
    obtain ⟨kind, behindKind⟩ :=
      Kind.debugApart (List.append_cancel_left (String.ofList_inj.mp same))
    obtain ⟨name, behindName⟩ := Text.quoteApart (List.append_cancel_left behindKind)
    have operator := List.append_cancel_right (List.append_cancel_left behindName)
    exact ⟨kind, name, Operator.debugApart operator⟩
  · rintro ⟨kind, name, operator⟩
    rw [kind, name, operator]

end Criterion
end FacetSearch
