import FacetSearch.Proofs.Text.Opening

/-! Spellings of an integer. Zeros in front of the digits and a sign before nothing else than zeros
do not count, so an integer has many spellings and one shortest, in which it is written. Read and
written again, an integer text comes back as it was, unless its spelling was padded. -/
namespace FacetSearch.Text

/-- An integer spelt with zeros it does not need, or zero with a sign, and its shortest spelling. -/
inductive Padded : List Char → List Char → Prop where
  | number {negative zeros digits} (digit : ∀ c ∈ digits, c.isDigit = true) (filled : digits ≠ [])
      (trimmed : digits.head? ≠ some '0') (fits : InRange (signed negative (digitsValue digits))) :
      Padded (minus negative ++ (List.replicate (zeros + 1) '0' ++ digits)) (minus negative ++ digits)
  | zero {negative zeros} (longer : negative = true ∨ 0 < zeros) :
      Padded (minus negative ++ List.replicate (zeros + 1) '0') ['0']

theorem zerosDigits (zeros : Nat) : ∀ c ∈ List.replicate zeros '0', c.isDigit = true := by
  intro c member
  rw [List.eq_of_mem_replicate member]
  rfl

theorem zerosTrimmed (digits : List Char) :
    ∃ zeros rest, digits = List.replicate zeros '0' ++ rest ∧ rest.head? ≠ some '0' := by
  induction digits with
  | nil => exact ⟨0, [], rfl, by simp⟩
  | cons c digits ih =>
    by_cases zero : c = '0'
    · obtain ⟨zeros, rest, rfl, trimmed⟩ := ih
      exact ⟨zeros + 1, rest, by rw [zero, List.replicate_succ, List.cons_append], trimmed⟩
    · exact ⟨0, c :: digits, rfl, by simpa using zero⟩

theorem zerosValue (zeros : Nat) (digits : List Char) :
    digitsValue (List.replicate zeros '0' ++ digits) = digitsValue digits := by
  rw [digitsValue, Nat.ofDigitChars_append, Nat.ofDigitChars_replicate_zero, Nat.mul_zero]
  rfl

theorem zerosNothing (zeros : Nat) : digitsValue (List.replicate zeros '0') = 0 := by
  have nothing := zerosValue zeros []
  rwa [List.append_nil] at nothing

theorem zeroFits (negative : Bool) : InRange (signed negative 0) := by
  cases negative <;> decide

theorem digitValue {c : Char} (h : c.isDigit = true) :
    c.toNat - 48 < 10 ∧ Nat.digitChar (c.toNat - 48) = c := by
  rw [isDigitIff, decide_eq_true_eq] at h
  have bound : 48 ≤ c.toNat ∧ c.toNat ≤ 57 := h
  refine ⟨by omega, Char.toNat_inj.mp ?_⟩
  rw [Nat.toNat_digitChar_of_lt_ten (by omega)]
  omega

/-- Digits that follow a positive number are written behind it. -/
theorem digitsContinued {digits : List Char} (digit : ∀ c ∈ digits, c.isDigit = true) {n : Nat}
    (positive : 0 < n) :
    Nat.toDigits 10 n ++ digits = Nat.toDigits 10 (Nat.ofDigitChars 10 digits n) := by
  induction digits generalizing n with
  | nil => rw [Nat.ofDigitChars_nil, List.append_nil]
  | cons c digits ih =>
    obtain ⟨small, same⟩ := digitValue (digit c List.mem_cons_self)
    have next : Nat.toDigits 10 n ++ [c] = Nat.toDigits 10 (10 * n + (c.toNat - 48)) := by
      rw [← Nat.toDigits_append_toDigits (by decide) positive small, Nat.toDigits_of_lt_base small,
        same]
    calc Nat.toDigits 10 n ++ c :: digits
        = (Nat.toDigits 10 n ++ [c]) ++ digits := by rw [List.append_assoc]; rfl
      _ = Nat.toDigits 10 (10 * n + (c.toNat - 48)) ++ digits := by rw [next]
      _ = Nat.toDigits 10 (Nat.ofDigitChars 10 digits (10 * n + (c.toNat - 48))) :=
        ih (fun d member => digit d (List.mem_cons_of_mem c member)) (by omega)
      _ = Nat.toDigits 10 (Nat.ofDigitChars 10 (c :: digits) n) := by
        rw [Nat.ofDigitChars_cons]
        rfl

theorem signedParts (negative : Bool) {n : Nat} (positive : 0 < n) :
    decide (signed negative n < 0) = negative ∧ (signed negative n).natAbs = n := by
  cases negative with
  | true => simp [signed, positive]
  | false => simp [signed]

section
variable {digits : List Char} (digit : ∀ c ∈ digits, c.isDigit = true)
include digit

theorem trimmedWritten (filled : digits ≠ []) (trimmed : digits.head? ≠ some '0') :
    0 < digitsValue digits ∧ Nat.toDigits 10 (digitsValue digits) = digits := by
  obtain ⟨c, rest, rfl⟩ := List.exists_cons_of_ne_nil filled
  obtain ⟨small, same⟩ := digitValue (digit c List.mem_cons_self)
  have positive : 0 < c.toNat - 48 := by
    refine Nat.pos_of_ne_zero fun zero => trimmed ?_
    rw [zero] at same
    rw [← same]
    rfl
  have first : Nat.toDigits 10 (c.toNat - 48) = [c] := by
    rw [Nat.toDigits_of_lt_base small, same]
  have value : digitsValue (c :: rest) = Nat.ofDigitChars 10 rest (c.toNat - 48) := by
    rw [digitsValue, Nat.ofDigitChars_cons, Nat.mul_zero, Nat.zero_add]
    rfl
  have written := digitsContinued (fun d member => digit d (List.mem_cons_of_mem c member)) positive
  have whole : Nat.toDigits 10 (digitsValue (c :: rest)) = c :: rest := by
    rw [value, ← written, first, List.singleton_append]
  refine ⟨Nat.pos_of_ne_zero fun zero => trimmed ?_, whole⟩
  rw [← whole, zero]
  rfl

theorem decimalOfDigits {negative : Bool} (filled : digits ≠ []) (trimmed : digits.head? ≠ some '0')
    (fits : InRange (signed negative (digitsValue digits))) :
    decimal (Int64.ofInt (signed negative (digitsValue digits))) = minus negative ++ digits := by
  obtain ⟨positive, written⟩ := trimmedWritten digit filled trimmed
  obtain ⟨sign, size⟩ := signedParts negative positive
  rw [decimalParts, magnitude, rangeToInt fits, sign, size, written]

end

theorem decimalOfZero (negative : Bool) : decimal (Int64.ofInt (signed negative 0)) = ['0'] := by
  cases negative <;> rfl

theorem paddedReads {cs short : List Char} (h : Padded cs short) :
    isIntegerText cs = true ∧ ∃ n, integer? cs = some n ∧ decimal n = short := by
  cases h with
  | @number negative zeros digits digit filled trimmed fits =>
    have run : ∀ c ∈ List.replicate (zeros + 1) '0' ++ digits, c.isDigit = true :=
      List.forall_mem_append.mpr ⟨zerosDigits _, digit⟩
    refine ⟨integerTextOfDigits run negative (by simp), _, ?_,
      decimalOfDigits digit filled trimmed fits⟩
    rw [integerOfDigits run negative (by simp), zerosValue]
    exact if_pos fits
  | @zero negative zeros longer =>
    have run := zerosDigits (zeros + 1)
    refine ⟨integerTextOfDigits run negative (by simp), _, ?_, decimalOfZero negative⟩
    rw [integerOfDigits run negative (by simp), zerosNothing]
    exact if_pos (zeroFits negative)

theorem integerSpelled {cs : List Char} {n : Int64} (number : isIntegerText cs = true)
    (value : integer? cs = some n) : decimal n = cs ∨ Padded cs (decimal n) := by
  obtain ⟨negative, run, rfl, filled, digit⟩ := integerTextParts number
  rw [integerOfDigits digit negative filled] at value
  obtain ⟨fits, rfl⟩ := (Option.ite_none_right_eq_some.mp value).imp_right Option.some.inj
  obtain ⟨zeros, digits, rfl, trimmed⟩ := zerosTrimmed run
  rw [zerosValue] at fits ⊢
  have digit' := (List.forall_mem_append.mp digit).2
  by_cases none : digits = []
  · subst none
    rw [show digitsValue [] = 0 from rfl, decimalOfZero, List.append_nil]
    cases zeros with
    | zero => exact absurd rfl filled
    | succ zeros =>
      cases negative with
      | true => exact .inr (.zero (.inl rfl))
      | false =>
        cases zeros with
        | zero => exact .inl rfl
        | succ zeros => exact .inr (.zero (.inr (Nat.succ_pos zeros)))
  · rw [decimalOfDigits digit' none trimmed fits]
    cases zeros with
    | zero => exact .inl rfl
    | succ zeros => exact .inr (.number digit' none trimmed fits)

/-- The text that a word comes back as when it is typed as an integer where it fits. -/
structure Spells (word id : List Char) : Prop where
  padded : ∀ short, Padded word short → id = short
  kept : (∀ short, ¬ Padded word short) → id = word

theorem integerSpells {cs : List Char} {n : Int64} (number : isIntegerText cs = true)
    (value : integer? cs = some n) : Spells cs (decimal n) := by
  refine ⟨fun short padded => ?_, fun unpadded => ?_⟩
  · obtain ⟨_, m, value', same⟩ := paddedReads padded
    cases value.symm.trans value'
    exact same
  · exact (integerSpelled number value).resolve_right (unpadded _)

theorem otherSpells {cs : List Char}
    (other : ¬ ∃ n, isIntegerText cs = true ∧ integer? cs = some n) : Spells cs cs := by
  refine ⟨fun short padded => ?_, fun _ => rfl⟩
  obtain ⟨number, n, value, _⟩ := paddedReads padded
  exact absurd ⟨n, number, value⟩ other

end FacetSearch.Text
