import FacetSearch.Text.Basic

/-! Percent-encoded text and decimal integers read back as they were written. Percent encoding uses
unreserved characters and `%` only. -/
namespace FacetSearch.Text

theorem unreservedNotPercent {c : Char} (h : isUnreserved c = true) : c ≠ '%' := by
  rintro rfl
  revert h
  decide

theorem writtenBytesOther {c : Char} (h : c ≠ '%') (rest : List Char) :
    writtenBytes (c :: rest) = String.utf8EncodeChar c ++ writtenBytes rest := by
  rw [writtenBytes]
  rintro high low tail rfl
  exact fun _ => h rfl

theorem writtenBytesEscapes (bytes : List UInt8) (rest : List Char) :
    writtenBytes (bytes.flatMap escapeByte ++ rest) = bytes ++ writtenBytes rest := by
  induction bytes with
  | nil => rfl
  | cons b bytes ih =>
    rw [List.flatMap_cons, List.append_assoc, writtenBytesEscape, ih, List.cons_append]

theorem writtenBytesChar (c : Char) (rest : List Char) :
    writtenBytes (encodeChar c ++ rest) = String.utf8EncodeChar c ++ writtenBytes rest := by
  unfold encodeChar
  split
  · rename_i unreserved
    exact writtenBytesOther (unreservedNotPercent unreserved) rest
  · exact writtenBytesEscapes (String.utf8EncodeChar c) rest

theorem writtenBytesChars (cs : List Char) :
    writtenBytes (cs.flatMap encodeChar) = cs.flatMap String.utf8EncodeChar := by
  induction cs with
  | nil => rfl
  | cons c cs ih => rw [List.flatMap_cons, writtenBytesChar, ih, List.flatMap_cons]

theorem percentRoundTrip (s : String) : percentDecode? (percentEncode s) = some s := by
  have bytes : (⟨(writtenBytes (percentEncode s)).toArray⟩ : ByteArray) = s.toByteArray := by
    rw [percentEncode, writtenBytesChars, ← String.utf8Encode_toList, List.utf8Encode]
    exact ByteArray.ext (List.data_toByteArray).symm
  have valid : s.toByteArray.IsValidUTF8 := s.isValidUTF8
  simp only [percentDecode?, bytes, String.fromUTF8?, dif_pos valid]
  rfl

theorem hexDigitUnreserved : ∀ n < 16, isUnreserved (hexDigit n) = true := by decide

theorem escapeByteChars {b : UInt8} {c : Char} (h : c ∈ escapeByte b) :
    isUnreserved c = true ∨ c = '%' := by
  have small : b.toNat < 256 := b.toNat_lt
  simp only [escapeByte, List.mem_cons, List.not_mem_nil, or_false] at h
  rcases h with rfl | rfl | rfl
  · exact .inr rfl
  · exact .inl (hexDigitUnreserved _ (by omega))
  · exact .inl (hexDigitUnreserved _ (by omega))

theorem percentEncodeChars {s : String} {c : Char} (h : c ∈ percentEncode s) :
    isUnreserved c = true ∨ c = '%' := by
  obtain ⟨d, _, written⟩ := List.mem_flatMap.mp h
  unfold encodeChar at written
  split at written
  · rename_i unreserved
    rw [List.mem_singleton.mp written]
    exact .inl unreserved
  · obtain ⟨b, _, escaped⟩ := List.mem_flatMap.mp written
    exact escapeByteChars escaped

theorem encodeCharPlain {c : Char} (h : '%' ∉ encodeChar c) : encodeChar c = [c] := by
  unfold encodeChar at h ⊢
  split
  · rfl
  · rename_i reserved
    obtain ⟨b, bytes, same⟩ := List.exists_cons_of_ne_nil (@String.utf8EncodeChar_ne_nil c)
    rw [if_neg reserved, same] at h
    simp [escapeByte] at h

theorem encodeCharsPlain {cs : List Char} (h : '%' ∉ cs.flatMap encodeChar) :
    cs.flatMap encodeChar = cs := by
  induction cs with
  | nil => rfl
  | cons c cs ih =>
    simp only [List.flatMap_cons, List.mem_append, not_or] at h
    rw [List.flatMap_cons, encodeCharPlain h.1, ih h.2, List.singleton_append]

theorem digitNotSign {c : Char} (h : c.isDigit = true) : c ≠ '-' ∧ c ≠ '+' ∧ c ≠ '%' := by
  refine ⟨?_, ?_, ?_⟩ <;> rintro rfl <;> revert h <;> decide

theorem headDropped {p : Char → Bool} {cs : List Char} {c : Char}
    (h : c ∈ (cs.dropWhile p).head?) : p c = false := by
  have fails := List.head?_dropWhile_not p cs
  rw [h] at fails
  simpa using fails

theorem splitUnsigned {cs : List Char} (h : ∀ c ∈ cs.head?, c ≠ '-' ∧ c ≠ '+') :
    splitSign cs = (false, cs) := by
  unfold splitSign
  split
  · exact absurd rfl (h '-' rfl).1
  · exact absurd rfl (h '+' rfl).2
  · rfl

def minus (negative : Bool) : List Char :=
  if negative then ['-'] else []

section
variable {digits : List Char} (digit : ∀ c ∈ digits, c.isDigit = true)
include digit

theorem splitMinus (negative : Bool) : splitSign (minus negative ++ digits) = (negative, digits) := by
  cases negative with
  | true => rfl
  | false =>
    refine splitUnsigned fun c first => ?_
    obtain ⟨notMinus, notPlus, _⟩ := digitNotSign (digit c (List.mem_of_head? first))
    exact ⟨notMinus, notPlus⟩

theorem integerTextOfDigits (negative : Bool) (filled : digits ≠ []) :
    isIntegerText (minus negative ++ digits) = true := by
  cases negative with
  | true => simpa [isIntegerText, minus, filled] using digit
  | false =>
    change isIntegerText digits = true
    unfold isIntegerText
    split
    · exact absurd rfl (digitNotSign (digit '-' List.mem_cons_self)).1
    · simpa [filled] using digit

theorem integerOfDigits (negative : Bool) (filled : digits ≠ []) :
    integer? (minus negative ++ digits) =
      let z := signed negative (digitsValue digits)
      if InRange z then some (Int64.ofInt z) else none := by
  have all : digits.all Char.isDigit = true := List.all_eq_true.mpr digit
  simp [integer?, splitMinus digit negative, filled, all]

end

theorem integerTextParts {cs : List Char} (h : isIntegerText cs = true) : ∃ negative digits,
    cs = minus negative ++ digits ∧ digits ≠ [] ∧ ∀ c ∈ digits, c.isDigit = true := by
  unfold isIntegerText at h
  split at h
  · rename_i digits
    exact ⟨true, digits, rfl, by simpa using h⟩
  · exact ⟨false, cs, rfl, by simpa using h⟩

theorem integerTextChars {cs : List Char} {c : Char} (h : isIntegerText cs = true)
    (member : c ∈ cs) : c = '-' ∨ c.isDigit = true := by
  obtain ⟨negative, digits, rfl, _, digit⟩ := integerTextParts h
  rcases List.mem_append.mp member with sign | inside
  · cases negative with
    | true => exact .inl (List.mem_singleton.mp sign)
    | false => cases sign
  · exact .inr (digit c inside)

def magnitude (n : Int64) : List Char :=
  Nat.toDigits 10 n.toInt.natAbs

theorem magnitudeDigits (n : Int64) : ∀ c ∈ magnitude n, c.isDigit = true :=
  fun _ member => Nat.isDigit_of_mem_toDigits (by decide) (by decide) member

theorem magnitudeFilled (n : Int64) : magnitude n ≠ [] :=
  Nat.toDigits_ne_nil

theorem magnitudeValue (n : Int64) : digitsValue (magnitude n) = n.toInt.natAbs :=
  Nat.ofDigitChars_ten_toDigits

theorem decimalParts (n : Int64) : decimal n = minus (decide (n.toInt < 0)) ++ magnitude n := by
  unfold decimal
  split
  · rename_i negative
    rw [decide_eq_true negative]
    rfl
  · rename_i natural
    rw [decide_eq_false natural]
    rfl

theorem decimalIsInteger (n : Int64) : isIntegerText (decimal n) = true := by
  rw [decimalParts]
  exact integerTextOfDigits (magnitudeDigits n) _ (magnitudeFilled n)

theorem decimalChars {n : Int64} {c : Char} (h : c ∈ decimal n) :
    c = '-' ∨ c.isDigit = true :=
  integerTextChars (decimalIsInteger n) h

theorem splitSignDecimal (n : Int64) :
    splitSign (decimal n) = (decide (n.toInt < 0), magnitude n) := by
  rw [decimalParts]
  exact splitMinus (magnitudeDigits n) _

theorem signedMagnitude (n : Int64) :
    signed (decide (n.toInt < 0)) (digitsValue (magnitude n)) = n.toInt := by
  rw [magnitudeValue, signed]
  split
  · rename_i negative
    have := of_decide_eq_true negative
    omega
  · rename_i natural
    have := of_decide_eq_false (Bool.eq_false_iff.mpr natural)
    omega

theorem inRangeToInt (n : Int64) : InRange n.toInt :=
  ⟨n.minValue_le_toInt, n.toInt_le⟩

theorem decimalRoundTrip (n : Int64) : integer? (decimal n) = some n := by
  rw [decimalParts, integerOfDigits (magnitudeDigits n) _ (magnitudeFilled n), signedMagnitude]
  simp only [if_pos (inRangeToInt n), Int64.ofInt_toInt]

end FacetSearch.Text
