import TagTree.Json.Reader
import TagTree.Json.Writer

/-!
# Whole numbers in JSON text

A whole number is written as its digits, and digits are read until something else follows.
-/

namespace TagTree.Json

/-! ### Digits -/

/-- What may follow a number: nothing that would go on with it. -/
def EndsNumber (rest : List Char) : Prop :=
  ∀ c ∈ rest.head?, c.isDigit = false ∧ c ≠ '.' ∧ c ≠ 'e' ∧ c ≠ 'E'

theorem spanDigits_append {digits rest : List Char} (hd : ∀ c ∈ digits, c.isDigit = true)
    (hr : EndsNumber rest) : spanDigits (digits ++ rest) = (digits, rest) := by
  have htake : rest.takeWhile Char.isDigit = [] := by
    cases rest with
    | nil => rfl
    | cons c rest => rw [List.takeWhile_cons_of_neg (by simp [(hr c rfl).1])]
  have hdrop : rest.dropWhile Char.isDigit = rest := by
    cases rest with
    | nil => rfl
    | cons c rest => rw [List.dropWhile_cons_of_neg (by simp [(hr c rfl).1])]
  rw [spanDigits, List.takeWhile_append_of_pos hd, List.dropWhile_append_of_pos hd, htake, hdrop,
    List.append_nil]

theorem digitsValue_toDigits (n : Nat) : digitsValue (Nat.toDigits 10 n) = n := by
  have h := Nat.ofDigitChars_ten_toDigits (n := n)
  rw [Nat.ofDigitChars_eq_foldl] at h
  simpa only [digitsValue, Nat.mul_comm 10] using h

theorem isDigit_of_mem_toDigits {n : Nat} {c : Char} (hc : c ∈ Nat.toDigits 10 n) :
    c.isDigit = true := Nat.isDigit_of_mem_toDigits (by decide) (Nat.le_refl _) hc

theorem digitChar_ne_zero : ∀ d < 10, 0 < d → Nat.digitChar d ≠ '0' := by decide

/-- The digits of a number that is not zero do not begin with zero. -/
theorem toDigits_head {n : Nat} (hn : 0 < n) :
    ∃ c rest, Nat.toDigits 10 n = c :: rest ∧ c ≠ '0' := by
  induction n using Nat.strongRecOn with
  | _ n ih =>
    by_cases h : n < 10
    · exact ⟨_, [], Nat.toDigits_of_lt_base h, digitChar_ne_zero n h hn⟩
    · have hle : 10 ≤ n := Nat.not_lt.mp h
      obtain ⟨c, rest, hc, hne⟩ :=
        ih (n / 10) (Nat.div_lt_self hn (by decide)) (Nat.div_pos hle (by decide))
      rw [Nat.toDigits_of_base_le (by decide) hle, hc]
      exact ⟨c, _, rfl, hne⟩

theorem integerPart_toDigits (n : Nat) {rest : List Char} (hr : EndsNumber rest) :
    integerPart? (Nat.toDigits 10 n ++ rest) = some (Nat.toDigits 10 n, rest) := by
  cases n with
  | zero => simp [integerPart?, Nat.toDigits_zero]
  | succ n =>
    obtain ⟨c, digits, hc, hne⟩ := toDigits_head (Nat.succ_pos n)
    have hdigit : c.isDigit = true := isDigit_of_mem_toDigits (n := n + 1) (by simp [hc])
    have hspan := spanDigits_append (fun d hd => isDigit_of_mem_toDigits (n := n + 1) hd) hr
    rw [hc, List.cons_append] at hspan ⊢
    unfold integerPart?
    split
    · rename_i h
      exact absurd (List.cons.inj h).1 hne
    · rename_i h
      rw [← (List.cons.inj h).1, if_pos hdigit, hspan]
    · rename_i h
      cases h

theorem fractionPart_of_ends {rest : List Char} (hr : EndsNumber rest) :
    fractionPart rest = ([], rest) := by
  unfold fractionPart
  split
  · exact absurd rfl (hr '.' rfl).2.1
  · rfl

theorem exponentPart_of_ends {rest : List Char} (hr : EndsNumber rest) :
    exponentPart rest = (none, rest) := by
  cases rest with
  | nil => rfl
  | cons c rest =>
    obtain ⟨-, -, he, hE⟩ := hr c rfl
    unfold exponentPart
    exact if_neg (not_or.mpr ⟨he, hE⟩)

/-! ### Whole numbers -/

/-- The numbers that are read back: their digits are within the limit. -/
def InLimit (n : Int) : Prop := (Nat.toDigits 10 n.natAbs).length ≤ digitLimit

instance (n : Int) : Decidable (InLimit n) := inferInstanceAs (Decidable (_ ≤ _))

theorem InLimit.written {n : Int} (h : InLimit n) :
    (Atom.int n).written = .ok (toString n) := by
  have short : (Atom.int n).isTooLong = false := decide_eq_false (Nat.not_lt.mpr h)
  rw [Atom.written, short]
  rfl

theorem unsigned_toDigits (negative : Bool) (start : List Char) {n : Nat}
    (hn : (Nat.toDigits 10 n).length ≤ digitLimit) {rest : List Char} (hr : EndsNumber rest) :
    unsigned negative start (Nat.toDigits 10 n ++ rest) =
      .ok (.int (if negative then -(n : Int) else n), rest) := by
  have hlength := Nat.not_lt.mpr hn
  simp only [unsigned, integerPart_toDigits n hr, fractionPart_of_ends hr,
    exponentPart_of_ends hr, digitsValue_toDigits, if_neg hlength]
  rfl

theorem constant_of_digit {c : Char} (hc : c.isDigit = true) (cs : List Char) :
    constant? (c :: cs) = none ∧ constant? ('-' :: c :: cs) = none := by
  have hne : ∀ d : Char, d.isDigit = false → d ≠ c := by
    rintro d hd rfl
    exact Bool.noConfusion (hd.symm.trans hc)
  have hn := hne 'n' rfl
  have ht := hne 't' rfl
  have hf := hne 'f' rfl
  have hN := hne 'N' rfl
  have hI := hne 'I' rfl
  have hm := hne '-' rfl
  constructor <;> simp [constant?, constants, afterWord?, hn, ht, hf, hN, hI, hm]

/-- The text of a number is its digits, behind a sign if it is negative. -/
theorem toList_toString (n : Int) : ∃ c digits, Nat.toDigits 10 n.natAbs = c :: digits ∧
    c.isDigit = true ∧
    (toString n).toList = if 0 ≤ n then c :: digits else '-' :: c :: digits := by
  obtain ⟨c, digits, hdigits⟩ := List.exists_cons_of_ne_nil
    (Nat.toDigits_ne_nil (n := n.natAbs) (b := 10))
  refine ⟨c, digits, hdigits, isDigit_of_mem_toDigits (n := n.natAbs) (by simp [hdigits]), ?_⟩
  rw [Int.toString_eq_repr, Int.repr_eq_if]
  split
  · have habs : n.toNat = n.natAbs := by omega
    rw [habs, Nat.repr_eq_ofList_toDigits, String.toList_ofList, hdigits]
  · have habs : (-n).toNat = n.natAbs := by omega
    rw [habs, String.toList_append, Nat.repr_eq_ofList_toDigits, hdigits]
    exact congrArg ('-' :: ·) String.toList_ofList

theorem scalar_int {n : Int} (hn : InLimit n) {rest : List Char} (hr : EndsNumber rest) :
    scalar ((toString n).toList ++ rest) = .ok (.int n, rest) := by
  obtain ⟨c, digits, hdigits, hc, htext⟩ := toList_toString n
  obtain ⟨hplain, hsigned⟩ := constant_of_digit hc (digits ++ rest)
  have hread := fun negative start => unsigned_toDigits negative start hn hr
  rw [hdigits, List.cons_append] at hread
  rw [htext]
  split
  · rename_i h
    have hminus : c ≠ '-' := by
      rintro rfl
      cases hc
    rw [List.cons_append, scalar, hplain]
    simp only [hread, Bool.false_eq_true, if_false, Int.natAbs_of_nonneg h]
    exact fun _ heq => hminus (List.cons.inj heq).1
  · have hvalue : -(n.natAbs : Int) = n := by omega
    rw [List.cons_append, List.cons_append, scalar, hsigned]
    simp only [hread, if_true, hvalue]

end TagTree.Json
