import TagTree.Rendering

/-!
# Indentation that can be made

A text is repeated a whole number of times of the size of an index, as long as memory holds the
result. A line is indented by its width for every level, and where one level can be indented, so
can every level above it.
-/

namespace TagTree

theorem ok_bind {α β : Type} (a : α) (k : α → Except Fault β) : (Except.ok a >>= k) = k a := rfl

namespace Repetition

variable {memory size n : Nat} {v : Value} {i : Int} {f : Fault}

theorem length_of_none (hi : v.int? = none) :
    length memory size v = .error (.notRepeatable v.typeName) := by
  rw [length, times, hi]
  rfl

/-- A whole number repeats a text unless it is beyond the size of an index, or the result beyond
that of any text or of memory. -/
theorem length_int (hi : v.int? = some i) : length memory size v =
    if isIndexSized i then
      if size * i.toNat ≤ greatestLength then
        if size * i.toNat ≤ memory then .ok (size * i.toNat) else .error .outOfMemory
      else .error .textTooLong
    else .error (.notIndexSized .overflow) := by
  unfold length times
  simp only [hi]
  cases isIndexSized i with
  | false => rfl
  | true =>
    simp only [if_true, ok_bind]
    by_cases short : size * i.toNat ≤ greatestLength
    · rw [if_pos short, if_neg (Nat.not_lt.mpr short)]
      by_cases held : size * i.toNat ≤ memory
      · rw [if_pos held, if_neg (Nat.not_lt.mpr held)]
        rfl
      · rw [if_neg held, if_pos (Nat.not_le.mp held)]
        rfl
    · rw [if_neg short, if_pos (Nat.not_le.mp short)]
      rfl

theorem length_eq_ok_iff : length memory size v = .ok n ↔
    ∃ i, v.int? = some i ∧ isIndexSized i = true ∧ size * i.toNat ≤ greatestLength ∧
      size * i.toNat ≤ memory ∧ n = size * i.toNat := by
  cases hi : v.int? with
  | none => simp [length_of_none hi]
  | some i =>
    rw [length_int hi]
    constructor
    · intro h
      split at h
      · split at h
        · split at h
          · cases h
            exact ⟨i, rfl, ‹_›, ‹_›, ‹_›, rfl⟩
          · cases h
        · cases h
      · cases h
    · rintro ⟨_, ⟨⟩, sized, short, held, rfl⟩
      rw [if_pos sized, if_pos short, if_pos held]

theorem length_error (h : length memory size v = .error f) :
    (v.int? = none ∧ f = .notRepeatable v.typeName) ∨ f = .notIndexSized .overflow ∨
      f = .textTooLong ∨ f = .outOfMemory := by
  cases hi : v.int? with
  | none =>
    rw [length_of_none hi] at h
    cases h
    exact .inl ⟨rfl, rfl⟩
  | some i =>
    rw [length_int hi] at h
    split at h
    · split at h
      · split at h
        · cases h
        · cases h
          exact .inr (.inr (.inr rfl))
      · cases h
        exact .inr (.inr (.inl rfl))
    · cases h
      exact .inr (.inl rfl)

/-- A natural number has the size of an index where no text is too long for it. -/
theorem indexSized_iff {k : Nat} : isIndexSized k = true ↔ k ≤ greatestLength := by
  have hpow : Int.pow 2 63 = 9223372036854775808 := rfl
  have hgreatest : greatestLength = 9223372036854775807 := rfl
  simp only [isIndexSized, Bool.and_eq_true, decide_eq_true_eq, hpow, hgreatest]
  omega

theorem length_natural_iff {k : Nat} : length memory size (.int k) = .ok n ↔
    k ≤ greatestLength ∧ size * k ≤ greatestLength ∧ size * k ≤ memory ∧ n = size * k := by
  rw [length_eq_ok_iff, ← indexSized_iff]
  exact ⟨fun ⟨_, hi, h⟩ => by cases hi; exact h, fun h => ⟨k, rfl, h⟩⟩

end Repetition

namespace World

variable {w : World}

/-- The indentation of a level can be made where the width, the level and the whole run of spaces
are of index size, and both one width and the whole run fit into memory. -/
theorem indentable_iff {width n : Nat} : w.indentable (.int width) n = .value () ↔
    (width ≤ Repetition.greatestLength ∧ n ≤ Repetition.greatestLength ∧
      width * n ≤ Repetition.greatestLength) ∧
      width ≤ w.store.host.memory ∧ width * n ≤ w.store.host.memory := by
  have made : w.indentable (.int width) n = .value () ↔
      ∃ m, Repetition.indentation w.store.host.memory (.int width) (.int n) = .ok m := by
    unfold indentable
    cases Repetition.indentation w.store.host.memory (.int width) (.int n) with
    | ok m => exact ⟨fun _ => ⟨m, rfl⟩, fun _ => rfl⟩
    | error f =>
      constructor
      · intro h
        cases h
      · rintro ⟨_, h⟩
        cases h
  rw [made]
  constructor
  · rintro ⟨m, h⟩
    obtain ⟨unit, hunit, h⟩ := bind_eq_ok h
    obtain ⟨narrow, -, held, rfl⟩ := Repetition.length_natural_iff.mp hunit
    obtain ⟨short, whole, full, -⟩ := Repetition.length_natural_iff.mp h
    rw [Nat.one_mul] at held whole full
    exact ⟨⟨narrow, short, whole⟩, held, full⟩
  · rintro ⟨⟨narrow, short, whole⟩, held, full⟩
    have unit : Repetition.length w.store.host.memory 1 (.int width) = .ok width := by
      rw [Repetition.length_natural_iff, Nat.one_mul]
      exact ⟨narrow, narrow, held, rfl⟩
    have run : Repetition.length w.store.host.memory width (.int n) = .ok (width * n) :=
      Repetition.length_natural_iff.mpr ⟨short, whole, full, rfl⟩
    exact ⟨width * n, by rw [Repetition.indentation, unit, ok_bind, run]⟩

/-- Where the indentation of a level can be made, that of every level above can. -/
theorem indentable_of_le {width i j : Nat} (hij : i ≤ j)
    (h : w.indentable (.int width) j = .value ()) : w.indentable (.int width) i = .value () := by
  obtain ⟨⟨narrow, short, whole⟩, held, full⟩ := indentable_iff.mp h
  have less : width * i ≤ width * j := Nat.mul_le_mul_left width hij
  exact indentable_iff.mpr ⟨⟨narrow, by omega, by omega⟩, held, by omega⟩

/-- The lines of a tree can be indented where its deepest line can. -/
theorem indentable_levels_iff {width depth height : Nat} :
    (∀ j : Nat, j ≤ height → w.indentable (.int width) ((depth : Int) + j) = .value ()) ↔
      w.indentable (.int width) (depth + height : Nat) = .value () := by
  constructor
  · intro h
    rw [Int.natCast_add]
    exact h height (Nat.le_refl height)
  · intro h j hj
    rw [← Int.natCast_add]
    exact indentable_of_le (by omega) h

end World

end TagTree
