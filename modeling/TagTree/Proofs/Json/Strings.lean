import TagTree.Json.Reader
import TagTree.Json.Writer

/-!
# Strings in JSON text

A string is written in ASCII, each other character by its UTF-16 units. Reading takes the
escapes apart into units again and joins surrogates into characters.
-/

namespace TagTree.Json

open Text

/-! ### Units -/

/-- The UTF-16 units of a character. -/
def codeUnits (c : Char) : List Nat :=
  if c.toNat < 0x10000 then [c.toNat]
  else [0xd800 + (c.toNat - 0x10000) / 0x400, 0xdc00 + (c.toNat - 0x10000) % 0x400]

theorem toNat_bounds (c : Char) : c.toNat < 0xd800 ∨ (0xdfff < c.toNat ∧ c.toNat < 0x110000) :=
  c.valid

theorem joinUnits_single {n : Nat} (hn : isHighSurrogate n = false) (rest : List Nat) :
    joinUnits (n :: rest) = unitChar n :: joinUnits rest := by
  cases rest with
  | nil => rfl
  | cons m rest => simp [joinUnits, hn]

theorem unitChar_toNat (c : Char) : unitChar c.toNat = c := by
  have h := toNat_bounds c
  rw [unitChar, if_neg (by omega), Char.ofNat_toNat]

theorem pairChar_codeUnits {c : Char} (hc : ¬ c.toNat < 0x10000) :
    pairChar (0xd800 + (c.toNat - 0x10000) / 0x400) (0xdc00 + (c.toNat - 0x10000) % 0x400) =
      c := by
  have hsum : 0x10000 + (0xd800 + (c.toNat - 0x10000) / 0x400 - 0xd800) * 0x400 +
      (0xdc00 + (c.toNat - 0x10000) % 0x400 - 0xdc00) = c.toNat := by omega
  rw [pairChar, hsum, Char.ofNat_toNat]

/-- Joining gives the characters back whose units they are. -/
theorem joinUnits_codeUnits (cs : List Char) : joinUnits (cs.flatMap codeUnits) = cs := by
  induction cs with
  | nil => rfl
  | cons c cs ih =>
    have h := toNat_bounds c
    rw [List.flatMap_cons, codeUnits]
    split
    · rename_i hc
      have hn : isHighSurrogate c.toNat = false := by
        simp only [isHighSurrogate, Bool.and_eq_false_iff, decide_eq_false_iff_not]
        omega
      rw [List.singleton_append, joinUnits_single hn, unitChar_toNat, ih]
    · rename_i hc
      have hhigh : isHighSurrogate (0xd800 + (c.toNat - 0x10000) / 0x400) = true := by
        simp only [isHighSurrogate, Bool.and_eq_true, decide_eq_true_eq]
        omega
      have hlow : isLowSurrogate (0xdc00 + (c.toNat - 0x10000) % 0x400) = true := by
        simp only [isLowSurrogate, Bool.and_eq_true, decide_eq_true_eq]
        omega
      rw [List.cons_append, List.singleton_append, joinUnits, hhigh, hlow,
        pairChar_codeUnits hc, ih]
      rfl

/-! ### Escapes -/

theorem hexValue_digitChar : ∀ d < 16, hexValue? (Nat.digitChar d) = some d := by decide

theorem hexValue_hexDigit (n : Nat) : hexValue? (hexDigit n) = some (n % 16) :=
  hexValue_digitChar (n % 16) (Nat.mod_lt n (by decide))

theorem unitEscape_eq (n : Nat) : unitEscape n =
    ['\\', 'u', hexDigit (n / 16 / 16 / 16), hexDigit (n / 16 / 16), hexDigit (n / 16),
      hexDigit n] := rfl

theorem hexValue4_hexDigits {n : Nat} (hn : n < 0x10000) :
    hexValue4? (hexDigit (n / 16 / 16 / 16)) (hexDigit (n / 16 / 16)) (hexDigit (n / 16))
      (hexDigit n) = some n := by
  have hsum : ((n / 16 / 16 / 16 % 16 * 16 + n / 16 / 16 % 16) * 16 + n / 16 % 16) * 16 + n % 16 =
      n := by omega
  simp only [hexValue4?, hexValue_hexDigit, Option.bind_eq_bind, Option.bind_some, hsum]
  rfl

variable {start rest : List Char}

/-- What one unit adds to a string that is read. -/
def adding (xs : List Nat) (r : Except Stop (List Nat × List Char)) :
    Except Stop (List Nat × List Char) := r.map fun r => (xs ++ r.1, r.2)

theorem adding_adding (xs ys : List Nat) (r : Except Stop (List Nat × List Char)) :
    adding xs (adding ys r) = adding (xs ++ ys) r := by
  cases r with
  | error e => rfl
  | ok r => simp [adding, Except.map]

theorem units_unitEscape {n : Nat} (hn : n < 0x10000) (hr : rest ≠ []) :
    units start (unitEscape n ++ rest) = adding [n] (units start rest) := by
  have hempty : rest.isEmpty = false := by simpa using hr
  rw [unitEscape_eq]
  simp only [List.cons_append, List.nil_append]
  rw [units]
  rw [hexValue4_hexDigits hn, hempty]
  rfl

theorem units_plain {c : Char} (hquote : c ≠ '"') (hslash : c ≠ '\\') (hc : ¬ c < ' ') :
    units start (c :: rest) = adding [c.toNat] (units start rest) := by
  rw [units]
  · rw [if_neg hc]
    rfl
  · exact hquote
  all_goals
    intros
    contradiction

/-- A written character is read as its units. -/
theorem units_writeChar (c : Char) (hr : rest ≠ []) :
    units start (writeChar c ++ rest) = adding (codeUnits c) (units start rest) := by
  unfold writeChar
  split
  case h_8 hquote hslash _ _ _ _ _ =>
    by_cases hplain : ' ' ≤ c ∧ c ≤ '~'
    · have hsmall : c.toNat < 0x10000 := by
        have h : c.toNat ≤ '~'.toNat := hplain.2
        exact Nat.lt_of_le_of_lt h (by decide)
      rw [if_pos hplain, List.singleton_append, codeUnits, if_pos hsmall]
      exact units_plain hquote hslash (Char.not_lt.mpr hplain.1)
    · rw [if_neg hplain, codeUnits]
      split
      · rename_i hsmall
        exact units_unitEscape hsmall hr
      · have h := toNat_bounds c
        rw [List.append_assoc, units_unitEscape (by omega) (by simp [unitEscape]),
          units_unitEscape (by omega) hr, adding_adding]
        rfl
  all_goals rfl

theorem units_writeText (cs : List Char) : units start (cs.flatMap writeChar ++ '"' :: rest) =
    .ok (cs.flatMap codeUnits, rest) := by
  induction cs with
  | nil => rfl
  | cons c cs ih =>
    rw [List.flatMap_cons, List.append_assoc, units_writeChar c (by simp), ih]
    rfl

/-- A written string is read back, and reading stops behind it. -/
theorem string_writeText (s : String) : ∃ cs, (writeText s).toList = '"' :: cs ∧
    ∀ start rest, string start (cs ++ rest) = .ok (s.toList, rest) := by
  refine ⟨s.toList.flatMap writeChar ++ ['"'], ?_, ?_⟩
  · rw [writeText, String.toList_ofList, List.cons_append]
  · intro start rest
    rw [List.append_assoc, List.singleton_append, string, units_writeText]
    simp only [Except.map, joinUnits_codeUnits]

end TagTree.Json
