import Mathlib.Data.List.Forall2
import TagTree.Json.Value
import TagTree.Proofs.Json.Numbers
import TagTree.Proofs.Json.Strings

/-!
# What is written is read back

JSON text that is written of data is read as the same data, in every layout whose indent is
blank. Numbers with a fraction are left out, and so are whole numbers beyond the limit of
digits.
-/

namespace TagTree.Json

/-! ### Blanks -/

/-- Characters that reading skips. -/
def Blank (gap : List Char) : Prop := ∀ c ∈ gap, isBlank c = true

theorem skipBlanks_append {gap : List Char} (hg : Blank gap) (cs : List Char) :
    skipBlanks (gap ++ cs) = skipBlanks cs := List.dropWhile_append_of_pos hg

theorem skipBlanks_space (cs : List Char) : skipBlanks (' ' :: cs) = skipBlanks cs := rfl

theorem skipBlanks_cons {c : Char} (hc : isBlank c = false) (cs : List Char) :
    skipBlanks (c :: cs) = c :: cs := List.dropWhile_cons_of_neg (by simp [hc])

theorem endsNumber_blank {c : Char} (hc : isBlank c = true) (rest : List Char) :
    EndsNumber (c :: rest) := by
  rintro d hd
  cases hd
  simp only [isBlank, Bool.or_eq_true, beq_iff_eq] at hc
  rcases hc with ((rfl | rfl) | rfl) | rfl <;> decide

/-- What stands behind an item or an entry. -/
def mark : List Char := [',', ']', '\x7d']

theorem endsNumber_mark {c : Char} (hc : c ∈ mark) (rest : List Char) :
    EndsNumber (c :: rest) := by
  rintro d hd
  cases hd
  simp only [mark, List.mem_cons, List.not_mem_nil, or_false] at hc
  rcases hc with rfl | rfl | rfl <;> decide

theorem endsNumber_gap {gap : List Char} (hg : Blank gap) {c : Char} (hc : c ∈ mark)
    (rest : List Char) : EndsNumber (gap ++ c :: rest) := by
  cases gap with
  | nil => exact endsNumber_mark hc rest
  | cons d gap => exact endsNumber_blank (hg d (List.mem_cons_self ..)) _

/-! ### Texts of values -/

/-- A character with which a value can begin: neither a blank, the end of an array, nor a byte
order mark. -/
structure Begins (c : Char) : Prop where
  solid : isBlank c = false
  closing : c ≠ ']'
  unmarked : c ≠ '\ufeff'

/-- A text that is read as a value, whatever follows it. -/
structure Reads (text : List Char) (j : Json) : Prop where
  head : ∃ c cs, text = c :: cs ∧ Begins c
  read : ∀ rest, EndsNumber rest → ∀ fuel, 2 * text.length ≤ fuel →
    value fuel (text ++ rest) = .ok (j, rest)

/-- A text that is read as an entry of an object. -/
structure ReadsEntry (text : List Char) (entry : String × Json) : Prop where
  read : ∃ name valueText, text = '"' :: name ++ ':' :: ' ' :: valueText ∧
    (∀ start rest, string start (name ++ rest) = .ok (entry.1.toList, rest)) ∧
    Reads valueText entry.2

theorem Reads.skip {text : List Char} {j : Json} (h : Reads text j) (rest : List Char) :
    skipBlanks (text ++ rest) = text ++ rest := by
  obtain ⟨c, cs, rfl, hc⟩ := h.head
  exact skipBlanks_cons hc.solid _

theorem ReadsEntry.skip {text : List Char} {entry : String × Json} (h : ReadsEntry text entry)
    (rest : List Char) : skipBlanks (text ++ rest) = text ++ rest := by
  obtain ⟨name, valueText, rfl, -⟩ := h.read
  exact skipBlanks_cons rfl _

/-- Blanks before the first of several texts are skipped. -/
theorem skip_intercalate {gap : List Char} (hg : Blank gap) {text : List Char}
    (h : ∀ rest, skipBlanks (text ++ rest) = text ++ rest) (sep : List Char)
    (texts : List (List Char)) (rest : List Char) :
    skipBlanks (gap ++ (sep.intercalate (text :: texts) ++ rest)) =
      sep.intercalate (text :: texts) ++ rest := by
  rw [skipBlanks_append hg]
  cases texts with
  | nil => rw [List.intercalate_singleton, h]
  | cons => rw [List.intercalate_cons_cons, List.append_assoc, List.append_assoc, h]

/-- One round of reading items. -/
theorem items_cons {text : List Char} {j : Json} (h : Reads text j) {rest : List Char}
    (hr : EndsNumber rest) {fuel : Nat} (hf : 2 * text.length ≤ fuel) :
    items (fuel + 1) (text ++ rest) =
      (match skipBlanks rest with
      | ']' :: rest => .ok ([j], rest)
      | ',' :: rest => (items fuel (skipBlanks rest)).map fun r => (j :: r.1, r.2)
      | rest => .error (.problem .comma rest)) := by
  rw [items, h.read rest hr fuel hf]
  rfl

theorem items_read {texts : List (List Char)} {js : List Json} (h : List.Forall₂ Reads texts js)
    (hne : texts ≠ []) {gap gap' : List Char} (hg : Blank gap) (hg' : Blank gap')
    (rest : List Char) (fuel : Nat)
    (hf : 2 * ((',' :: gap).intercalate texts).length + 1 ≤ fuel) :
    items fuel ((',' :: gap).intercalate texts ++ (gap' ++ ']' :: rest)) = .ok (js, rest) := by
  obtain ⟨fuel, rfl⟩ : ∃ n, fuel = n + 1 := ⟨fuel - 1, by omega⟩
  induction h generalizing fuel with
  | nil => exact absurd rfl hne
  | @cons text j texts js htext hrest ih =>
    cases hrest with
    | nil =>
      rw [List.intercalate_singleton] at hf ⊢
      rw [items_cons htext (endsNumber_gap hg' (by simp [mark]) rest) (by omega),
        skipBlanks_append hg', skipBlanks_cons rfl]
      rfl
    | @cons next k texts js hnext hrest =>
      rw [List.intercalate_cons_cons] at hf ⊢
      simp only [List.length_append, List.length_cons] at hf
      obtain ⟨fuel, rfl⟩ : ∃ n, fuel = n + 1 := ⟨fuel - 1, by omega⟩
      have hbody := ih (List.cons_ne_nil _ _) fuel (by omega)
      have hskip := skip_intercalate hg hnext.skip (',' :: gap) texts (gap' ++ ']' :: rest)
      rw [List.append_assoc, List.append_assoc, items_cons htext ?_ (by omega)]
      · rw [List.cons_append, skipBlanks_cons rfl]
        simp only [hskip, hbody]
        rfl
      · exact endsNumber_mark (by simp [mark]) _

/-- One round of reading entries. -/
theorem members_cons {text : List Char} {entry : String × Json} (h : ReadsEntry text entry)
    {before : List (String × Json)} (hnew : ∀ x ∈ before, x.1 ≠ entry.1) {rest : List Char}
    (hr : EndsNumber rest) {fuel : Nat} (hf : 2 * text.length ≤ fuel) :
    members (fuel + 1) before (text ++ rest) =
      (match skipBlanks rest with
      | '\x7d' :: rest => .ok (before ++ [entry], rest)
      | ',' :: rest => members fuel (before ++ [entry]) (skipBlanks rest)
      | rest => .error (.problem .comma rest)) := by
  obtain ⟨name, valueText, rfl, hname, hvalue⟩ := h.read
  obtain ⟨key, j⟩ := entry
  simp only [List.length_append, List.length_cons] at hf
  rw [List.append_assoc, List.cons_append, List.cons_append, List.cons_append, members]
  have hskip : skipBlanks (' ' :: (valueText ++ rest)) = valueText ++ rest :=
    (skipBlanks_space _).trans (hvalue.skip rest)
  have hcolon : ∀ cs, skipBlanks (':' :: cs) = ':' :: cs := skipBlanks_cons rfl
  have hinsert := Table.insert_new hnew j
  simp only [hname, hcolon, hskip, hvalue.read rest hr fuel (by omega), bind, Except.bind,
    String.ofList_toList]
  exact hinsert ▸ rfl

theorem members_read {texts : List (List Char)} {entries : List (String × Json)}
    (h : List.Forall₂ ReadsEntry texts entries) (hne : texts ≠ []) {gap gap' : List Char}
    (hg : Blank gap) (hg' : Blank gap') (rest : List Char) (before : List (String × Json))
    (hnodup : ((before ++ entries).map Prod.fst).Nodup) (fuel : Nat)
    (hf : 2 * ((',' :: gap).intercalate texts).length + 1 ≤ fuel) :
    members fuel before ((',' :: gap).intercalate texts ++ (gap' ++ '\x7d' :: rest)) =
      .ok (before ++ entries, rest) := by
  obtain ⟨fuel, rfl⟩ : ∃ n, fuel = n + 1 := ⟨fuel - 1, by omega⟩
  induction h generalizing fuel before with
  | nil => exact absurd rfl hne
  | @cons text entry texts entries htext hrest ih =>
    have hnew : ∀ x ∈ before, x.1 ≠ entry.1 := by
      intro x hx
      rw [List.map_append, List.nodup_append] at hnodup
      exact hnodup.2.2 x.1 (List.mem_map_of_mem hx) entry.1 (List.mem_cons_self ..)
    cases hrest with
    | nil =>
      rw [List.intercalate_singleton] at hf ⊢
      rw [members_cons htext hnew (endsNumber_gap hg' (by simp [mark]) rest) (by omega),
        skipBlanks_append hg', skipBlanks_cons rfl]
      rfl
    | @cons next entry' texts entries hnext hrest =>
      rw [List.intercalate_cons_cons] at hf ⊢
      simp only [List.length_append, List.length_cons] at hf
      obtain ⟨fuel, rfl⟩ : ∃ n, fuel = n + 1 := ⟨fuel - 1, by omega⟩
      have hbody := ih (List.cons_ne_nil _ _) (before ++ [entry])
        (by rwa [List.append_assoc, List.singleton_append]) fuel (by omega)
      have hskip := skip_intercalate hg hnext.skip (',' :: gap) texts (gap' ++ '\x7d' :: rest)
      rw [List.append_assoc, List.append_assoc, members_cons htext hnew ?_ (by omega)]
      · rw [List.cons_append, skipBlanks_cons rfl]
        simp only [hskip, hbody, List.append_assoc, List.singleton_append]
      · exact endsNumber_mark (by simp [mark]) _

/-! ### Kinds of values -/

/-- A text is read as a value if its first character leads there. -/
theorem Reads.of_value {c : Char} {cs : List Char} {j : Json} (begins : Begins c)
    (h : ∀ rest, EndsNumber rest → ∀ fuel, 2 * cs.length + 1 ≤ fuel →
      value (fuel + 1) (c :: (cs ++ rest)) = .ok (j, rest)) : Reads (c :: cs) j where
  head := ⟨c, cs, rfl, begins⟩
  read rest hr fuel hf := by
    rw [List.length_cons] at hf
    obtain ⟨fuel, rfl⟩ : ∃ n, fuel = n + 1 := ⟨fuel - 1, by omega⟩
    exact h rest hr fuel (by omega)

theorem reads_scalar {c : Char} {cs : List Char} {a : Atom} (begins : Begins c)
    (hc : c ≠ '"' ∧ c ≠ '[' ∧ c ≠ '\x7b')
    (h : ∀ rest, EndsNumber rest → scalar (c :: cs ++ rest) = .ok (a, rest)) :
    Reads (c :: cs) (.atom a) := by
  refine .of_value begins ?_
  intro rest hr fuel hf
  have hscalar := h rest hr
  rw [List.cons_append] at hscalar
  rw [value, hscalar]
  · rfl
  · exact fun _ heq => hc.1 (List.cons.inj heq).1
  · exact fun _ heq => hc.2.1 (List.cons.inj heq).1
  · exact fun _ heq => hc.2.2 (List.cons.inj heq).1

theorem reads_int {n : Int} (hn : InLimit n) : Reads (toString n).toList (.atom (.int n)) := by
  obtain ⟨d, digits, -, hd, htext⟩ := toList_toString n
  have hhead : ∃ c cs, (toString n).toList = c :: cs ∧ (c.isDigit = true ∨ c = '-') := by
    rw [htext]
    split
    · exact ⟨d, digits, rfl, .inl hd⟩
    · exact ⟨'-', _, rfl, .inr rfl⟩
  obtain ⟨c, cs, hcs, hc⟩ := hhead
  have hread : ∀ rest, EndsNumber rest →
      scalar ((toString n).toList ++ rest) = .ok (.int n, rest) := fun _ hr => scalar_int hn hr
  rw [hcs] at hread ⊢
  have hother : ∀ e : Char, e.isDigit = false → e ≠ '-' → c ≠ e := by
    rintro e he hminus rfl
    exact hc.elim (fun h => Bool.noConfusion (he.symm.trans h)) hminus
  refine reads_scalar ⟨?_, hother _ rfl (by decide), hother _ rfl (by decide)⟩ ?_ hread
  · simp [isBlank, hother ' ' rfl (by decide), hother '\t' rfl (by decide),
      hother '\n' rfl (by decide), hother '\r' rfl (by decide)]
  · exact ⟨hother _ rfl (by decide), hother _ rfl (by decide), hother _ rfl (by decide)⟩

theorem reads_text (s : String) : Reads (writeText s).toList (.atom (.text s)) := by
  obtain ⟨cs, htext, hstring⟩ := string_writeText s
  rw [htext]
  refine .of_value ⟨rfl, by decide, by decide⟩ ?_
  intro rest hr fuel hf
  rw [value, hstring]
  simp only [Except.map, String.ofList_toList]

theorem reads_emptyArray : Reads ['[', ']'] (.array []) :=
  .of_value ⟨rfl, by decide, by decide⟩ fun _ _ _ _ => rfl

theorem reads_emptyObject : Reads ['\x7b', '\x7d'] (.object []) :=
  .of_value ⟨rfl, by decide, by decide⟩ fun _ _ _ _ => rfl

section Containers

variable {texts : List (List Char)} {gap between gap' : List Char}

/-- Texts of items, set apart and enclosed in brackets, are the text of the array. -/
theorem reads_array {js : List Json} (h : List.Forall₂ Reads texts js) (hne : texts ≠ [])
    (hg : Blank gap) (hb : Blank between) (hg' : Blank gap') :
    Reads ('[' :: (gap ++ (',' :: between).intercalate texts ++ gap' ++ [']'])) (.array js) := by
  refine .of_value ⟨rfl, by decide, by decide⟩ ?_
  intro rest hr fuel hf
  simp only [List.length_append] at hf
  have hitems := items_read h hne hb hg' rest fuel (by omega)
  cases h with
  | nil => exact absurd rfl hne
  | @cons text j texts js htext hrest =>
    obtain ⟨c, cs, rfl, hc⟩ := htext.head
    have hskip := skip_intercalate hg htext.skip (',' :: between) texts (gap' ++ ']' :: rest)
    obtain ⟨body, hbody⟩ : ∃ body, (',' :: between).intercalate ((c :: cs) :: texts) =
        c :: body := by
      cases texts <;> exact ⟨_, rfl⟩
    rw [hbody] at hskip hitems ⊢
    simp only [List.cons_append, List.append_assoc, List.nil_append] at hskip hitems ⊢
    rw [value, hskip]
    split
    · rename_i heq
      exact absurd (List.cons.inj heq).1 hc.closing
    · rw [hitems]
      rfl

/-- Texts of entries, set apart and enclosed in braces, are the text of the object. -/
theorem reads_object {entries : List (String × Json)}
    (h : List.Forall₂ ReadsEntry texts entries) (hne : texts ≠ [])
    (hnodup : (entries.map Prod.fst).Nodup) (hg : Blank gap) (hb : Blank between)
    (hg' : Blank gap') :
    Reads ('\x7b' :: (gap ++ (',' :: between).intercalate texts ++ gap' ++ ['\x7d']))
      (.object entries) := by
  refine .of_value ⟨rfl, by decide, by decide⟩ ?_
  intro rest hr fuel hf
  simp only [List.length_append] at hf
  have hmembers := members_read h hne hb hg' rest [] hnodup fuel (by omega)
  cases h with
  | nil => exact absurd rfl hne
  | @cons text entry texts entries htext hrest =>
    obtain ⟨name, valueText, rfl, -⟩ := htext.read
    have hskip := skip_intercalate hg htext.skip (',' :: between) texts (gap' ++ '\x7d' :: rest)
    obtain ⟨body, hbody⟩ : ∃ body, (',' :: between).intercalate
        (('"' :: name ++ ':' :: ' ' :: valueText) :: texts) = '"' :: body := by
      cases texts <;> exact ⟨_, rfl⟩
    rw [hbody] at hskip hmembers ⊢
    simp only [List.cons_append, List.append_assoc, List.nil_append] at hskip hmembers ⊢
    rw [value, hskip]
    show (members fuel [] _).map _ = _
    rw [hmembers]
    rfl

end Containers

/-! ### Data that are read back -/

/-- The atoms that are read back as they were written. The not-a-number of all texts is one. -/
def ReadableAtom : Atom → Prop
  | .none | .bool _ | .text _ => True
  | .int n => InLimit n
  | .nan id => id = 0
  | _ => False

@[simp] theorem readableAtom_none : ReadableAtom .none := trivial

@[simp] theorem readableAtom_bool (b : Bool) : ReadableAtom (.bool b) := trivial

@[simp] theorem readableAtom_text (s : String) : ReadableAtom (.text s) := trivial

mutual

/-- A JSON value of which each atom is read back, with no name twice in an object. -/
def Readable : Json → Prop
  | .atom a => ReadableAtom a
  | .array items => ReadableItems items
  | .object entries => (entries.map Prod.fst).Nodup ∧ ReadableEntries entries

def ReadableItems : List Json → Prop
  | [] => True
  | j :: rest => Readable j ∧ ReadableItems rest

def ReadableEntries : List (String × Json) → Prop
  | [] => True
  | (_, j) :: rest => Readable j ∧ ReadableEntries rest

end

mutual

/-- The data that a JSON value stands for. -/
def datum : Json → Datum
  | .atom a => .atom a
  | .array items => .list (data items)
  | .object entries => .dict (dataOf entries)

def data : List Json → List Datum
  | [] => []
  | j :: rest => datum j :: data rest

def dataOf : List (String × Json) → List (Datum × Datum)
  | [] => []
  | (name, j) :: rest => (.text name, datum j) :: dataOf rest

end

/-- An object of atoms. -/
def record (entries : List (String × Atom)) : Json :=
  .object (entries.map fun entry => (entry.1, .atom entry.2))

theorem readable_record {entries : List (String × Atom)} (hnodup : (entries.map Prod.fst).Nodup)
    (h : ∀ entry ∈ entries, ReadableAtom entry.2) : Readable (record entries) := by
  refine ⟨by rwa [List.map_map], ?_⟩
  clear hnodup
  induction entries with
  | nil => trivial
  | cons entry rest ih =>
    exact ⟨h entry (List.mem_cons_self ..), ih fun x hx => h x (List.mem_cons_of_mem _ hx)⟩

theorem datum_record (entries : List (String × Atom)) : datum (record entries) =
    .dict (entries.map fun entry => (.text entry.1, .atom entry.2)) := by
  have h : dataOf (entries.map fun entry => (entry.1, .atom entry.2)) =
      entries.map fun entry => (.text entry.1, .atom entry.2) := by
    induction entries with
    | nil => rfl
    | cons entry rest ih =>
      simp only [List.map_cons, dataOf, datum, ih]
  rw [record, datum, h]

/-! ### Layouts -/

/-- An indent of which reading skips every level. -/
def Layout (indent : Option String) : Prop := ∀ unit ∈ indent, Blank unit.toList

theorem Layout.lineBreak {indent : Option String} (h : Layout indent) (level : Nat) :
    Blank (lineBreak indent level).toList := by
  intro c hc
  cases indent with
  | none => cases hc
  | some unit =>
    simp only [Json.lineBreak, String.toList_append, String.toList_join, List.mem_append,
      List.mem_flatMap, List.mem_replicate] at hc
    rcases hc with hc | ⟨_, ⟨-, rfl⟩, hc⟩
    · rw [List.mem_singleton.mp (show c ∈ ['\n'] from hc)]
      rfl
    · exact h _ rfl c hc

theorem Layout.separator {indent : Option String} (h : Layout indent) (level : Nat) :
    ∃ gap, Blank gap ∧ (separator indent level).toList = ',' :: gap := by
  cases indent with
  | none => exact ⟨[' '], by simp [Blank, isBlank], by simp [Json.separator]⟩
  | some unit =>
    refine ⟨_, h.lineBreak level, ?_⟩
    exact String.toList_append

theorem Layout.enclose {indent : Option String} (h : Layout indent) (level : Nat)
    (left right : String) {texts : List String} (hne : texts ≠ []) :
    ∃ gap between gap', Blank gap ∧ Blank between ∧ Blank gap' ∧
      (enclose indent level left right texts).toList = left.toList ++
        (gap ++ (',' :: between).intercalate (texts.map String.toList) ++ gap' ++
          right.toList) := by
  obtain ⟨between, hb, hseparator⟩ := h.separator (level + 1)
  refine ⟨_, between, _, h.lineBreak (level + 1), hb, h.lineBreak level, ?_⟩
  rw [Json.enclose, if_neg (by simpa using hne)]
  simp only [String.toList_append, String.toList_intercalate, hseparator, List.append_assoc]

/-! ### Reading what was written -/

theorem reads_atom {a : Atom} (h : ReadableAtom a) :
    ∃ text, writeAtom a = .ok text ∧ Reads text.toList (.atom a) := by
  cases a with
  | none =>
    have htext : "null".toList = ['n', 'u', 'l', 'l'] := by decide
    refine ⟨"null", rfl, ?_⟩
    rw [htext]
    exact reads_scalar ⟨rfl, by decide, by decide⟩ (by decide) fun rest _ => rfl
  | bool b =>
    refine ⟨_, rfl, ?_⟩
    cases b with
    | true =>
      have htext : "true".toList = ['t', 'r', 'u', 'e'] := by decide
      simp only [if_true, htext]
      exact reads_scalar ⟨rfl, by decide, by decide⟩ (by decide) fun rest _ => rfl
    | false =>
      have htext : "false".toList = ['f', 'a', 'l', 's', 'e'] := by decide
      simp only [Bool.false_eq_true, if_false, htext]
      exact reads_scalar ⟨rfl, by decide, by decide⟩ (by decide) fun rest _ => rfl
  | int n => exact ⟨toString n, InLimit.written h, reads_int h⟩
  | nan id =>
    cases h
    have htext : "NaN".toList = ['N', 'a', 'N'] := by decide
    refine ⟨"NaN", rfl, ?_⟩
    rw [htext]
    exact reads_scalar ⟨rfl, by decide, by decide⟩ (by decide) fun rest _ => rfl
  | text s => exact ⟨writeText s, rfl, reads_text s⟩
  | float | bytes | policy | undecided => cases h

mutual

/-- Data are written as text that is read as the same data. -/
theorem reads_write {indent : Option String} (layout : Layout indent) (level : Nat) :
    ∀ j, Readable j → ∃ text, write indent level (datum j) = .ok text ∧ Reads text.toList j
  | .atom a, h => by
    unfold datum write
    exact reads_atom h
  | .array items, h => by
    obtain ⟨texts, hwrite, hreads⟩ := reads_writeAll layout (level + 1) items h
    refine ⟨enclose indent level "[" "]" texts, ?_, ?_⟩
    · unfold datum write
      rw [hwrite]
      rfl
    · by_cases hne : texts = []
      · subst hne
        cases hreads
        have htext : (enclose indent level "[" "]" []).toList = ['[', ']'] := by simp [enclose]
        rw [htext]
        exact reads_emptyArray
      · obtain ⟨gap, between, gap', hg, hb, hg', htext⟩ := layout.enclose level "[" "]" hne
        rw [htext]
        exact reads_array hreads (by simpa using hne) hg hb hg'
  | .object entries, h => by
    obtain ⟨texts, hwrite, hreads⟩ := reads_writeEntries layout (level + 1) entries h.2
    refine ⟨enclose indent level "\x7b" "\x7d" texts, ?_, ?_⟩
    · unfold datum write
      rw [hwrite]
      rfl
    · by_cases hne : texts = []
      · subst hne
        cases hreads
        have htext : (enclose indent level "\x7b" "\x7d" []).toList = ['\x7b', '\x7d'] := by
          simp [enclose]
        rw [htext]
        exact reads_emptyObject
      · obtain ⟨gap, between, gap', hg, hb, hg', htext⟩ :=
          layout.enclose level "\x7b" "\x7d" hne
        rw [htext]
        exact reads_object hreads (by simpa using hne) h.1 hg hb hg'

theorem reads_writeAll {indent : Option String} (layout : Layout indent) (level : Nat) :
    ∀ items, ReadableItems items → ∃ texts, writeAll indent level (data items) = .ok texts ∧
      List.Forall₂ Reads (texts.map String.toList) items
  | [], _ => ⟨[], rfl, .nil⟩
  | j :: rest, h => by
    obtain ⟨text, hwrite, hread⟩ := reads_write layout level j h.1
    obtain ⟨texts, hwrites, hreads⟩ := reads_writeAll layout level rest h.2
    refine ⟨text :: texts, ?_, .cons hread hreads⟩
    unfold data writeAll
    rw [hwrite, hwrites]
    rfl

theorem reads_writeEntries {indent : Option String} (layout : Layout indent) (level : Nat) :
    ∀ entries, ReadableEntries entries →
      ∃ texts, writeEntries indent level (dataOf entries) = .ok texts ∧
        List.Forall₂ ReadsEntry (texts.map String.toList) entries
  | [], _ => ⟨[], rfl, .nil⟩
  | (name, j) :: rest, h => by
    obtain ⟨text, hwrite, hread⟩ := reads_write layout level j h.1
    obtain ⟨texts, hwrites, hreads⟩ := reads_writeEntries layout level rest h.2
    refine ⟨(writeText name ++ ": " ++ text) :: texts, ?_, .cons ?_ hreads⟩
    · unfold dataOf writeEntries
      rw [hwrite, hwrites]
      rfl
    · obtain ⟨cs, hname, hstring⟩ := string_writeText name
      refine ⟨cs, text.toList, ?_, hstring, hread⟩
      have hcolon : ": ".toList = [':', ' '] := by decide
      simp only [String.toList_append, hname, hcolon, List.append_assoc, List.cons_append,
        List.nil_append]

end

/-- Reading inverts writing, in every layout. -/
theorem document_write {indent : Option String} (layout : Layout indent) {j : Json}
    (h : Readable j) :
    ∃ text, write indent 0 (datum j) = .ok text ∧ parse (.text text) = .ok j := by
  obtain ⟨text, hwrite, hread⟩ := reads_write layout 0 j h
  refine ⟨text, hwrite, ?_⟩
  obtain ⟨c, cs, hcs, hc⟩ := hread.head
  have hmark : text.toList.head? ≠ some '\ufeff' := by
    rw [hcs]
    exact fun h => hc.unmarked (Option.some.inj h)
  have hvalue := hread.read [] (fun _ hd => nomatch hd) (2 * text.toList.length + 2) (by omega)
  rw [List.append_nil] at hvalue
  have hskip := hread.skip []
  rw [List.append_nil] at hskip
  rw [parse, unmarkedDocument, if_neg hmark, document, hskip, hvalue]
  rfl

end TagTree.Json
