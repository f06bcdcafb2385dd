import Mathlib.Data.List.Basic
import TagTree.Markup
import TagTree.Proofs.Trees

/-!
# Reading lines back

Markup is not escaped, so its lines can be read back only where no name, key, value or
content spells what the layout puts around it. For such markup the text tells the tree:
lines end where the text breaks, a line tells its opening apart from a self-closing node,
a content and a closing line, and openings and closings pair up.
-/

namespace TagTree

/-! ### Texts that avoid characters -/

/-- None of the characters stand in the text. -/
def Text.Avoids (chars : List Char) (s : String) : Prop := ∀ c ∈ s.toList, c ∉ chars

instance (chars : List Char) (s : String) : Decidable (Text.Avoids chars s) :=
  List.decidableBAll (· ∉ chars) s.toList

theorem Text.Avoids.mono {xs ys : List Char} {s : String} (h : Text.Avoids ys s)
    (hs : xs ⊆ ys) : Text.Avoids xs s := fun c hc hx => h c hc (hs hx)

/-- Texts up to the first of some stops are equal where the whole texts are. -/
theorem append_cancel_of_stop {α : Type} (stops : List α) {xs ys rs ss : List α} {c d : α}
    (hx : ∀ a ∈ xs, a ∉ stops) (hy : ∀ a ∈ ys, a ∉ stops) (hc : c ∈ stops) (hd : d ∈ stops)
    (h : xs ++ c :: rs = ys ++ d :: ss) : xs = ys ∧ c = d ∧ rs = ss := by
  induction xs generalizing ys with
  | nil =>
    cases ys with
    | nil => simpa using h
    | cons y ys =>
      obtain ⟨rfl, -⟩ := List.cons.inj h
      exact absurd hc (hy c (by simp))
  | cons x xs ih =>
    cases ys with
    | nil =>
      obtain ⟨rfl, -⟩ := List.cons.inj h
      exact absurd hd (hx x (by simp))
    | cons y ys =>
      obtain ⟨rfl, ht⟩ := List.cons.inj h
      obtain ⟨rfl, he⟩ := ih (fun a ha => hx a (List.mem_cons_of_mem _ ha))
        (fun a ha => hy a (List.mem_cons_of_mem _ ha)) ht
      exact ⟨rfl, he⟩

/-- The parts of a text between the places where a character stands. -/
def Text.parts (c : Char) (s : String) : List String := (s.toList.splitOn c).map String.ofList

/-- Texts without a separator are the parts of the text that it joins from them. -/
theorem parts_intercalate {c : Char} {xs : List String} (hx : ∀ s ∈ xs, Text.Avoids [c] s)
    (nx : xs ≠ []) : Text.parts c ((String.singleton c).intercalate xs) = xs := by
  have separate : ∀ l ∈ xs.map String.toList, c ∉ l := by
    intro l hl hc
    obtain ⟨s, hs, rfl⟩ := List.mem_map.mp hl
    exact hx s hs c hc (by simp)
  rw [Text.parts, String.toList_intercalate, String.toList_singleton,
    List.splitOn_intercalate c separate (by simpa using nx)]
  simp

/-! ### Unbroken markup -/

/-- Openings whose parts stand in one line. -/
structure Opening.Unbroken (o : Opening) : Prop where
  tag : Text.Avoids ['\n'] o.tag
  keys : ∀ a ∈ o.attributes, Text.Avoids ['\n'] a.1
  values : ∀ a ∈ o.attributes, Text.Avoids ['\n'] a.2

/-- Markup with no line break in any tag, key, value or content. -/
def Markup.Unbroken (m : Markup) : Prop := m.Every Opening.Unbroken (Text.Avoids ['\n'])

/-! ### Plain markup -/

/-- Openings whose parts spell none of the characters around them. -/
structure Opening.Plain (o : Opening) : Prop where
  tag : Text.Avoids [' ', '\n', '/', '>'] o.tag
  keys : ∀ a ∈ o.attributes, Text.Avoids [' ', '\n', '=', '/', '>', '"'] a.1
  values : ∀ a ∈ o.attributes, Text.Avoids ['"', '\n'] a.2

/-- A content in one line that does not begin as a node does. -/
structure Markup.PlainContent (s : String) : Prop where
  line : Text.Avoids ['\n'] s
  first : s.toList.head? ≠ some '<'

namespace Markup

mutual

def Plain : Markup → Prop
  | .closed h => h.Plain
  | .text h content => h.Plain ∧ PlainContent content
  | .branch h children => h.Plain ∧ PlainAll children

def PlainAll : List Markup → Prop
  | [] => True
  | t :: rest => Plain t ∧ PlainAll rest

end

end Markup

/-! ### Openings -/

namespace Opening

/-- What follows the attributes of a node with content, and of one without. -/
def ending (isClosed : Bool) : List Char := if isClosed then [' ', '/', '>'] else ['>']

def attributeChars (attributes : List (String × String)) : List Char :=
  attributes.flatMap fun a => ' ' :: (a.1.toList ++ '=' :: '"' :: (a.2.toList ++ ['"']))

theorem toList_attributeText (attributes : List (String × String)) :
    (attributeText attributes).toList = attributeChars attributes := by
  simp [attributeText, attributeChars, String.toList_join, List.flatMap_map]

def line (isClosed : Bool) (o : Opening) : String :=
  if isClosed then o.selfClosing else o.opening

theorem toList_line (isClosed : Bool) (o : Opening) :
    (o.line isClosed).toList =
      '<' :: (o.tag.toList ++ (attributeChars o.attributes ++ ending isClosed)) := by
  cases isClosed <;> simp [line, opening, selfClosing, toList_attributeText, ending]

theorem toList_closing (o : Opening) :
    o.closing.toList = '<' :: '/' :: (o.tag.toList ++ ['>']) := by
  simp [closing]

/-- Attributes and an ending begin with a character that no name has. -/
theorem attributeChars_head (attributes : List (String × String)) (isClosed : Bool) :
    ∃ c rest, attributeChars attributes ++ ending isClosed = c :: rest ∧ c ∈ [' ', '>'] := by
  cases attributes with
  | nil => cases isClosed <;> exact ⟨_, _, rfl, by simp⟩
  | cons a rest => exact ⟨' ', _, rfl, by simp⟩

theorem ending_ne_attributes {a : String × String} {rest : List Char} (isClosed : Bool)
    (hk : Text.Avoids [' ', '\n', '=', '/', '>', '"'] a.1) :
    ending isClosed ≠ ' ' :: (a.1.toList ++ '=' :: rest) := by
  intro h
  cases isClosed with
  | false => simp [ending] at h
  | true =>
    have ht := (List.cons.inj h).2
    cases hs : a.1.toList with
    | nil => simp [hs] at ht
    | cons c cs =>
      rw [hs] at ht
      obtain ⟨rfl, -⟩ := List.cons.inj ht
      exact hk '/' (by simp [hs]) (by simp)

theorem attributeChars_cancel {as bs : List (String × String)} {p q : Bool}
    (ka : ∀ a ∈ as, Text.Avoids [' ', '\n', '=', '/', '>', '"'] a.1)
    (va : ∀ a ∈ as, Text.Avoids ['"', '\n'] a.2)
    (kb : ∀ b ∈ bs, Text.Avoids [' ', '\n', '=', '/', '>', '"'] b.1)
    (vb : ∀ b ∈ bs, Text.Avoids ['"', '\n'] b.2)
    (h : attributeChars as ++ ending p = attributeChars bs ++ ending q) : as = bs ∧ p = q := by
  induction as generalizing bs with
  | nil =>
    cases bs with
    | nil =>
      refine ⟨rfl, ?_⟩
      cases p <;> cases q <;> first | rfl | cases h
    | cons b bs =>
      simp only [attributeChars, List.flatMap_nil, List.nil_append, List.flatMap_cons,
        List.cons_append, List.append_assoc] at h
      exact absurd h (ending_ne_attributes p (kb b (by simp)))
  | cons a as ih =>
    cases bs with
    | nil =>
      simp only [attributeChars, List.flatMap_nil, List.nil_append, List.flatMap_cons,
        List.cons_append, List.append_assoc] at h
      exact absurd h.symm (ending_ne_attributes q (ka a (by simp)))
    | cons b bs =>
      simp only [attributeChars, List.flatMap_cons, List.cons_append, List.append_assoc,
        List.nil_append] at h
      obtain ⟨hk, -, h⟩ := append_cancel_of_stop ['=']
        ((ka a (by simp)).mono (by simp)) ((kb b (by simp)).mono (by simp)) (by simp) (by simp)
        (List.cons.inj h).2
      obtain ⟨hv, -, h⟩ := append_cancel_of_stop ['"']
        ((va a (by simp)).mono (by simp)) ((vb b (by simp)).mono (by simp)) (by simp) (by simp)
        (List.cons.inj h).2
      obtain ⟨rfl, rfl⟩ := ih (fun a ha => ka a (by simp [ha])) (fun a ha => va a (by simp [ha]))
        (fun b hb => kb b (by simp [hb])) (fun b hb => vb b (by simp [hb])) h
      have hab : a = b := Prod.ext (String.toList_injective hk) (String.toList_injective hv)
      exact ⟨by rw [hab], rfl⟩

/-- The line of an opening tells its tag, its attributes and whether content follows. -/
theorem line_injective {g h : Opening} {p q : Bool} (hg : g.Plain) (hh : h.Plain)
    (he : g.line p = h.line q) : g = h ∧ p = q := by
  have hl := congrArg String.toList he
  rw [toList_line, toList_line] at hl
  obtain ⟨c, rs, hr, hc⟩ := attributeChars_head g.attributes p
  obtain ⟨d, ss, hs, hd⟩ := attributeChars_head h.attributes q
  have hl := (List.cons.inj hl).2
  rw [hr, hs] at hl
  obtain ⟨ht, hcd, hrs⟩ := append_cancel_of_stop [' ', '>']
    (hg.tag.mono (by simp)) (hh.tag.mono (by simp)) hc hd hl
  have ha : attributeChars g.attributes ++ ending p = attributeChars h.attributes ++ ending q := by
    rw [hr, hs, hcd, hrs]
  obtain ⟨ha, rfl⟩ := attributeChars_cancel hg.keys hg.values hh.keys hh.values ha
  have ht : g.tag = h.tag := String.toList_inj.mp ht
  refine ⟨?_, rfl⟩
  cases g
  cases h
  simp_all

/-- No opening begins as a closing line does. -/
theorem line_ne_closing {o : Opening} (ho : o.Plain) (p : Bool) (h : Opening) :
    o.line p ≠ h.closing := by
  intro he
  have hl := congrArg String.toList he
  rw [toList_line, toList_closing] at hl
  have hl := (List.cons.inj hl).2
  cases ht : o.tag.toList with
  | nil =>
    obtain ⟨c, rs, hr, hc⟩ := attributeChars_head o.attributes p
    rw [ht, List.nil_append, hr] at hl
    obtain ⟨rfl, -⟩ := List.cons.inj hl
    simp at hc
  | cons c cs =>
    rw [ht] at hl
    obtain ⟨rfl, -⟩ := List.cons.inj hl
    exact ho.tag '/' (by simp [ht]) (by simp)

theorem Plain.unbroken {o : Opening} (ho : o.Plain) : o.Unbroken :=
  ⟨ho.tag.mono (by simp), fun a ha => (ho.keys a ha).mono (by simp),
    fun a ha => (ho.values a ha).mono (by simp)⟩

theorem line_avoids {o : Opening} (ho : o.Unbroken) (p : Bool) :
    Text.Avoids ['\n'] (o.line p) := by
  intro c hc hn
  obtain rfl : c = '\n' := by simpa using hn
  rw [toList_line] at hc
  simp only [attributeChars, List.mem_cons, List.mem_append, List.mem_flatMap] at hc
  rcases hc with hc | hc | ⟨a, ha, hc⟩ | hc
  · exact absurd hc (by decide)
  · exact ho.tag '\n' hc (by simp)
  · rcases hc with hc | hc | hc | hc | hc | hc
    · exact absurd hc (by decide)
    · exact ho.keys a ha '\n' hc (by simp)
    · exact absurd hc (by decide)
    · exact absurd hc (by decide)
    · exact ho.values a ha '\n' hc (by simp)
    · exact absurd hc (by simp)
  · cases p <;> simp [ending] at hc

theorem closing_avoids {o : Opening} (ho : o.Unbroken) : Text.Avoids ['\n'] o.closing := by
  intro c hc hn
  obtain rfl : c = '\n' := by simpa using hn
  rw [toList_closing] at hc
  have ht : '\n' ∈ o.tag.toList := by simpa using hc
  exact ho.tag '\n' ht (by simp)

end Opening

/-! ### Indentation -/

namespace Markup

/-- How far the lines at a depth are indented. -/
def margin (width : Nat) (depth : Int) : Nat := width * depth.toNat

section

variable {width : Nat} {depth : Int}

theorem margin_mono (width : Nat) (depth : Int) : margin width depth ≤ margin width (depth + 1) :=
  Nat.mul_le_mul_left width (Int.toNat_le_toNat (by omega))

theorem toList_indented (s : String) :
    (indentation width depth ++ s).toList =
      List.replicate (margin width depth) ' ' ++ s.toList := by
  simp [indentation, margin]

theorem indented_inj {s t : String}
    (h : indentation width depth ++ s = indentation width depth ++ t) : s = t := by
  have hl := congrArg String.toList h
  rw [toList_indented, toList_indented] at hl
  exact String.toList_inj.mp (List.append_cancel_left hl)

theorem indented_avoids {s : String} (hs : Text.Avoids ['\n'] s) :
    Text.Avoids ['\n'] (indentation width depth ++ s) := by
  intro c hc hn
  rw [toList_indented, List.mem_append] at hc
  rcases hc with hc | hc
  · obtain rfl := (List.mem_replicate.mp hc).2
    exact absurd hn (by decide)
  · exact hs c hc hn

/-- A content is not the line of a node, at its own depth or further out. -/
theorem content_ne_node {i j : Nat} {xs ys : List Char} (hij : i ≤ j)
    (hx : xs.head? ≠ some '<') :
    List.replicate j ' ' ++ xs ≠ List.replicate i ' ' ++ '<' :: ys := by
  intro h
  obtain ⟨k, rfl⟩ := Nat.exists_eq_add_of_le hij
  rw [List.replicate_add, List.append_assoc] at h
  have h := List.append_cancel_left h
  cases k with
  | zero => exact hx (by simpa using congrArg List.head? h)
  | succ k => exact absurd (List.cons.inj h).1 (by decide)

/-- The lines of nodes tell how far they are indented. -/
theorem node_inj {i j : Nat} {xs ys : List Char}
    (h : List.replicate i ' ' ++ '<' :: xs = List.replicate j ' ' ++ '<' :: ys) : xs = ys := by
  have spaces (n : Nat) : ∀ c ∈ List.replicate n ' ', c ∉ ['<'] := fun c hc hm => by
    obtain rfl := (List.mem_replicate.mp hc).2
    exact absurd hm (by decide)
  exact (append_cancel_of_stop ['<'] (spaces i) (spaces j) (by simp) (by simp) h).2.2

/-! ### Lines of nodes -/

def isClosed : Markup → Bool
  | .closed _ => true
  | _ => false

def firstLine (m : Markup) : String := m.head.line m.isClosed

theorem Plain.head {m : Markup} (hm : m.Plain) : m.head.Plain := by
  cases m with
  | closed h => exact hm
  | text h content => exact hm.1
  | branch h children => exact hm.1

theorem lines_eq (width : Nat) (depth : Int) (m : Markup) :
    ∃ rest, lines width depth m = (indentation width depth ++ m.firstLine) :: rest := by
  cases m <;> exact ⟨_, rfl⟩

theorem toList_firstLine (m : Markup) : ∃ cs, m.firstLine.toList = '<' :: cs :=
  ⟨_, Opening.toList_line _ _⟩

theorem lines_branch_append (o : Opening) (ms : List Markup) (rs : List String) :
    lines width depth (.branch o ms) ++ rs = (indentation width depth ++ o.opening) ::
      (linesOf width (depth + 1) ms ++ (indentation width depth ++ o.closing) :: rs) := by
  simp [lines]

theorem firstLine_of_lines {m n : Markup} {rs ss : List String}
    (h : lines width depth m ++ rs = lines width depth n ++ ss) : m.firstLine = n.firstLine := by
  obtain ⟨_, hm⟩ := lines_eq width depth m
  obtain ⟨_, hn⟩ := lines_eq width depth n
  rw [hm, hn] at h
  exact indented_inj (List.cons.inj h).1

/-- What stands under an opening, down to the closing line, begins with the line of a node. -/
theorem inside_head (width : Nat) (depth : Int) (ms : List Markup) (o : Opening)
    (rest : List String) :
    ∃ s ss i cs, linesOf width (depth + 1) ms ++ (indentation width depth ++ o.closing) :: rest =
      s :: ss ∧ s.toList = List.replicate i ' ' ++ '<' :: cs ∧ i ≤ margin width (depth + 1) := by
  cases ms with
  | nil =>
    exact ⟨_, _, margin width depth, _, rfl,
      by rw [toList_indented, Opening.toList_closing], margin_mono width depth⟩
  | cons m ms =>
    obtain ⟨ls, hl⟩ := lines_eq width (depth + 1) m
    obtain ⟨cs, hc⟩ := toList_firstLine m
    have hi : (indentation width (depth + 1) ++ m.firstLine).toList =
        List.replicate (margin width (depth + 1)) ' ' ++ '<' :: cs := by
      rw [toList_indented, hc]
    refine ⟨_, ls ++ linesOf width (depth + 1) ms ++ (indentation width depth ++ o.closing) :: rest,
      margin width (depth + 1), cs, ?_, hi, Nat.le_refl _⟩
    rw [linesOf, hl, List.cons_append, List.cons_append]

/-- Nothing under an opening goes on as the closing line. -/
theorem closing_ne_inside {m : Markup} (hm : m.Plain) (o : Opening) :
    indentation width depth ++ o.closing ≠ indentation width (depth + 1) ++ m.firstLine := by
  intro h
  have hl := congrArg String.toList h
  obtain ⟨cs, hc⟩ := toList_firstLine m
  rw [toList_indented, toList_indented, Opening.toList_closing, hc] at hl
  refine Opening.line_ne_closing hm.head m.isClosed o (String.toList_inj.mp ?_)
  rw [← firstLine]
  rw [hc, Opening.toList_closing, node_inj hl]

/-- The line of a content is not the one that children begin with. -/
theorem content_ne_inside {content : String} (hc : PlainContent content) {ms : List Markup}
    {o : Opening} {rest ss : List String} :
    (indentation width (depth + 1) ++ content) :: rest ≠
      linesOf width (depth + 1) ms ++ (indentation width depth ++ o.closing) :: ss := by
  intro h
  obtain ⟨s, ss', i, cs, hin, hs, hi⟩ := inside_head width depth ms o ss
  rw [hin] at h
  have hl := congrArg String.toList (List.cons.inj h).1
  rw [toList_indented, hs] at hl
  exact content_ne_node hi hc.first hl

end

mutual

/-- The lines of a node end by themselves: no lines can follow that belong to it. -/
theorem lines_cancel {width : Nat} {depth : Int} {m n : Markup} (hm : m.Plain) (hn : n.Plain)
    {rs ss : List String} (h : lines width depth m ++ rs = lines width depth n ++ ss) :
    m = n ∧ rs = ss := by
  -- the first line tells the opening and whether the node is closed; the next one, whether text
  -- or children follow
  obtain ⟨heads, closed⟩ := Opening.line_injective hm.head hn.head (firstLine_of_lines h)
  cases m with
  | closed g =>
    cases n with
    | closed o =>
      obtain rfl : g = o := heads
      exact ⟨rfl, (List.cons.inj h).2⟩
    | text => cases closed
    | branch => cases closed
  | text g content =>
    cases n with
    | closed => cases closed
    | text o content' =>
      obtain rfl : g = o := heads
      have inside := (List.cons.inj h).2
      obtain rfl := indented_inj (List.cons.inj inside).1
      exact ⟨rfl, (List.cons.inj (List.cons.inj inside).2).2⟩
    | branch o ns =>
      rw [lines_branch_append] at h
      exact absurd (List.cons.inj h).2 (content_ne_inside hm.2)
  | branch g ms =>
    rw [lines_branch_append] at h
    cases n with
    | closed => cases closed
    | text o content => exact absurd (List.cons.inj h).2.symm (content_ne_inside hn.2)
    | branch o ns =>
      obtain rfl : g = o := heads
      rw [lines_branch_append] at h
      obtain ⟨rfl, rfl⟩ := linesOf_cancel hm.2 hn.2 (List.cons.inj h).2
      exact ⟨rfl, rfl⟩

theorem linesOf_cancel {width : Nat} {depth : Int} {ms ns : List Markup} (hm : PlainAll ms)
    (hn : PlainAll ns) {g o : Opening} {rs ss : List String}
    (h : linesOf width (depth + 1) ms ++ (indentation width depth ++ g.closing) :: rs =
      linesOf width (depth + 1) ns ++ (indentation width depth ++ o.closing) :: ss) :
    ms = ns ∧ rs = ss := by
  cases ms with
  | nil =>
    cases ns with
    | nil => exact ⟨rfl, (List.cons.inj h).2⟩
    | cons n ns =>
      obtain ⟨rest, hl⟩ := lines_eq width (depth + 1) n
      rw [linesOf, linesOf, hl] at h
      exact absurd (List.cons.inj h).1 (closing_ne_inside hn.1 g)
  | cons m ms =>
    cases ns with
    | nil =>
      obtain ⟨rest, hl⟩ := lines_eq width (depth + 1) m
      rw [linesOf, linesOf, hl] at h
      exact absurd (List.cons.inj h).1.symm (closing_ne_inside hm.1 o)
    | cons n ns =>
      rw [linesOf, linesOf, List.append_assoc, List.append_assoc] at h
      obtain ⟨rfl, rest⟩ := lines_cancel hm.1 hn.1 h
      obtain ⟨rfl, rfl⟩ := linesOf_cancel hm.2 hn.2 rest
      exact ⟨rfl, rfl⟩

end

/-! ### Texts of markup -/

theorem linesOf_eq_flatMap (width : Nat) (depth : Int) (ms : List Markup) :
    linesOf width depth ms = ms.flatMap (lines width depth) := by
  induction ms with
  | nil => rfl
  | cons m ms ih => rw [linesOf, ih, List.flatMap_cons]

theorem lines_ne_nil (width : Nat) (depth : Int) (m : Markup) : lines width depth m ≠ [] := by
  obtain ⟨rest, hl⟩ := lines_eq width depth m
  rw [hl]
  exact List.cons_ne_nil _ _

mutual

theorem Plain.unbroken : ∀ {m : Markup}, m.Plain → m.Unbroken
  | .closed _, head => .closed (Opening.Plain.unbroken head)
  | .text _ _, ⟨head, content⟩ => .text (Opening.Plain.unbroken head) content.line
  | .branch _ _, ⟨head, children⟩ =>
    .branch (Opening.Plain.unbroken head) (PlainAll.unbroken children)

theorem PlainAll.unbroken : ∀ {ms : List Markup}, PlainAll ms → ∀ m ∈ ms, m.Unbroken
  | [], _ => by simp
  | _ :: _, ⟨first, rest⟩ => by
    rw [List.forall_mem_cons]
    exact ⟨Plain.unbroken first, PlainAll.unbroken rest⟩

end

theorem lines_avoid {width : Nat} {depth : Int} {m : Markup} (hm : m.Unbroken) :
    ∀ s ∈ lines width depth m, Text.Avoids ['\n'] s := by
  induction m using Tree.induct generalizing depth with
  | closed h =>
    have head := Tree.every_closed_iff.mp hm
    simp only [lines, List.forall_mem_singleton]
    exact indented_avoids (Opening.line_avoids head true)
  | text h content =>
    obtain ⟨head, unbroken⟩ := Tree.every_text_iff.mp hm
    simp only [lines, List.forall_mem_cons]
    exact ⟨indented_avoids (Opening.line_avoids head false), indented_avoids unbroken,
      indented_avoids (Opening.closing_avoids head), List.forall_mem_nil _⟩
  | branch h ms ih =>
    obtain ⟨head, children⟩ := Tree.every_branch_iff.mp hm
    intro s hs
    simp only [lines, linesOf_eq_flatMap, List.mem_cons, List.mem_append, List.mem_flatMap,
      List.not_mem_nil, or_false] at hs
    rcases hs with rfl | ⟨m, hmem, hs⟩ | rfl
    · exact indented_avoids (Opening.line_avoids head false)
    · exact ih m hmem (children m hmem) s hs
    · exact indented_avoids (Opening.closing_avoids head)

/-- The lines of unbroken markup are what its text breaks into. -/
theorem parts_render {width : Nat} {depth : Int} {m : Markup} (hm : m.Unbroken) :
    Text.parts '\n' (render width depth m) = lines width depth m :=
  parts_intercalate (lines_avoid hm) (lines_ne_nil width depth m)

/-- Plain markup is told by its text, at any depth and indentation. -/
theorem render_injective {width : Nat} {depth : Int} {m n : Markup} (hm : m.Plain)
    (hn : n.Plain) (h : render width depth m = render width depth n) : m = n := by
  have same : lines width depth m = lines width depth n := by
    rw [← parts_render hm.unbroken, ← parts_render hn.unbroken, h]
  have ended : lines width depth m ++ [] = lines width depth n ++ [] := by rw [same]
  exact (lines_cancel hm hn ended).1

end Markup

end TagTree
