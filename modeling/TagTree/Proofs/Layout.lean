import Mathlib.Algebra.GroupWithZero.Nat
import TagTree.Proofs.Lines
import TagTree.Proofs.Writing

/-!
# Layout

Unbroken markup is laid out in the same lines at every depth, further indented the deeper it
stands. Each line opens a node, or is a content, or closes a node, and its level alone tells
where it begins.
-/

namespace TagTree

def Text.spaces (n : Nat) : String := String.ofList (List.replicate n ' ')

theorem Text.spaces_add (m n : Nat) : spaces (m + n) = spaces m ++ spaces n := by
  rw [spaces, spaces, spaces, ← String.ofList_append, List.replicate_append_replicate]

/-- How many lines a node has besides those of its children. -/
def Tree.ownLines {η τ : Type} : Tree η τ → Nat
  | .closed _ => 1
  | .text _ _ => 3
  | .branch _ _ => 2

theorem Tree.Like.map_ownLines {η η' τ τ' : Type} {H : η → η' → Prop} {C : τ → τ' → Prop}
    {t : Tree η τ} {t' : Tree η' τ'} (l : Tree.Like H C t t') :
    t.nodes.map Tree.ownLines = t'.nodes.map Tree.ownLines := by
  have own (x : Tree η τ) (y : Tree η' τ') (h : Tree.Like H C x y) :
      x.ownLines = y.ownLines := by
    cases h <;> rfl
  rw [← List.forall₂_eq_eq_eq, List.forall₂_map_left_iff, List.forall₂_map_right_iff]
  exact l.nodes.imp own

/-! ### Lines by what they are -/

/-- A line of markup with the level at which it stands. -/
inductive Line where
  | opening (level : Nat) (node : Markup)
  | content (level : Nat) (text : String)
  | closing (level : Nat) (head : Opening)

namespace Line

def level : Line → Nat
  | opening j _ => j
  | content j _ => j
  | closing j _ => j

def text : Line → String
  | opening _ m => m.firstLine
  | content _ s => s
  | closing _ h => h.closing

/-- The node that a line opens, with its level. -/
def opened? : Line → Option (Nat × Opening)
  | opening j m => some (j, m.head)
  | _ => none

/-- A line as it is written where the markup begins at a depth. -/
def written (width depth : Nat) (l : Line) : String :=
  Text.spaces (width * (depth + l.level)) ++ l.text

/-- Every line stands further right in markup that begins further down. -/
theorem written_add (width depth k : Nat) (l : Line) :
    written width (depth + k) l = Text.spaces (k * width) ++ written width depth l := by
  have far : width * (depth + k + l.level) = k * width + width * (depth + l.level) := by
    rw [Nat.add_right_comm, Nat.mul_add, Nat.mul_comm width k, Nat.add_comm]
  rw [written, written, far, Text.spaces_add, String.append_assoc]

end Line

namespace Markup

mutual

/-- The lines of markup in order, with the levels at which they stand below a level. -/
def outline (level : Nat) : Markup → List Line
  | .closed h => [.opening level (.closed h)]
  | .text h s => [.opening level (.text h s), .content (level + 1) s, .closing level h]
  | .branch h c =>
    .opening level (.branch h c) :: (outlineOf (level + 1) c ++ [.closing level h])

def outlineOf (level : Nat) : List Markup → List Line
  | [] => []
  | m :: rest => outline level m ++ outlineOf level rest

end

theorem outlineOf_eq_flatMap (level : Nat) (ms : List Markup) :
    outlineOf level ms = ms.flatMap (outline level) := by
  induction ms with
  | nil => rfl
  | cons m ms ih => rw [outlineOf, ih, List.flatMap_cons]

/-- Markup is laid out in the lines of its outline. -/
theorem lines_eq_outline (width depth : Nat) (m : Markup) :
    lines width depth m = (m.outline 0).map (Line.written width depth) := by
  -- the level varies, since the children of a branch are laid out one further down
  suffices below : ∀ level : Nat,
      lines width (depth + level : Nat) m = (m.outline level).map (Line.written width depth) from
    below 0
  intro level
  have deeper (level : Nat) : ((depth + level : Nat) : Int) + 1 = (depth + (level + 1) : Nat) :=
    rfl
  induction m using Tree.induct generalizing level with
  | closed h => rfl
  | text h s => rfl
  | branch h ms ih =>
    have inside : linesOf width (depth + (level + 1) : Nat) ms =
        (outlineOf (level + 1) ms).map (Line.written width depth) := by
      rw [linesOf_eq_flatMap, outlineOf_eq_flatMap, List.map_flatMap]
      exact List.flatMap_congr fun m hm => ih m hm (level + 1)
    rw [lines, outline, deeper, inside, List.map_cons, List.map_append]
    rfl

/-- The lines that open nodes are those of all nodes in document order, at their levels. -/
theorem opened_outline (level : Nat) (m : Markup) :
    (m.outline level).filterMap Line.opened? = m.levels level := by
  induction m using Tree.induct generalizing level with
  | closed h => rfl
  | text h s => rfl
  | branch h ms ih =>
    have inside : (outlineOf (level + 1) ms).filterMap Line.opened? =
        Tree.levelsOf (level + 1) ms := by
      rw [outlineOf_eq_flatMap, Tree.levelsOf_eq_flatMap, List.filterMap_flatMap]
      exact List.flatMap_congr fun m hm => ih m hm (level + 1)
    have first : (Line.opening level (.branch h ms)).opened? = some (level, h) := rfl
    have last : [Line.closing level h].filterMap Line.opened? = [] := rfl
    rw [outline, List.filterMap_cons_some first, List.filterMap_append, inside, last,
      List.append_nil, Tree.levels]

/-- Each node has its own lines, and the outline no others. -/
theorem length_outline (level : Nat) (m : Markup) :
    (m.outline level).length = (m.nodes.map Tree.ownLines).sum := by
  induction m using Tree.induct generalizing level with
  | closed h => rfl
  | text h s => rfl
  | branch h ms ih =>
    have inside : (outlineOf (level + 1) ms).length =
        ((Tree.nodesOf ms).map Tree.ownLines).sum := by
      clear * - ih
      induction ms with
      | nil => rfl
      | cons m ms ihr =>
        have first := ih m List.mem_cons_self (level + 1)
        have rest := ihr fun x hx => ih x (List.mem_cons_of_mem m hx)
        simp only [outlineOf, Tree.nodesOf, List.length_append, List.map_append, List.sum_append,
          first, rest]
    simp only [outline, Tree.nodes, List.length_cons, List.length_append, List.length_nil, inside,
      List.map_cons, List.sum_cons, Tree.ownLines]
    omega

/-! ### The end of a text -/

theorem intercalate_concat (c last : String) (xs : List String) :
    ∃ s, c.intercalate (xs ++ [last]) = s ++ last := by
  induction xs with
  | nil => exact ⟨"", by simp⟩
  | cons x xs ih =>
    obtain ⟨s, hs⟩ := ih
    have more : xs ++ [last] ≠ [] := by simp
    refine ⟨x ++ c ++ s, ?_⟩
    simp only [List.cons_append, String.intercalate_cons_of_ne_nil more, hs, String.append_assoc]

/-- A text ends with the sign that closes a node, and so in no line break. -/
theorem render_ends (width : Nat) (depth : Int) (m : Markup) :
    ∃ s, render width depth m = s ++ ">" := by
  have last : ∃ before s, lines width depth m = before ++ [s ++ ">"] := by
    cases m with
    | closed h =>
      refine ⟨[], indentation width depth ++ ("<" ++ h.tag ++ Opening.attributeText h.attributes ++
        " /"), ?_⟩
      simp [lines, Opening.selfClosing, String.append_assoc]
    | text h content =>
      refine ⟨[indentation width depth ++ h.opening, indentation width (depth + 1) ++ content],
        indentation width depth ++ ("</" ++ h.tag), ?_⟩
      simp [lines, Opening.closing, String.append_assoc]
    | branch h ms =>
      refine ⟨(indentation width depth ++ h.opening) :: linesOf width (depth + 1) ms,
        indentation width depth ++ ("</" ++ h.tag), ?_⟩
      simp [lines, Opening.closing, String.append_assoc]
  obtain ⟨before, s, hs⟩ := last
  obtain ⟨pre, hp⟩ := intercalate_concat "\n" (s ++ ">") before
  exact ⟨pre ++ s, by rw [render, hs, hp, String.append_assoc]⟩

theorem render_getLast (width : Nat) (depth : Int) (m : Markup) :
    (render width depth m).toList.getLast? = some '>' := by
  obtain ⟨s, hs⟩ := render_ends width depth m
  rw [hs, String.toList_append, List.getLast?_append]
  rfl

end Markup

/-! ### Indentation that cannot be made -/

/-- A number does not have the size of an index, or a text does not fit into memory. -/
def Fault.OfSize (f : Fault) : Prop := f.kind = .overflow ∨ f.kind = .memory

theorem length_ofSize {memory size : Nat} {i : Int} {f : Fault}
    (h : Repetition.length memory size (.int i) = .error f) : f.OfSize := by
  rcases Repetition.length_error h with ⟨other, -⟩ | rfl | rfl | rfl
  · cases other
  · exact .inl rfl
  · exact .inl rfl
  · exact .inr rfl

namespace World

variable {w : World} {e : ElementRef} {t : ElementTree} {m : Markup}

theorem indentable_ofSize (width depth : Int) :
    (w.indentable (.int width) depth).FailsOnly Fault.OfSize False := by
  refine indentable_failsOnly fun f hf => ?_
  rcases bind_eq_error hf with hf | ⟨unit, -, hf⟩
  · exact length_ofSize hf
  · exact length_ofSize hf

/-- An element whose values can all be written is rendered, or its indentation cannot be made. -/
theorem render_failsOnly (found : w.store.tree? e = some t) (written : t.WrittenAs w.write m)
    (width depth : Int) : (w.render e (.int width) depth).FailsOnly Fault.OfSize False := by
  have values := ElementTree.exists_writtenAs_iff.mp ⟨m, written⟩
  have wrote (v : Value) : (∃ s, w.write v = .value s) →
      (w.write v).FailsOnly Fault.OfSize False := by
    rintro ⟨s, hs⟩
    rw [hs]
    trivial
  rw [render, renderWith, found]
  exact (ElementTree.markup_failsOnly (values.imp wrote) (indentable_ofSize width)
    depth).bind fun m _ => trivial

end World

/-! ### Rendered elements -/

/-- Elements are laid out uniformly. Where no tag, key, value or text breaks a line, an element is
rendered at a depth and a width exactly if the indentation of its deepest line can be made there;
the lines are then those at any depth above, each further right by the width for every level
between; and they are the lines of all its nodes, which open in document order at their levels. -/
theorem layout_uniform {w : World} {e : ElementRef} {t : ElementTree} {m : Markup}
    (found : w.store.tree? e = some t) (written : t.WrittenAs w.write m)
    (unbroken : m.Unbroken) (depth k width : Nat) :
    ((∃ s, w.render e (.int width) (depth + k : Nat) = .value s) ↔
      w.indentable (.int width) (depth + k + t.height : Nat) = .value ()) ∧
    (w.render e (.int width) (depth + k : Nat)).FailsOnly Fault.OfSize False ∧
    ∀ s', w.render e (.int width) (depth + k : Nat) = .value s' →
      ∃ s, w.render e (.int width) depth = .value s ∧
        Text.parts '\n' s' = (Text.parts '\n' s).map (Text.spaces (k * width) ++ ·) ∧
        (Text.parts '\n' s).length = (t.nodes.map Tree.ownLines).sum ∧
        Text.parts '\n' s = (m.outline 0).map (Line.written width depth) ∧
        List.Forall₂ (fun n o => o.1 = n.1 ∧ n.2.WrittenAs w.write o.2) (t.levels 0)
          ((m.outline 0).filterMap Line.opened?) ∧
        s.toList.getLast? ≠ some '\n' := by
  -- a tree has one writing, so that the same markup is laid out at every depth
  have rendered (d : Nat) (s : String) : w.render e (.int width) d = .value s ↔
      w.indentable (.int width) (d + t.height : Nat) = .value () ∧
        s = Markup.render width d m := by
    rw [World.render_eq_value_iff found, World.indentable_levels_iff]
    refine and_congr_right fun _ => ⟨?_, fun h => ⟨m, written, h⟩⟩
    rintro ⟨m', written', h⟩
    rw [ElementTree.writtenAs_unique written written']
    exact h
  have lines (d : Nat) : Text.parts '\n' (Markup.render width d m) =
      (m.outline 0).map (Line.written width d) := by
    rw [Markup.parts_render unbroken, Markup.lines_eq_outline]
  refine ⟨?_, World.render_failsOnly found written width _, ?_⟩
  · constructor
    · rintro ⟨s, hs⟩
      exact ((rendered _ s).mp hs).1
    · intro fits
      exact ⟨_, (rendered _ _).mpr ⟨fits, rfl⟩⟩
  · intro s' hs'
    obtain ⟨fits, rfl⟩ := (rendered _ s').mp hs'
    have above : w.indentable (.int width) (depth + t.height : Nat) = .value () :=
      World.indentable_of_le (by omega) fits
    refine ⟨_, (rendered _ _).mpr ⟨above, rfl⟩, ?_, ?_, lines depth, ?_, ?_⟩
    · rw [lines, lines, List.map_map]
      exact List.map_congr_left fun l _ => l.written_add width depth k
    · rw [lines, List.length_map, Markup.length_outline, written.map_ownLines]
    · rw [Markup.opened_outline]
      exact written.levels 0
    · rw [Markup.render_getLast]
      decide

/-- Elements of every kind of content inside one another. -/
def nest : World where
  store :=
    { Store.empty .small with
      elements := #[⟨"b", none, .text (.text "x"), true⟩, ⟨"c", none, .children 1 [], true⟩,
        ⟨"d", some [(.text "k", .int 1)], .empty, true⟩,
        ⟨"a", none, .children 2 [⟨0⟩, ⟨1⟩, ⟨2⟩], true⟩] }
  builders := #[]
  journal := []

def nestTree : ElementTree :=
  .branch ⟨⟨3⟩, "a", none⟩ [.text ⟨⟨0⟩, "b", none⟩ (.text "x"), .branch ⟨⟨1⟩, "c", none⟩ [],
    .closed ⟨⟨2⟩, "d", some [(.text "k", .int 1)]⟩]

def nestMarkup : Markup :=
  .branch ⟨"a", []⟩ [.text ⟨"b", []⟩ "x", .branch ⟨"c", []⟩ [], .closed ⟨"d", [("k", "1")]⟩]

theorem nest_written : nestTree.WrittenAs nest.write nestMarkup := by
  have bare (e : ElementRef) (tag : String) :
      (⟨e, tag, none⟩ : Node).WrittenAs nest.write ⟨tag, []⟩ := ⟨rfl, .nil⟩
  refine .branch (bare _ _) (.cons (.text (bare _ _) rfl) (.cons (.branch (bare _ _) .nil) ?_))
  exact .cons (.closed ⟨rfl, .cons ⟨rfl, rfl⟩ .nil⟩) .nil

theorem leaf_unbroken : Markup.Unbroken (.closed ⟨"d", [("k", "1")]⟩) := by
  refine .closed ⟨by decide, ?_, ?_⟩
  · simp only [List.forall_mem_singleton]
    decide
  · simp only [List.forall_mem_singleton]
    decide

theorem nest_unbroken : nestMarkup.Unbroken := by
  have bare (tag : String) (h : Text.Avoids ['\n'] tag) : Opening.Unbroken ⟨tag, []⟩ :=
    ⟨h, by simp, by simp⟩
  refine .branch (bare "a" (by decide)) ?_
  simp only [List.forall_mem_cons]
  exact ⟨.text (bare "b" (by decide)) (by decide), .branch (bare "c" (by decide)) (by simp),
    leaf_unbroken, by simp⟩

/-- The lines of nested elements, at one depth and two levels further down. -/
theorem nest_layout : nest.store.tree? ⟨3⟩ = some nestTree ∧
    nestTree.WrittenAs nest.write nestMarkup ∧ nestMarkup.Unbroken ∧
    ∃ s s', nest.render ⟨3⟩ (.int 2) 1 = .value s ∧ nest.render ⟨3⟩ (.int 2) 3 = .value s' ∧
      Text.parts '\n' s = ["  <a>", "    <b>", "      x", "    </b>", "    <c>", "    </c>",
        "    <d k=\"1\" />", "  </a>"] ∧
      Text.parts '\n' s' = (Text.parts '\n' s).map (Text.spaces 4 ++ ·) := by
  have found : nest.store.tree? ⟨3⟩ = some nestTree := rfl
  obtain ⟨renders, -, laid⟩ := layout_uniform found nest_written nest_unbroken 1 2 2
  have fits : nest.indentable (.int 2) (1 + 2 + nestTree.height : Nat) = .value () := rfl
  obtain ⟨s', hs'⟩ := renders.mpr fits
  obtain ⟨s, hs, deeper, -, lines, -⟩ := laid s' hs'
  exact ⟨found, nest_written, nest_unbroken, s, s', hs, hs', by rw [lines]; decide, deeper⟩

/-- Without a bound on the width an element need not be rendered at all. -/
theorem endless_width_not_rendered : ¬ ∀ (w : World) (e : ElementRef) (t : ElementTree)
    (m : Markup), w.store.tree? e = some t → t.WrittenAs w.write m → m.Unbroken →
    ∀ depth k width : Nat, ∃ s s', w.render e (.int width) depth = .value s ∧
      w.render e (.int width) (depth + k : Nat) = .value s' ∧
      Text.parts '\n' s' = (Text.parts '\n' s).map (Text.spaces (k * width) ++ ·) := by
  intro every
  have written : ElementTree.WrittenAs nest.write (.closed ⟨⟨2⟩, "d", some [(.text "k", .int 1)]⟩)
      (.closed ⟨"d", [("k", "1")]⟩) := .closed ⟨rfl, .cons ⟨rfl, rfl⟩ .nil⟩
  obtain ⟨s, -, hs, -⟩ := every nest ⟨2⟩ _ _ rfl written leaf_unbroken 0 0 (10 ^ 30)
  have hfault : nest.render ⟨2⟩ (.int (10 ^ 30 : Nat)) (0 : Nat) =
      .fault (.notIndexSized .overflow) := rfl
  rw [hfault] at hs
  cases hs

end TagTree
