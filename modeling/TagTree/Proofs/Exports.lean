import TagTree.Export
import TagTree.Proofs.Faults
import TagTree.Proofs.Tables
import TagTree.Proofs.Written
import TagTree.Proofs.Writing

/-!
# Exported trees

A tree is exported as a tree of the same shape, with the attributes of each node gathered as a
dictionary of texts. An export and a rendering write the same values in different orders, and one
ends where the other does: where every value can be written.
-/

namespace TagTree

variable {write : Value → Outcome String}

/-- An opening has the tag of a node, and its written attributes gathered as a dictionary. -/
def Node.ExportedAs (write : Value → Outcome String) (n : Node) (o : Opening) : Prop :=
  ∃ h, n.WrittenAs write h ∧ o = { h with attributes := Table.ofEntries (· == ·) h.attributes }

/-- An opening has the tag of a node, and in order its keys, which are texts, with its values as
they are written. -/
structure Node.MirroredBy (write : Value → Outcome String) (n : Node) (o : Opening) : Prop where
  tag : o.tag = n.tag
  attributes : List.Forall₂ (fun a b => a.1 = .text b.1 ∧ write a.2 = .value b.2)
    n.entries o.attributes

/-- What a library may raise. -/
structure Library.RefusesOnly (faults : Fault → Prop) (l : Library) : Prop where
  opening : ∀ {o f}, l.opening o = .error f → faults f
  text : ∀ {s f}, l.text s = .error f → faults f

theorem Library.plain_refusesOnly (faults : Fault → Prop) : plain.RefusesOnly faults :=
  ⟨nofun, nofun⟩

/-- Attributes are a dictionary whose keys are texts. -/
structure Node.TextKeyed (n : Node) : Prop where
  texts : ∀ a ∈ n.entries, ∃ s, a.1 = .text s
  once : (n.entries.map Prod.fst).Nodup

namespace Export

/-! ### What an export is made of -/

theorem openingOf_eq_value_iff {n : Node} {o : Opening} :
    openingOf .plain write n = .value o ↔ n.ExportedAs write o := by
  unfold openingOf Node.ExportedAs
  rw [bind_eq_value_iff]
  simp only [ElementTree.openingOf_eq_value_iff]
  refine exists_congr fun h => and_congr_right fun _ => ?_
  constructor
  · intro ho
    cases ho
    rfl
  · rintro rfl
    rfl

theorem trees_eq_mapM (l : Library) (write : Value → Outcome String) (ts : List ElementTree) :
    trees l write ts = ts.mapM (tree l write) := by
  induction ts with
  | nil => rfl
  | cons t ts ih => rw [trees, ih, List.mapM_cons]

theorem ofExcept_text (s : String) : Outcome.ofExcept (Library.plain.text s) = .value s := rfl

/-- An exported tree has the shape of a tree, its openings exported and its texts written. -/
theorem tree_eq_value_iff {t : ElementTree} {m : Markup} :
    tree .plain write t = .value m ↔
      Tree.Like (Node.ExportedAs write) (fun v s => write v = .value s) t m := by
  induction t using Tree.induct generalizing m with
  | closed n =>
    rw [tree, bind_eq_value_iff, Tree.closed_like_iff]
    simp only [openingOf_eq_value_iff, Outcome.pure_eq, Outcome.value.injEq, eq_comm]
  | text n v =>
    rw [tree, bind_eq_value_iff, Tree.text_like_iff]
    refine exists_congr fun o => ?_
    simp only [openingOf_eq_value_iff, bind_eq_value_iff, ofExcept_text, Outcome.pure_eq,
      Outcome.value.injEq]
    constructor
    · rintro ⟨ho, s, hs, _, rfl, rfl⟩
      exact ⟨s, ho, hs, rfl⟩
    · rintro ⟨s, ho, hs, rfl⟩
      exact ⟨ho, s, hs, _, rfl, rfl⟩
  | branch n ts ih =>
    rw [tree, bind_eq_value_iff, Tree.branch_like_iff]
    refine exists_congr fun o => ?_
    simp only [openingOf_eq_value_iff, bind_eq_value_iff, trees_eq_mapM, mapM_eq_value_iff,
      forall₂_congr_of_mem fun t ht m => @ih t ht m, Outcome.pure_eq, Outcome.value.injEq]
    constructor
    · rintro ⟨ho, ms, hms, rfl⟩
      exact ⟨ms, ho, hms, rfl⟩
    · rintro ⟨ms, ho, hms, rfl⟩
      exact ⟨ho, ms, hms, rfl⟩

/-- A tree is exported where every value in it can be written. -/
theorem exists_tree_iff {t : ElementTree} : (∃ m, tree .plain write t = .value m) ↔
    t.Values fun v => ∃ s, write v = .value s := by
  have opening (n : Node) : (∃ o, n.ExportedAs write o) ↔ ∃ o, n.WrittenAs write o :=
    ⟨fun ⟨_, h, written, _⟩ => ⟨h, written⟩, fun ⟨h, written⟩ => ⟨_, h, written, rfl⟩⟩
  simp only [tree_eq_value_iff]
  rw [Tree.exists_like_iff, ElementTree.Values]
  simp only [opening, ElementTree.exists_opening_iff]

section

variable {faults : Fault → Prop} {out : Prop} {l : Library}

theorem openingOf_failsOnly (refuses : l.RefusesOnly faults) {n : Node}
    (hw : ∀ a ∈ n.entries,
      (write a.1).FailsOnly faults out ∧ (write a.2).FailsOnly faults out) :
    (openingOf l write n).FailsOnly faults out :=
  (ElementTree.openingOf_failsOnly hw).bind fun _ _ =>
    Outcome.failsOnly_ofExcept fun _ hf => refuses.opening hf

/-- An export fails only as a value of the tree is written, or as the library refuses. -/
theorem tree_failsOnly (refuses : l.RefusesOnly faults) {t : ElementTree}
    (hw : t.Values fun v => (write v).FailsOnly faults out) :
    (tree l write t).FailsOnly faults out := by
  induction t using Tree.induct with
  | closed n =>
    rw [tree]
    exact (openingOf_failsOnly refuses (Tree.every_closed_iff.mp hw)).bind fun o _ => trivial
  | text n v =>
    rw [tree]
    obtain ⟨head, content⟩ := Tree.every_text_iff.mp hw
    have stored (s : String) : (Outcome.ofExcept (l.text s)).FailsOnly faults out :=
      Outcome.failsOnly_ofExcept fun _ hf => refuses.text hf
    exact (openingOf_failsOnly refuses head).bind fun o _ => content.bind fun s _ =>
      (stored s).bind fun s' _ => trivial
  | branch n ts ih =>
    rw [tree, trees_eq_mapM]
    obtain ⟨head, children⟩ := Tree.every_branch_iff.mp hw
    have inside := Outcome.failsOnly_mapM fun t ht => ih t ht (children t ht)
    exact (openingOf_failsOnly refuses head).bind fun o _ => inside.bind fun ms _ => trivial

end

end Export

/-! ### Dictionaries of texts -/

theorem World.write_text (w : World) (s : String) : w.write (.text s) = .value s := rfl

/-- Keys that are texts stay as they are, each in its place. -/
theorem Node.ExportedAs.mirrored {w : World} {n : Node} {o : Opening} (keyed : n.TextKeyed)
    (exported : n.ExportedAs w.write o) : n.MirroredBy w.write o := by
  obtain ⟨h, written, rfl⟩ := exported
  have mirrored : List.Forall₂ (fun a b => a.1 = .text b.1 ∧ w.write a.2 = .value b.2)
      n.entries h.attributes := by
    refine forall₂_imp_of_mem (fun a ha b hab => ?_) written.attributes
    obtain ⟨s, hs⟩ := keyed.texts a ha
    have key : Outcome.value s = .value b.1 := by rw [← w.write_text s, ← hs]; exact hab.1
    cases key
    exact ⟨hs, hab.2⟩
  have keys : n.entries.map Prod.fst = h.attributes.map fun b => .text b.1 := by
    rw [← List.forall₂_eq_eq_eq, List.forall₂_map_left_iff, List.forall₂_map_right_iff]
    exact mirrored.imp fun a b hab => hab.1
  -- a key is a text and writes itself, so no two keys fall together
  have once : (h.attributes.map Prod.fst).Nodup := by
    have distinct := keyed.once
    rw [keys] at distinct
    refine List.Nodup.of_map Value.text ?_
    simpa [List.map_map, Function.comp_def] using distinct
  refine ⟨written.tag, ?_⟩
  rw [Table.ofEntries_of_nodup (fun e _ => Table.exact_beq e.1) once]
  exact mirrored

/-! ### Conversions -/

namespace Export

variable {w : World} {v : Value} {e : ElementRef} {t : ElementTree} {m : Markup} {f : Fault}
  {target : Target} {installed : Bool}

theorem convert_of_tree (found : w.store.tree? e = some t)
    (made : tree (w.store.host.library target) w.write t = .value m)
    (available : target.available installed = true) (correlation : Value) :
    (convert target correlation installed (.element e) w).1 =
      .value (.completed (.element e) m t.nodes.length) := by
  have exported : element w target e = .value (m, t.nodes.length) := by
    rw [element, found, Outcome.ofOption, Outcome.value_bind, made]
    rfl
  rw [convert, exported]
  simp only [available, Bool.not_true, Bool.false_eq_true, if_false]

theorem convert_of_fault (found : w.store.tree? e = some t)
    (made : tree (w.store.host.library target) w.write t = .fault f)
    (ordinary : f.kind.isException = true) (available : target.available installed = true)
    (correlation : Value) :
    (convert target correlation installed (.element e) w).1 = .value (.failed (.element e)
      ("Failed to convert to " ++ target.libraryName ++ ": " ++ f.message)) := by
  have exported : element w target e = .fault f := by
    rw [element, found, Outcome.ofOption, Outcome.value_bind, made]
    rfl
  rw [convert, exported]
  simp only [available, Bool.not_true, Bool.false_eq_true, if_false, ordinary, if_true]

theorem convert_of_exhausted (found : w.store.tree? e = some t)
    (made : tree (w.store.host.library target) w.write t = .exhausted)
    (available : target.available installed = true) (correlation : Value) :
    (convert target correlation installed (.element e) w).1 = .exhausted := by
  have exported : element w target e = .exhausted := by
    rw [element, found, Outcome.ofOption, Outcome.value_bind, made]
    rfl
  rw [convert, exported]
  simp only [available, Bool.not_true, Bool.false_eq_true, if_false]

theorem convert_of_missing (missing : target.available installed = false)
    (correlation : Value) :
    (convert target correlation installed (.element e) w).1 =
      .value (.failed (.element e) (target.libraryName ++ " is not installed")) := by
  rw [convert]
  simp only [missing, Bool.not_false, if_true]

theorem convert_of_other (other : ∀ e, v ≠ .element e) (target : Target) (correlation : Value)
    (installed : Bool) : (convert target correlation installed v w).1 =
      .value (.failed v ("Expected XMLElement, got " ++ v.typeName)) := by
  cases v with
  | element e => exact absurd rfl (other e)
  | _ => rfl

/-- What fails an export is seen by handlers of ordinary exceptions, if what the library raises
is. -/
theorem isException_of_tree {l : Library} (refuses : l.RefusesOnly fun f => f.kind.isException)
    (made : tree l w.write t = .fault f) : f.kind.isException = true := by
  have values : t.Values fun v => (w.write v).FailsOnly (fun f => f.kind.isException) True :=
    .all (fun v => (w.write_textual v).imp fun _ => Fault.Textual.isException) t
  have ordinary := tree_failsOnly refuses values
  rw [made] at ordinary
  exact ordinary

/-- A conversion to any target returns a result, as long as its library raises nothing but
ordinary exceptions: the exported tree, or nothing but the value and one wording. -/
theorem convert_returns
    (refuses : (w.store.host.library target).RefusesOnly fun f => f.kind.isException)
    (ends : ∀ e, v = .element e → ∃ t, w.store.tree? e = some t ∧
      t.Values fun x => w.write x ≠ .exhausted) (correlation : Value) (installed : Bool) :
    ∃ r, (convert target correlation installed v w).1 = .value r ∧
      ((∃ m n, r = .completed v m n) ∨ ∃ message, r = .failed v message) := by
  by_cases element : ∃ e, v = .element e
  · obtain ⟨e, rfl⟩ := element
    obtain ⟨t, found, ends⟩ := ends e rfl
    cases available : target.available installed with
    | false => exact ⟨_, convert_of_missing available correlation, .inr ⟨_, rfl⟩⟩
    | true =>
      cases made : tree (w.store.host.library target) w.write t with
      | value m => exact ⟨_, convert_of_tree found made available correlation, .inl ⟨m, _, rfl⟩⟩
      | fault f =>
        have ordinary := isException_of_tree refuses made
        exact ⟨_, convert_of_fault found made ordinary available correlation, .inr ⟨_, rfl⟩⟩
      | exhausted =>
        have values : t.Values fun v => (w.write v).FailsOnly (fun f => f.kind.isException) False :=
          ends.imp fun v hv =>
            ((w.write_textual v).imp fun _ => Fault.Textual.isException).ending hv
        have never := tree_failsOnly refuses values
        rw [made] at never
        exact never.elim
  · have other : ∀ e, v ≠ .element e := fun e h => element ⟨e, h⟩
    exact ⟨_, convert_of_other other target correlation installed, .inr ⟨_, rfl⟩⟩

/-- A conversion that succeeds holds the exported tree. -/
theorem tree_of_convert {r : Conversion} {correlation : Value}
    (found : w.store.tree? e = some t)
    (converted : (convert .elementTree correlation installed (.element e) w).1 = .value r)
    (success : r.success = true) :
    ∃ m, tree .plain w.write t = .value m ∧
      r = .completed (.element e) m t.nodes.length := by
  cases made : tree (w.store.host.library .elementTree) w.write t with
  | value m =>
    rw [convert_of_tree found made rfl] at converted
    cases converted
    exact ⟨m, made, rfl⟩
  | fault f =>
    have ordinary := isException_of_tree (Library.plain_refusesOnly _) made
    rw [convert_of_fault found made ordinary rfl] at converted
    cases converted
    cases success
  | exhausted =>
    rw [convert_of_exhausted found made rfl] at converted
    cases converted

theorem strictly_of_convert {r : Conversion}
    (h : (convert target .none installed v w).1 = .value r) :
    (strictly target installed v w).1 =
      if r.success then Outcome.ofOption r.data
      else .fault (.exportFailed ("; ".intercalate r.errors)) := by
  rw [strictly, Proc.bind_apply]
  rcases hc : convert target .none installed v w with ⟨x, w'⟩
  rw [hc] at h
  subst h
  dsimp only
  split <;> rfl

/-- The result that every conversion of a value returns. It holds a tree, which the strict
conversion returns, or nothing but the value and one wording, which the strict one fails with. -/
structure Returns (w : World) (v : Value) (r : Conversion) : Prop where
  converted : ∀ correlation installed,
    (convert .elementTree correlation installed v w).1 = .value r
  completed : r.success = true → ∃ m, r.data = some m ∧
    ∀ installed, (strictly .elementTree installed v w).1 = .value m
  failed : r.success = false → r.data = none ∧ r.original = v ∧ ∃ message, r.errors = [message] ∧
    ∀ installed, ∃ f, (strictly .elementTree installed v w).1 = .fault f ∧
      f.kind = .value ∧ f.message = message

theorem returns_completed {n : Nat} (h : ∀ correlation installed,
      (convert .elementTree correlation installed v w).1 = .value (.completed v m n)) :
    Returns w v (.completed v m n) where
  converted := h
  completed := fun _ => ⟨m, rfl, fun installed => strictly_of_convert (h .none installed)⟩
  failed := fun failure => by cases failure

theorem returns_failed {message : String} (h : ∀ correlation installed,
      (convert .elementTree correlation installed v w).1 = .value (.failed v message)) :
    Returns w v (.failed v message) where
  converted := h
  completed := fun success => by cases success
  failed := fun _ => by
    refine ⟨rfl, rfl, message, rfl, fun installed => ⟨.exportFailed message, ?_, rfl, rfl⟩⟩
    have joined : "; ".intercalate [message] = message := by simp
    have raised := strictly_of_convert (h .none installed)
    rw [raised, Conversion.failed, joined]
    rfl

end Export

namespace World

variable {w : World} {e : ElementRef} {t : ElementTree}

/-- An element whose deepest line can be indented is rendered where its values can be written. -/
theorem renderAlone_iff (found : w.store.tree? e = some t)
    (fits : w.indentable (.int indentationSpacing) t.height = .value ()) :
    (∃ s, w.renderAlone e = .value s) ↔ t.Values fun v => ∃ s, w.write v = .value s := by
  rw [← Nat.zero_add t.height] at fits
  have levels := indentable_levels_iff.mpr fits
  rw [← ElementTree.exists_writtenAs_iff, renderAlone]
  constructor
  · rintro ⟨s, hs⟩
    obtain ⟨-, m, written, -⟩ := (render_eq_value_iff found).mp hs
    exact ⟨m, written⟩
  · rintro ⟨m, written⟩
    exact ⟨_, (render_eq_value_iff found).mpr ⟨levels, m, written, rfl⟩⟩

theorem renderAlone_ends (found : w.store.tree? e = some t)
    (ends : t.Values fun v => w.write v ≠ .exhausted) :
    (w.renderAlone e).FailsOnly (fun _ => True) False := by
  have writes : t.Values fun v => (w.write v).FailsOnly (fun _ => True) False :=
    ends.imp fun v hv => ((w.write_textual v).imp fun _ _ => trivial).ending hv
  have fits (d : Int) :
      (w.indentable (.int indentationSpacing) d).FailsOnly (fun _ => True) False :=
    indentable_failsOnly fun _ _ => trivial
  rw [renderAlone, render, renderWith, found]
  exact (ElementTree.markup_failsOnly writes fits 0).bind fun m _ => trivial

end World

/-! ### What conversions tell -/

/-- An element is converted where every value in it can be written. -/
theorem Export.returns_element {w : World} {e : ElementRef} {t : ElementTree}
    (found : w.store.tree? e = some t) (ends : t.Values fun v => w.write v ≠ .exhausted) :
    ∃ r, Returns w (.element e) r ∧
      (r.success = true ↔ t.Values fun v => ∃ s, w.write v = .value s) := by
  cases made : tree (w.store.host.library .elementTree) w.write t with
  | value m =>
    refine ⟨_, returns_completed fun correlation _ =>
      convert_of_tree found made rfl correlation, ?_⟩
    exact iff_of_true rfl (exists_tree_iff.mp ⟨m, made⟩)
  | fault f =>
    have ordinary := isException_of_tree (Library.plain_refusesOnly _) made
    refine ⟨_, returns_failed fun correlation _ =>
      convert_of_fault found made ordinary rfl correlation, ?_⟩
    refine iff_of_false (fun success => by cases success) fun values => ?_
    obtain ⟨m, hm⟩ := exists_tree_iff.mpr values
    cases made.symm.trans hm
  | exhausted =>
    have never : (tree (w.store.host.library .elementTree) w.write t).FailsOnly Fault.Textual
        False := tree_failsOnly (Library.plain_refusesOnly _)
      (ends.imp fun v hv => (w.write_textual v).ending hv)
    rw [made] at never
    exact never.elim

/-- An export is faithful. A converted element is a tree of the same shape, with its tags, with its
keys in order and its values as they are written, and with its texts as they are written; nodes
correspond in document order, and their number is told. -/
theorem export_faithful {w w' : World} {e : ElementRef} {t : ElementTree} {correlation : Value}
    {installed : Bool} {r : Export.Conversion} (found : w.store.tree? e = some t)
    (keyed : t.Every Node.TextKeyed fun _ => True)
    (converted : Export.convert .elementTree correlation installed (.element e) w = (.value r, w'))
    (success : r.success = true) :
    ∃ m, r.data = some m ∧
      Tree.Like (Node.MirroredBy w.write) (fun v s => w.write v = .value s) t m ∧
      List.Forall₂ (Tree.Like (Node.MirroredBy w.write) fun v s => w.write v = .value s)
        t.nodes m.nodes ∧
      r.metadata = [("element_count", t.nodes.length)] ∧ m.nodes.length = t.nodes.length := by
  have holds : (Export.convert .elementTree correlation installed (.element e) w).1 = .value r := by
    rw [converted]
  obtain ⟨m, made, rfl⟩ := Export.tree_of_convert found holds success
  have mirrored : Tree.Like (Node.MirroredBy w.write) (fun v s => w.write v = .value s) t m := by
    refine (Export.tree_eq_value_iff.mp made).imp_of_every (keyed.imp ?_ fun _ _ _ h => h)
    exact fun n hn o exported => exported.mirrored hn
  exact ⟨m, rfl, mirrored, mirrored.nodes, rfl, mirrored.nodes.length_eq.symm⟩

/-- An element that stands in another twice and as its text, and one whose text is an element
with a builder without a root. -/
def exported : World where
  store :=
    { Store.empty .small with
      elements := #[⟨"b", none, .text (.builder ⟨0⟩), true⟩,
        ⟨"c", some [(.text "k", .int 1), (.text "l", .none)], .text (.text ""), true⟩,
        ⟨"d", none, .text (.element ⟨1⟩), true⟩,
        ⟨"a", some [], .children 1 [⟨1⟩, ⟨2⟩, ⟨1⟩], true⟩,
        ⟨"e", none, .text (.element ⟨0⟩), true⟩,
        ⟨"f", none, .children 2 [⟨1⟩, ⟨4⟩], true⟩] }
  builders := #[.idle (.settings .standard) .none 0]
  journal := []

def keyedNode : Node := ⟨⟨1⟩, "c", some [(.text "k", .int 1), (.text "l", .none)]⟩

def sharedTree : ElementTree :=
  .branch ⟨⟨3⟩, "a", some []⟩ [.text keyedNode (.text ""),
    .text ⟨⟨2⟩, "d", none⟩ (.element ⟨1⟩), .text keyedNode (.text "")]

theorem sharedTree_keyed : sharedTree.Every Node.TextKeyed fun _ => True := by
  have bare (e : ElementRef) (tag : String) (a : Option Attributes) (h : a.getD [] = []) :
      (⟨e, tag, a⟩ : Node).TextKeyed := ⟨by simp [Node.entries, h], by simp [Node.entries, h]⟩
  have keyed : keyedNode.TextKeyed := by
    refine ⟨?_, ?_⟩
    · simp [Node.entries, keyedNode]
    · simp [Node.entries, keyedNode]
  refine .branch (bare _ _ _ rfl) ?_
  simp only [List.forall_mem_cons]
  exact ⟨.text keyed trivial, .text (bare _ _ _ rfl) trivial, .text keyed trivial, by simp⟩

/-- Shared children and texts that are elements are exported at every place. -/
theorem shared_export_faithful : exported.store.tree? ⟨3⟩ = some sharedTree ∧
    sharedTree.Every Node.TextKeyed (fun _ => True) ∧
    ∃ r w', Export.convert .elementTree .none true (.element ⟨3⟩) exported = (.value r, w') ∧
      r.success = true ∧ ∃ m, r.data = some m ∧
      Tree.Like (Node.MirroredBy exported.write) (fun v s => exported.write v = .value s)
        sharedTree m ∧ m.nodes.length = 4 := by
  have found : exported.store.tree? ⟨3⟩ = some sharedTree := rfl
  obtain ⟨r, w', converted, success⟩ : ∃ r w',
      Export.convert .elementTree .none true (.element ⟨3⟩) exported = (.value r, w') ∧
        r.success = true := ⟨_, _, rfl, rfl⟩
  obtain ⟨m, data, mirrored, -, -, count⟩ :=
    export_faithful found sharedTree_keyed converted success
  exact ⟨found, sharedTree_keyed, r, w', converted, success, m, data, mirrored, count⟩

/-- A conversion is never raised through, and it fails exactly where the rendering of an element
does. What comes of an element is decided by its values: where all can be written, it is converted
and rendered, and where one cannot, such as an element that is not rendered itself, neither. A
failed conversion holds no tree, but the value and one wording, which a strict conversion fails
with. Values whose texts never end are left out, and so are trees for whose deepest line memory
does not hold the indentation. -/
theorem conversion_exact {w : World} {v : Value}
    (ends : ∀ e, v = .element e → ∃ t, w.store.tree? e = some t ∧
      w.indentable (.int World.indentationSpacing) t.height = .value () ∧
      t.Values fun x => w.write x ≠ .exhausted) :
    ∃ r, Export.Returns w v r ∧
      (r.success = true ↔ ∃ e s, v = .element e ∧ w.renderAlone e = .value s) ∧
      (∀ e, v = .element e → (r.success = false ↔ ∃ f, w.renderAlone e = .fault f)) ∧
      ∀ e t, v = .element e → w.store.tree? e = some t →
        (r.success = true ↔ t.Values fun x => ∃ s, w.write x = .value s) ∧
        ∀ d f, w.renderAlone d = .fault f → ¬ t.Values (· ≠ .element d) → r.success = false := by
  by_cases element : ∃ e, v = .element e
  · obtain ⟨e, rfl⟩ := element
    obtain ⟨t, found, fits, ends⟩ := ends e rfl
    -- conversion and rendering write the values in different orders: both are compared with
    -- whether all values can be written, and never with each other
    obtain ⟨r, returns, written⟩ := Export.returns_element found ends
    have rendered : r.success = true ↔ ∃ s, w.renderAlone e = .value s :=
      written.trans (w.renderAlone_iff found fits).symm
    refine ⟨r, returns, ?_, ?_, ?_⟩
    · rw [rendered]
      constructor
      · rintro ⟨s, hs⟩
        exact ⟨e, s, rfl, hs⟩
      · rintro ⟨_, s, ⟨⟩, hs⟩
        exact ⟨s, hs⟩
    · rintro _ ⟨⟩
      rw [(w.renderAlone_ends found ends).fault_iff, ← rendered, Bool.not_eq_true]
    · rintro _ t' ⟨⟩ found'
      obtain rfl : t = t' := Option.some.inj (found.symm.trans found')
      refine ⟨written, fun d f fault inside => ?_⟩
      rw [← Bool.not_eq_true, written]
      refine fun values => inside (values.imp ?_)
      rintro _ ⟨s, hs⟩ rfl
      have same := (w.write_element d).resolve_left (by rw [hs]; exact nofun)
      rw [hs, fault] at same
      cases same
  · have other : ∀ e, v ≠ .element e := fun e h => element ⟨e, h⟩
    refine ⟨_, Export.returns_failed (Export.convert_of_other other .elementTree), ?_, ?_, ?_⟩
    · refine iff_of_false (fun success => by cases success) ?_
      rintro ⟨e, s, h, -⟩
      exact other e h
    · exact fun e h => absurd h (other e)
    · exact fun e t h => absurd h (other e)

def brokenTree : ElementTree :=
  .branch ⟨⟨5⟩, "f", none⟩ [.text keyedNode (.text ""), .text ⟨⟨4⟩, "e", none⟩ (.element ⟨0⟩)]

/-- A builder without a root in an element that is a text fails both, and its wording is told. -/
theorem nested_conversion_fails :
    (∃ t, exported.store.tree? ⟨5⟩ = some t ∧
      exported.indentable (.int World.indentationSpacing) t.height = .value () ∧
      t.Values fun x => exported.write x ≠ .exhausted) ∧
    ∃ r, Export.Returns exported (.element ⟨5⟩) r ∧ r.success = false ∧
      (∃ f, exported.renderAlone ⟨5⟩ = .fault f) ∧
      r.errors = ["Failed to convert to xml.etree.ElementTree: no root element"] := by
  have written (v : Value) (s : String) (h : exported.write v = .value s) :
      exported.write v ≠ .exhausted := by
    rw [h]
    exact nofun
  have broken : exported.write (.element ⟨0⟩) ≠ .exhausted := by
    rw [show exported.write (.element ⟨0⟩) = .fault .noRoot from rfl]
    exact nofun
  have ends : ∃ t, exported.store.tree? ⟨5⟩ = some t ∧
      exported.indentable (.int World.indentationSpacing) t.height = .value () ∧
      t.Values fun x => exported.write x ≠ .exhausted := by
    refine ⟨brokenTree, rfl, rfl, .branch (by simp [Node.entries]) ?_⟩
    simp only [List.forall_mem_cons]
    refine ⟨.text ?_ (written _ "" rfl), .text (by simp [Node.entries]) broken, by simp⟩
    simp only [Node.entries, keyedNode, Option.getD_some, List.forall_mem_cons]
    exact ⟨⟨written _ "k" rfl, written _ "1" rfl⟩, ⟨written _ "l" rfl, written _ "None" rfl⟩,
      by simp⟩
  obtain ⟨r, returns, -, fails, -⟩ := conversion_exact (w := exported) (v := .element ⟨5⟩)
    fun e h => by cases h; exact ends
  have fault : exported.renderAlone ⟨5⟩ = .fault .noRoot := rfl
  have failed : r.success = false := (fails ⟨5⟩ rfl).mpr ⟨_, fault⟩
  have told : (Export.convert .elementTree .none true (.element ⟨5⟩) exported).1 =
      .value (.failed (.element ⟨5⟩)
        "Failed to convert to xml.etree.ElementTree: no root element") := rfl
  have same := (returns.converted .none true).symm.trans told
  cases same
  exact ⟨ends, _, returns, failed, ⟨_, fault⟩, rfl⟩

end TagTree
