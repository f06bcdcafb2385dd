import TagTree.Proofs.Alike

/-!
# Texts of like values

Like elements of alike worlds are read out as like trees, and these are written the same way
if the first world has the fuel to write them.
-/

namespace TagTree

/-! ### Trees -/

/-- Nodes with equal tags and with attributes of related keys and values. -/
structure Node.Related (R : Value → Value → Prop) (n m : Node) : Prop where
  tag : n.tag = m.tag
  attributes : List.Forall₂ (fun x y => R x.1 y.1 ∧ R x.2 y.2) n.entries m.entries

structure Node.Like (ρ : Matching) (n m : Node) : Prop where
  ref : ρ.Elements n.ref m.ref
  tag : n.tag = m.tag
  attributes : Option.Rel (Dict.Like ρ) n.attributes m.attributes

abbrev ElementTree.Like (ρ : Matching) : ElementTree → ElementTree → Prop :=
  Tree.Like (Node.Like ρ) (Value.Like ρ)

theorem Node.Like.related {ρ : Matching} {n m : Node} (h : Node.Like ρ n m) :
    Node.Related (Value.Like ρ) n m := by
  refine ⟨h.tag, ?_⟩
  obtain ⟨ref, tag, attributes⟩ := n
  obtain ⟨ref', tag', attributes'⟩ := m
  cases h.attributes with
  | none => exact .nil
  | some same => exact same

/-! ### Writing trees -/

section Markup

variable {R : Value → Value → Prop} {write write' : Value → Outcome String}

theorem ElementTree.openingOf_below (h : ∀ v v', R v v' → (write v).Below (write' v'))
    {n m : Node} (hn : Node.Related R n m) :
    (openingOf write n).Below (openingOf write' m) := by
  unfold openingOf
  rw [hn.tag]
  refine .bind (.mapM (fun x y hx => ?_) hn.attributes) fun _ => .refl _
  exact (h _ _ hx.1).bind fun _ => (h _ _ hx.2).bind fun _ => .refl _

mutual

theorem ElementTree.markup_below (h : ∀ v v', R v v' → (write v).Below (write' v'))
    (fits : Int → Outcome Unit) : ∀ {t t' : ElementTree} (depth : Int),
    Tree.Like (Node.Related R) R t t' →
    (markup write fits depth t).Below (markup write' fits depth t')
  | .closed n, _, depth, .closed head => by
    simp only [markup]
    exact (Outcome.Below.refl _).bind fun _ => (openingOf_below h head).bind fun _ => .refl _
  | .text n v, _, depth, .text head content => by
    simp only [markup]
    refine (Outcome.Below.refl _).bind fun _ => (Outcome.Below.refl _).bind fun _ => ?_
    exact (h _ _ content).bind fun _ => (openingOf_below h head).bind fun _ => .refl _
  | .branch n c, _, depth, .branch head children => by
    simp only [markup]
    refine (Outcome.Below.refl _).bind fun _ => ?_
    refine (markupAll_below h fits (depth + 1) children).bind fun _ => ?_
    exact (openingOf_below h head).bind fun _ => .refl _

theorem ElementTree.markupAll_below (h : ∀ v v', R v v' → (write v).Below (write' v'))
    (fits : Int → Outcome Unit) : ∀ {ts ts' : List ElementTree} (depth : Int),
    List.Forall₂ (Tree.Like (Node.Related R) R) ts ts' →
    (markupAll write fits depth ts).Below (markupAll write' fits depth ts')
  | [], _, _, .nil => .refl _
  | t :: rest, _, depth, .cons first others => by
    simp only [markupAll]
    refine (markup_below h fits depth first).bind fun _ => ?_
    exact (markupAll_below h fits depth others).bind fun _ => .refl _

end

end Markup

/-! ### Reading trees -/

theorem mapM_rel {α β γ δ : Type} {r : α → β → Prop} {s : γ → δ → Prop} {f : α → Option γ}
    {g : β → Option δ} (h : ∀ a b, r a b → Option.Rel s (f a) (g b)) {xs : List α} {ys : List β}
    (hr : List.Forall₂ r xs ys) : Option.Rel (List.Forall₂ s) (xs.mapM f) (ys.mapM g) := by
  induction hr with
  | nil => exact .some .nil
  | cons first rest ih =>
    rw [List.mapM_cons, List.mapM_cons]
    exact rel_bind (h _ _ first) fun _ _ hab => rel_bind ih fun _ _ hcd => .some (.cons hab hcd)

namespace World.Like

variable {ρ : Matching} {w w' : World} {e f : ElementRef}

theorem treeWithin (h : World.Like ρ w w') (n : Nat) (hr : ρ.Elements e f) :
    Option.Rel (ElementTree.Like ρ) (w.store.treeWithin n e) (w'.store.treeWithin n f) := by
  induction n generalizing e f with
  | zero => exact .none
  | succ n ih =>
    obtain ⟨⟨tag, attributes, content, isSealed⟩, ⟨tag', attributes', content', isSealed'⟩, hx, hy,
      same⟩ := h.element hr
    have node : Node.Like ρ ⟨e, tag, attributes⟩ ⟨f, tag', attributes'⟩ :=
      ⟨hr, same.tag, same.attributes⟩
    have hc : Content.Like ρ content content' := same.content
    simp only [Store.treeWithin, hx, hy]
    cases hc with
    | empty => exact .some (.closed node)
    | text hv => exact .some (.text node hv)
    | children id elements =>
      have hs := mapM_rel (fun _ _ hd => ih hd) elements
      simp only [Option.map_eq_bind]
      exact rel_bind hs fun _ _ hab => .some (.branch node hab)

theorem tree (h : World.Like ρ w w') (hr : ρ.Elements e f) {t : ElementTree}
    (ht : w.store.tree? e = some t) :
    ∃ t', w'.store.tree? f = some t' ∧ ElementTree.Like ρ t t' := by
  have hs := h.treeWithin (w.store.elements.size + 1) hr
  rw [show w.store.treeWithin (w.store.elements.size + 1) e = some t from ht] at hs
  generalize hy : w'.store.treeWithin (w.store.elements.size + 1) f = y at hs
  cases hs with
  | some same => exact ⟨_, Store.treeWithin_mono (Nat.succ_le_succ h.size) hy, same⟩

/-! ### Writing -/

theorem indentable (h : World.Like ρ w w') {v v' : Value} (hv : Value.Like ρ v v')
    (depth : Int) : w.indentable v depth = w'.indentable v' depth := by
  simp only [World.indentable, Repetition.indentation, Repetition.length, Repetition.times,
    hv.int?, hv.typeName, h.host]

theorem renderWith (h : World.Like ρ w w') {write write' : Value → Outcome String}
    (hw : ∀ v v', Value.Like ρ v v' → (write v).Below (write' v')) (hr : ρ.Elements e f)
    {width width' : Value} (hv : Value.Like ρ width width') (depth : Int) :
    (w.renderWith write e width depth).Below (w'.renderWith write' f width' depth) := by
  unfold World.renderWith
  cases ht : w.store.tree? e with
  | none => exact .inl rfl
  | some t =>
    obtain ⟨t', ht', same⟩ := h.tree hr ht
    have related := same.imp (fun _ _ => Node.Like.related) fun _ _ hc => hc
    rw [ht', funext (h.indentable hv), World.spaces, World.spaces, hv.int?]
    exact (ElementTree.markup_below hw _ depth related).bind fun _ => .refl _

theorem renderBuilderWith (h : World.Like ρ w w') {write write' : Value → Outcome String}
    (hw : ∀ v v', Value.Like ρ v v' → (write v).Below (write' v')) {b c : BuilderRef}
    (hr : ρ.Builders b c) :
    (w.renderBuilderWith write b).Below (w'.renderBuilderWith write' c) := by
  obtain ⟨x, y, hx, hy, hl⟩ := h.builder hr
  have setting := h.settingOf hl.configuration .indentWidth
  have root := hl.root
  simp only [World.renderBuilderWith, hx, hy]
  generalize x.root = r, y.root = r' at root
  generalize w.settingOf x.configuration .indentWidth = a,
    w'.settingOf y.configuration .indentWidth = a' at setting
  cases root with
  | none => exact .refl _
  | some he =>
    simp only
    cases setting with
    | ok hv => exact h.renderWith hw he hv 0
    | error hf => exact hf ▸ .refl _

theorem writeWithin (h : World.Like ρ w w') (n : Nat) {v v' : Value} (hv : Value.Like ρ v v') :
    (w.writeWithin n v).Below (w'.writeWithin n v') := by
  induction n generalizing v v' with
  | zero => exact .refl _
  | succ n ih =>
    have plain : (Outcome.ofExcept (w.plainText v)).Below (.ofExcept (w'.plainText v')) :=
      .inr (congrArg Outcome.ofExcept (h.plainText hv))
    cases hv with
    | element same => exact h.renderWith (fun _ _ => ih) same (.atom (Atom.Like.refl (by simp))) 0
    | builder same => exact h.renderBuilderWith (fun _ _ => ih) same
    | _ => exact plain

end World.Like

theorem Node.related_refl (n : Node) : Node.Related Eq n n :=
  ⟨rfl, List.forall₂_same.mpr fun _ _ => ⟨rfl, rfl⟩⟩

namespace World

variable {w : World} {write write' : Value → Outcome String}

theorem renderWith_below (h : ∀ v, (write v).Below (write' v)) (e : ElementRef) (width : Value)
    (depth : Int) : (w.renderWith write e width depth).Below (w.renderWith write' e width depth) :=
  (Outcome.Below.refl _).bind fun t =>
    .bind (ElementTree.markup_below (fun v _ hv => hv ▸ h v) _ depth
      (Tree.Like.refl Node.related_refl (fun _ => rfl) t)) fun _ => .refl _

theorem writeWithin_mono {n m : Nat} (h : n ≤ m) (v : Value) :
    (w.writeWithin n v).Below (w.writeWithin m v) := by
  induction n generalizing m v with
  | zero => exact .inl rfl
  | succ n ih =>
    obtain ⟨m, rfl⟩ : ∃ k, m = k + 1 := ⟨m - 1, by omega⟩
    have inside : ∀ v, (w.writeWithin n v).Below (w.writeWithin m v) := fun v => ih (by omega) v
    cases v with
    | element e => exact renderWith_below inside _ _ _
    | builder b =>
      simp only [writeWithin, renderBuilderWith]
      cases w.builder? b with
      | none => exact .refl _
      | some x =>
        simp only
        cases x.root with
        | none => exact .refl _
        | some e => exact (Outcome.Below.refl _).bind fun _ => renderWith_below inside _ _ _
    | _ => exact .refl _

/-- The text of an element is its rendering, if it has an end. -/
theorem write_element (e : ElementRef) : (w.write (.element e)).Below (w.renderAlone e) :=
  renderWith_below (writeWithin_mono (Nat.le_succ _)) e _ 0

end World

namespace World.Like

variable {ρ : Matching} {w w' : World} {e f : ElementRef}

theorem write (h : World.Like ρ w w') {v v' : Value} (hv : Value.Like ρ v v') :
    (w.write v).Below (w'.write v') :=
  (h.writeWithin _ hv).trans (World.writeWithin_mono (by have := h.size; omega) v')

end World.Like

end TagTree
