import TagTree.Proofs.Descent
import TagTree.Proofs.Indentation

/-!
# Written trees

An element tree is written as markup of the same shape. It is where every value in it can be
written and the lines at every level that it reaches can be indented, and it fails otherwise.
-/

namespace TagTree

variable {write : Value → Outcome String} {fits : Int → Outcome Unit}

/-- An opening has the tag of a node, and every key and value as it is written. -/
structure Node.WrittenAs (write : Value → Outcome String) (n : Node) (o : Opening) : Prop where
  tag : o.tag = n.tag
  attributes : List.Forall₂ (fun a t => write a.1 = .value t.1 ∧ write a.2 = .value t.2)
    n.entries o.attributes

/-- Markup of the same shape as a tree has its tags, and its keys, values and texts as they are
written. -/
abbrev ElementTree.WrittenAs (write : Value → Outcome String) : ElementTree → Markup → Prop :=
  Tree.Like (Node.WrittenAs write) fun v s => write v = .value s

namespace ElementTree

theorem openingOf_eq_value_iff {n : Node} {o : Opening} :
    openingOf write n = .value o ↔ n.WrittenAs write o := by
  unfold openingOf
  rw [bind_eq_value_iff]
  simp only [mapM_eq_value_iff]
  have entry (a : Value × Value) (t : String × String) :
      (do let key ← write a.1; let value ← write a.2; pure (key, value)) = Outcome.value t ↔
        write a.1 = .value t.1 ∧ write a.2 = .value t.2 := by
    rw [bind_eq_value_iff]
    simp only [bind_eq_value_iff]
    constructor
    · rintro ⟨key, hk, value, hv, h⟩
      cases h
      exact ⟨hk, hv⟩
    · rintro ⟨hk, hv⟩
      exact ⟨_, hk, _, hv, rfl⟩
  simp only [entry]
  constructor
  · rintro ⟨texts, attributes, h⟩
    cases h
    exact ⟨rfl, attributes⟩
  · rintro ⟨tag, attributes⟩
    exact ⟨o.attributes, attributes, by rw [← tag]; rfl⟩

/-- Every key and value of a node can be written where an opening can. -/
theorem exists_opening_iff {n : Node} : (∃ o, n.WrittenAs write o) ↔
    ∀ a ∈ n.entries, (∃ s, write a.1 = .value s) ∧ ∃ s, write a.2 = .value s := by
  have texts : (∃ o, n.WrittenAs write o) ↔ ∃ texts : List (String × String),
      List.Forall₂ (fun a t => write a.1 = .value t.1 ∧ write a.2 = .value t.2)
        n.entries texts :=
    ⟨fun ⟨o, h⟩ => ⟨o.attributes, h.attributes⟩, fun ⟨texts, h⟩ => ⟨⟨n.tag, texts⟩, rfl, h⟩⟩
  rw [texts, exists_forall₂_iff]
  refine forall₂_congr fun a _ => ?_
  exact ⟨fun ⟨t, hk, hv⟩ => ⟨⟨t.1, hk⟩, t.2, hv⟩, fun ⟨⟨k, hk⟩, v, hv⟩ => ⟨(k, v), hk, hv⟩⟩

/-- A tree has a writing where every value in it has one. -/
theorem exists_writtenAs_iff {t : ElementTree} :
    (∃ m, t.WrittenAs write m) ↔ t.Values fun v => ∃ s, write v = .value s := by
  rw [Tree.exists_like_iff, Values]
  simp only [exists_opening_iff]

/-- The levels of a branch are its own and those of its children, one further down. -/
theorem forall_levels_branch {P : Int → Prop} {depth : Int} {n : Node} {ts : List ElementTree} :
    (∀ j : Nat, j ≤ (Tree.branch n ts).height → P (depth + j)) ↔
      P depth ∧ ∀ t ∈ ts, ∀ j : Nat, j ≤ t.height → P (depth + 1 + j) := by
  have shift (j : Nat) : depth + 1 + j = depth + (j + 1 : Nat) := by omega
  simp only [Tree.height, Tree.le_heightOf]
  constructor
  · intro h
    refine ⟨by simpa using h 0 (.inl rfl), fun t ht j hj => ?_⟩
    rw [shift]
    exact h (j + 1) (.inr ⟨t, ht, by omega⟩)
  · rintro ⟨top, inside⟩ j hj
    cases j with
    | zero => simpa using top
    | succ j =>
      obtain ⟨t, ht, hj⟩ := hj.resolve_left (by omega)
      rw [← shift]
      exact inside t ht j (by omega)

/-- Markup is the writing of a tree, if the levels that it reaches can be indented. -/
theorem markup_eq_value_iff {t : ElementTree} {depth : Int} {m : Markup} :
    markup write fits depth t = .value m ↔
      (∀ j : Nat, j ≤ t.height → fits (depth + j) = .value ()) ∧ t.WrittenAs write m := by
  induction t using Tree.induct generalizing depth m with
  | closed n =>
    rw [markup]
    constructor
    · intro h
      obtain ⟨_, top, h⟩ := bind_eq_value h
      obtain ⟨o, ho, h⟩ := bind_eq_value h
      cases h
      refine ⟨fun j hj => ?_, .closed (openingOf_eq_value_iff.mp ho)⟩
      obtain rfl : j = 0 := Nat.le_zero.mp hj
      simpa using top
    · rintro ⟨levels, written⟩
      obtain ⟨o, ho, rfl⟩ := Tree.closed_like_iff.mp written
      have top : fits depth = .value () := by simpa using levels 0 (Nat.le_refl 0)
      rw [top, Outcome.value_bind, openingOf_eq_value_iff.mpr ho]
      rfl
  | text n v =>
    rw [markup]
    constructor
    · intro h
      obtain ⟨_, top, h⟩ := bind_eq_value h
      obtain ⟨_, inner, h⟩ := bind_eq_value h
      obtain ⟨s, hs, h⟩ := bind_eq_value h
      obtain ⟨o, ho, h⟩ := bind_eq_value h
      cases h
      refine ⟨fun j hj => ?_, .text (openingOf_eq_value_iff.mp ho) hs⟩
      obtain rfl | rfl : j = 0 ∨ j = 1 := Nat.le_one_iff_eq_zero_or_eq_one.mp hj
      · simpa using top
      · exact inner
    · rintro ⟨levels, written⟩
      obtain ⟨o, s, ho, hs, rfl⟩ := Tree.text_like_iff.mp written
      have top : fits depth = .value () := by simpa using levels 0 (Nat.zero_le 1)
      have inner : fits (depth + 1) = .value () := levels 1 (Nat.le_refl 1)
      rw [top, Outcome.value_bind, inner, Outcome.value_bind, hs, Outcome.value_bind,
        openingOf_eq_value_iff.mpr ho]
      rfl
  | branch n ts ih =>
    have children (ms : List Markup) : markupAll write fits (depth + 1) ts = .value ms ↔
        (∀ t ∈ ts, ∀ j : Nat, j ≤ t.height → fits (depth + 1 + j) = .value ()) ∧
          List.Forall₂ (WrittenAs write) ts ms := by
      rw [markupAll_eq_mapM, mapM_eq_value_iff, forall₂_congr_of_mem fun t ht m => ih t ht,
        List.forall₂_and_left]
    rw [markup, forall_levels_branch (P := fun d => fits d = .value ())]
    constructor
    · intro h
      obtain ⟨_, top, h⟩ := bind_eq_value h
      obtain ⟨ms, hms, h⟩ := bind_eq_value h
      obtain ⟨o, ho, h⟩ := bind_eq_value h
      cases h
      obtain ⟨below, written⟩ := (children ms).mp hms
      exact ⟨⟨top, below⟩, .branch (openingOf_eq_value_iff.mp ho) written⟩
    · rintro ⟨⟨top, below⟩, written⟩
      obtain ⟨o, ms, ho, inside, rfl⟩ := Tree.branch_like_iff.mp written
      rw [top, Outcome.value_bind, (children ms).mpr ⟨below, inside⟩, Outcome.value_bind,
        openingOf_eq_value_iff.mpr ho]
      rfl

/-- A tree has one writing. -/
theorem writtenAs_unique {t : ElementTree} {m m' : Markup} (h : t.WrittenAs write m)
    (h' : t.WrittenAs write m') : m = m' := by
  -- markup without any bound on lines is a function of the tree
  have made (m : Markup) (h : t.WrittenAs write m) :
      markup write (fun _ => .value ()) 0 t = .value m :=
    markup_eq_value_iff.mpr ⟨fun _ _ => rfl, h⟩
  exact Outcome.value.inj ((made m h).symm.trans (made m' h'))

end ElementTree

namespace World

variable {w : World} {e : ElementRef} {t : ElementTree}

/-- An element is rendered where its tree has a writing and the levels that it reaches can be
indented. -/
theorem render_eq_value_iff (found : w.store.tree? e = some t) {width : Value} {depth : Int}
    {s : String} : w.render e width depth = .value s ↔
      (∀ j : Nat, j ≤ t.height → w.indentable width (depth + j) = .value ()) ∧
        ∃ m, t.WrittenAs w.write m ∧ s = Markup.render (spaces width) depth m := by
  rw [render, renderWith, found, Outcome.ofOption, Outcome.value_bind]
  constructor
  · intro h
    obtain ⟨m, hm, h⟩ := bind_eq_value h
    cases h
    obtain ⟨levels, written⟩ := ElementTree.markup_eq_value_iff.mp hm
    exact ⟨levels, m, written, rfl⟩
  · rintro ⟨levels, m, written, rfl⟩
    refine bind_eq_value_iff.mpr ⟨m, ?_, rfl⟩
    exact ElementTree.markup_eq_value_iff.mpr ⟨levels, written⟩

end World

end TagTree
