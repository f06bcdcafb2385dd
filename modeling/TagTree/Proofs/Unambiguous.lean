import TagTree.Proofs.Lines
import TagTree.Proofs.Writing

/-!
# Unambiguous rendering

Nothing is escaped when an element is rendered. Elements whose names, keys, values and texts
spell nothing of the layout are nevertheless told by their rendering: at one depth and
indentation, equal texts come from one tree of tags, written attributes and written content.
-/

namespace TagTree

namespace World

/-! ### Written trees -/

/-- An opening has the tag of an element, and every key and value as it is written. -/
structure WritesOpening (w : World) (x : Element) (o : Opening) : Prop where
  tag : o.tag = x.tag
  attributes : List.Forall₂ (fun a t => w.write a.1 = .value t.1 ∧ w.write a.2 = .value t.2)
    (x.attributes.getD []) o.attributes

/-- Markup is the tree of an element: below the opening it is closed, or has the text as it is
written, or has the trees of the children in order. -/
inductive Writes (w : World) : ElementRef → Markup → Prop
  | closed {e x o} (found : w.store.element? e = some x) (opening : w.WritesOpening x o)
      (content : x.content = .empty) : Writes w e (.closed o)
  | text {e x o v s} (found : w.store.element? e = some x) (opening : w.WritesOpening x o)
      (content : x.content = .text v) (written : w.write v = .value s) : Writes w e (.text o s)
  | branch {e x o id es ms} (found : w.store.element? e = some x) (opening : w.WritesOpening x o)
      (content : x.content = .children id es) (children : List.Forall₂ (Writes w) es ms) :
      Writes w e (.branch o ms)

/-! ### Plain trees -/

/-- An element whose tag, and whose attributes and text as they are written, spell nothing of
the layout. -/
structure PlainElement (w : World) (x : Element) : Prop where
  tag : Text.Avoids [' ', '\n', '/', '>'] x.tag
  keys : ∀ a ∈ x.attributes.getD [], ∀ s, w.write a.1 = .value s →
    Text.Avoids [' ', '\n', '=', '/', '>', '"'] s
  values : ∀ a ∈ x.attributes.getD [], ∀ s, w.write a.2 = .value s → Text.Avoids ['"', '\n'] s
  text : ∀ v s, x.content = .text v → w.write v = .value s → Markup.PlainContent s

/-- Everything that is reached through children is plain. -/
def PlainTree (w : World) (e : ElementRef) : Prop :=
  ∀ d x, Relation.ReflTransGen w.store.Child e d → w.store.element? d = some x → w.PlainElement x

section

variable {w : World} {e : ElementRef} {x : Element}

theorem PlainTree.child {d : ElementRef} (h : w.PlainTree e) (hd : w.store.Child e d) :
    w.PlainTree d := fun d' x hr hx => h d' x (.head hd hr) hx

theorem WritesOpening.plain {o : Opening} (h : w.WritesOpening x o) (hx : w.PlainElement x) :
    o.Plain := by
  refine ⟨h.tag ▸ hx.tag, fun t ht => ?_, fun t ht => ?_⟩
  · obtain ⟨a, ha, hk, -⟩ := exists_of_forall₂ h.attributes ht
    exact hx.keys a ha _ hk
  · obtain ⟨a, ha, -, hv⟩ := exists_of_forall₂ h.attributes ht
    exact hx.values a ha _ hv

end

mutual

theorem plain_of_writes {w : World} {e : ElementRef} {m : Markup} (h : w.Writes e m)
    (he : w.PlainTree e) : m.Plain := by
  cases h with
  | closed found opening content => exact opening.plain (he _ _ .refl found)
  | text found opening content written =>
    have hx := he _ _ .refl found
    exact ⟨opening.plain hx, hx.text _ _ content written⟩
  | @branch _ x o id es ms found opening content children =>
    refine ⟨opening.plain (he _ _ .refl found), plainAll_of_writes children fun d hd => ?_⟩
    exact he.child ⟨x, found, by simpa [Element.children, content] using hd⟩

theorem plainAll_of_writes {w : World} {es : List ElementRef} {ms : List Markup}
    (h : List.Forall₂ w.Writes es ms) (hes : ∀ e ∈ es, w.PlainTree e) : Markup.PlainAll ms := by
  cases h with
  | nil => trivial
  | cons first rest =>
    exact ⟨plain_of_writes first (hes _ (by simp)),
      plainAll_of_writes rest fun e he => hes e (by simp [he])⟩

end

/-! ### Markup of elements -/

theorem writesOpening_of_writtenAs {w : World} {n : Node} {x : Element} {o : Opening}
    (h : n.WrittenAs w.write o) (tag : n.tag = x.tag) (attributes : n.attributes = x.attributes) :
    w.WritesOpening x o := by
  refine ⟨h.tag.trans tag, ?_⟩
  rw [← attributes]
  exact h.attributes

/-- The writing of the tree that is found below an element is written from the element. -/
theorem writes_of_writtenAs {w : World} {n : Nat} {e : ElementRef} {t : ElementTree} {m : Markup}
    (ht : w.store.treeWithin n e = some t) (hm : t.WrittenAs w.write m) : w.Writes e m := by
  induction n generalizing e t m with
  | zero => cases ht
  | succ n ih =>
    rw [Store.treeWithin] at ht
    cases hx : w.store.element? e with
    | none => simp [hx] at ht
    | some x =>
      simp only [hx] at ht
      cases hc : x.content with
      | empty =>
        simp only [hc, Option.some.injEq] at ht
        subst ht
        obtain ⟨o, ho, rfl⟩ := Tree.closed_like_iff.mp hm
        exact .closed hx (writesOpening_of_writtenAs ho rfl rfl) hc
      | text v =>
        simp only [hc, Option.some.injEq] at ht
        subst ht
        obtain ⟨o, s, ho, hs, rfl⟩ := Tree.text_like_iff.mp hm
        exact .text hx (writesOpening_of_writtenAs ho rfl rfl) hc hs
      | children id es =>
        simp only [hc] at ht
        obtain ⟨ts, hts, rfl⟩ := Option.map_eq_some_iff.mp ht
        obtain ⟨o, ms, ho, children, rfl⟩ := Tree.branch_like_iff.mp hm
        refine .branch hx (writesOpening_of_writtenAs ho rfl rfl) hc ?_
        have found := forall₂_of_mapM_option hts
        clear hm hts ht hc
        induction found generalizing ms with
        | nil =>
          cases children
          exact .nil
        | cons first rest ihr =>
          cases children with
          | cons written others => exact .cons (ih first written) (ihr _ others)

theorem writes_of_render {w : World} {e : ElementRef} {width : Value} {depth : Int} {s : String}
    (h : w.render e width depth = .value s) :
    ∃ m, w.Writes e m ∧ s = Markup.render (spaces width) depth m := by
  cases found : w.store.tree? e with
  | none =>
    rw [render, renderWith, found] at h
    cases h
  | some t =>
    obtain ⟨-, m, written, hs⟩ := (render_eq_value_iff found).mp h
    exact ⟨m, writes_of_writtenAs found written, hs⟩

end World

/-- Plain trees that render to one text, at one depth and indentation, are the same tree of
tags, written attributes and written content. -/
theorem render_unambiguous {w₁ w₂ : World} {e₁ e₂ : ElementRef} {width : Value} {depth : Int}
    {s : String} (plain₁ : w₁.PlainTree e₁) (plain₂ : w₂.PlainTree e₂)
    (render₁ : w₁.render e₁ width depth = .value s)
    (render₂ : w₂.render e₂ width depth = .value s) :
    ∃ m, w₁.Writes e₁ m ∧ w₂.Writes e₂ m := by
  obtain ⟨m, hm, hs⟩ := World.writes_of_render render₁
  obtain ⟨n, hn, ht⟩ := World.writes_of_render render₂
  obtain rfl := Markup.render_injective (World.plain_of_writes hm plain₁)
    (World.plain_of_writes hn plain₂) (hs.symm.trans ht)
  exact ⟨m, hm, hn⟩

/-- Two trees that differ in their values, but not in what they write. -/
def twins : World where
  store :=
    { Store.empty .small with
      elements := #[⟨"b", none, .text (.text "x"), true⟩,
        ⟨"a", some [(.text "n", .int 1)], .children 1 [⟨0⟩], true⟩,
        ⟨"b", some [], .text (.text "x"), true⟩,
        ⟨"a", some [(.text "n", .text "1")], .children 2 [⟨2⟩], true⟩] }
  builders := #[]
  journal := []

theorem twins_plain (e : ElementRef) : twins.PlainTree e := by
  have plainX : Markup.PlainContent "x" := ⟨by decide, by decide⟩
  have writeText (t : String) : twins.write (.text t) = .value t := rfl
  have writeOne : twins.write (.int 1) = .value "1" := rfl
  intro d x _ hx
  have hm : x ∈ twins.store.elements.toList := by
    simpa using Array.mem_of_getElem? hx
  simp only [twins, List.mem_cons, List.not_mem_nil, or_false] at hm
  rcases hm with rfl | rfl | rfl | rfl
  · refine ⟨by decide, by simp, by simp, ?_⟩
    rintro v s hv hs
    cases hv
    cases hs
    exact plainX
  · refine ⟨by decide, ?_, ?_, by simp⟩
    · simp only [Option.getD_some, List.mem_singleton, forall_eq, writeText]
      rintro s hs
      cases hs
      decide
    · simp only [Option.getD_some, List.mem_singleton, forall_eq, writeOne]
      rintro s hs
      cases hs
      decide
  · refine ⟨by decide, by simp, by simp, ?_⟩
    rintro v s hv hs
    cases hv
    cases hs
    exact plainX
  · refine ⟨by decide, ?_, ?_, by simp⟩
    · simp only [Option.getD_some, List.mem_singleton, forall_eq, writeText]
      rintro s hs
      cases hs
      decide
    · simp only [Option.getD_some, List.mem_singleton, forall_eq, writeText]
      rintro s hs
      cases hs
      decide

theorem twins_unambiguous : twins.PlainTree ⟨1⟩ ∧ twins.PlainTree ⟨3⟩ ∧
    twins.render ⟨1⟩ (.int 2) 0 = .value "<a n=\"1\">\n  <b>\n    x\n  </b>\n</a>" ∧
    ∃ m, twins.Writes ⟨1⟩ m ∧ twins.Writes ⟨3⟩ m := by
  have h₁ : twins.render ⟨1⟩ (.int 2) 0 =
    .value "<a n=\"1\">\n  <b>\n    x\n  </b>\n</a>" := by rfl
  have h₃ : twins.render ⟨3⟩ (.int 2) 0 =
    .value "<a n=\"1\">\n  <b>\n    x\n  </b>\n</a>" := by rfl
  exact ⟨twins_plain _, twins_plain _, h₁, render_unambiguous (twins_plain _) (twins_plain _) h₁ h₃⟩

end TagTree
