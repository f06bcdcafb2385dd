import TagTree.Proofs.Blocks
import TagTree.Proofs.Descent

/-!
# Layers of elements

The constructor takes children that exist already; a tag call gets those that its block creates
later. Elements of the first sort stand above all that they are made of, and what they are made
of may be of the second sort, but below an element of a tag call there are only elements of tag
calls, each younger than the one above it.
-/

namespace TagTree

/-! ### Proper elements -/

/-- An element with a tag, with content of one kind at most, and sealed if it has any. -/
structure Element.Proper (x : Element) : Prop where
  tag : x.tag ≠ ""
  single : x.children = [] ∨ x.text = .none
  filled : x.isSealed = true ↔ (∃ id c, x.content = .children id c) ∨ x.text ≠ .none

namespace Element

def filled (x : Element) (c : Content) : Element := { x with content := c, isSealed := true }

theorem withContent_of_open {x : Element} (h : x.isSealed = false) (c : Content) :
    x.withContent c = .ok (x.filled c) := by
  simp [withContent, h, filled]

theorem bare_proper {tag : String} (h : tag ≠ "") (attributes : Option Attributes) :
    (bare tag attributes).Proper :=
  ⟨h, .inl rfl, by simp [bare, text]⟩

theorem filled_children_proper {x : Element} (h : x.tag ≠ "") (id : Nat) (c : List ElementRef) :
    (x.filled (.children id c)).Proper :=
  ⟨h, .inr rfl, by simp [filled]⟩

theorem filled_text_proper {x : Element} (h : x.tag ≠ "") {v : Value} (hv : v.isNone = false) :
    (x.filled (.text v)).Proper := by
  have hn : v ≠ .none := by
    rintro rfl
    cases hv
  exact ⟨h, .inl rfl, by simp [filled, text, hn]⟩

theorem textContent_of_some {v : Value} (hv : v.isNone = false) : textContent v = .text v := by
  rcases World.textContent_cases v with ⟨rfl, -⟩ | ⟨-, ht⟩
  · cases hv
  · exact ht

theorem tagOf_eq_ok {v : Value} {tag : String} (h : tagOf v = .ok tag) : tag ≠ "" := by
  unfold tagOf at h
  split at h
  · rename_i s
    cases hs : s.isEmpty with
    | true => simp [hs] at h
    | false =>
      obtain rfl : s = tag := by simpa [hs] using h
      rintro rfl
      cases hs
  · cases h

theorem mem_of_elementsOf {items : List Value} {es : List ElementRef}
    (h : elementsOf items = .ok es) {e : ElementRef} (he : e ∈ es) : Value.element e ∈ items := by
  induction items generalizing es with
  | nil =>
    cases h
    cases he
  | cons v rest ih =>
    cases v with
    | element d =>
      rw [elementsOf] at h
      cases hr : elementsOf rest with
      | error f =>
        rw [hr] at h
        cases h
      | ok ds =>
        rw [hr] at h
        cases h
        rcases List.mem_cons.mp he with rfl | he
        · exact List.mem_cons_self
        · exact List.mem_cons_of_mem _ (ih hr he)
    | _ => cases h

end Element

/-! ### What the constructor makes -/

namespace Store

/-- The elements that a content is made of exist. References cannot be made up. -/
def Knows (s : Store) (content : Value) : Prop :=
  ∀ items, s.sequence? content = some items →
    ∀ e, Value.element e ∈ items → e.index < s.elements.size

theorem withInitial_eq_ok {s : Store} {tag : String} {attributes : Option Attributes}
    {content : Value} {x : Element} (tagged : tag ≠ "")
    (h : s.withInitial (.bare tag attributes) content = .ok x) :
    x.Proper ∧
      ∀ d ∈ x.children, ∃ items, s.sequence? content = some items ∧ .element d ∈ items := by
  have texts (hv : content.isNone = false)
      (ht : (Element.bare tag attributes).attachText content = .ok x) :
      x.Proper ∧ x.children = [] := by
    rw [Element.attachText, Element.withContent_of_open rfl, Element.textContent_of_some hv] at ht
    cases ht
    exact ⟨Element.filled_text_proper tagged hv, rfl⟩
  unfold withInitial at h
  cases hs : s.sequence? content with
  | none =>
    simp only [hs] at h
    cases hv : content.isNone with
    | true =>
      rw [hv] at h
      cases h
      exact ⟨Element.bare_proper tagged attributes, by simp [Element.bare, Element.children]⟩
    | false =>
      obtain ⟨hp, hc⟩ := texts hv (by simpa [hv] using h)
      exact ⟨hp, by simp [hc]⟩
  | some items =>
    simp only [hs] at h
    split at h
    · rw [Element.attachChildren] at h
      obtain ⟨es, he, h⟩ := bind_eq_ok h
      rw [Element.withContent_of_open rfl] at h
      cases h
      exact ⟨Element.filled_children_proper tagged _ es,
        fun d hd => ⟨items, rfl, Element.mem_of_elementsOf he hd⟩⟩
    · have hv : content.isNone = false := by
        cases content with
        | atom a => cases hs
        | _ => rfl
      obtain ⟨hp, hc⟩ := texts hv h
      exact ⟨hp, by simp [hc]⟩

theorem describe_eq_ok {s : Store} {tag attributes content : Value} {x : Element}
    (h : s.describe tag attributes content = .ok x) :
    x.Proper ∧
      ∀ d ∈ x.children, ∃ items, s.sequence? content = some items ∧ .element d ∈ items := by
  unfold describe at h
  obtain ⟨t, ht, h⟩ := bind_eq_ok h
  split at h
  · exact withInitial_eq_ok (Element.tagOf_eq_ok ht) h
  · exact withInitial_eq_ok (Element.tagOf_eq_ok ht) h
  · cases h

/-- What code may do to elements: it constructs new ones out of what exists. -/
inductive Crafts (s : Store) : Store → Prop
  | refl : Crafts s s
  | aside {s' s'' : Store} (crafts : Crafts s s') (elements : s''.elements = s'.elements) :
      Crafts s s''
  | made {s' : Store} (crafts : Crafts s s') (tag attributes : Value) {content : Value}
      (known : s'.Knows content) : Crafts s (makeElement tag attributes content s').2

/-! ### Layers -/

/-- Elements in layers: those that were called have younger children that were called as well,
the others have older children. -/
structure Layered (s : Store) (called : ElementRef → Prop) : Prop where
  stored : ∀ e, called e → e.index < s.elements.size
  proper : ∀ e x, s.element? e = some x → x.Proper
  younger : ∀ e d, called e → s.Child e d → called d ∧ e.index < d.index
  older : ∀ e d, ¬ called e → s.Child e d → d.index < e.index

section Layered

variable {s s' : Store} {called called' : ElementRef → Prop} {e d : ElementRef}

theorem index_of_element? {x : Element} (hx : s.element? e = some x) :
    e.index < s.elements.size := by
  simp only [element?] at hx
  exact (Array.getElem?_eq_some_iff.mp hx).1

theorem Layered.child_stored (l : s.Layered called) (h : s.Child e d) :
    d.index < s.elements.size := by
  by_cases hc : called e
  · exact l.stored d (l.younger e d hc h).1
  · obtain ⟨x, hx, hd⟩ := h
    exact Nat.lt_trans (l.older e d hc ⟨x, hx, hd⟩) (index_of_element? hx)

/-- Descent among called elements goes to younger ones; before it comes to called elements it
goes to older ones. -/
theorem Layered.descent (l : s.Layered called) (h : Relation.TransGen s.Child e d) :
    (called e → called d ∧ e.index < d.index) ∧
      (¬ called e → ¬ called d → d.index < e.index) := by
  -- on the way so far: once it has come to a called element it never leaves them
  induction h with
  | single h => exact ⟨fun hc => l.younger _ _ hc h, fun hc _ => l.older _ _ hc h⟩
  | @tail c d hec h ih =>
    constructor
    · intro hc
      obtain ⟨hcc, hlt⟩ := ih.1 hc
      obtain ⟨hcd, hlt'⟩ := l.younger _ _ hcc h
      exact ⟨hcd, Nat.lt_trans hlt hlt'⟩
    · intro hc hcd
      by_cases hcc : called c
      · exact absurd (l.younger _ _ hcc h).1 hcd
      · exact Nat.lt_trans (l.older _ _ hcc h) (ih.2 hc hcc)

theorem Layered.acyclic (l : s.Layered called) : s.Acyclic := by
  intro e h
  by_cases hc : called e
  · exact Nat.lt_irrefl _ ((l.descent h).1 hc).2
  · exact Nat.lt_irrefl _ ((l.descent h).2 hc hc)

theorem Layered.of_elements (l : s.Layered called) (h : s'.elements = s.elements) :
    s'.Layered called := by
  have same (e : ElementRef) : s'.element? e = s.element? e := by simp only [element?, h]
  refine ⟨fun e hc => h ▸ l.stored e hc, fun e x hx => l.proper e x (same e ▸ hx), ?_, ?_⟩
  · rintro e d hc ⟨x, hx, hd⟩
    exact l.younger e d hc ⟨x, same e ▸ hx, hd⟩
  · rintro e d hc ⟨x, hx, hd⟩
    exact l.older e d hc ⟨x, same e ▸ hx, hd⟩

theorem element?_push {x y : Element} (hp : s'.elements = s.elements.push x)
    (hy : s'.element? e = some y) :
    s.element? e = some y ∨ (e = ⟨s.elements.size⟩ ∧ y = x) := by
  simp only [element?, hp, Array.getElem?_push] at hy ⊢
  split at hy
  · rename_i hi
    obtain ⟨i⟩ := e
    exact .inr ⟨by rw [ElementRef.mk.injEq]; exact hi, (Option.some.inj hy).symm⟩
  · exact .inl hy

/-- A constructed element is of the sort above. -/
theorem Layered.construct {x : Element} (l : s.Layered called)
    (hp : s'.elements = s.elements.push x) (proper : x.Proper)
    (known : ∀ d ∈ x.children, d.index < s.elements.size) : s'.Layered called := by
  refine ⟨?_, ?_, ?_, ?_⟩
  · intro e hc
    rw [hp, Array.size_push]
    exact Nat.lt_succ_of_lt (l.stored e hc)
  · intro e y hy
    rcases element?_push hp hy with hy | ⟨-, rfl⟩
    · exact l.proper e y hy
    · exact proper
  · rintro e d hc ⟨y, hy, hd⟩
    rcases element?_push hp hy with hy | ⟨rfl, rfl⟩
    · exact l.younger e d hc ⟨y, hy, hd⟩
    · exact absurd (l.stored _ hc) (Nat.lt_irrefl _)
  · rintro e d hc ⟨y, hy, hd⟩
    rcases element?_push hp hy with hy | ⟨rfl, rfl⟩
    · exact l.older e d hc ⟨y, hy, hd⟩
    · exact known d hd

/-- A fresh element of a tag call has no children yet. -/
theorem Layered.call {x : Element} (l : s.Layered called)
    (hp : s'.elements = s.elements.push x) (proper : x.Proper) (bare : x.children = [])
    (hc : ∀ e, called' e ↔ called e ∨ e = ⟨s.elements.size⟩) : s'.Layered called' := by
  refine ⟨?_, ?_, ?_, ?_⟩
  · intro e he
    rw [hp, Array.size_push]
    rcases (hc e).mp he with he | rfl
    · exact Nat.lt_succ_of_lt (l.stored e he)
    · exact Nat.lt_succ_self _
  · intro e y hy
    rcases element?_push hp hy with hy | ⟨-, rfl⟩
    · exact l.proper e y hy
    · exact proper
  · rintro e d he ⟨y, hy, hd⟩
    rcases element?_push hp hy with hy | ⟨-, rfl⟩
    · have hce : called e := by
        rcases (hc e).mp he with he | rfl
        · exact he
        · exact absurd (index_of_element? hy) (Nat.lt_irrefl _)
      obtain ⟨hcd, hlt⟩ := l.younger e d hce ⟨y, hy, hd⟩
      exact ⟨(hc d).mpr (.inl hcd), hlt⟩
    · rw [bare] at hd
      cases hd
  · rintro e d he ⟨y, hy, hd⟩
    rcases element?_push hp hy with hy | ⟨-, rfl⟩
    · exact l.older e d (fun hce => he ((hc e).mpr (.inl hce))) ⟨y, hy, hd⟩
    · rw [bare] at hd
      cases hd

/-- The element of a block is filled with younger elements of tag calls. -/
theorem Layered.fill {y : Element} (l : s.Layered called)
    (size : s'.elements.size = s.elements.size) (he : called e)
    (other : ∀ d, e ≠ d → s'.element? d = s.element? d) (self : s'.element? e = some y)
    (proper : y.Proper) (younger : ∀ d ∈ y.children, called d ∧ e.index < d.index) :
    s'.Layered called := by
  refine ⟨fun d hd => size ▸ l.stored d hd, ?_, ?_, ?_⟩
  · intro d x hx
    by_cases hed : e = d
    · subst hed
      obtain rfl := Option.some.inj (self.symm.trans hx)
      exact proper
    · exact l.proper d x (other d hed ▸ hx)
  · rintro d c hd ⟨x, hx, hc⟩
    by_cases hed : e = d
    · subst hed
      obtain rfl := Option.some.inj (self.symm.trans hx)
      exact younger c hc
    · exact l.younger d c hd ⟨x, other d hed ▸ hx, hc⟩
  · rintro d c hd ⟨x, hx, hc⟩
    have hed : e ≠ d := fun hed => hd (hed ▸ he)
    exact l.older d c hd ⟨x, other d hed ▸ hx, hc⟩

theorem Layered.crafts (l : s.Layered called) (h : s.Crafts s') : s'.Layered called := by
  induction h with
  | refl => exact l
  | aside _ elements ih => exact ih.of_elements elements
  | @made t _ tag attributes content known ih =>
    unfold makeElement
    cases hd : t.describe tag attributes content with
    | error f => exact ih
    | ok x =>
      obtain ⟨proper, children⟩ := describe_eq_ok hd
      refine ih.construct (x := x) rfl proper fun d hmem => ?_
      obtain ⟨items, hs, hi⟩ := children d hmem
      exact known items hs d hi

end Layered

end Store

end TagTree
