import TagTree.Proofs.Faults
import TagTree.Proofs.Spares
import TagTree.Proofs.Written

/-!
# Changes of alike worlds

Alike worlds stay alike when matched objects change alike, when objects that are not matched
change, and when like objects are made, which are matched from then on.
-/

namespace TagTree

/-! ### Matched objects -/

namespace Matching

def Left (ρ : Matching) (o : Object) : Prop := ∃ p, ρ.rel o p

def Right (ρ : Matching) (p : Object) : Prop := ∃ o, ρ.rel o p

section Add

variable {ρ : Matching} {o p q : Object} {left : ∀ q, ¬ ρ.rel o q} {right : ∀ q, ¬ ρ.rel q p}
  {near : ¬ ρ.apart p}

theorem left_add (h : (ρ.add o p left right near).Left q) : ρ.Left q ∨ q = o := by
  obtain ⟨_, hq | ⟨rfl, -⟩⟩ := h
  · exact .inl ⟨_, hq⟩
  · exact .inr rfl

theorem right_add (h : (ρ.add o p left right near).Right q) : ρ.Right q ∨ q = p := by
  obtain ⟨_, hq | ⟨-, rfl⟩⟩ := h
  · exact .inl ⟨_, hq⟩
  · exact .inr rfl

end Add

end Matching

theorem Object.Like.mono {ρ σ : Matching} (h : ρ ≤ σ) {w w' : World} {o p : Object}
    (hl : Object.Like ρ w w' o p) : Object.Like σ w w' o p := by
  cases hl with
  | element left right same => exact .element left right (same.mono h)
  | list left right same =>
    exact .list left right (List.Forall₂.imp (fun _ _ => Value.Like.mono h) same)
  | dict left right same => exact .dict left right (same.mono h)
  | builder left right same => exact .builder left right (same.mono h)
  | identity left right => exact .identity left right

section Changes

variable {ρ : Matching} {v v' w w' : World}

theorem Object.Like.spared {o p : Object} {P Q : Object → Prop} (hl : Object.Like ρ w w' o p)
    (left : w.Spares P v) (right : w'.Spares Q v') (ho : P o) (hp : Q p) :
    Object.Like ρ v v' o p := by
  cases hl with
  | element hx hy same =>
    exact .element ((left.element _ ho).trans hx) ((right.element _ hp).trans hy) same
  | list hx hy same => exact .list ((left.list _ ho).trans hx) ((right.list _ hp).trans hy) same
  | dict hx hy same => exact .dict ((left.dict _ ho).trans hx) ((right.dict _ hp).trans hy) same
  | builder hx hy same =>
    exact .builder ((left.builder _ ho).trans hx) ((right.builder _ hp).trans hy) same
  | @identity i j hi hj =>
    exact .identity (left.grows (.identity i) hi) (right.grows (.identity j) hj)

namespace World.Like

theorem spared (h : World.Like ρ w w') (left : w.Spares ρ.Left v) (right : w'.Spares ρ.Right v')
    (size : v.store.elements.size ≤ v'.store.elements.size) : World.Like ρ v v' :=
  ⟨fun hr => (h.objects hr).spared left right ⟨_, hr⟩ ⟨_, hr⟩,
    fun hp => right.grows _ (h.apart hp), size,
    right.host.trans (h.host.trans left.host.symm)⟩

theorem add (h : World.Like ρ w w') {o p : Object} (ho : ∀ q, ¬ ρ.rel o q)
    (hp : ∀ q, ¬ ρ.rel q p) (near : ¬ ρ.apart p)
    (hl : ∀ σ, ρ ≤ σ → σ.rel o p → Object.Like σ w w' o p) :
    World.Like (ρ.add o p ho hp near) w w' := by
  refine ⟨?_, h.apart, h.size, h.host⟩
  rintro x y (hr | ⟨rfl, rfl⟩)
  · exact (h.objects hr).mono (Matching.le_add _ _ _)
  · exact hl _ (Matching.le_add _ _ _) (.inr ⟨rfl, rfl⟩)

/-- New objects with like contents are matched from now on. -/
theorem join (h : World.Like ρ w w') {o p : Object} (ho : ¬ ρ.Left o) (hp : ¬ ρ.Right p)
    (near : ¬ ρ.apart p) (hl : ∀ σ, ρ ≤ σ → σ.rel o p → Object.Like σ w w' o p) :
    ∃ σ, ρ ≤ σ ∧ σ.rel o p ∧ World.Like σ w w' :=
  ⟨_, Matching.le_add _ _ _, .inr ⟨rfl, rfl⟩,
    h.add (fun q hq => ho ⟨q, hq⟩) (fun q hq => hp ⟨q, hq⟩) near hl⟩

theorem fresh_left (h : World.Like ρ w w') {o : Object} (ho : ¬ o.In w) : ¬ ρ.Left o :=
  fun ⟨_, hr⟩ => ho (h.left_in hr)

theorem fresh_right (h : World.Like ρ w w') {p : Object} (hp : ¬ p.In w') : ¬ ρ.Right p :=
  fun ⟨_, hr⟩ => hp (h.right_in hr)

theorem fresh_near (h : World.Like ρ w w') {p : Object} (hp : ¬ p.In w') : ¬ ρ.apart p :=
  fun ha => hp (h.apart ha)

theorem left_held (h : World.Like ρ w w') : ∀ o, ρ.Left o → o.In w := fun _ ⟨_, hr⟩ => h.left_in hr

theorem right_held (h : World.Like ρ w w') : ∀ p, ρ.Right p → p.In w' :=
  fun _ ⟨_, hr⟩ => h.right_in hr

/-! ### Changes on both sides -/

theorem notice (h : World.Like ρ w w') (b c : BuilderRef) (n m : Notice) :
    World.Like ρ (w.notice b n) (w'.notice c m) := h.spared (.notice w b n) (.notice w' c m) h.size

theorem newId (h : World.Like ρ w w') : ∃ σ, ρ ≤ σ ∧ σ.Ids w.store.nextId w'.store.nextId ∧
    World.Like σ { w with store := { w.store with nextId := w.store.nextId + 1 } }
      { w' with store := { w'.store with nextId := w'.store.nextId + 1 } } := by
  have hl : ¬ (Object.identity w.store.nextId).In w := Nat.lt_irrefl _
  have hr : ¬ (Object.identity w'.store.nextId).In w' := Nat.lt_irrefl _
  refine (h.spared (.newId w) (.newId w') h.size).join (h.fresh_left hl) (h.fresh_right hr)
    (h.fresh_near hr) fun σ _ _ => ?_
  exact .identity (Nat.lt_succ_self _) (Nat.lt_succ_self _)

theorem pushElement (h : World.Like ρ w w') {x y : Element} (same : Element.Like ρ x y) :
    ∃ σ, ρ ≤ σ ∧ σ.Elements ⟨w.store.elements.size⟩ ⟨w'.store.elements.size⟩ ∧
      World.Like σ { w with store := { w.store with elements := w.store.elements.push x } }
        { w' with store := { w'.store with elements := w'.store.elements.push y } } := by
  have hl : ¬ (Object.element ⟨w.store.elements.size⟩).In w := Nat.lt_irrefl _
  have hr : ¬ (Object.element ⟨w'.store.elements.size⟩).In w' := Nat.lt_irrefl _
  refine (h.spared (.pushElement w (fun e => h.left_held (.element e)) x)
    (.pushElement w' (fun e => h.right_held (.element e)) y) ?_).join (h.fresh_left hl)
    (h.fresh_right hr) (h.fresh_near hr) fun σ le _ => ?_
  · simpa using h.size
  · exact .element (by simp [Store.element?]) (by simp [Store.element?]) (same.mono le)

theorem setElement (h : World.Like ρ w w') {e f : ElementRef} (hr : ρ.Elements e f)
    {x y : Element} (same : Element.Like ρ x y) :
    World.Like ρ { w with store := w.store.setElement e x }
      { w' with store := w'.store.setElement f y } := by
  obtain ⟨x', y', hx, hy, -⟩ := h.element hr
  refine ⟨fun {o p} hop => ?_, fun hp => ?_, by simpa [Store.setElement] using h.size, h.host⟩
  · by_cases ho : o = .element e
    · have hp : p = .element f := ρ.functional (ho ▸ hop) hr
      subst ho hp
      exact .element (element?_setElement x hx) (element?_setElement y hy) same
    · have hp : p ≠ .element f := fun hp => ho (ρ.injective (hp ▸ hop) hr)
      exact (h.objects hop).spared (P := (· ≠ .element e)) (Q := (· ≠ .element f))
        (.setElement w (by simp) x) (.setElement w' (by simp) y) ho hp
  · exact (World.Spares.setElement (P := fun _ => False) w' id y).grows _ (h.apart hp)

theorem updateBuilder (h : World.Like ρ w w') {b c : BuilderRef} (hr : ρ.Builders b c)
    {f g : Builder → Builder} (hf : ∀ x y, Builder.Like ρ x y → Builder.Like ρ (f x) (g y)) :
    World.Like ρ (w.updateBuilder b f) (w'.updateBuilder c g) := by
  obtain ⟨x, y, hx, hy, same⟩ := h.builder hr
  refine ⟨fun {o p} hop => ?_, fun hp => ?_, h.size, h.host⟩
  · by_cases ho : o = .builder b
    · have hp : p = .builder c := ρ.functional (ho ▸ hop) hr
      subst ho hp
      refine .builder (x := f x) (y := g y) ?_ ?_ (hf x y same)
      · rw [builder?_updateBuilder, if_pos rfl, hx, Option.map_some]
      · rw [builder?_updateBuilder, if_pos rfl, hy, Option.map_some]
    · have hp : p ≠ .builder c := fun hp => ho (ρ.injective (hp ▸ hop) hr)
      exact (h.objects hop).spared (P := (· ≠ .builder b)) (Q := (· ≠ .builder c))
        (.updateBuilder w (by simp) f) (.updateBuilder w' (by simp) g) ho hp
  · exact (World.Spares.updateBuilder (P := fun _ => False) w' id g).grows _ (h.apart hp)

end World.Like

end Changes

end TagTree
