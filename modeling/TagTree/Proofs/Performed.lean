import TagTree.Proofs.Descent
import TagTree.Script.Perform

/-!
# Performed actions

An action on an element ends alike wherever it is performed: what it gives depends on the objects
alone. Actions that gather elements add one list to the store and leave every element as it is.
-/

namespace TagTree

namespace Action

/-- The action performed in a state gives a result and leaves a state, whatever surrounds it. -/
def Gives (a : Action Value) (s : State) (r : Result) (s' : State) : Prop :=
  ∀ env caller, (a.perform env).run caller s = (.value r, s')

/-- The action gives a new list of elements and leaves the elements as they are. -/
def GivesElements (a : Action Value) (s : State) (es : List ElementRef) : Prop :=
  ∃ l answer s', a.Gives s ⟨.list l, answer⟩ s' ∧ s'.world.store.items l = es.map .element ∧
    s'.world.store.elements = s.world.store.elements

/-- An action gives one result. -/
theorem Gives.unique {a : Action Value} {s s₁ s₂ : State} {r₁ r₂ : Result}
    (h₁ : a.Gives s r₁ s₁) (h₂ : a.Gives s r₂ s₂) : r₁ = r₂ ∧ s₁ = s₂ := by
  have once := (h₁ ⟨s, .none⟩ fun _ _ _ s => (.exhausted, s)).symm.trans (h₂ _ _)
  rw [Prod.mk.injEq, Outcome.value.injEq] at once
  exact once

theorem GivesElements.unique {a : Action Value} {s : State} {es ds : List ElementRef}
    (h₁ : a.GivesElements s es) (h₂ : a.GivesElements s ds) : es = ds := by
  obtain ⟨l₁, answer₁, s₁, gives₁, items₁, -⟩ := h₁
  obtain ⟨l₂, answer₂, s₂, gives₂, items₂, -⟩ := h₂
  obtain ⟨hr, rfl⟩ := gives₁.unique gives₂
  cases hr
  refine List.map_injective_iff.mpr ?_ (items₁.symm.trans items₂)
  intro e d h
  cases h
  rfl

end Action

/-! ### Trees of elements -/

namespace Store

variable {s : Store} {n : Nat} {e : ElementRef} {t : ElementTree}

/-- The head of a tree shows the element that it is the tree of. -/
theorem head_of_treeWithin (ht : s.treeWithin n e = some t) :
    ∃ x, s.element? e = some x ∧ t.head = ⟨e, x.tag, x.attributes⟩ := by
  cases n with
  | zero => cases ht
  | succ n =>
    unfold treeWithin at ht
    cases hx : s.element? e with
    | none => simp [hx] at ht
    | some x =>
      simp only [hx] at ht
      refine ⟨x, rfl, ?_⟩
      cases hc : x.content with
      | empty =>
        simp only [hc] at ht
        cases ht
        rfl
      | text v =>
        simp only [hc] at ht
        cases ht
        rfl
      | children id es =>
        simp only [hc, Option.map_eq_some_iff] at ht
        obtain ⟨ts, -, rfl⟩ := ht
        rfl

/-- Below the head of a tree stand the trees of the children. -/
theorem children_of_treeWithin {x : Element} (ht : s.treeWithin (n + 1) e = some t)
    (hx : s.element? e = some x) :
    List.Forall₂ (fun d c => s.treeWithin n d = some c) x.children t.children := by
  unfold treeWithin at ht
  simp only [hx] at ht
  unfold Element.children
  cases hc : x.content with
  | empty =>
    simp only [hc] at ht
    cases ht
    exact .nil
  | text v =>
    simp only [hc] at ht
    cases ht
    exact .nil
  | children id es =>
    simp only [hc, Option.map_eq_some_iff] at ht
    obtain ⟨ts, hts, rfl⟩ := ht
    exact forall₂_of_mapM_option hts

theorem element_of_tree (found : s.tree? e = some t) : ∃ x, s.element? e = some x := by
  obtain ⟨x, hx, -⟩ := head_of_treeWithin found
  exact ⟨x, hx⟩

end Store

/-! ### Elements gathered by tag -/

namespace Action

variable {s : State} {e : ElementRef} {t : ElementTree}

theorem elementOf_element {w : World} {x : Element} (hx : w.store.element? e = some x)
    (asked : String) : w.elementOf (.element e) asked = .ok (e, x) := by
  rw [World.elementOf, hx]

theorem treeOf_eq {w : World} (found : w.store.tree? e = some t) : w.treeOf e = .value t := by
  rw [World.treeOf, found]
  rfl

/-- The state with one more list. -/
def withList (s : State) (items : List Value) : State :=
  s.onWorld fun w => { w with store := { w.store with lists := w.store.lists.push items } }

theorem givesElements_withList {a : Action Value} {es : List ElementRef} (answer : Answer)
    (gives : a.Gives s ⟨.list ⟨s.world.store.lists.size⟩, answer⟩ (withList s (es.map .element))) :
    a.GivesElements s es := by
  refine ⟨_, answer, _, gives, ?_, rfl⟩
  simp [withList, State.onWorld, Store.items]

theorem find_gives (found : s.world.store.tree? e = some t) (tag : Value) :
    (find (.element e) tag).Gives s (Result.ofValue s.world
      (((t.find? (World.hasTag tag)).map World.topmost).getD .none)) s := by
  intro env caller
  obtain ⟨x, hx⟩ := Store.element_of_tree found
  have noPosition : World.positionIn? (.element e) tag = none := rfl
  rw [perform, Program.inWorld, Program.run_inState]
  simp only [World.inState, Proc.onPart, Proc.bind_apply, Proc.get, noPosition,
    elementOf_element hx, treeOf_eq found, Proc.ofExcept_apply, Outcome.ofExcept_ok,
    Proc.ofOutcome_apply, Proc.pure_apply]

theorem findAll_gives (found : s.world.store.tree? e = some t) (tag : Value) :
    (findAll (.element e) tag).GivesElements s
      ((t.findAll (World.hasTag tag)).map fun x => x.head.ref) := by
  obtain ⟨x, hx⟩ := Store.element_of_tree found
  let after := withList s ((t.findAll (World.hasTag tag)).map World.topmost)
  refine givesElements_withList
    (.datum (after.world.read (.list ⟨s.world.store.lists.size⟩))) fun env caller => ?_
  rw [perform, Program.inWorld, Program.run_inState, List.map_map]
  simp only [World.inState, Proc.onPart, Proc.bind_apply, Proc.get, elementOf_element hx,
    treeOf_eq found, Proc.ofExcept_apply, Outcome.ofExcept_ok, Proc.ofOutcome_apply]
  rfl

theorem nodes_gives (found : s.world.store.tree? e = some t) :
    (nodes (.element e)).GivesElements s (t.nodes.map fun x => x.head.ref) := by
  obtain ⟨x, hx⟩ := Store.element_of_tree found
  refine givesElements_withList (.names (t.nodes.map fun x => x.head.tag)) fun env caller => ?_
  rw [perform, Program.inWorld, Program.run_inState, List.map_map]
  simp only [World.inState, Proc.onPart, Proc.bind_apply, Proc.get, elementOf_element hx,
    treeOf_eq found, Proc.ofExcept_apply, Outcome.ofExcept_ok, Proc.ofOutcome_apply]
  rfl

theorem toTable_gives (found : s.world.store.tree? e = some t) {v : Value} {store : Store}
    (stored : Plain.store (ElementTree.plain t) s.world.store = (.value v, store)) :
    let after := s.onWorld fun w => { w with store := store }
    (toTable (.element e)).Gives s (Result.ofValue after.world v) after := by
  intro after env caller
  obtain ⟨x, hx⟩ := Store.element_of_tree found
  rw [perform, Program.inWorld, Program.run_inState]
  · simp only [World.inState, Proc.onPart, Proc.bind_apply, Proc.get, elementOf_element hx,
      treeOf_eq found, Proc.ofExcept_apply, Outcome.ofExcept_ok, Proc.ofOutcome_apply, making,
      World.inStore, stored]
    rfl
  · intro id s h
    cases h

end Action

end TagTree
