import Mathlib.Data.Fintype.Card
import Mathlib.Data.List.Forall2
import Mathlib.Logic.Relation
import TagTree.Proofs.Trees
import TagTree.Rendering

/-!
# Descent

Elements refer to their children. What an element is made of is found by going down from
it, which ends where nothing stands below itself.
-/

namespace TagTree

/-! ### Lists of results -/

theorem forall₂_of_mapM_option {α β : Type} {f : α → Option β} {xs : List α} {ys : List β}
    (h : xs.mapM f = some ys) : List.Forall₂ (fun x y => f x = some y) xs ys := by
  induction xs generalizing ys with
  | nil =>
    obtain rfl : [] = ys := by simpa using h
    exact .nil
  | cons x xs ih =>
    rw [List.mapM_cons] at h
    obtain ⟨y, hy, h⟩ := Option.bind_eq_some_iff.mp h
    obtain ⟨zs, hz, h⟩ := Option.bind_eq_some_iff.mp h
    cases h
    exact .cons hy (ih hz)

theorem bind_eq_value_iff {α β : Type} {x : Outcome α} {k : α → Outcome β} {y : β} :
    (x >>= k) = .value y ↔ ∃ a, x = .value a ∧ k a = .value y := by
  refine ⟨bind_eq_value, ?_⟩
  rintro ⟨a, rfl, h⟩
  exact h

theorem mapM_eq_value_iff {α β : Type} {f : α → Outcome β} {xs : List α} {ys : List β} :
    xs.mapM f = .value ys ↔ List.Forall₂ (fun x y => f x = .value y) xs ys := by
  induction xs generalizing ys with
  | nil =>
    rw [List.mapM_nil, List.forall₂_nil_left_iff]
    exact ⟨fun h => by cases h; rfl, fun h => by rw [h]; rfl⟩
  | cons x xs ih =>
    rw [List.mapM_cons, bind_eq_value_iff, List.forall₂_cons_left_iff]
    refine exists_congr fun y => ?_
    rw [bind_eq_value_iff]
    constructor
    · rintro ⟨hx, zs, hz, h⟩
      cases h
      exact ⟨zs, hx, ih.mp hz, rfl⟩
    · rintro ⟨zs, hx, hz, rfl⟩
      exact ⟨hx, zs, ih.mpr hz, rfl⟩

theorem exists_of_forall₂ {α β : Type} {r : α → β → Prop} {xs : List α} {ys : List β}
    (h : List.Forall₂ r xs ys) {y : β} (hy : y ∈ ys) : ∃ x ∈ xs, r x y := by
  induction h with
  | nil => cases hy
  | cons first rest ih =>
    rcases List.mem_cons.mp hy with rfl | hy
    · exact ⟨_, List.mem_cons_self, first⟩
    · obtain ⟨x, hx, hr⟩ := ih hy
      exact ⟨x, List.mem_cons_of_mem _ hx, hr⟩

theorem exists_mapM_option {α β : Type} {f : α → Option β} {xs : List α}
    (h : ∀ x ∈ xs, ∃ y, f x = some y) : ∃ ys, xs.mapM f = some ys := by
  induction xs with
  | nil => exact ⟨[], by simp⟩
  | cons x xs ih =>
    obtain ⟨y, hy⟩ := h x List.mem_cons_self
    obtain ⟨ys, hys⟩ := ih fun x hx => h x (List.mem_cons_of_mem _ hx)
    exact ⟨y :: ys, by simp [List.mapM_cons, hy, hys]⟩

theorem exists_of_mapM_error {α β : Type} {f : α → Except Fault β} {xs : List α} {g : Fault}
    (h : xs.mapM f = .error g) : ∃ x ∈ xs, f x = .error g := by
  induction xs with
  | nil =>
    rw [List.mapM_nil] at h
    cases h
  | cons x xs ih =>
    rw [List.mapM_cons] at h
    rcases bind_eq_error h with h | ⟨y, -, h⟩
    · exact ⟨x, List.mem_cons_self, h⟩
    · rcases bind_eq_error h with h | ⟨ys, -, h⟩
      · obtain ⟨z, hz, hf⟩ := ih h
        exact ⟨z, List.mem_cons_of_mem _ hz, hf⟩
      · cases h

/-! ### Children -/

/-- The second element is a child of the first. -/
def Store.Child (s : Store) (e d : ElementRef) : Prop :=
  ∃ x, s.element? e = some x ∧ d ∈ x.children

namespace Store

def Acyclic (s : Store) : Prop := ∀ e, ¬ Relation.TransGen s.Child e e

section Acyclic

variable {s : Store} {e d : ElementRef}

open Classical in
/-- The elements that stand below an element, at any distance. -/
noncomputable def below (s : Store) (e : ElementRef) : Finset (Fin s.elements.size) :=
  Finset.univ.filter fun i => Relation.TransGen s.Child e ⟨i⟩

theorem mem_below {i : Fin s.elements.size} :
    i ∈ s.below e ↔ Relation.TransGen s.Child e ⟨i⟩ := by
  simp [below]

theorem card_below_lt_size (s : Store) (e : ElementRef) :
    (s.below e).card < s.elements.size + 1 := by
  have h := Finset.card_le_univ (s.below e)
  rw [Fintype.card_fin] at h
  omega

/-- Going down to a child leaves fewer elements below. -/
theorem card_below_child (acyclic : s.Acyclic) (hc : s.Child e d)
    (hd : d.index < s.elements.size) : (s.below d).card < (s.below e).card := by
  refine Finset.card_lt_card ⟨?_, ?_⟩
  · intro i hi
    exact mem_below.mpr (.head hc (mem_below.mp hi))
  · intro hsub
    have hself : (⟨d.index, hd⟩ : Fin s.elements.size) ∈ s.below d :=
      hsub (mem_below.mpr (.single hc))
    exact acyclic d (mem_below.mp hself)

theorem treeWithin_of_acyclic (acyclic : s.Acyclic)
    (stored : ∀ e d, s.Child e d → d.index < s.elements.size) {n : Nat}
    (he : e.index < s.elements.size) (hn : (s.below e).card < n) :
    ∃ t, s.treeWithin n e = some t := by
  -- fuel is kept above the number of elements below, which shrinks at every child
  induction n generalizing e with
  | zero => omega
  | succ n ih =>
    obtain ⟨x, hx⟩ : ∃ x, s.element? e = some x := ⟨_, Array.getElem?_eq_getElem he⟩
    rw [treeWithin, hx]
    cases hc : x.content with
    | empty => exact ⟨.closed ⟨e, x.tag, x.attributes⟩, by simp only [hc]⟩
    | text v => exact ⟨.text ⟨e, x.tag, x.attributes⟩ v, by simp only [hc]⟩
    | children id es =>
      have inside : ∀ d ∈ es, ∃ t, s.treeWithin n d = some t := by
        intro d hd
        have child : s.Child e d := ⟨x, hx, by simpa [Element.children, hc] using hd⟩
        have hds := stored e d child
        have hlt := card_below_child acyclic child hds
        exact ih hds (by omega)
      obtain ⟨ts, hts⟩ := exists_mapM_option inside
      exact ⟨.branch ⟨e, x.tag, x.attributes⟩ ts, by simp only [hc, hts, Option.map_some]⟩

/-- Without cycles every element is the head of a tree. -/
theorem tree_of_acyclic (acyclic : s.Acyclic)
    (stored : ∀ e d, s.Child e d → d.index < s.elements.size)
    (he : e.index < s.elements.size) : ∃ t, s.tree? e = some t :=
  treeWithin_of_acyclic acyclic stored he (s.card_below_lt_size e)

end Acyclic

end Store

/-! ### How computations fail -/

namespace Outcome

variable {α β : Type} {faults : Fault → Prop} {out : Prop}

/-- A computation that gives no value ends with one of some faults, or runs out of fuel if it
may. -/
def FailsOnly (faults : Fault → Prop) (out : Prop) : Outcome α → Prop
  | .value _ => True
  | .fault f => faults f
  | .exhausted => out

theorem failsOnly_ofExcept {x : Except Fault α} (hx : ∀ f, x = .error f → faults f) :
    (Outcome.ofExcept x).FailsOnly faults out := by
  cases x with
  | ok a => trivial
  | error f => exact hx f rfl

theorem FailsOnly.bind {x : Outcome α} {k : α → Outcome β} (hx : x.FailsOnly faults out)
    (hk : ∀ a, x = .value a → (k a).FailsOnly faults out) : (x >>= k).FailsOnly faults out := by
  cases x with
  | value a => exact hk a rfl
  | fault f => exact hx
  | exhausted => exact hx

theorem FailsOnly.imp {faults' : Fault → Prop} {x : Outcome α} (hx : x.FailsOnly faults out)
    (h : ∀ f, faults f → faults' f) : x.FailsOnly faults' out := by
  cases x with
  | value a => trivial
  | fault f => exact h f hx
  | exhausted => exact hx

theorem FailsOnly.ending {x : Outcome α} (hx : x.FailsOnly faults out) (ends : x ≠ .exhausted) :
    x.FailsOnly faults False := by
  cases x with
  | value a => trivial
  | fault f => exact hx
  | exhausted => exact absurd rfl ends

/-- A computation that is never out of fuel fails where it gives no value. -/
theorem FailsOnly.fault_iff {x : Outcome α} (hx : x.FailsOnly faults False) :
    (∃ f, x = .fault f) ↔ ¬ ∃ a, x = .value a := by
  cases x with
  | value a => exact ⟨fun ⟨f, h⟩ => (by cases h), fun h => absurd ⟨a, rfl⟩ h⟩
  | fault f => exact ⟨fun _ ⟨a, h⟩ => (by cases h), fun _ => ⟨f, rfl⟩⟩
  | exhausted => exact hx.elim

theorem failsOnly_mapM {f : α → Outcome β} {xs : List α}
    (hf : ∀ x ∈ xs, (f x).FailsOnly faults out) : (xs.mapM f).FailsOnly faults out := by
  induction xs with
  | nil => trivial
  | cons x xs ih =>
    rw [List.mapM_cons]
    have rest : (xs.mapM f).FailsOnly faults out := ih fun y hy => hf y (List.mem_cons_of_mem x hy)
    exact (hf x List.mem_cons_self).bind fun y _ => rest.bind fun ys _ => trivial

end Outcome

namespace ElementTree

/-- Every key, every value and every text in a tree is as asked. -/
def Values (P : Value → Prop) (t : ElementTree) : Prop :=
  t.Every (fun n => ∀ a ∈ n.entries, P a.1 ∧ P a.2) P

theorem Values.all {P : Value → Prop} (h : ∀ v, P v) (t : ElementTree) : t.Values P :=
  Tree.Every.all (fun _ a _ => ⟨h a.1, h a.2⟩) h t

theorem Values.imp {P Q : Value → Prop} {t : ElementTree} (values : t.Values P)
    (h : ∀ v, P v → Q v) : t.Values Q :=
  Tree.Every.imp (fun _ entries a ha => ⟨h _ (entries a ha).1, h _ (entries a ha).2⟩) h values

theorem markupAll_eq_mapM (write : Value → Outcome String) (fits : Int → Outcome Unit)
    (depth : Int) (ts : List ElementTree) :
    markupAll write fits depth ts = ts.mapM (markup write fits depth) := by
  induction ts with
  | nil => rfl
  | cons t ts ih => rw [markupAll, ih, List.mapM_cons]

variable {faults : Fault → Prop} {out : Prop} {write : Value → Outcome String}
  {fits : Int → Outcome Unit}

theorem openingOf_failsOnly {n : Node} (hw : ∀ a ∈ n.entries,
      (write a.1).FailsOnly faults out ∧ (write a.2).FailsOnly faults out) :
    (openingOf write n).FailsOnly faults out := by
  refine (Outcome.failsOnly_mapM fun a ha => ?_).bind fun entries _ => trivial
  exact (hw a ha).1.bind fun key _ => (hw a ha).2.bind fun value _ => trivial

/-- Markup fails only as a line does that does not fit, or as a value of the tree is written. -/
theorem markup_failsOnly {t : ElementTree}
    (hw : t.Values fun v => (write v).FailsOnly faults out)
    (hf : ∀ d, (fits d).FailsOnly faults out) (depth : Int) :
    (markup write fits depth t).FailsOnly faults out := by
  induction t using Tree.induct generalizing depth with
  | closed n =>
    rw [markup]
    have opening := openingOf_failsOnly (Tree.every_closed_iff.mp hw)
    exact (hf depth).bind fun _ _ => opening.bind fun h _ => trivial
  | text n v =>
    rw [markup]
    obtain ⟨head, content⟩ := Tree.every_text_iff.mp hw
    exact (hf depth).bind fun _ _ => (hf (depth + 1)).bind fun _ _ => content.bind
      fun s _ => (openingOf_failsOnly head).bind fun h _ => trivial
  | branch n c ih =>
    rw [markup, markupAll_eq_mapM]
    obtain ⟨head, children⟩ := Tree.every_branch_iff.mp hw
    have inside := Outcome.failsOnly_mapM fun x hx => ih x hx (children x hx) (depth + 1)
    exact (hf depth).bind fun _ _ => inside.bind
      fun ms _ => (openingOf_failsOnly head).bind fun h _ => trivial

end ElementTree

theorem World.indentable_failsOnly {w : World} {faults : Fault → Prop} {out : Prop}
    {width : Value} {depth : Int}
    (h : ∀ f, Repetition.indentation w.store.host.memory width (.int depth) = .error f → faults f) :
    (w.indentable width depth).FailsOnly faults out := by
  refine Outcome.failsOnly_ofExcept fun f hf => ?_
  cases hi : Repetition.indentation w.store.host.memory width (.int depth) with
  | ok n =>
    rw [hi] at hf
    cases hf
  | error g =>
    rw [hi] at hf
    cases hf
    exact h _ hi

/-- An element that has a tree is rendered to the end, if its values are written to the end. -/
theorem World.renderWith_ends {w : World} {write : Value → Outcome String} {e : ElementRef}
    {t : ElementTree} (ht : w.store.tree? e = some t) (hw : ∀ v, write v ≠ .exhausted)
    (width : Value) (depth : Int) : w.renderWith write e width depth ≠ .exhausted := by
  have written (v : Value) : (write v).FailsOnly (fun _ => True) False := by
    cases hv : write v with
    | value s => trivial
    | fault f => trivial
    | exhausted => exact absurd hv (hw v)
  have fits (d : Int) : (w.indentable width d).FailsOnly (fun _ => True) False :=
    indentable_failsOnly fun _ _ => trivial
  have rendered : (w.renderWith write e width depth).FailsOnly (fun _ => True) False := by
    rw [renderWith, ht]
    exact (ElementTree.markup_failsOnly (.all written t) fits depth).bind fun m _ => trivial
  intro h
  rw [h] at rendered
  exact rendered

end TagTree
