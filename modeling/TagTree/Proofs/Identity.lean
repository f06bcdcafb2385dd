import TagTree.Proofs.Descent
import TagTree.Proofs.Written

/-!
# Structural identity

Values are structurally identical if they are of one kind and have identical parts in one order.
Identical values are shown and written alike where no container is met again inside itself; there
the shown form is cut off.
-/

namespace TagTree

/-! ### Lists in step -/

/-- A relation may use that its partners are in the lists. -/
theorem forall₂_imp_of_mem_both {α β : Type} {r s : α → β → Prop} {xs : List α} {ys : List β}
    (h : ∀ x ∈ xs, ∀ y ∈ ys, r x y → s x y) (related : List.Forall₂ r xs ys) :
    List.Forall₂ s xs ys := by
  induction related with
  | nil => exact .nil
  | cons first rest ih =>
    refine .cons (h _ List.mem_cons_self _ List.mem_cons_self first) ?_
    exact ih fun x hx y hy => h x (List.mem_cons_of_mem _ hx) y (List.mem_cons_of_mem _ hy)

theorem map_eq_of_forall₂ {α β γ : Type} {r : α → β → Prop} {f : α → γ} {g : β → γ}
    {xs : List α} {ys : List β} (related : List.Forall₂ r xs ys)
    (h : ∀ x ∈ xs, ∀ y ∈ ys, r x y → f x = g y) : xs.map f = ys.map g := by
  rw [← List.forall₂_eq_eq_eq, List.forall₂_map_left_iff, List.forall₂_map_right_iff]
  exact forall₂_imp_of_mem_both h related

namespace Store

/-! ### Identical values -/

/-- Values of one kind whose parts are related in order. What has no parts is the same object; all
that is not a number is alike. -/
inductive Resembles (s : Store) (R : Value → Value → Prop) : Value → Value → Prop
  | atom (a : Atom) : Resembles s R (.atom a) (.atom a)
  | nan (i j : Nat) : Resembles s R (.atom (.nan i)) (.atom (.nan j))
  | list {l m} (items : List.Forall₂ R (s.items l) (s.items m)) :
      Resembles s R (.list l) (.list m)
  | tuple {i j xs ys} (items : List.Forall₂ R xs ys) : Resembles s R (.tuple i xs) (.tuple j ys)
  | dict {d e} (entries : List.Forall₂ (fun x y => R x.1 y.1 ∧ R x.2 y.2)
      (s.entries d) (s.entries e)) : Resembles s R (.dict d) (.dict e)
  | view {d e} (entries : List.Forall₂ (fun x y => R x.1 y.1 ∧ R x.2 y.2)
      (s.entries d) (s.entries e)) : Resembles s R (.view d) (.view e)
  | element (e : ElementRef) : Resembles s R (.element e) (.element e)
  | handle (h : Handle) : Resembles s R (.handle h) (.handle h)
  | builder (b : BuilderRef) : Resembles s R (.builder b) (.builder b)
  | settings {i j : Nat} {x y : Settings Value} (width : R x.indentWidth y.indentWidth)
      (policy : x.policy = y.policy) (unreserve : R x.unreserve y.unreserve)
      (depth : R x.maxDepth y.maxDepth) (diagnostics : R x.diagnostics y.diagnostics)
      (correlation : R x.correlation y.correlation) :
      Resembles s R (.settings i x) (.settings j y)
  | callable (c : Callable Value) : Resembles s R (.callable c) (.callable c)

/-- Values are identical if they resemble each other, and their parts do, and so on without end. -/
def Identical (s : Store) (v v' : Value) : Prop :=
  ∃ R : Value → Value → Prop, (∀ x y, R x y → s.Resembles R x y) ∧ R v v'

section

variable {s : Store} {v v' : Value}

theorem Resembles.imp {R Q : Value → Value → Prop} (h : ∀ x y, R x y → Q x y)
    (resembles : s.Resembles R v v') : s.Resembles Q v v' := by
  have entry (x y : Value × Value) (hxy : R x.1 y.1 ∧ R x.2 y.2) : Q x.1 y.1 ∧ Q x.2 y.2 :=
    ⟨h _ _ hxy.1, h _ _ hxy.2⟩
  cases resembles with
  | atom a => exact .atom a
  | nan i j => exact .nan i j
  | list items => exact .list (items.imp h)
  | tuple items => exact .tuple (items.imp h)
  | dict entries => exact .dict (entries.imp entry)
  | view entries => exact .view (entries.imp entry)
  | element e => exact .element e
  | handle g => exact .handle g
  | builder b => exact .builder b
  | settings width policy unreserve depth diagnostics correlation =>
    exact .settings (h _ _ width) policy (h _ _ unreserve) (h _ _ depth) (h _ _ diagnostics)
      (h _ _ correlation)
  | callable c => exact .callable c

/-- Values are identical exactly if they resemble each other in identical parts. -/
theorem identical_iff : s.Identical v v' ↔ s.Resembles s.Identical v v' := by
  have unfolds {x y : Value} (h : s.Identical x y) : s.Resembles s.Identical x y := by
    obtain ⟨R, closed, hxy⟩ := h
    exact (closed x y hxy).imp fun a b hab => ⟨R, closed, hab⟩
  refine ⟨unfolds, fun h => ⟨s.Resembles s.Identical, fun x y hxy => ?_, h⟩⟩
  exact hxy.imp fun a b hab => unfolds hab

theorem Identical.refl (s : Store) (v : Value) : s.Identical v v := by
  refine ⟨Eq, ?_, rfl⟩
  rintro x _ rfl
  have items (xs : List Value) : List.Forall₂ Eq xs xs := List.forall₂_same.mpr fun _ _ => rfl
  have entries (d : Dict) : List.Forall₂ (fun x y => x.1 = y.1 ∧ x.2 = y.2) d d :=
    List.forall₂_same.mpr fun _ _ => ⟨rfl, rfl⟩
  cases x with
  | atom a => exact .atom a
  | list l => exact .list (items _)
  | tuple i xs => exact .tuple (items _)
  | dict d => exact .dict (entries _)
  | view d => exact .view (entries _)
  | element e => exact .element e
  | handle h => exact .handle h
  | builder b => exact .builder b
  | settings i x => exact .settings rfl rfl rfl rfl rfl rfl
  | callable c => exact .callable c

/-- Identical texts are one text. -/
theorem identical_text_iff {a b : String} : s.Identical (.text a) (.text b) ↔ a = b := by
  constructor
  · intro h
    cases identical_iff.mp h
    rfl
  · rintro rfl
    exact .refl s _

theorem identical_dict_iff {d e : DictRef} : s.Identical (.dict d) (.dict e) ↔
    List.Forall₂ (fun x y => s.Identical x.1 y.1 ∧ s.Identical x.2 y.2)
      (s.entries d) (s.entries e) := by
  rw [identical_iff]
  constructor
  · rintro ⟨⟩
    assumption
  · exact .dict

theorem identical_list_iff {l m : ListRef} : s.Identical (.list l) (.list m) ↔
    List.Forall₂ s.Identical (s.items l) (s.items m) := by
  rw [identical_iff]
  constructor
  · rintro ⟨⟩
    assumption
  · exact .list

end

/-! ### Values that unwind -/

/-- Going down through a value no container is met again inside itself, nor any of those inside
which the value stands. -/
inductive Unwinds (s : Store) : List Container → Value → Prop
  | atom {inside} (a : Atom) : Unwinds s inside (.atom a)
  | list {inside l} (fresh : .list l ∉ inside)
      (items : ∀ v ∈ s.items l, Unwinds s (.list l :: inside) v) : Unwinds s inside (.list l)
  | tuple {inside i xs} (fresh : xs ≠ [] → .tuple i ∉ inside)
      (items : ∀ v ∈ xs, Unwinds s (.tuple i :: inside) v) : Unwinds s inside (.tuple i xs)
  | dict {inside d} (fresh : .dict d ∉ inside)
      (keys : ∀ x ∈ s.entries d, Unwinds s (.dict d :: inside) x.1)
      (values : ∀ x ∈ s.entries d, Unwinds s (.dict d :: inside) x.2) :
      Unwinds s inside (.dict d)
  | view {inside d} (whole : Unwinds s inside (.dict d)) : Unwinds s inside (.view d)
  | element {inside e} (text : ∀ x v, s.element? e = some x → x.content = .text v →
      Unwinds s inside v) : Unwinds s inside (.element e)
  | handle {inside} (h : Handle) : Unwinds s inside (.handle h)
  | builder {inside} (b : BuilderRef) : Unwinds s inside (.builder b)
  | settings {inside i} {x : Settings Value} (fresh : .settings i ∉ inside)
      (width : Unwinds s (.settings i :: inside) x.indentWidth)
      (unreserve : Unwinds s (.settings i :: inside) x.unreserve)
      (depth : Unwinds s (.settings i :: inside) x.maxDepth)
      (diagnostics : Unwinds s (.settings i :: inside) x.diagnostics)
      (correlation : Unwinds s (.settings i :: inside) x.correlation) :
      Unwinds s inside (.settings i x)
  | callable {inside} (c : Callable Value) : Unwinds s inside (.callable c)

end Store

/-! ### Texts of identical values -/

namespace World

variable {w : World} {n : Nat} {inside inside' : List Container} {v v' : Value}

theorem uncut {c : Container} (fresh : c ∉ inside) : ¬ inside.contains c = true := by
  simpa using fresh

theorem shownEntries_congr {d e : Dict} {form form' : Value → String}
    {R : Value → Value → Prop} (entries : List.Forall₂ (fun x y => R x.1 y.1 ∧ R x.2 y.2) d e)
    (keys : ∀ x ∈ d, ∀ y ∈ e, R x.1 y.1 → form x.1 = form' y.1)
    (values : ∀ x ∈ d, ∀ y ∈ e, R x.2 y.2 → form x.2 = form' y.2) :
    shownEntries d form = shownEntries e form' := by
  unfold shownEntries
  rw [map_eq_of_forall₂ entries]
  intro x hx y hy hxy
  rw [keys x hx y hy hxy.1, values x hx y hy hxy.2]

/-- Identical values are shown alike if they unwind, whatever they stand inside. -/
theorem shownWithin_identical (same : w.store.Identical v v') (hv : w.store.Unwinds inside v)
    (hv' : w.store.Unwinds inside' v') : w.shownWithin n inside v = w.shownWithin n inside' v' := by
  induction n generalizing v v' inside inside' with
  | zero => rfl
  | succ n ih =>
    cases Store.identical_iff.mp same with
    | atom a => rfl
    | nan i j => rfl
    | list items =>
      cases hv with | list fresh parts =>
      cases hv' with | list fresh' parts' =>
      simp only [shownWithin, if_neg (uncut fresh), if_neg (uncut fresh')]
      rw [map_eq_of_forall₂ items fun x hx y hy hxy => ih hxy (parts x hx) (parts' y hy)]
    | @tuple i j xs ys items =>
      cases hv with | tuple fresh parts =>
      cases hv' with | tuple fresh' parts' =>
      have cut {i : Nat} {xs : List Value} {inside : List Container}
          (fresh : xs ≠ [] → .tuple i ∉ inside) :
          ¬ (inside.contains (.tuple i) && !xs.isEmpty) = true := by
        cases xs with
        | nil => simp
        | cons x xs => simpa using fresh (List.cons_ne_nil x xs)
      simp only [shownWithin, if_neg (cut fresh), if_neg (cut fresh')]
      rw [map_eq_of_forall₂ items fun x hx y hy hxy => ih hxy (parts x hx) (parts' y hy)]
    | dict entries =>
      cases hv with | dict fresh keys values =>
      cases hv' with | dict fresh' keys' values' =>
      simp only [shownWithin, if_neg (uncut fresh), if_neg (uncut fresh')]
      exact shownEntries_congr entries (fun x hx y hy hxy => ih hxy (keys x hx) (keys' y hy))
        fun x hx y hy hxy => ih hxy (values x hx) (values' y hy)
    | view entries =>
      cases hv with | view whole =>
      cases hv' with | view whole' =>
      simp only [shownWithin]
      rw [ih (Store.identical_dict_iff.mpr entries) whole whole']
    | element e =>
      cases hv with | element text =>
      cases hv' with | element text' =>
      simp only [shownWithin]
      cases hx : w.store.element? e with
      | none => rfl
      | some x =>
        show shownElement x _ = shownElement x _
        unfold shownElement
        cases hc : x.content with
        | text v => simp only [ih (.refl _ v) (text x v hx hc) (text' x v hx hc)]
        | _ => rfl
    | handle h => rfl
    | builder b => rfl
    | settings width policy unreserve depth diagnostics correlation =>
      cases hv with | settings fresh width₁ unreserve₁ depth₁ diagnostics₁ correlation₁ =>
      cases hv' with | settings fresh' width₂ unreserve₂ depth₂ diagnostics₂ correlation₂ =>
      simp only [shownWithin, if_neg (uncut fresh), if_neg (uncut fresh')]
      rw [ih width width₁ width₂, policy, ih unreserve unreserve₁ unreserve₂,
        ih depth depth₁ depth₂, ih diagnostics diagnostics₁ diagnostics₂,
        ih correlation correlation₁ correlation₂]
    | callable c => rfl

/-- Identical values that unwind are written alike, or fail alike. -/
theorem write_identical (same : w.store.Identical v v') (hv : w.store.Unwinds [] v)
    (hv' : w.store.Unwinds [] v') : w.write v = w.write v' := by
  have shown {x x' : Value} (same : w.store.Identical x x') (hx : w.store.Unwinds [] x)
      (hx' : w.store.Unwinds [] x') : w.shown x = w.shown x' :=
    shownWithin_identical same hx hx'
  unfold write writeWithin
  cases Store.identical_iff.mp same with
  | atom a => rfl
  | nan i j => rfl
  | element e => rfl
  | handle h => rfl
  | builder b => rfl
  | callable c => rfl
  | list items => exact congrArg (Outcome.ofExcept ∘ Except.ok) (shown same hv hv')
  | tuple items => exact congrArg (Outcome.ofExcept ∘ Except.ok) (shown same hv hv')
  | dict entries => exact congrArg (Outcome.ofExcept ∘ Except.ok) (shown same hv hv')
  | settings => exact congrArg (Outcome.ofExcept ∘ Except.ok) (shown same hv hv')
  | view entries =>
    cases hv with | view whole =>
    cases hv' with | view whole' =>
    have same := shown (Store.identical_dict_iff.mpr entries) whole whole'
    exact congrArg (Outcome.ofExcept ∘ Except.ok) same

end World

end TagTree
