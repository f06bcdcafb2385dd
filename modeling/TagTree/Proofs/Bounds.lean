import Mathlib.Data.Finset.Card
import Mathlib.Order.Monotone.Basic
import TagTree.Proofs.Descent

/-!
# Bounds on references

Trees and the reading of names follow references within a bound that the world sets. A greater
bound finds all that a smaller one finds, and names need no greater one.
-/

namespace TagTree

/-! ### Computations with more fuel -/

/-- The first computation ran out of fuel, or both ended the same way. -/
def Outcome.Below {α : Type} (x y : Outcome α) : Prop := x = .exhausted ∨ x = y

namespace Outcome.Below

variable {α β : Type}

theorem refl (x : Outcome α) : x.Below x := .inr rfl

theorem trans {x y z : Outcome α} (h : x.Below y) (h' : y.Below z) : x.Below z := by
  rcases h with rfl | rfl
  · exact .inl rfl
  · exact h'

theorem antisymm {x y : Outcome α} (h : x.Below y) (h' : y.Below x) : x = y := by
  rcases h with rfl | rfl
  · rcases h' with rfl | rfl <;> rfl
  · rfl

theorem bind {x y : Outcome α} {k l : α → Outcome β} (h : x.Below y)
    (hk : ∀ a, (k a).Below (l a)) : (x >>= k).Below (y >>= l) := by
  rcases h with rfl | rfl
  · exact .inl rfl
  · cases x with
    | value a => exact hk a
    | fault f => exact .inr rfl
    | exhausted => exact .inl rfl

theorem mapM {γ : Type} {r : α → β → Prop} {f : α → Outcome γ} {g : β → Outcome γ}
    (h : ∀ a b, r a b → (f a).Below (g b)) {xs : List α} {ys : List β}
    (hr : List.Forall₂ r xs ys) : (xs.mapM f).Below (ys.mapM g) := by
  induction hr with
  | nil => exact refl _
  | cons first rest ih =>
    rw [List.mapM_cons, List.mapM_cons]
    exact (h _ _ first).bind fun _ => ih.bind fun _ => refl _

end Outcome.Below

/-! ### Trees -/

theorem mapM_of_forall₂ {α β : Type} {f : α → Option β} {xs : List α} {ys : List β}
    (h : List.Forall₂ (fun x y => f x = some y) xs ys) : xs.mapM f = some ys := by
  induction h with
  | nil => rfl
  | cons first rest ih => simp [List.mapM_cons, first, ih]

namespace Store

variable {s : Store} {n m : Nat} {e : ElementRef} {t : ElementTree}

theorem treeWithin_step (h : ∀ e t, s.treeWithin n e = some t → s.treeWithin m e = some t)
    (ht : s.treeWithin (n + 1) e = some t) : s.treeWithin (m + 1) e = some t := by
  unfold treeWithin at ht ⊢
  cases hx : s.element? e with
  | none => simp [hx] at ht
  | some x =>
    simp only [hx] at ht ⊢
    cases hc : x.content with
    | empty => simpa only [hc] using ht
    | text v => simpa only [hc] using ht
    | children id es =>
      simp only [hc, Option.map_eq_some_iff] at ht ⊢
      obtain ⟨ts, hts, rfl⟩ := ht
      exact ⟨ts, mapM_of_forall₂ ((forall₂_of_mapM_option hts).imp h), rfl⟩

theorem treeWithin_mono (h : n ≤ m) (ht : s.treeWithin n e = some t) :
    s.treeWithin m e = some t := by
  induction n generalizing m e t with
  | zero => cases ht
  | succ n ih =>
    obtain ⟨m, rfl⟩ : ∃ k, m = k + 1 := ⟨m - 1, by omega⟩
    exact treeWithin_step (fun e t => ih (by omega)) ht

end Store

/-! ### Sets that grow until they stay -/

open Classical in
/-- Sets of numbers below a bound that grow, and stay once they do not grow, stay after as many
steps as the bound. -/
theorem mem_of_growing {N : Nat} {S : Nat → Nat → Prop} (grows : ∀ n i, S n i → S (n + 1) i)
    (bounded : ∀ n i, S n i → i < N)
    (stays : ∀ n, (∀ i, S (n + 1) i → S n i) → ∀ i, S (n + 2) i → S (n + 1) i) {n i : Nat}
    (h : S n i) : S N i := by
  let within (n : Nat) : Finset Nat := (Finset.range N).filter (S n)
  have hmem : ∀ {n i}, i ∈ within n ↔ S n i := by
    intro n i
    simp only [within, Finset.mem_filter, Finset.mem_range, and_iff_right_iff_imp]
    exact bounded n i
  have hsub : ∀ n, within n ⊆ within (n + 1) := fun n i hi => hmem.mpr (grows n i (hmem.mp hi))
  have mono : Monotone within := monotone_nat_of_le_succ hsub
  have hle : ∀ n, (within n).card ≤ N := fun n =>
    (Finset.card_filter_le _ _).trans (Finset.card_range N).le
  have stable : ∀ n, (within n).card = (within (n + 1)).card →
      (within (n + 1)).card = (within (n + 2)).card := by
    intro n hn
    have heq : within n = within (n + 1) := Finset.eq_of_subset_of_card_le (hsub n) hn.ge
    have back : within (n + 2) ⊆ within (n + 1) := fun i hi => hmem.mpr <|
      stays n (fun j hj => hmem.mp (heq ▸ hmem.mpr hj)) i (hmem.mp hi)
    exact congrArg Finset.card (Finset.Subset.antisymm (hsub _) back)
  rcases Nat.le_total n N with hn | hn
  · exact hmem.mp (mono hn (hmem.mpr h))
  · have hcard := Nat.stabilises_of_monotone (fun a b hab => Finset.card_le_card (mono hab)) hle
      stable hn
    have heq : within N = within n := Finset.eq_of_subset_of_card_le (mono hn) hcard.le
    exact hmem.mp (heq ▸ hmem.mpr h)

/-! ### Names -/

namespace World

/-- The answer about names when the bound is used up. -/
def unread : Except Fault Bool := .error (.noAttribute "TagHandle" SettingName.unreserve.text)

theorem map_ne_unread {r : Except Fault Bool} :
    r.map (fun _ => true) ≠ unread ↔ r ≠ unread := by
  cases r <;> simp [unread, Except.map]

section Names

variable {w : World} {n m : Nat}

theorem unreservesWithin_step
    (h : ∀ c, w.unreservesWithin n c ≠ unread → w.unreservesWithin m c = w.unreservesWithin n c)
    (c : Configuration) (hc : w.unreservesWithin (n + 1) c ≠ unread) :
    w.unreservesWithin (m + 1) c = w.unreservesWithin (n + 1) c := by
  cases c with
  | settings s => rfl
  | other v =>
    cases v with
    | handle g =>
      simp only [unreservesWithin] at hc ⊢
      cases hx : w.builder? g.builder with
      | none => rfl
      | some x =>
        simp only [hx] at hc ⊢
        rw [h x.configuration (map_ne_unread.mp hc)]
    | _ => rfl

theorem unreservesWithin_mono (h : n ≤ m) (c : Configuration)
    (hc : w.unreservesWithin n c ≠ unread) : w.unreservesWithin m c = w.unreservesWithin n c := by
  induction n generalizing m c with
  | zero =>
    cases c with
    | settings s => cases m <;> rfl
    | other v =>
      cases v with
      | handle g => exact absurd rfl hc
      | _ => cases m <;> rfl
  | succ n ih =>
    obtain ⟨m, rfl⟩ : ∃ k, m = k + 1 := ⟨m - 1, by omega⟩
    exact unreservesWithin_step (fun c => ih (by omega) c) c hc

/-- Names that can be read are read within as many builders as there are. -/
theorem read_within_size {b : BuilderRef} {x : Builder} (hx : w.builder? b = some x)
    (h : w.unreservesWithin n x.configuration ≠ unread) :
    w.unreservesWithin w.builders.size x.configuration ≠ unread := by
  let read (n i : Nat) : Prop :=
    ∃ x, w.builder? ⟨i⟩ = some x ∧ w.unreservesWithin n x.configuration ≠ unread
  have hread : read w.builders.size b.index := by
    refine mem_of_growing ?_ ?_ ?_ (n := n) ⟨x, hx, h⟩
    · rintro n i ⟨y, hy, hn⟩
      exact ⟨y, hy, by rwa [unreservesWithin_mono (Nat.le_succ n) _ hn]⟩
    · rintro n i ⟨y, hy, -⟩
      exact (Array.getElem?_eq_some_iff.mp hy).1
    · rintro n hn i ⟨y, hy, hr⟩
      refine ⟨y, hy, ?_⟩
      cases hc : y.configuration with
      | settings s => simp [unreservesWithin, unread]
      | other v =>
        rw [hc] at hr
        cases v with
        | handle g =>
          simp only [unreservesWithin] at hr ⊢
          cases hz : w.builder? g.builder with
          | none => simp [unread]
          | some z =>
            simp only [hz] at hr ⊢
            obtain ⟨z', hz', hr'⟩ := hn g.builder.index ⟨z, hz, map_ne_unread.mp hr⟩
            rw [hz, Option.some.injEq] at hz'
            exact map_ne_unread.mpr (hz' ▸ hr')
        | _ => exact hr
  obtain ⟨y, hy, hr⟩ := hread
  rw [hx, Option.some.injEq] at hy
  exact hy ▸ hr

/-- A greater bound reads names no differently. -/
theorem unreservesWithin_eq (h : w.builders.size + 1 ≤ n) (c : Configuration) :
    w.unreservesWithin n c = w.unreserves c := by
  unfold unreserves
  by_cases hc : w.unreservesWithin (w.builders.size + 1) c = unread
  · rw [hc]
    by_contra hn
    obtain ⟨k, rfl⟩ : ∃ k, n = k + 1 := ⟨n - 1, by omega⟩
    refine absurd hc ?_
    cases c with
    | settings s => exact hn
    | other v =>
      cases v with
      | handle g =>
        simp only [unreservesWithin] at hn ⊢
        cases hx : w.builder? g.builder with
        | none => simp [unread]
        | some x =>
          simp only [hx] at hn ⊢
          exact map_ne_unread.mpr (read_within_size hx (map_ne_unread.mp hn))
      | _ => exact hn
  · exact unreservesWithin_mono h c hc

end Names

end World

end TagTree
