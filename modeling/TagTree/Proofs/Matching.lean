import Mathlib.Data.List.Forall2
import Mathlib.Order.Defs.PartialOrder
import TagTree.Rendering

/-!
# Matched objects

Two runs can do the same on different objects. A matching says which object of the one run
stands for which of the other; values are alike if they differ at most in matched objects.
Runs match more and more objects as they go on. Objects of the second run can be set apart,
never to be matched.
-/

namespace TagTree

/-- What runs share by reference, and the identities of what is not stored. -/
inductive Object where
  | element (e : ElementRef)
  | list (l : ListRef)
  | dict (d : DictRef)
  | builder (b : BuilderRef)
  | identity (n : Nat)

/-- Whether an object exists in a world, or an identity was handed out. -/
def Object.In (w : World) : Object → Prop
  | .element e => e.index < w.store.elements.size
  | .list l => l.index < w.store.lists.size
  | .dict d => d.index < w.store.dicts.size
  | .builder b => b.index < w.builders.size
  | .identity n => n < w.store.nextId

/-- Objects of two runs one to one. Identity zero is that of objects that are not shared. -/
structure Matching where
  rel : Object → Object → Prop
  apart : Object → Prop
  functional : ∀ {o p q}, rel o p → rel o q → p = q
  injective : ∀ {o p q}, rel o q → rel p q → o = p
  separate : ∀ {o p}, rel o p → ¬ apart p
  zero : rel (.identity 0) (.identity 0)

namespace Matching

variable {ρ σ : Matching}

/-- A matching is extended by one that matches all it does and sets as much apart. -/
instance : Preorder Matching where
  le ρ σ := (∀ o p, ρ.rel o p → σ.rel o p) ∧ ∀ o, ρ.apart o → σ.apart o
  le_refl _ := ⟨fun _ _ h => h, fun _ h => h⟩
  le_trans _ _ _ h h' := ⟨fun o p hr => h'.1 o p (h.1 o p hr), fun o ha => h'.2 o (h.2 o ha)⟩

theorem rel_of_le (h : ρ ≤ σ) {o p : Object} (hr : ρ.rel o p) : σ.rel o p := h.1 o p hr

/-- Known objects stand for themselves, and some others are set apart. -/
def same (known apart : Object → Prop) (zero : known (.identity 0))
    (disjoint : ∀ o, known o → ¬ apart o) : Matching where
  rel o p := known o ∧ o = p
  apart := apart
  functional := by
    rintro o p q ⟨-, rfl⟩ ⟨-, rfl⟩
    rfl
  injective := by
    rintro o p q ⟨-, rfl⟩ ⟨-, rfl⟩
    rfl
  separate := by
    rintro o p ⟨h, rfl⟩
    exact disjoint o h
  zero := ⟨zero, rfl⟩

/-- Known objects stand for themselves, and none are set apart. -/
abbrev only (known : Object → Prop) (zero : known (.identity 0)) : Matching :=
  same known (fun _ => False) zero fun _ _ h => h

/-- The matching with two more objects, which were in no pair and not set apart. -/
def add (ρ : Matching) (o p : Object) (left : ∀ q, ¬ ρ.rel o q) (right : ∀ q, ¬ ρ.rel q p)
    (near : ¬ ρ.apart p) : Matching where
  rel x y := ρ.rel x y ∨ (x = o ∧ y = p)
  apart := ρ.apart
  functional := by
    rintro x y z (hy | ⟨rfl, rfl⟩) (hz | ⟨hx, rfl⟩)
    · exact ρ.functional hy hz
    · exact absurd (hx ▸ hy) (left _)
    · exact absurd hz (left _)
    · rfl
  injective := by
    rintro x y z (hx | ⟨rfl, rfl⟩) (hy | ⟨rfl, hz⟩)
    · exact ρ.injective hx hy
    · exact absurd (hz ▸ hx) (right _)
    · exact absurd hy (right _)
    · rfl
  separate := by
    rintro x y (h | ⟨-, rfl⟩)
    · exact ρ.separate h
    · exact near
  zero := .inl ρ.zero

theorem le_add {o p : Object} (left : ∀ q, ¬ ρ.rel o q) (right : ∀ q, ¬ ρ.rel q p)
    (near : ¬ ρ.apart p) : ρ ≤ ρ.add o p left right near :=
  ⟨fun _ _ h => .inl h, fun _ h => h⟩

end Matching

/-! ### Values -/

def Atom.Like (ρ : Matching) : Atom → Atom → Prop
  | .nan i, .nan j => ρ.rel (.identity i) (.identity j)
  | a, b => a = b

structure Handle.Like (ρ : Matching) (g h : Handle) : Prop where
  id : ρ.rel (.identity g.id) (.identity h.id)
  builder : ρ.rel (.builder g.builder) (.builder h.builder)

/-- Values that are the same up to matched objects. -/
inductive Value.Like (ρ : Matching) : Value → Value → Prop
  | atom {a b} (same : Atom.Like ρ a b) : Like ρ (.atom a) (.atom b)
  | list {l m} (same : ρ.rel (.list l) (.list m)) : Like ρ (.list l) (.list m)
  | tuple {i j xs ys} (id : ρ.rel (.identity i) (.identity j))
      (items : List.Forall₂ (Like ρ) xs ys) : Like ρ (.tuple i xs) (.tuple j ys)
  | dict {d e} (same : ρ.rel (.dict d) (.dict e)) : Like ρ (.dict d) (.dict e)
  | view {d e} (same : ρ.rel (.dict d) (.dict e)) : Like ρ (.view d) (.view e)
  | element {e f} (same : ρ.rel (.element e) (.element f)) : Like ρ (.element e) (.element f)
  | handle {g h} (same : Handle.Like ρ g h) : Like ρ (.handle g) (.handle h)
  | builder {b c} (same : ρ.rel (.builder b) (.builder c)) : Like ρ (.builder b) (.builder c)
  | settings {i j s t} (id : ρ.rel (.identity i) (.identity j))
      (fields : ∀ n : SettingName, Like ρ (s.get n) (t.get n)) :
      Like ρ (.settings i s) (.settings j t)
  | block {i j steps result} (id : ρ.rel (.identity i) (.identity j)) :
      Like ρ (.callable (.block i steps result)) (.callable (.block j steps result))
  | chain {i j tag inner x y} (id : ρ.rel (.identity i) (.identity j)) (leaf : Like ρ x y) :
      Like ρ (.callable (.chain i tag inner x)) (.callable (.chain j tag inner y))
  | factory {i j b c tag} (id : ρ.rel (.identity i) (.identity j))
      (builder : ρ.rel (.builder b) (.builder c)) :
      Like ρ (.callable (.factory i b tag)) (.callable (.factory j c tag))
  | verbatim {g h} (same : Handle.Like ρ g h) :
      Like ρ (.callable (.verbatim g)) (.callable (.verbatim h))
  | member {g h name} (same : Handle.Like ρ g h) :
      Like ρ (.callable (.member g name)) (.callable (.member h name))
  | handleKind : Like ρ (.callable .handleKind) (.callable .handleKind)

abbrev Values.Like (ρ : Matching) : List Value → List Value → Prop :=
  List.Forall₂ (Value.Like ρ)

def Callable.Like (ρ : Matching) (c d : Callable Value) : Prop :=
  Value.Like ρ (.callable c) (.callable d)

/-- Entries with like keys and like values. -/
def Entry.Like (ρ : Matching) (x y : Value × Value) : Prop :=
  Value.Like ρ x.1 y.1 ∧ Value.Like ρ x.2 y.2

abbrev Dict.Like (ρ : Matching) : Dict → Dict → Prop := List.Forall₂ (Entry.Like ρ)

def Settings.Like (ρ : Matching) (s t : Settings Value) : Prop :=
  ∀ n : SettingName, Value.Like ρ (s.get n) (t.get n)

/-- Named arguments with equal names and like values. -/
def Named.Like (ρ : Matching) : List (String × Value) → List (String × Value) → Prop :=
  List.Forall₂ fun x y => x.1 = y.1 ∧ Value.Like ρ x.2 y.2

section Mono

variable {ρ σ : Matching}

theorem Atom.Like.mono (h : ρ ≤ σ) {a b : Atom} (hl : Atom.Like ρ a b) : Atom.Like σ a b := by
  cases a with
  | nan i =>
    cases b with
    | nan j => exact Matching.rel_of_le h hl
    | _ => cases hl
  | _ => cases b <;> exact hl

theorem Handle.Like.mono (h : ρ ≤ σ) {g g' : Handle} (hl : Handle.Like ρ g g') :
    Handle.Like σ g g' :=
  ⟨Matching.rel_of_le h hl.id, Matching.rel_of_le h hl.builder⟩

mutual

theorem Value.Like.mono (h : ρ ≤ σ) : ∀ {v w : Value}, Value.Like ρ v w → Value.Like σ v w
  | .atom _, _, .atom same => .atom (same.mono h)
  | .list _, _, .list same => .list (Matching.rel_of_le h same)
  | .tuple _ _, _, .tuple id items => .tuple (Matching.rel_of_le h id) (Values.Like.mono h items)
  | .dict _, _, .dict same => .dict (Matching.rel_of_le h same)
  | .view _, _, .view same => .view (Matching.rel_of_le h same)
  | .element _, _, .element same => .element (Matching.rel_of_le h same)
  | .handle _, _, .handle same => .handle (same.mono h)
  | .builder _, _, .builder same => .builder (Matching.rel_of_le h same)
  | .settings _ ⟨_, _, _, _, _, _⟩, _, .settings id fields =>
    .settings (Matching.rel_of_le h id) fun
      | .indentWidth => Value.Like.mono h (fields .indentWidth)
      | .policy => match fields .policy with
        | .atom same => .atom (same.mono h)
      | .unreserve => Value.Like.mono h (fields .unreserve)
      | .maxDepth => Value.Like.mono h (fields .maxDepth)
      | .diagnostics => Value.Like.mono h (fields .diagnostics)
      | .correlation => Value.Like.mono h (fields .correlation)
  | .callable (.block ..), _, .block id => .block (Matching.rel_of_le h id)
  | .callable (.chain ..), _, .chain id leaf =>
    .chain (Matching.rel_of_le h id) (Value.Like.mono h leaf)
  | .callable (.factory ..), _, .factory id builder =>
    .factory (Matching.rel_of_le h id) (Matching.rel_of_le h builder)
  | .callable (.verbatim _), _, .verbatim same => .verbatim (same.mono h)
  | .callable (.member ..), _, .member same => .member (same.mono h)
  | .callable .handleKind, _, .handleKind => .handleKind

theorem Values.Like.mono (h : ρ ≤ σ) :
    ∀ {xs ys : List Value}, Values.Like ρ xs ys → Values.Like σ xs ys
  | [], _, .nil => .nil
  | _ :: _, _, .cons first rest => .cons (Value.Like.mono h first) (Values.Like.mono h rest)

end

theorem Dict.Like.mono (h : ρ ≤ σ) {d e : Dict} (hl : Dict.Like ρ d e) : Dict.Like σ d e :=
  List.Forall₂.imp (fun _ _ hx => ⟨hx.1.mono h, hx.2.mono h⟩) hl

theorem Named.Like.mono (h : ρ ≤ σ) {xs ys : List (String × Value)} (hl : Named.Like ρ xs ys) :
    Named.Like σ xs ys :=
  List.Forall₂.imp (fun _ _ hx => ⟨hx.1, hx.2.mono h⟩) hl

theorem Settings.Like.mono (h : ρ ≤ σ) {s t : Settings Value} (hl : Settings.Like ρ s t) :
    Settings.Like σ s t := fun n => (hl n).mono h

end Mono

/-! ### What does not depend on objects -/

section Reading

variable {ρ : Matching} {v v' w w' : Value}

theorem Matching.rel_iff {o p o' p' : Object} (h : ρ.rel o p) (h' : ρ.rel o' p') :
    o = o' ↔ p = p' :=
  ⟨fun he => ρ.functional (he ▸ h) h', fun he => ρ.injective (he ▸ h) h'⟩

theorem beq_congr {α β : Type} [BEq α] [LawfulBEq α] [BEq β] [LawfulBEq β] {a b : α} {c d : β}
    (h : a = b ↔ c = d) : (a == b) = (c == d) :=
  Bool.eq_iff_iff.mpr (by simpa using h)

theorem Atom.Like.cases {a b : Atom} (h : Atom.Like ρ a b) :
    (a = b ∧ ∀ i, a ≠ .nan i) ∨
      ∃ i j, a = .nan i ∧ b = .nan j ∧ ρ.rel (.identity i) (.identity j) := by
  cases a with
  | nan i =>
    cases b with
    | nan j => exact .inr ⟨i, j, rfl, rfl, h⟩
    | _ => cases h
  | _ =>
    refine .inl ⟨?_, by simp⟩
    cases b <;> exact h

theorem Atom.Like.refl {a : Atom} (h : ∀ i, a ≠ .nan i) : Atom.Like ρ a a := by
  cases a with
  | nan i => exact absurd rfl (h i)
  | _ => rfl

/-- What is read of an atom without regard to identities is read of a like one. -/
theorem Atom.Like.congr {β : Type} {a b : Atom} (h : Atom.Like ρ a b) (f : Atom → β)
    (hf : ∀ i j, f (.nan i) = f (.nan j)) : f a = f b := by
  rcases h.cases with ⟨rfl, -⟩ | ⟨i, j, rfl, rfl, -⟩
  · rfl
  · exact hf i j

theorem Atom.Like.same {a a' b b' : Atom} (ha : Atom.Like ρ a a') (hb : Atom.Like ρ b b') :
    a.same b = a'.same b' := by
  rcases ha.cases with ⟨rfl, na⟩ | ⟨i, i', rfl, rfl, hi⟩
  · refine hb.congr (a.same ·) fun i j => ?_
    cases a with
    | nan k => exact absurd rfl (na k)
    | _ => rfl
  · rcases hb.cases with ⟨rfl, nb⟩ | ⟨j, j', rfl, rfl, hj⟩
    · cases b with
      | nan k => exact absurd rfl (nb k)
      | _ => rfl
    · exact beq_congr (by simpa using Matching.rel_iff hi hj)

theorem Value.Like.typeName (h : Value.Like ρ v w) : v.typeName = w.typeName := by
  cases h with
  | atom same => exact same.congr Atom.typeName fun _ _ => rfl
  | _ => rfl

theorem Value.Like.lacking (h : Value.Like ρ v w) (name : String) :
    Fault.lacking v name = Fault.lacking w name := by
  cases h with
  | atom same =>
    exact congrArg (fun kind => Fault.noAttribute kind name) (Value.Like.atom same).typeName
  | _ => rfl

theorem Value.Like.isNone (h : Value.Like ρ v w) : v.isNone = w.isNone := by
  cases h with
  | atom same => exact same.congr (fun a => (Value.atom a).isNone) fun _ _ => rfl
  | _ => rfl

theorem Value.Like.int? (h : Value.Like ρ v w) : v.int? = w.int? := by
  cases h with
  | atom same => exact same.congr Atom.int? fun _ _ => rfl
  | _ => rfl

theorem Value.Like.element? (h : Value.Like ρ v w) :
    Option.Rel (fun d e => ρ.rel (.element d) (.element e)) v.element? w.element? := by
  cases h with
  | element same => exact .some same
  | _ => exact .none

theorem Value.Like.of_callable {c : Callable Value} (h : Value.Like ρ (.callable c) v) :
    ∃ d, v = .callable d ∧ Callable.Like ρ c d := by
  cases h with
  | block id => exact ⟨_, rfl, .block id⟩
  | chain id leaf => exact ⟨_, rfl, .chain id leaf⟩
  | factory id builder => exact ⟨_, rfl, .factory id builder⟩
  | verbatim same => exact ⟨_, rfl, .verbatim same⟩
  | member same => exact ⟨_, rfl, .member same⟩
  | handleKind => exact ⟨_, rfl, .handleKind⟩

theorem Settings.Like.policy {s t : Settings Value} (h : Settings.Like ρ s t) :
    s.policy = t.policy := by
  have hp : Value.Like ρ (.policy s.policy) (.policy t.policy) := h .policy
  cases hp with
  | atom same => exact Atom.policy.inj same

theorem Callable.Like.identity {c c' d d' : Callable Value} (hc : Callable.Like ρ c c')
    (hd : Callable.Like ρ d d') :
    (c.identity == d.identity) = (c'.identity == d'.identity) := by
  have known : ∀ {c c' : Callable Value}, Callable.Like ρ c c' →
      c.identity.2 = c'.identity.2 ∧
        ρ.rel (.identity c.identity.1) (.identity c'.identity.1) := by
    intro c c' h
    cases h with
    | block id => exact ⟨rfl, id⟩
    | chain id leaf => exact ⟨rfl, id⟩
    | factory id builder => exact ⟨rfl, id⟩
    | verbatim same => exact ⟨rfl, same.id⟩
    | member same => exact ⟨rfl, same.id⟩
    | handleKind => exact ⟨rfl, ρ.zero⟩
  obtain ⟨hn, hi⟩ := known hc
  obtain ⟨hm, hj⟩ := known hd
  refine beq_congr ?_
  rw [Prod.ext_iff, Prod.ext_iff, hn, hm]
  exact and_congr_left' (by simpa using Matching.rel_iff hi hj)

mutual

theorem Value.Like.sameKey : ∀ {v v' w w' : Value}, Value.Like ρ v v' → Value.Like ρ w w' →
    v.sameKey w = v'.sameKey w'
  | .atom _, _, _, _, .atom same, hw => by
    cases hw with
    | atom same' => exact same.same same'
    | _ => rfl
  | .tuple _ _, _, _, _, .tuple id items, hw => by
    cases hw with
    | tuple id' items' => exact Values.Like.sameKeys items items'
    | _ => rfl
  | .element _, _, _, _, .element same, hw => by
    cases hw with
    | element same' =>
      exact beq_congr (by simpa using Matching.rel_iff same same')
    | _ => rfl
  | .handle _, _, _, _, .handle same, hw => by
    cases hw with
    | handle same' =>
      exact beq_congr (by simpa using Matching.rel_iff same.id same'.id)
    | _ => rfl
  | .builder _, _, _, _, .builder same, hw => by
    cases hw with
    | builder same' =>
      exact beq_congr (by simpa using Matching.rel_iff same same')
    | _ => rfl
  | .settings _ ⟨width, _, unreserve, limit, diagnostics, correlation⟩, _, _, _,
      .settings _ fields, hw => by
    cases hw with
    | settings _ fields' =>
      have hp := Settings.Like.policy fields
      have hq := Settings.Like.policy fields'
      have h₁ := Value.Like.sameKey (v := width) (fields .indentWidth) (fields' .indentWidth)
      have h₂ := Value.Like.sameKey (v := unreserve) (fields .unreserve) (fields' .unreserve)
      have h₃ := Value.Like.sameKey (v := limit) (fields .maxDepth) (fields' .maxDepth)
      have h₄ := Value.Like.sameKey (v := diagnostics) (fields .diagnostics) (fields' .diagnostics)
      have h₅ := Value.Like.sameKey (v := correlation) (fields .correlation) (fields' .correlation)
      simp only [Settings.get] at h₁ h₂ h₃ h₄ h₅
      simp only [Value.sameKey, h₁, h₂, h₃, h₄, h₅, ← hp, ← hq]
    | _ => rfl
  | .callable _, _, w, _, hv, hw => by
    obtain ⟨c', rfl, hc⟩ := hv.of_callable
    cases w with
    | callable d =>
      obtain ⟨d', rfl, hd⟩ := hw.of_callable
      exact hc.identity hd
    | _ => cases hw; rfl
  | .list _, _, _, _, .list _, hw => by cases hw <;> rfl
  | .dict _, _, _, _, .dict _, hw => by cases hw <;> rfl
  | .view _, _, _, _, .view _, hw => by cases hw <;> rfl

theorem Values.Like.sameKeys : ∀ {xs xs' ys ys' : List Value}, Values.Like ρ xs xs' →
    Values.Like ρ ys ys' → TagTree.sameKeys xs ys = TagTree.sameKeys xs' ys'
  | [], _, _, _, .nil, hy => by cases hy <;> rfl
  | _ :: _, _, _, _, .cons first rest, hy => by
    cases hy with
    | nil => rfl
    | cons first' rest' =>
      simp only [TagTree.sameKeys]
      rw [Value.Like.sameKey first first', Values.Like.sameKeys rest rest']

end

end Reading

end TagTree
