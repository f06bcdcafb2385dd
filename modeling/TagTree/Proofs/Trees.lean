import Mathlib.Data.List.Forall2
import TagTree.Tree

/-!
# Shapes of trees

Trees are compared node by node where they have one shape, and a property of a tree is one of
its heads and contents. What is proved of a node from its children is proved of every tree.
-/

namespace TagTree

/-! ### Related lists -/

/-- A relation may use that its first partner is in the list. -/
theorem forall₂_imp_of_mem {α β : Type} {r s : α → β → Prop} {xs : List α} {ys : List β}
    (h : ∀ x ∈ xs, ∀ y, r x y → s x y) (related : List.Forall₂ r xs ys) :
    List.Forall₂ s xs ys := by
  induction related with
  | nil => exact .nil
  | cons first rest ih =>
    refine .cons (h _ List.mem_cons_self _ first) ?_
    exact ih fun x hx => h x (List.mem_cons_of_mem _ hx)

theorem forall₂_congr_of_mem {α β : Type} {r s : α → β → Prop} {xs : List α} {ys : List β}
    (h : ∀ x ∈ xs, ∀ y, r x y ↔ s x y) : List.Forall₂ r xs ys ↔ List.Forall₂ s xs ys :=
  ⟨forall₂_imp_of_mem fun x hx y => (h x hx y).mp, forall₂_imp_of_mem fun x hx y => (h x hx y).mpr⟩

/-- Partners are found for a list where every element has one. -/
theorem exists_forall₂_iff {α β : Type} {r : α → β → Prop} {xs : List α} :
    (∃ ys, List.Forall₂ r xs ys) ↔ ∀ x ∈ xs, ∃ y, r x y := by
  induction xs with
  | nil => simp
  | cons x xs ih =>
    rw [List.forall_mem_cons, ← ih]
    constructor
    · rintro ⟨_, first | ⟨first, rest⟩⟩
      exact ⟨⟨_, first⟩, _, rest⟩
    · rintro ⟨⟨y, first⟩, ys, rest⟩
      exact ⟨y :: ys, .cons first rest⟩

namespace Tree

variable {η η' τ τ' : Type}

/-- A tree is had from its nodes: what holds of a node once it holds of its children holds. -/
@[elab_as_elim]
theorem induct {motive : Tree η τ → Prop} (closed : ∀ h, motive (.closed h))
    (text : ∀ h c, motive (.text h c))
    (branch : ∀ h ts, (∀ t ∈ ts, motive t) → motive (.branch h ts)) : ∀ t, motive t
  | .closed h => closed h
  | .text h c => text h c
  | .branch h ts => branch h ts fun t _ => induct closed text branch t

/-! ### Lists of trees -/

theorem nodesOf_eq_flatMap (ts : List (Tree η τ)) : nodesOf ts = ts.flatMap nodes := by
  induction ts with
  | nil => rfl
  | cons t ts ih => rw [nodesOf, List.flatMap_cons, ih]

/-! ### Levels -/

mutual

def levels (depth : Nat) : Tree η τ → List (Nat × η)
  | .closed h => [(depth, h)]
  | .text h _ => [(depth, h)]
  | .branch h c => (depth, h) :: levelsOf (depth + 1) c

def levelsOf (depth : Nat) : List (Tree η τ) → List (Nat × η)
  | [] => []
  | t :: rest => levels depth t ++ levelsOf depth rest

end

mutual

theorem map_levels (depth : Nat) : ∀ t : Tree η τ,
    (levels depth t).map Prod.snd = t.nodes.map Tree.head
  | .closed h => rfl
  | .text h c => rfl
  | .branch h c => by
    simp only [levels, nodes, List.map_cons, map_levelsOf (depth + 1) c, Tree.head]

theorem map_levelsOf (depth : Nat) : ∀ ts : List (Tree η τ),
    (levelsOf depth ts).map Prod.snd = (nodesOf ts).map Tree.head
  | [] => rfl
  | t :: rest => by
    simp only [levelsOf, nodesOf, List.map_append, map_levels depth t, map_levelsOf depth rest]

end

theorem levelsOf_eq_flatMap (depth : Nat) (ts : List (Tree η τ)) :
    levelsOf depth ts = ts.flatMap (levels depth) := by
  induction ts with
  | nil => rfl
  | cons t ts ih => rw [levelsOf, List.flatMap_cons, ih]

mutual

/-- How many levels a tree reaches below its top, where a content stands below its node. -/
def height : Tree η τ → Nat
  | .closed _ => 0
  | .text _ _ => 1
  | .branch _ c => heightOf c

def heightOf : List (Tree η τ) → Nat
  | [] => 0
  | t :: rest => max (height t + 1) (heightOf rest)

end

theorem le_heightOf {j : Nat} {ts : List (Tree η τ)} :
    j ≤ heightOf ts ↔ j = 0 ∨ ∃ t ∈ ts, j ≤ t.height + 1 := by
  induction ts with
  | nil => simp [heightOf]
  | cons t ts ih =>
    have split : j ≤ max (t.height + 1) (heightOf ts) ↔ j ≤ t.height + 1 ∨ j ≤ heightOf ts := by
      omega
    rw [heightOf, split, ih, List.exists_mem_cons_iff, or_left_comm]

/-! ### Trees of one shape -/

/-- Trees of one shape with related heads and related contents. -/
inductive Like (H : η → η' → Prop) (C : τ → τ' → Prop) :
    Tree η τ → Tree η' τ' → Prop
  | closed {h h'} (head : H h h') : Like H C (.closed h) (.closed h')
  | text {h h' c c'} (head : H h h') (content : C c c') : Like H C (.text h c) (.text h' c')
  | branch {h h' ts ts'} (head : H h h') (children : List.Forall₂ (Like H C) ts ts') :
      Like H C (.branch h ts) (.branch h' ts')

/-- Every head and every content of a tree is as asked. -/
inductive Every (H : η → Prop) (C : τ → Prop) : Tree η τ → Prop
  | closed {h} (head : H h) : Every H C (.closed h)
  | text {h c} (head : H h) (content : C c) : Every H C (.text h c)
  | branch {h ts} (head : H h) (children : ∀ t ∈ ts, Every H C t) : Every H C (.branch h ts)

section

variable {H K : η → η' → Prop} {C D : τ → τ' → Prop} {h : η} {c : τ} {ts : List (Tree η τ)}
  {t : Tree η τ} {t' : Tree η' τ'}

theorem closed_like_iff : Like H C (.closed h) t' ↔ ∃ h', H h h' ∧ t' = .closed h' := by
  constructor
  · rintro (head | _ | _)
    exact ⟨_, head, rfl⟩
  · rintro ⟨h', head, rfl⟩
    exact .closed head

theorem text_like_iff :
    Like H C (.text h c) t' ↔ ∃ h' c', H h h' ∧ C c c' ∧ t' = .text h' c' := by
  constructor
  · rintro (_ | ⟨head, content⟩ | _)
    exact ⟨_, _, head, content, rfl⟩
  · rintro ⟨h', c', head, content, rfl⟩
    exact .text head content

theorem branch_like_iff : Like H C (.branch h ts) t' ↔
    ∃ h' ts', H h h' ∧ List.Forall₂ (Like H C) ts ts' ∧ t' = .branch h' ts' := by
  constructor
  · rintro (_ | _ | ⟨head, children⟩)
    exact ⟨_, _, head, children, rfl⟩
  · rintro ⟨h', ts', head, children, rfl⟩
    exact .branch head children

theorem Like.head (l : Like H C t t') : H t.head t'.head := by
  cases l with
  | closed head => exact head
  | text head content => exact head
  | branch head children => exact head

theorem Like.flip (l : Like H C t t') : Like (fun h' h => H h h') (fun c' c => C c c') t' t := by
  induction t using induct generalizing t' with
  | closed h =>
    obtain ⟨h', head, rfl⟩ := closed_like_iff.mp l
    exact .closed head
  | text h c =>
    obtain ⟨h', c', head, content, rfl⟩ := text_like_iff.mp l
    exact .text head content
  | branch h ts ih =>
    obtain ⟨h', ts', head, children, rfl⟩ := branch_like_iff.mp l
    exact .branch head (forall₂_imp_of_mem (fun t ht t' below => ih t ht below) children).flip

/-- Related trees stay related where the relations of heads and contents grow on what is in the
first. -/
theorem Like.imp_of_every
    (every : t.Every (fun h => ∀ h', H h h' → K h h') fun c => ∀ c', C c c' → D c c')
    (l : Like H C t t') : Like K D t t' := by
  induction t using induct generalizing t' with
  | closed h =>
    obtain ⟨h', head, rfl⟩ := closed_like_iff.mp l
    cases every with
    | closed grows => exact .closed (grows _ head)
  | text h c =>
    obtain ⟨h', c', head, content, rfl⟩ := text_like_iff.mp l
    cases every with
    | text grows contents => exact .text (grows _ head) (contents _ content)
  | branch h ts ih =>
    obtain ⟨h', ts', head, children, rfl⟩ := branch_like_iff.mp l
    cases every with
    | branch grows inside =>
      refine .branch (grows _ head) (forall₂_imp_of_mem (fun t ht t' below => ?_) children)
      exact ih t ht (inside t ht) below

end

section

variable {P Q : η → Prop} {C D : τ → Prop} {h : η} {c : τ} {ts : List (Tree η τ)} {t : Tree η τ}

theorem every_closed_iff : (Tree.closed h : Tree η τ).Every P C ↔ P h :=
  ⟨fun | .closed head => head, .closed⟩

theorem every_text_iff : (Tree.text h c).Every P C ↔ P h ∧ C c :=
  ⟨fun | .text head content => ⟨head, content⟩, fun ⟨head, content⟩ => .text head content⟩

theorem every_branch_iff : (Tree.branch h ts).Every P C ↔ P h ∧ ∀ t ∈ ts, t.Every P C :=
  ⟨fun | .branch head children => ⟨head, children⟩,
    fun ⟨head, children⟩ => .branch head children⟩

theorem Every.imp (hh : ∀ h, P h → Q h) (hc : ∀ c, C c → D c) (every : t.Every P C) :
    t.Every Q D := by
  induction every with
  | closed head => exact .closed (hh _ head)
  | text head content => exact .text (hh _ head) (hc _ content)
  | branch head _ ih => exact .branch (hh _ head) ih

theorem Every.all (hh : ∀ h, P h) (hc : ∀ c, C c) (t : Tree η τ) : t.Every P C := by
  induction t using induct with
  | closed h => exact .closed (hh h)
  | text h c => exact .text (hh h) (hc c)
  | branch h ts ih => exact .branch (hh h) ih

end

/-- Trees stay related where the relations of heads and contents grow. -/
theorem Like.imp {H K : η → η' → Prop} {C D : τ → τ' → Prop} (hh : ∀ h h', H h h' → K h h')
    (hc : ∀ c c', C c c' → D c c') {t : Tree η τ} {t' : Tree η' τ'} (l : Like H C t t') :
    Like K D t t' :=
  l.imp_of_every (.all (fun h => hh h) (fun c => hc c) t)

theorem Like.refl {H : η → η → Prop} {C : τ → τ → Prop} (hh : ∀ h, H h h) (hc : ∀ c, C c c)
    (t : Tree η τ) : Like H C t t := by
  induction t using induct with
  | closed h => exact .closed (hh h)
  | text h c => exact .text (hh h) (hc c)
  | branch h ts ih =>
    refine .branch (hh h) ?_
    induction ts with
    | nil => exact .nil
    | cons t ts ihr =>
      exact .cons (ih t List.mem_cons_self) (ihr fun t ht => ih t (List.mem_cons_of_mem _ ht))

/-- A tree has a like one where every head and every content has a related one. -/
theorem exists_like_iff {H : η → η' → Prop} {C : τ → τ' → Prop} {t : Tree η τ} :
    (∃ t', Like H C t t') ↔ t.Every (fun h => ∃ h', H h h') fun c => ∃ c', C c c' := by
  induction t using induct with
  | closed h =>
    rw [every_closed_iff]
    constructor
    · rintro ⟨_, l⟩
      exact ⟨_, l.head⟩
    · rintro ⟨h', head⟩
      exact ⟨_, .closed head⟩
  | text h c =>
    rw [every_text_iff]
    constructor
    · rintro ⟨_, _ | ⟨head, content⟩ | _⟩
      exact ⟨⟨_, head⟩, _, content⟩
    · rintro ⟨⟨h', head⟩, c', content⟩
      exact ⟨_, .text head content⟩
  | branch h ts ih =>
    have children : (∀ t ∈ ts, t.Every (fun h => ∃ h', H h h') fun c => ∃ c', C c c') ↔
        ∃ ts', List.Forall₂ (Like H C) ts ts' := by
      rw [exists_forall₂_iff]
      exact forall₂_congr fun t ht => (ih t ht).symm
    rw [every_branch_iff, children]
    constructor
    · rintro ⟨_, _ | _ | ⟨head, children⟩⟩
      exact ⟨⟨_, head⟩, _, children⟩
    · rintro ⟨⟨h', head⟩, ts', children⟩
      exact ⟨_, .branch head children⟩

/-! ### What like trees have in common -/

section

variable {H : η → η' → Prop} {C : τ → τ' → Prop} {t : Tree η τ} {t' : Tree η' τ'}

/-- Nodes of trees of one shape correspond in document order, as the trees below them do. -/
theorem Like.nodes (l : Like H C t t') : List.Forall₂ (Like H C) t.nodes t'.nodes := by
  induction t using induct generalizing t' with
  | closed h =>
    obtain ⟨h', head, rfl⟩ := closed_like_iff.mp l
    exact .cons l .nil
  | text h c =>
    obtain ⟨h', c', head, content, rfl⟩ := text_like_iff.mp l
    exact .cons l .nil
  | branch h ts ih =>
    obtain ⟨h', ts', head, children, rfl⟩ := branch_like_iff.mp l
    refine .cons l ?_
    rw [nodesOf_eq_flatMap, nodesOf_eq_flatMap]
    exact List.rel_flatMap (forall₂_imp_of_mem (fun t ht t' below => ih t ht below) children)
      fun _ _ below => below

/-- The nodes of trees of one shape stand at the same levels. -/
theorem Like.levels (l : Like H C t t') (depth : Nat) :
    List.Forall₂ (fun x y => y.1 = x.1 ∧ H x.2 y.2) (t.levels depth) (t'.levels depth) := by
  induction t using induct generalizing t' depth with
  | closed h =>
    obtain ⟨h', head, rfl⟩ := closed_like_iff.mp l
    exact .cons ⟨rfl, head⟩ .nil
  | text h c =>
    obtain ⟨h', c', head, content, rfl⟩ := text_like_iff.mp l
    exact .cons ⟨rfl, head⟩ .nil
  | branch h ts ih =>
    obtain ⟨h', ts', head, children, rfl⟩ := branch_like_iff.mp l
    refine .cons ⟨rfl, head⟩ ?_
    rw [levelsOf_eq_flatMap, levelsOf_eq_flatMap]
    exact List.rel_flatMap
      (forall₂_imp_of_mem (fun t ht t' below => ih t ht below (depth + 1)) children)
      fun _ _ below => below

end

end Tree

end TagTree
