import TagTree.Proofs.Trees

/-!
# Addresses

A node of a tree stands at an address: the place of the child that is taken at every level. An
address tells a node from others like it, and document order is the lexicographic order of
addresses.
-/

namespace TagTree

namespace Tree

variable {η τ : Type}

/-- The tree at an address. -/
def at? (t : Tree η τ) : List Nat → Option (Tree η τ)
  | [] => some t
  | i :: a => t.children[i]?.bind fun c => c.at? a

mutual

/-- The addresses of all nodes of a tree, each before those below it. -/
def addresses : Tree η τ → List (List Nat)
  | .closed _ => [[]]
  | .text _ _ => [[]]
  | .branch _ c => [] :: addressesFrom 0 c

/-- The addresses of all nodes of trees side by side, the first of which has a place. -/
def addressesFrom (place : Nat) : List (Tree η τ) → List (List Nat)
  | [] => []
  | t :: rest => (addresses t).map (place :: ·) ++ addressesFrom (place + 1) rest

end

section

variable {t x : Tree η τ} {ts : List (Tree η τ)} {a : List Nat} {i : Nat}

@[simp] theorem at?_nil (t : Tree η τ) : t.at? [] = some t := rfl

theorem at?_cons_eq_some_iff :
    t.at? (i :: a) = some x ↔ ∃ c, t.children[i]? = some c ∧ c.at? a = some x :=
  Option.bind_eq_some_iff

theorem addresses_eq (t : Tree η τ) : t.addresses = [] :: addressesFrom 0 t.children := by
  cases t <;> rfl

theorem nodes_eq (t : Tree η τ) : t.nodes = t :: nodesOf t.children := by
  cases t <;> rfl

/-! ### Which addresses there are -/

theorem mem_addressesFrom : a ∈ addressesFrom i ts ↔
    ∃ j c b, ts[j]? = some c ∧ b ∈ c.addresses ∧ a = (i + j) :: b := by
  induction ts generalizing i with
  | nil => simp [addressesFrom]
  | cons t ts ih =>
    rw [addressesFrom, List.mem_append, List.mem_map, ih]
    constructor
    · rintro (⟨b, hb, rfl⟩ | ⟨j, c, b, hc, hb, rfl⟩)
      · exact ⟨0, t, b, rfl, hb, rfl⟩
      · exact ⟨j + 1, c, b, hc, hb, congrArg (· :: b) (by omega)⟩
    · rintro ⟨j, c, b, hc, hb, rfl⟩
      cases j with
      | zero =>
        cases hc
        exact .inl ⟨b, hb, rfl⟩
      | succ j => exact .inr ⟨j, c, b, hc, hb, congrArg (· :: b) (by omega)⟩

/-- The addresses of a tree are those at which there is a node. -/
theorem mem_addresses : a ∈ t.addresses ↔ ∃ x, t.at? a = some x := by
  induction a generalizing t with
  | nil => simp [addresses_eq]
  | cons i a ih =>
    rw [addresses_eq, List.mem_cons, mem_addressesFrom]
    simp only [at?_cons_eq_some_iff]
    constructor
    · rintro (h | ⟨j, c, b, hc, hb, h⟩)
      · cases h
      · rw [Nat.zero_add] at h
        cases h
        obtain ⟨x, hx⟩ := ih.mp hb
        exact ⟨x, c, hc, hx⟩
    · rintro ⟨x, c, hc, hx⟩
      have inside : a ∈ c.addresses := ih.mpr ⟨x, hx⟩
      exact .inr ⟨i, c, a, hc, inside, by rw [Nat.zero_add]⟩

theorem mem_addressesFrom_children :
    a ∈ addressesFrom 0 t.children ↔ a ≠ [] ∧ ∃ x, t.at? a = some x := by
  have whole := mem_addresses (t := t) (a := a)
  rw [addresses_eq, List.mem_cons] at whole
  rw [← whole]
  constructor
  · intro h
    refine ⟨?_, .inr h⟩
    obtain ⟨j, c, b, -, -, rfl⟩ := mem_addressesFrom.mp h
    exact List.cons_ne_nil _ _
  · rintro ⟨hne, h⟩
    exact h.resolve_left hne

/-! ### Document order -/

theorem pairwise_addressesFrom (h : ∀ t ∈ ts, t.addresses.Pairwise (· < ·)) (i : Nat) :
    (addressesFrom i ts).Pairwise (· < ·) := by
  induction ts generalizing i with
  | nil => exact .nil
  | cons t ts ih =>
    have first : (t.addresses.map (i :: ·)).Pairwise (· < ·) := by
      rw [List.pairwise_map]
      refine (h t List.mem_cons_self).imp ?_
      intro a b hab
      exact List.cons_lt_cons_iff.mpr (.inr ⟨rfl, hab⟩)
    have rest := ih (fun t ht => h t (List.mem_cons_of_mem _ ht)) (i + 1)
    rw [addressesFrom, List.pairwise_append]
    refine ⟨first, rest, ?_⟩
    intro a ha b hb
    obtain ⟨a, -, rfl⟩ := List.mem_map.mp ha
    obtain ⟨j, c, b, -, -, rfl⟩ := mem_addressesFrom.mp hb
    exact List.cons_lt_cons_iff.mpr (.inl (by omega))

/-- Addresses ascend in document order. -/
theorem pairwise_addresses (t : Tree η τ) : t.addresses.Pairwise (· < ·) := by
  induction t using induct with
  | closed h => exact List.pairwise_singleton _ _
  | text h c => exact List.pairwise_singleton _ _
  | branch h ts ih =>
    rw [addresses]
    refine .cons ?_ (pairwise_addressesFrom ih 0)
    intro a ha
    obtain ⟨j, c, b, -, -, rfl⟩ := mem_addressesFrom.mp ha
    exact List.nil_lt_cons _ _

theorem map_addressesFrom {f : List Nat → Option (Tree η τ)}
    (h : ∀ t ∈ ts, t.addresses.map t.at? = t.nodes.map some)
    (hf : ∀ j c, ts[j]? = some c → ∀ b, f ((i + j) :: b) = c.at? b) :
    (addressesFrom i ts).map f = (nodesOf ts).map some := by
  induction ts generalizing i with
  | nil => rfl
  | cons t ts ih =>
    have first : (t.addresses.map (i :: ·)).map f = t.nodes.map some := by
      rw [List.map_map, ← h t List.mem_cons_self]
      exact List.map_congr_left fun b _ => hf 0 t rfl b
    have rest : (addressesFrom (i + 1) ts).map f = (nodesOf ts).map some := by
      refine ih (fun t ht => h t (List.mem_cons_of_mem _ ht)) ?_
      intro j c hc b
      rw [← hf (j + 1) c hc b]
      exact congrArg (fun k => f (k :: b)) (by omega)
    rw [addressesFrom, nodesOf, List.map_append, List.map_append, first, rest]

/-- Document order visits the nodes at all addresses one after another. -/
theorem map_addresses (t : Tree η τ) : t.addresses.map t.at? = t.nodes.map some := by
  induction t using induct with
  | closed h => rfl
  | text h c => rfl
  | branch h ts ih =>
    have inside : (addressesFrom 0 ts).map (branch h ts).at? = (nodesOf ts).map some := by
      refine map_addressesFrom ih ?_
      intro j c hc b
      rw [Nat.zero_add, at?, children, hc, Option.bind_some]
    rw [addresses, nodes, List.map_cons, List.map_cons, inside, at?_nil]

theorem pairwise_addressesFrom_children (t : Tree η τ) :
    (addressesFrom 0 t.children).Pairwise (· < ·) := by
  have whole := pairwise_addresses t
  rw [addresses_eq] at whole
  exact (List.pairwise_cons.mp whole).2

theorem map_addressesFrom_children (t : Tree η τ) :
    (addressesFrom 0 t.children).map t.at? = (nodesOf t.children).map some := by
  have whole := map_addresses t
  rw [addresses_eq, nodes_eq, List.map_cons, List.map_cons] at whole
  exact List.tail_eq_of_cons_eq whole

end

end Tree

end TagTree
