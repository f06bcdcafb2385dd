import TagTree.Proofs.Addresses
import TagTree.Proofs.Bounds
import TagTree.Proofs.Performed

/-!
# Searches for tags

The walk over an element and the search for all elements with a tag go through what is below it in
document order. The search for one element does not: it looks at all children of an element before
it goes below any of them.
-/

namespace TagTree

namespace Tree

variable {η τ : Type} {p : η → Bool} {t x c : Tree η τ} {ts : List (Tree η τ)} {a : List Nat}

/-! ### All matches -/

theorem findAll_eq (p : η → Bool) (t : Tree η τ) : t.findAll p = findAllIn p t.children := by
  cases t <;> rfl

/-- The matches below a node are the nodes below it that match, in document order. -/
theorem findAll_eq_filter (p : η → Bool) (t : Tree η τ) :
    t.findAll p = (nodesOf t.children).filter fun x => p x.head := by
  induction t using induct with
  | closed h => rfl
  | text h c => rfl
  | branch h ts ih =>
    rw [findAll_eq, children]
    induction ts with
    | nil => rfl
    | cons t ts ihr =>
      have first := ih t List.mem_cons_self
      have rest := ihr fun x hx => ih x (List.mem_cons_of_mem t hx)
      rw [findAllIn, first, rest, nodesOf, nodes_eq, List.cons_append, List.filter_cons,
        List.filter_append]
      split
      · rfl
      · rfl

/-! ### Matches by address -/

/-- A node below the topmost one matches. -/
def Hit (p : η → Bool) (t : Tree η τ) (a : List Nat) : Prop :=
  a ≠ [] ∧ ∃ x, t.at? a = some x ∧ p x.head = true

/-- The addresses of the matches in document order. -/
def hits (p : η → Bool) (t : Tree η τ) : List (List Nat) :=
  (addressesFrom 0 t.children).filter fun a => (t.at? a).any fun x => p x.head

theorem mem_hits : a ∈ t.hits p ↔ t.Hit p a := by
  rw [hits, List.mem_filter, mem_addressesFrom_children]
  constructor
  · rintro ⟨⟨hne, x, hx⟩, hp⟩
    rw [hx, Option.any_some] at hp
    exact ⟨hne, x, hx, hp⟩
  · rintro ⟨hne, x, hx, hp⟩
    refine ⟨⟨hne, x, hx⟩, ?_⟩
    rw [hx, Option.any_some]
    exact hp

theorem pairwise_hits (p : η → Bool) (t : Tree η τ) : (t.hits p).Pairwise (· < ·) :=
  (pairwise_addressesFrom_children t).filter _

/-- All matches stand at the addresses of the matches. -/
theorem map_hits (p : η → Bool) (t : Tree η τ) :
    (t.hits p).map t.at? = (t.findAll p).map some := by
  have matching : ((addressesFrom 0 t.children).map t.at?).filter (Option.any fun x => p x.head) =
      (t.hits p).map t.at? := by
    rw [List.filter_map]
    rfl
  rw [← matching, map_addressesFrom_children, List.filter_map, findAll_eq_filter]
  rfl

theorem Hit.cons {i : Nat} (hc : t.children[i]? = some c) (h : c.Hit p a) : t.Hit p (i :: a) := by
  obtain ⟨-, x, hx, hp⟩ := h
  exact ⟨List.cons_ne_nil _ _, x, at?_cons_eq_some_iff.mpr ⟨c, hc, hx⟩, hp⟩

/-- A match is a child or stands below one. -/
theorem hit_cons_iff {i : Nat} : t.Hit p (i :: a) ↔
    ∃ c, t.children[i]? = some c ∧ (c.Hit p a ∨ (a = [] ∧ p c.head = true)) := by
  constructor
  · rintro ⟨-, x, hx, hp⟩
    obtain ⟨c, hc, hx⟩ := at?_cons_eq_some_iff.mp hx
    refine ⟨c, hc, ?_⟩
    by_cases ha : a = []
    · subst ha
      cases hx
      exact .inr ⟨rfl, hp⟩
    · exact .inl ⟨ha, x, hx, hp⟩
  · rintro ⟨c, hc, h | ⟨rfl, hp⟩⟩
    · exact h.cons hc
    · exact ⟨List.cons_ne_nil _ _, c, at?_cons_eq_some_iff.mpr ⟨c, hc, rfl⟩, hp⟩

/-! ### One match -/

/-- Where a search ends that looks at all children of a node before it goes below any of them. It
follows the way to the first match until children match, and takes the first of these. -/
structure Meets (hit : List Nat → Prop) (first : List Nat) (k i : Nat) : Prop where
  within : k < first.length
  above : ∀ j < k, ∀ c, ¬ hit (first.take j ++ [c])
  child : hit (first.take k ++ [i])
  least : ∀ c < i, ¬ hit (first.take k ++ [c])

theorem find?_eq (p : η → Bool) (t : Tree η τ) : t.find? p =
    ((t.children.find? fun c => p c.head) <|> findBelow? p t.children) := by
  cases t <;> rfl

theorem findBelow?_eq_none (h : ∀ t ∈ ts, t.find? p = none) : findBelow? p ts = none := by
  induction ts with
  | nil => rfl
  | cons t ts ih =>
    rw [findBelow?, h t List.mem_cons_self]
    exact ih fun x hx => h x (List.mem_cons_of_mem t hx)

/-- What is found below is found below the first node below which anything is found. -/
theorem findBelow?_eq_some {i : Nat} (hc : ts[i]? = some c) (found : c.find? p = some x)
    (before : ∀ j d, j < i → ts[j]? = some d → d.find? p = none) : findBelow? p ts = some x := by
  induction ts generalizing i with
  | nil => cases hc
  | cons t ts ih =>
    cases i with
    | zero =>
      cases hc
      rw [findBelow?, found]
      rfl
    | succ i =>
      have first : t.find? p = none := before 0 t (Nat.succ_pos i) rfl
      have rest : findBelow? p ts = some x :=
        ih hc fun j d hj hd => before (j + 1) d (Nat.succ_lt_succ hj) hd
      rw [findBelow?, first, rest]
      rfl

theorem find?_children (unhit : ∀ i, ¬ t.Hit p [i]) :
    t.children.find? (fun c => p c.head) = none := by
  rw [List.find?_eq_none]
  intro c hc hp
  obtain ⟨i, hi⟩ := List.mem_iff_getElem?.mp hc
  exact unhit i (hit_cons_iff.mpr ⟨c, hi, .inr ⟨rfl, hp⟩⟩)

theorem find?_of_no_hit (unhit : ∀ a, ¬ t.Hit p a) : t.find? p = none := by
  induction t using induct with
  | closed h => rfl
  | text h c => rfl
  | branch h ts ih =>
    have below : findBelow? p ts = none := by
      refine findBelow?_eq_none fun c hc => ih c hc fun a ha => ?_
      obtain ⟨i, hi⟩ := List.mem_iff_getElem?.mp hc
      exact unhit (i :: a) (ha.cons hi)
    rw [find?_eq, find?_children fun i => unhit [i], children, below]
    rfl

/-- The first of the children that match is found before anything below a child. -/
theorem find?_child {i : Nat} (hc : t.children[i]? = some c) (hp : p c.head = true)
    (least : ∀ j < i, ∀ d, t.children[j]? = some d → p d.head = false) :
    t.find? p = some c := by
  have first : t.children.find? (fun c => p c.head) = some c := by
    rw [List.find?_eq_some_iff_getElem]
    obtain ⟨hi, hget⟩ := List.getElem?_eq_some_iff.mp hc
    refine ⟨hp, i, hi, hget, fun j hj => ?_⟩
    have lower := least j hj _ (List.getElem?_eq_getElem (Nat.lt_trans hj hi))
    rw [lower]
    rfl
  rw [find?_eq, first]
  rfl

/-- Where no child matches, the search goes below the first child below which there is a match. -/
theorem find?_below {i : Nat} (unhit : ∀ j, ¬ t.Hit p [j]) (hc : t.children[i]? = some c)
    (found : c.find? p = some x)
    (before : ∀ j d, j < i → t.children[j]? = some d → ∀ b, ¬ d.Hit p b) :
    t.find? p = some x := by
  have below : findBelow? p t.children = some x :=
    findBelow?_eq_some hc found fun j d hj hd => find?_of_no_hit (before j d hj hd)
  rw [find?_eq, find?_children unhit, below]
  rfl

theorem Hit.deeper {i : Nat} (hit : t.Hit p (i :: a)) (hc : t.children[i]? = some c)
    (ha : a ≠ []) : c.Hit p a := by
  obtain ⟨d, hd, below | ⟨rfl, -⟩⟩ := hit_cons_iff.mp hit
  · cases hd.symm.trans hc
    exact below
  · exact absurd rfl ha

theorem Meets.cons {i k l : Nat} (unhit : ∀ j, ¬ t.Hit p [j]) (hc : t.children[i]? = some c)
    (meets : Meets (c.Hit p) a k l) : Meets (t.Hit p) (i :: a) (k + 1) l where
  within := Nat.succ_lt_succ meets.within
  above j hj b hit := by
    cases j with
    | zero => exact unhit b hit
    | succ j => exact meets.above j (Nat.lt_of_succ_lt_succ hj) b (hit.deeper hc (by simp))
  child := meets.child.cons hc
  least b hb hit := meets.least b hb (hit.deeper hc (by simp))

/-- Where a child matches, the way to the first match is left at once. -/
theorem find?_meets_child {first : List Nat} (within : 0 < first.length)
    (child : ∃ j, t.Hit p [j]) :
    ∃ i, Meets (t.Hit p) first 0 i ∧ t.find? p = t.at? [i] := by
  classical
  have lowest : ∀ j < Nat.find child, ¬ t.Hit p [j] := fun j hj => Nat.find_min child hj
  obtain ⟨c, hc, inside | ⟨-, hp⟩⟩ := hit_cons_iff.mp (Nat.find_spec child)
  · exact absurd rfl inside.1
  · have found : t.find? p = some c := by
      refine find?_child hc hp fun j hj d hd => ?_
      by_contra hpd
      rw [Bool.not_eq_false] at hpd
      exact lowest j hj (hit_cons_iff.mpr ⟨d, hd, .inr ⟨rfl, hpd⟩⟩)
    refine ⟨Nat.find child, ⟨within, ?_, Nat.find_spec child, lowest⟩, ?_⟩
    · intro j hj
      exact absurd hj (Nat.not_lt_zero j)
    · rw [found]
      exact (at?_cons_eq_some_iff.mpr ⟨c, hc, rfl⟩).symm

/-- The search follows the way to the first match in document order, and leaves it where children
match. -/
theorem find?_meets {first : List Nat} (hit : t.Hit p first)
    (least : ∀ b, t.Hit p b → ¬ b < first) :
    ∃ k i, Meets (t.Hit p) first k i ∧ t.find? p = t.at? (first.take k ++ [i]) := by
  -- the way goes down with the address, so the induction is on it and not on the tree
  induction first generalizing t with
  | nil => exact absurd rfl hit.1
  | cons i a ih =>
    by_cases child : ∃ j, t.Hit p [j]
    · have within : 0 < (i :: a).length := Nat.succ_pos _
      obtain ⟨j, meets, found⟩ := find?_meets_child within child
      exact ⟨0, j, meets, found⟩
    · have unhit : ∀ j, ¬ t.Hit p [j] := fun j hj => child ⟨j, hj⟩
      obtain ⟨c, hc, inside | ⟨rfl, -⟩⟩ := hit_cons_iff.mp hit
      · have below : ∀ b, c.Hit p b → ¬ b < a := by
          intro b hb hba
          exact least (i :: b) (hb.cons hc) (List.cons_lt_cons_iff.mpr (.inr ⟨rfl, hba⟩))
        have before : ∀ j d, j < i → t.children[j]? = some d → ∀ b, ¬ d.Hit p b := by
          intro j d hj hd b hb
          exact least (j :: b) (hb.cons hd) (List.cons_lt_cons_iff.mpr (.inl hj))
        obtain ⟨k, l, meets, found⟩ := ih inside below
        obtain ⟨y, hy⟩ : ∃ y, c.at? (a.take k ++ [l]) = some y := by
          obtain ⟨-, y, hy, -⟩ := meets.child
          exact ⟨y, hy⟩
        refine ⟨k + 1, l, meets.cons unhit hc, ?_⟩
        rw [find?_below unhit hc (found.trans hy) before, List.take_succ_cons, List.cons_append]
        exact (at?_cons_eq_some_iff.mpr ⟨c, hc, hy⟩).symm
      · exact absurd hit (unhit i)

/-- The search ends at the first match where no child matches above its siblings. -/
theorem Meets.eq_first_iff {hit : List Nat → Prop} {first : List Nat} {k i : Nat}
    (meets : Meets hit first k i) (isHit : hit first) (least : ∀ b, hit b → ¬ b < first) :
    first.take k ++ [i] = first ↔
      ∀ j, j + 1 < first.length → ∀ c, ¬ hit (first.take j ++ [c]) := by
  have within := meets.within
  constructor
  · intro h j hj c
    have length := congrArg List.length h
    rw [List.length_append, List.length_take, List.length_singleton] at length
    exact meets.above j (by omega) c
  · intro unhit
    have last : k + 1 = first.length := by
      by_contra hk
      exact unhit k (by omega) i meets.child
    have split : first.take k ++ [first[k]] = first := by
      rw [← List.take_succ_eq_append_getElem within, last, List.take_length]
    have atMost : ¬ first[k] < i := fun h => meets.least _ h (by rw [split]; exact isHit)
    have atLeast : ¬ i < first[k] := by
      intro h
      have before : first.take k ++ [i] < first.take k ++ [first[k]] :=
        List.append_left_lt (List.cons_lt_cons_iff.mpr (.inl h))
      rw [split] at before
      exact least _ meets.child before
    have same : i = first[k] := by omega
    rw [same, split]

end Tree

/-! ### Elements at addresses -/

namespace Store

variable {s : Store} {n : Nat} {e d : ElementRef} {t x : ElementTree} {a : List Nat}

/-- The element at an address below an element. -/
def descend? (s : Store) (e : ElementRef) : List Nat → Option ElementRef
  | [] => some e
  | i :: a => ((s.element? e).bind fun x => x.children[i]?).bind fun d => s.descend? d a

/-- The tree at an address is the tree of the element at this address. -/
theorem descend?_of_treeWithin (ht : s.treeWithin n e = some t) (a : List Nat) :
    s.descend? e a = (t.at? a).map fun x => x.head.ref := by
  induction a generalizing n e t with
  | nil =>
    obtain ⟨x, -, head⟩ := head_of_treeWithin ht
    rw [descend?, Tree.at?_nil, Option.map_some, head]
  | cons i a ih =>
    cases n with
    | zero => cases ht
    | succ n =>
      obtain ⟨x, hx, -⟩ := head_of_treeWithin ht
      have children := List.forall₂_iff_get.mp (children_of_treeWithin ht hx)
      rw [descend?, hx, Option.bind_some, Tree.at?]
      by_cases hi : i < x.children.length
      · have hti : i < t.children.length := children.1 ▸ hi
        have below : s.treeWithin n x.children[i] = some t.children[i] := children.2 i hi hti
        rw [List.getElem?_eq_getElem hi, List.getElem?_eq_getElem hti, Option.bind_some,
          Option.bind_some, ih below]
      · rw [List.getElem?_eq_none (by omega), List.getElem?_eq_none (by omega)]
        rfl

theorem treeWithin_at (ht : s.treeWithin n e = some t) (hx : t.at? a = some x) :
    s.treeWithin n x.head.ref = some x := by
  induction a generalizing n e t with
  | nil =>
    cases hx
    obtain ⟨y, -, head⟩ := head_of_treeWithin ht
    rw [head]
    exact ht
  | cons i a ih =>
    cases n with
    | zero => cases ht
    | succ n =>
      obtain ⟨y, hy, -⟩ := head_of_treeWithin ht
      obtain ⟨c, hc, hx⟩ := Tree.at?_cons_eq_some_iff.mp hx
      obtain ⟨d, -, hd⟩ :=
        exists_of_forall₂ (children_of_treeWithin ht hy) (List.mem_of_getElem? hc)
      exact treeWithin_mono (Nat.le_succ n) (ih hd hx)

theorem height_at (hx : t.at? a = some x) : a.length + x.height ≤ t.height := by
  induction a generalizing t with
  | nil =>
    cases hx
    simp
  | cons i a ih =>
    obtain ⟨c, hc, hx⟩ := Tree.at?_cons_eq_some_iff.mp hx
    have below := ih hx
    have member : c ∈ t.children := List.mem_of_getElem? hc
    cases t with
    | closed h => cases member
    | text h v => cases member
    | branch h ts =>
      have atLeast : c.height + 1 ≤ Tree.heightOf ts :=
        Tree.le_heightOf.mpr (.inr ⟨c, member, le_rfl⟩)
      rw [List.length_cons, Tree.height]
      omega

/-- No element stands below itself in its tree. -/
theorem descend?_ne_self (ht : s.treeWithin n e = some t) (ha : a ≠ []) :
    s.descend? e a ≠ some e := by
  intro self
  rw [descend?_of_treeWithin ht, Option.map_eq_some_iff] at self
  obtain ⟨x, hx, href⟩ := self
  have same : x = t := by
    have inner := treeWithin_at ht hx
    rw [href, ht] at inner
    exact (Option.some.inj inner).symm
  have tall := height_at hx
  have long : 0 < a.length := List.length_pos_of_ne_nil ha
  rw [same] at tall
  omega

end Store

namespace World

variable {w : World} {e : ElementRef} {t x : ElementTree} {a : List Nat}

/-- An element has a tag. -/
def Tagged (w : World) (tag : Value) (e : ElementRef) : Prop :=
  Value.sameKey (.text (w.tagOf e)) tag = true

instance (w : World) (tag : Value) (e : ElementRef) : Decidable (w.Tagged tag e) :=
  inferInstanceAs (Decidable (_ = true))

/-- Below an element there is an element with a tag at an address. -/
def Match (w : World) (e : ElementRef) (tag : Value) (a : List Nat) : Prop :=
  a ≠ [] ∧ ∃ d, w.store.descend? e a = some d ∧ w.Tagged tag d

/-- A text is the tag of an element where the two are equal. -/
theorem tagged_text_iff {tag : String} : w.Tagged (.text tag) e ↔ w.tagOf e = tag := by
  simp [Tagged, Value.sameKey, Atom.same, Atom.equal]

theorem tagged_head (found : w.store.tree? e = some t) (hx : t.at? a = some x) {tag : Value} :
    w.Tagged tag x.head.ref ↔ hasTag tag x.head = true := by
  obtain ⟨y, hy, head⟩ := Store.head_of_treeWithin (Store.treeWithin_at found hx)
  rw [Tagged, hasTag, tagOf, hy, head]
  rfl

theorem match_iff_hit (found : w.store.tree? e = some t) {tag : Value} :
    w.Match e tag a ↔ t.Hit (hasTag tag) a := by
  unfold Match Tree.Hit
  refine and_congr_right fun _ => ?_
  rw [Store.descend?_of_treeWithin found]
  constructor
  · rintro ⟨d, hd, tagged⟩
    obtain ⟨x, hx, rfl⟩ := Option.map_eq_some_iff.mp hd
    exact ⟨x, hx, (tagged_head found hx).mp tagged⟩
  · rintro ⟨x, hx, tagged⟩
    exact ⟨_, Option.map_eq_some_iff.mpr ⟨x, hx, rfl⟩, (tagged_head found hx).mpr tagged⟩

end World

/-! ### What searches give -/

/-- The elements at some addresses below an element, in document order. -/
structure Store.InDocumentOrder (s : Store) (e : ElementRef) (chosen : List Nat → Prop)
    (places : List (List Nat)) (es : List ElementRef) : Prop where
  ascending : places.Pairwise (· < ·)
  chosen : ∀ a, a ∈ places ↔ chosen a
  there : places.map (s.descend? e) = es.map some

section

variable {w : World} {e : ElementRef} {t : ElementTree}

theorem descend?_map_of_at? (found : w.store.tree? e = some t) {places : List (List Nat)}
    {xs : List ElementTree} (there : places.map t.at? = xs.map some) :
    places.map (w.store.descend? e) = (xs.map fun x => x.head.ref).map some := by
  have descend : places.map (w.store.descend? e) =
      (places.map t.at?).map (Option.map fun x => x.head.ref) := by
    rw [List.map_map]
    exact List.map_congr_left fun a _ => Store.descend?_of_treeWithin found a
  rw [descend, there, List.map_map, List.map_map]
  rfl

theorem all_inDocumentOrder (found : w.store.tree? e = some t) :
    w.store.InDocumentOrder e (fun a => a ≠ [] ∧ ∃ d, w.store.descend? e a = some d)
      (Tree.addressesFrom 0 t.children) ((Tree.nodesOf t.children).map fun x => x.head.ref) where
  ascending := Tree.pairwise_addressesFrom_children t
  chosen a := by
    rw [Tree.mem_addressesFrom_children, Store.descend?_of_treeWithin found]
    simp only [Option.map_eq_some_iff]
    exact and_congr_right fun _ => ⟨fun ⟨x, hx⟩ => ⟨_, x, hx, rfl⟩, fun ⟨_, x, hx, _⟩ => ⟨x, hx⟩⟩
  there := descend?_map_of_at? found (Tree.map_addressesFrom_children t)

theorem hits_inDocumentOrder (found : w.store.tree? e = some t) (tag : Value) :
    w.store.InDocumentOrder e (w.Match e tag) (t.hits (World.hasTag tag))
      ((t.findAll (World.hasTag tag)).map fun x => x.head.ref) where
  ascending := Tree.pairwise_hits _ t
  chosen a := by rw [Tree.mem_hits, World.match_iff_hit found]
  there := descend?_map_of_at? found (Tree.map_hits _ t)

/-- All matches are the nodes below the topmost one whose elements have the tag. -/
theorem refs_findAll (found : w.store.tree? e = some t) (tag : Value) :
    (t.findAll (World.hasTag tag)).map (fun x => x.head.ref) =
      ((Tree.nodesOf t.children).map fun x => x.head.ref).filter (w.Tagged tag ·) := by
  rw [Tree.findAll_eq_filter, List.filter_map]
  congr 1
  refine List.filter_congr fun x hx => ?_
  have placed : some x ∈ (Tree.addressesFrom 0 t.children).map t.at? := by
    rw [Tree.map_addressesFrom_children]
    exact List.mem_map_of_mem hx
  obtain ⟨a, -, ha⟩ := List.mem_map.mp placed
  rw [Function.comp_apply, Bool.eq_iff_iff, decide_eq_true_iff]
  exact (World.tagged_head found ha).symm

end

/-- The walk over an element gives the element itself and then, in document order, what stands at
every address below it; the search for all elements with a tag gives those of the walk below the
element that have the tag, as often as the walk passes them and in its order. -/
theorem search_filters_walk {s : State} {e : ElementRef} {t : ElementTree}
    (found : s.world.store.tree? e = some t) (tag : Value) :
    ∃ (places : List (List Nat)) (es : List ElementRef),
      s.world.store.InDocumentOrder e
        (fun a => a ≠ [] ∧ ∃ d, s.world.store.descend? e a = some d) places es ∧
      (Action.nodes (.element e)).GivesElements s (e :: es) ∧
      (Action.findAll (.element e) tag).GivesElements s (es.filter (s.world.Tagged tag ·)) ∧
      e ∉ es := by
  have order := all_inDocumentOrder found
  refine ⟨_, _, order, ?_, ?_, ?_⟩
  · obtain ⟨x, -, head⟩ := Store.head_of_treeWithin found
    have walk := Action.nodes_gives found
    rw [Tree.nodes_eq, List.map_cons, head] at walk
    exact walk
  · rw [← refs_findAll found]
    exact Action.findAll_gives found tag
  · intro self
    have placed : some e ∈ (Tree.addressesFrom 0 t.children).map (s.world.store.descend? e) := by
      rw [order.there]
      exact List.mem_map_of_mem self
    obtain ⟨a, ha, there⟩ := List.mem_map.mp placed
    exact Store.descend?_ne_self found ((order.chosen a).mp ha).1 there

/-- An element with the tag of its children, two of which are one element with a child of this
tag. -/
def alikes : State :=
  { State.initial .small with world.store.elements :=
      #[⟨"b", none, .empty, true⟩, ⟨"b", none, .children 0 [⟨0⟩], true⟩,
        ⟨"b", none, .children 0 [⟨1⟩, ⟨0⟩, ⟨1⟩], true⟩] }

def alikesTree : ElementTree :=
  let inner : ElementTree := .branch ⟨⟨1⟩, "b", none⟩ [.closed ⟨⟨0⟩, "b", none⟩]
  .branch ⟨⟨2⟩, "b", none⟩ [inner, .closed ⟨⟨0⟩, "b", none⟩, inner]

theorem alikes_search : alikes.world.store.tree? ⟨2⟩ = some alikesTree ∧
    (Action.findAll (.element ⟨2⟩) (.text "b")).GivesElements alikes
      [⟨1⟩, ⟨0⟩, ⟨0⟩, ⟨1⟩, ⟨0⟩] := by
  have found : alikes.world.store.tree? ⟨2⟩ = some alikesTree := rfl
  obtain ⟨places, es, -, walk, search, -⟩ := search_filters_walk found (.text "b")
  have inOrder : es = [⟨1⟩, ⟨0⟩, ⟨0⟩, ⟨1⟩, ⟨0⟩] :=
    (List.cons.inj (walk.unique (Action.nodes_gives found))).2
  subst inOrder
  exact ⟨found, search⟩

/-- The search for one element with a tag gives nothing where the search for all gives none. Else it
follows the way down to the first element with the tag in document order, and leaves it at the first
place where children have the tag; it gives the first of these. So it gives the first element in
document order just where no element that it comes by before the last has a child with the tag. -/
theorem search_leaves_way {s : State} {e : ElementRef} {t : ElementTree}
    (found : s.world.store.tree? e = some t) (tag : Value) :
    ∃ (places : List (List Nat)) (es : List ElementRef),
      s.world.store.InDocumentOrder e (s.world.Match e tag) places es ∧
      (Action.findAll (.element e) tag).GivesElements s es ∧
      (es = [] → (Action.find (.element e) tag).Gives s (Result.ofValue s.world .none) s) ∧
      ∀ first ∈ places.head?, ∃ k i d,
        Tree.Meets (s.world.Match e tag) first k i ∧
        s.world.store.descend? e (first.take k ++ [i]) = some d ∧
        (Action.find (.element e) tag).Gives s (Result.ofValue s.world (.element d)) s ∧
        (first.take k ++ [i] = first ↔
          ∀ j, j + 1 < first.length → ∀ c, ¬ s.world.Match e tag (first.take j ++ [c])) := by
  have order := hits_inDocumentOrder found tag
  have gives := Action.find_gives found tag
  have same : s.world.Match e tag = t.Hit (World.hasTag tag) :=
    funext fun a => propext (World.match_iff_hit found)
  refine ⟨_, _, order, Action.findAll_gives found tag, ?_, ?_⟩
  · intro none
    have unhit : ∀ a, ¬ t.Hit (World.hasTag tag) a := by
      intro a hit
      have there := order.there
      rw [none, List.map_nil, List.map_eq_nil_iff] at there
      have member := Tree.mem_hits.mpr hit
      rw [there] at member
      cases member
    rw [Tree.find?_of_no_hit unhit] at gives
    exact gives
  · intro first isFirst
    obtain ⟨rest, split⟩ : ∃ rest, t.hits (World.hasTag tag) = first :: rest :=
      List.head?_eq_some_iff.mp isFirst
    have hit : t.Hit (World.hasTag tag) first := Tree.mem_hits.mp (by rw [split]; simp)
    have least : ∀ b, t.Hit (World.hasTag tag) b → ¬ b < first := by
      intro b hb before
      have member := Tree.mem_hits.mpr hb
      have ascending := order.ascending
      rw [split] at member ascending
      rcases List.mem_cons.mp member with rfl | member
      · exact absurd before (List.lt_irrefl _)
      · exact absurd before (List.lt_asymm ((List.pairwise_cons.mp ascending).1 b member))
    obtain ⟨k, i, meets, ends⟩ := Tree.find?_meets hit least
    obtain ⟨-, x, hx, -⟩ := meets.child
    refine ⟨k, i, x.head.ref, same ▸ meets, ?_, ?_, ?_⟩
    · rw [Store.descend?_of_treeWithin found, hx, Option.map_some]
    · rw [ends, hx] at gives
      exact gives
    · rw [same]
      exact meets.eq_first_iff hit least

/-- An element whose first child has a child of the same tag as the second child. -/
def branched : State :=
  { State.initial .small with world.store.elements :=
      #[⟨"b", none, .text (.text "deep"), true⟩, ⟨"a", none, .children 0 [⟨0⟩], true⟩,
        ⟨"b", none, .text (.text "near"), true⟩, ⟨"r", none, .children 0 [⟨1⟩, ⟨2⟩], true⟩] }

def branchedTree : ElementTree :=
  .branch ⟨⟨3⟩, "r", none⟩
    [.branch ⟨⟨1⟩, "a", none⟩ [.text ⟨⟨0⟩, "b", none⟩ (.text "deep")],
      .text ⟨⟨2⟩, "b", none⟩ (.text "near")]

theorem branched_search : branched.world.store.tree? ⟨3⟩ = some branchedTree ∧
    ∃ places first k i d, first ∈ places.head? ∧
      branched.world.store.InDocumentOrder ⟨3⟩ (branched.world.Match ⟨3⟩ (.text "b")) places
        [⟨0⟩, ⟨2⟩] ∧
      Tree.Meets (branched.world.Match ⟨3⟩ (.text "b")) first k i ∧
      branched.world.store.descend? ⟨3⟩ (first.take k ++ [i]) = some d ∧
      (Action.find (.element ⟨3⟩) (.text "b")).Gives branched
        (Result.ofValue branched.world (.element d)) branched := by
  have found : branched.world.store.tree? ⟨3⟩ = some branchedTree := rfl
  obtain ⟨places, es, order, search, -, sought⟩ := search_leaves_way found (.text "b")
  have all : es = [⟨0⟩, ⟨2⟩] := search.unique (Action.findAll_gives found _)
  subst all
  have count := congrArg List.length order.there
  cases places with
  | nil => simp at count
  | cons first rest =>
    obtain ⟨k, i, d, meets, there, gives, -⟩ := sought first rfl
    exact ⟨found, first :: rest, first, k, i, d, rfl, order, meets, there, gives⟩

/-- The search for one element passes over the first of all elements with its tag. -/
theorem search_misses_first :
    (Action.findAll (.element ⟨3⟩) (.text "b")).GivesElements branched [⟨0⟩, ⟨2⟩] ∧
    ¬ (Action.find (.element ⟨3⟩) (.text "b")).Gives branched
      (Result.ofValue branched.world (.element ⟨0⟩)) branched := by
  have found : branched.world.store.tree? ⟨3⟩ = some branchedTree := rfl
  refine ⟨Action.findAll_gives found _, ?_⟩
  intro first
  have second : (Action.find (.element ⟨3⟩) (.text "b")).Gives branched
      (Result.ofValue branched.world (.element ⟨2⟩)) branched := Action.find_gives found _
  cases congrArg Result.value (first.unique second).1

end TagTree
