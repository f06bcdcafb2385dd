import TagTree.Value

/-!
# Writing to tables

A table keeps a key at the place where it was written first, with the value that was written to
it last. Where a key is the same as itself only, this says what any number of writes leave, and
entries may be gathered in a table of their own before they are written.
-/

namespace TagTree

namespace Table

section Writes

variable {κ ν : Type} {same : κ → κ → Bool} {k j : κ} {u v : ν} {t es : List (κ × ν)}

/-- A key that is the same as itself and as no other key. -/
def Exact (same : κ → κ → Bool) (k : κ) : Prop := ∀ l, same l k = true ↔ l = k

theorem Exact.same_self (h : Exact same k) : same k k = true := (h k).mpr rfl

theorem Exact.same_ne (h : Exact same k) {l : κ} (hl : l ≠ k) : same l k = false := by
  cases hs : same l k with
  | true => exact absurd ((h l).mp hs) hl
  | false => rfl

theorem insert_self (hk : Exact same k) : insert same k v ((k, u) :: t) = (k, v) :: t := by
  simp [insert, hk.same_self]

theorem insert_other (hk : Exact same k) (hj : j ≠ k) :
    insert same k v ((j, u) :: t) = (j, u) :: insert same k v t := by
  simp [insert, hk.same_ne hj]

@[simp] theorem insertAll_nil (t : List (κ × ν)) : insertAll same t [] = t := rfl

@[simp] theorem insertAll_cons (t : List (κ × ν)) (e : κ × ν) (es : List (κ × ν)) :
    insertAll same t (e :: es) = insertAll same (insert same e.1 e.2 t) es := rfl

theorem insert_ne_nil (same : κ → κ → Bool) (k : κ) (v : ν) (t : List (κ × ν)) :
    insert same k v t ≠ [] := by
  cases t with
  | nil => simp
  | cons entry rest =>
    rw [insert]
    split
    · exact List.cons_ne_nil _ _
    · exact List.cons_ne_nil _ _

theorem insertAll_ne_nil (e : κ × ν) (es t : List (κ × ν)) :
    insertAll same t (e :: es) ≠ [] := by
  induction es generalizing e t with
  | nil => exact insert_ne_nil same e.1 e.2 t
  | cons d es ih => exact ih d (insert same e.1 e.2 t)

theorem ofEntries_eq_nil_iff : ofEntries same es = [] ↔ es = [] := by
  cases es with
  | nil => simp
  | cons e es =>
    have hne : ofEntries same (e :: es) ≠ [] := insertAll_ne_nil e es []
    simp [hne]

/-! ### Keys -/

theorem keys_insert_old (hk : Exact same k) (h : k ∈ t.map Prod.fst) :
    (insert same k v t).map Prod.fst = t.map Prod.fst := by
  induction t with
  | nil => cases h
  | cons entry rest ih =>
    obtain ⟨j, u⟩ := entry
    by_cases hj : j = k
    · rw [hj, insert_self hk]
      rfl
    · have hrest : k ∈ rest.map Prod.fst := by
        rcases List.mem_cons.mp h with h | h
        · exact absurd h.symm hj
        · exact h
      rw [insert_other hk hj, List.map_cons, ih hrest, List.map_cons]

theorem insert_fresh (hk : Exact same k) (h : k ∉ t.map Prod.fst) :
    insert same k v t = t ++ [(k, v)] := by
  induction t with
  | nil => rfl
  | cons entry rest ih =>
    obtain ⟨j, u⟩ := entry
    have hj : j ≠ k := fun hj => h (by simp [hj])
    have hrest : k ∉ rest.map Prod.fst := fun hm => h (List.mem_cons_of_mem _ hm)
    rw [insert_other hk hj, ih hrest, List.cons_append]

theorem keys_insert_fresh (hk : Exact same k) (h : k ∉ t.map Prod.fst) :
    (insert same k v t).map Prod.fst = t.map Prod.fst ++ [k] := by
  rw [insert_fresh hk h, List.map_append]
  rfl

theorem mem_keys_insert (hk : Exact same k) {l : κ} :
    l ∈ (insert same k v t).map Prod.fst ↔ l ∈ t.map Prod.fst ∨ l = k := by
  by_cases h : k ∈ t.map Prod.fst
  · rw [keys_insert_old hk h]
    constructor
    · exact Or.inl
    · rintro (hl | rfl)
      · exact hl
      · exact h
  · rw [keys_insert_fresh hk h, List.mem_append, List.mem_singleton]

theorem nodup_insert (hk : Exact same k) (h : (t.map Prod.fst).Nodup) :
    ((insert same k v t).map Prod.fst).Nodup := by
  by_cases hm : k ∈ t.map Prod.fst
  · rw [keys_insert_old hk hm]
    exact h
  · rw [keys_insert_fresh hk hm]
    refine List.nodup_append.mpr ⟨h, by simp, ?_⟩
    rintro l hl m hm' rfl
    obtain rfl := List.mem_singleton.mp hm'
    exact hm hl

theorem nodup_insertAll (hes : ∀ e ∈ es, Exact same e.1) (once : (t.map Prod.fst).Nodup) :
    ((insertAll same t es).map Prod.fst).Nodup := by
  induction es generalizing t with
  | nil => exact once
  | cons e es ih =>
    exact ih (fun x hx => hes x (List.mem_cons_of_mem e hx))
      (nodup_insert (hes e List.mem_cons_self) once)

/-- New keys are those that were written, in the order of writing. -/
theorem filter_keys_insertAll {p : κ → Bool} (hes : ∀ e ∈ es, Exact same e.1)
    (once : (es.map Prod.fst).Nodup)
    (new : ∀ l ∈ es.map Prod.fst, p l = true → l ∉ t.map Prod.fst) :
    ((insertAll same t es).map Prod.fst).filter p =
      (t.map Prod.fst).filter p ++ (es.map Prod.fst).filter p := by
  induction es generalizing t with
  | nil => simp
  | cons e es ih =>
    have he : Exact same e.1 := hes e List.mem_cons_self
    rw [List.map_cons, List.nodup_cons] at once
    obtain ⟨fresh, once⟩ := once
    rw [List.map_cons, List.forall_mem_cons] at new
    have hnew : ∀ l ∈ es.map Prod.fst, p l = true →
        l ∉ (insert same e.1 e.2 t).map Prod.fst := by
      intro l hl hp hm
      rcases (mem_keys_insert he).mp hm with hm | rfl
      · exact new.2 l hl hp hm
      · exact fresh hl
    rw [insertAll_cons, ih (fun x hx => hes x (List.mem_cons_of_mem e hx)) once hnew,
      List.map_cons, List.filter_cons]
    by_cases old : e.1 ∈ t.map Prod.fst
    · have known : ¬ p e.1 = true := fun hp => new.1 hp old
      rw [keys_insert_old he old, if_neg known]
    · rw [keys_insert_fresh he old, List.filter_append, List.append_assoc, List.filter_cons]
      cases p e.1 <;> rfl

/-! ### Two writes -/

theorem insert_twice (hk : Exact same k) :
    insert same k v (insert same k u t) = insert same k v t := by
  induction t with
  | nil => exact insert_self hk
  | cons entry rest ih =>
    obtain ⟨j, w⟩ := entry
    by_cases hj : j = k
    · rw [hj, insert_self hk, insert_self hk, insert_self hk]
    · rw [insert_other hk hj, insert_other hk hj, insert_other hk hj, ih]

/-- A write to a key that is there does not care about writes to other keys. -/
theorem insert_swap (hk : Exact same k) (hj : Exact same j) (hne : j ≠ k)
    (h : k ∈ t.map Prod.fst) :
    insert same k v (insert same j u t) = insert same j u (insert same k v t) := by
  induction t with
  | nil => cases h
  | cons entry rest ih =>
    obtain ⟨l, w⟩ := entry
    by_cases hlk : l = k
    · subst hlk
      have hlj : l ≠ j := fun h => hne h.symm
      rw [insert_other hj hlj, insert_self hk, insert_self hk, insert_other hj hlj]
    · have hrest : k ∈ rest.map Prod.fst := by
        rcases List.mem_cons.mp h with h | h
        · exact absurd h.symm hlk
        · exact h
      by_cases hlj : l = j
      · subst hlj
        rw [insert_self hj, insert_other hk hlk, insert_other hk hlk, insert_self hj]
      · rw [insert_other hj hlj, insert_other hk hlk, insert_other hk hlk, insert_other hj hlj,
          ih hrest]

/-! ### Entries gathered before they are written -/

/-- The last value of a key may be written before entries of other keys. -/
theorem insert_insertAll (hk : Exact same k) (hes : ∀ e ∈ es, Exact same e.1)
    (hnew : k ∉ es.map Prod.fst) (h : k ∈ t.map Prod.fst) :
    insert same k v (insertAll same t es) = insertAll same (insert same k v t) es := by
  induction es generalizing t with
  | nil => rfl
  | cons e es ih =>
    obtain ⟨j, u⟩ := e
    have hj : Exact same j := hes (j, u) List.mem_cons_self
    have hne : j ≠ k := fun hj => hnew (by simp [hj])
    have hrest : k ∉ es.map Prod.fst := fun hm => hnew (List.mem_cons_of_mem _ hm)
    have hk' : k ∈ (insert same j u t).map Prod.fst := (mem_keys_insert hj).mpr (.inl h)
    rw [insertAll_cons, insertAll_cons,
      ih (fun e he => hes e (List.mem_cons_of_mem _ he)) hrest hk', insert_swap hk hj hne h]

theorem insertAll_insert (hk : Exact same k) (hes : ∀ e ∈ es, Exact same e.1)
    (hnodup : (es.map Prod.fst).Nodup) :
    insertAll same t (insert same k v es) = insert same k v (insertAll same t es) := by
  induction es generalizing t with
  | nil => rfl
  | cons e es ih =>
    obtain ⟨j, u⟩ := e
    have hj : Exact same j := hes (j, u) List.mem_cons_self
    have hes' : ∀ e ∈ es, Exact same e.1 := fun e he => hes e (List.mem_cons_of_mem _ he)
    obtain ⟨hfresh, hnodup'⟩ := List.nodup_cons.mp hnodup
    by_cases hjk : j = k
    · subst hjk
      have hmem : j ∈ (insert same j u t).map Prod.fst := (mem_keys_insert hj).mpr (.inr rfl)
      rw [insert_self hj, insertAll_cons, insertAll_cons,
        insert_insertAll hj hes' hfresh hmem, insert_twice hj]
    · rw [insert_other hk hjk, insertAll_cons, insertAll_cons, ih hes' hnodup']

theorem exact_insert (hk : Exact same k) (hes : ∀ e ∈ es, Exact same e.1) :
    ∀ e ∈ insert same k v es, Exact same e.1 := by
  intro e he
  have hm : e.1 ∈ (insert same k v es).map Prod.fst := List.mem_map.mpr ⟨e, he, rfl⟩
  rcases (mem_keys_insert hk).mp hm with hm | hm
  · obtain ⟨d, hd, hde⟩ := List.mem_map.mp hm
    rw [← hde]
    exact hes d hd
  · rw [hm]
    exact hk

theorem insertAll_insertAll {acc : List (κ × ν)} (hacc : ∀ e ∈ acc, Exact same e.1)
    (hnodup : (acc.map Prod.fst).Nodup) (hes : ∀ e ∈ es, Exact same e.1) :
    insertAll same t (insertAll same acc es) = insertAll same (insertAll same t acc) es := by
  induction es generalizing acc with
  | nil => rfl
  | cons e es ih =>
    have he : Exact same e.1 := hes e List.mem_cons_self
    have rest : ∀ x ∈ es, Exact same x.1 := fun x hx => hes x (List.mem_cons_of_mem e hx)
    rw [insertAll_cons, insertAll_cons, ih (exact_insert he hacc) (nodup_insert he hnodup) rest,
      insertAll_insert he hacc hnodup]

/-- Entries that are gathered in a table first are written as they are one after another. -/
theorem insertAll_ofEntries (t : List (κ × ν)) (hes : ∀ e ∈ es, Exact same e.1) :
    insertAll same t (ofEntries same es) = insertAll same t es :=
  insertAll_insertAll (fun e he => by cases he) .nil hes

/-- Entries with keys of their own are all appended. -/
theorem insertAll_of_nodup (hes : ∀ e ∈ es, Exact same e.1)
    (h : ((t ++ es).map Prod.fst).Nodup) : insertAll same t es = t ++ es := by
  induction es generalizing t with
  | nil => simp
  | cons e es ih =>
    have fresh : e.1 ∉ t.map Prod.fst := by
      rw [List.map_append, List.map_cons, List.nodup_append] at h
      exact fun hmem => h.2.2 _ hmem _ List.mem_cons_self rfl
    have later : t ++ e :: es = (t ++ [e]) ++ es := by simp
    rw [later] at h
    rw [insertAll_cons, insert_fresh (hes e List.mem_cons_self) fresh, later]
    exact ih (fun x hx => hes x (List.mem_cons_of_mem e hx)) h

/-- A table is what is gathered from its own entries. -/
theorem ofEntries_of_nodup (hes : ∀ e ∈ es, Exact same e.1) (h : (es.map Prod.fst).Nodup) :
    ofEntries same es = es :=
  insertAll_of_nodup hes (by simpa using h)

theorem exact_beq {κ : Type} [BEq κ] [LawfulBEq κ] (k : κ) : Exact (· == ·) k :=
  fun _ => beq_iff_eq

/-! ### Values -/

theorem find?_cons (j : κ) (e : κ × ν) (t : List (κ × ν)) :
    find? same j (e :: t) = if same e.1 j then some e.2 else find? same j t := by
  unfold find?
  cases h : same e.1 j with
  | true => simp [h]
  | false => simp [h]

theorem find?_eq_none_iff (hk : Exact same k) : find? same k t = none ↔ k ∉ t.map Prod.fst := by
  induction t with
  | nil => simp [find?]
  | cons entry rest ih =>
    obtain ⟨l, w⟩ := entry
    rw [find?_cons, List.map_cons, List.mem_cons]
    by_cases hlk : l = k
    · simp [hlk, hk.same_self]
    · have hne : ¬ k = l := fun h => hlk h.symm
      rw [hk.same_ne hlk, if_neg Bool.false_ne_true, ih]
      simp [hne]

theorem find?_append (j : κ) (s t : List (κ × ν)) :
    find? same j (s ++ t) = (find? same j s <|> find? same j t) := by
  induction s with
  | nil => rfl
  | cons e s ih =>
    rw [List.cons_append, find?_cons, find?_cons, ih]
    split <;> rfl

theorem mem_of_find? (hk : Exact same k) (h : find? same k t = some v) : (k, v) ∈ t := by
  obtain ⟨entry, found, rfl⟩ := Option.map_eq_some_iff.mp h
  have hsame := List.find?_some found
  have hkey : entry.1 = k := (hk entry.1).mp hsame
  rw [← hkey]
  exact List.mem_of_find?_eq_some found

theorem find?_reverse (hk : Exact same k) (once : (t.map Prod.fst).Nodup) :
    find? same k t.reverse = find? same k t := by
  induction t with
  | nil => rfl
  | cons e t ih =>
    rw [List.map_cons, List.nodup_cons] at once
    obtain ⟨fresh, once⟩ := once
    rw [List.reverse_cons, find?_append, ih once, find?_cons, find?_cons]
    by_cases he : e.1 = k
    · have none : find? same k t = none := (find?_eq_none_iff hk).mpr (he ▸ fresh)
      rw [none, he, if_pos hk.same_self, if_pos hk.same_self]
      rfl
    · rw [hk.same_ne he, if_neg Bool.false_ne_true, if_neg Bool.false_ne_true]
      cases find? same k t <;> rfl

theorem find?_insert_self (hk : Exact same k) (v : ν) (t : List (κ × ν)) :
    find? same k (insert same k v t) = some v := by
  induction t with
  | nil => simp [insert, find?_cons, hk.same_self]
  | cons entry rest ih =>
    obtain ⟨l, w⟩ := entry
    by_cases hlk : l = k
    · rw [hlk, insert_self hk, find?_cons, if_pos hk.same_self]
    · rw [insert_other hk hlk, find?_cons, hk.same_ne hlk, if_neg Bool.false_ne_true, ih]

theorem find?_insert_other (hk : Exact same k) (hkj : same k j = false) (v : ν)
    (t : List (κ × ν)) : find? same j (insert same k v t) = find? same j t := by
  induction t with
  | nil => simp [insert, find?_cons, hkj]
  | cons entry rest ih =>
    obtain ⟨l, w⟩ := entry
    by_cases hlk : l = k
    · rw [hlk, insert_self hk, find?_cons, find?_cons, hkj]
      rfl
    · rw [insert_other hk hlk, find?_cons, find?_cons, ih]

/-- After any number of writes a key has the last value that was written to it, or else the one
that it had. -/
theorem find?_insertAll (hj : Exact same j) (t : List (κ × ν)) (hes : ∀ e ∈ es, Exact same e.1) :
    find? same j (insertAll same t es) = (find? same j es.reverse <|> find? same j t) := by
  induction es generalizing t with
  | nil => rfl
  | cons e es ih =>
    obtain ⟨k, v⟩ := e
    have hk : Exact same k := hes (k, v) List.mem_cons_self
    have hrest := ih (insert same k v t) fun e he => hes e (List.mem_cons_of_mem _ he)
    rw [insertAll_cons, hrest, List.reverse_cons, find?_append, find?_cons]
    by_cases hkj : k = j
    · subst hkj
      rw [find?_insert_self hk, if_pos hk.same_self]
      cases find? same k es.reverse <;> rfl
    · have hne : same k j = false := hj.same_ne hkj
      rw [find?_insert_other hk hne, hne]
      cases find? same j es.reverse <;> rfl

/-- Writes to other keys leave what a key has. -/
theorem find?_insertAll_other (t : List (κ × ν)) (hes : ∀ e ∈ es, Exact same e.1)
    (hne : ∀ e ∈ es, same e.1 j = false) :
    find? same j (insertAll same t es) = find? same j t := by
  induction es generalizing t with
  | nil => rfl
  | cons e es ih =>
    have he : Exact same e.1 := hes e List.mem_cons_self
    rw [insertAll_cons,
      ih _ (fun e he => hes e (List.mem_cons_of_mem _ he))
        (fun e he => hne e (List.mem_cons_of_mem _ he)),
      find?_insert_other he (hne e List.mem_cons_self)]

end Writes

end Table

end TagTree
