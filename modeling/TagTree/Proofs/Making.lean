import TagTree.Proofs.Respecting
import TagTree.Settings.Table

/-!
# Stores that grow

What is made of other data adds lists, dictionaries and identities to the store, and leaves the
objects that are there as they are. Two relations say so: a store grows by elements as well, and
it is extended by lists and dictionaries alone.
-/

namespace TagTree

/-- A store with all the elements of another one, and with at least as many other objects, in
the same host. -/
structure Store.Grows (s s' : Store) : Prop where
  element : ∀ e : ElementRef, e.index < s.elements.size → s'.element? e = s.element? e
  size : s.elements.size ≤ s'.elements.size
  lists : s.lists.size ≤ s'.lists.size
  dicts : s.dicts.size ≤ s'.dicts.size
  ids : s.nextId ≤ s'.nextId
  host : s'.host = s.host

namespace Store

instance : IsPreorder Store Grows where
  refl _ := ⟨fun _ _ => rfl, Nat.le_refl _, Nat.le_refl _, Nat.le_refl _, Nat.le_refl _, rfl⟩
  trans _ _ _ h h' :=
    ⟨fun e he => (h'.element e (Nat.lt_of_lt_of_le he h.size)).trans (h.element e he),
      Nat.le_trans h.size h'.size, Nat.le_trans h.lists h'.lists, Nat.le_trans h.dicts h'.dicts,
      Nat.le_trans h.ids h'.ids, h'.host.trans h.host⟩

theorem Grows.of_elements {s s' : Store} (h : s'.elements = s.elements)
    (lists : s.lists.size ≤ s'.lists.size) (dicts : s.dicts.size ≤ s'.dicts.size)
    (ids : s.nextId ≤ s'.nextId) (host : s'.host = s.host) : s.Grows s' :=
  ⟨fun e _ => by rw [element?, element?, h], Nat.le_of_eq (by rw [h]), lists, dicts, ids, host⟩

@[simp] theorem respects_newId : newId.Respects Grows := fun _ =>
  .of_elements rfl (Nat.le_refl _) (Nat.le_refl _) (Nat.le_succ _) rfl

@[simp] theorem respects_newList (items : List Value) : (newList items).Respects Grows :=
  fun _ => .of_elements rfl (by simp [newList]) (Nat.le_refl _) (Nat.le_refl _) rfl

@[simp] theorem respects_newDict (d : Dict) : (newDict d).Respects Grows :=
  fun _ => .of_elements rfl (Nat.le_refl _) (by simp [newDict]) (Nat.le_refl _) rfl

theorem grows_setList (s : Store) (l : ListRef) (items : List Value) :
    s.Grows (s.setList l items) :=
  .of_elements rfl (by simp [setList]) (Nat.le_refl _) (Nat.le_refl _) rfl

theorem grows_setDict (s : Store) (d : DictRef) (table : Dict) : s.Grows (s.setDict d table) :=
  .of_elements rfl (Nat.le_refl _) (by simp [setDict]) (Nat.le_refl _) rfl

theorem respects_newElement (x : Element) : (newElement x).Respects Grows := fun s => by
  refine ⟨fun e he => ?_, by simp [newElement], Nat.le_refl _, Nat.le_refl _, Nat.le_refl _,
    rfl⟩
  simp only [newElement, element?, Array.getElem?_push]
  rw [if_neg (by omega)]

@[simp] theorem respects_makeElement (tag attributes content : Value) :
    (makeElement tag attributes content).Respects Grows := fun s => by
  unfold makeElement
  cases s.describe tag attributes content with
  | error f => exact refl_of Grows s
  | ok x =>
    have hid : s.Grows { s with nextId := s.nextId + 1 } :=
      .of_elements rfl (Nat.le_refl _) (Nat.le_refl _) (Nat.le_succ _) rfl
    exact trans_of Grows hid (respects_newElement x _)

end Store

/-! ### Stores with more lists and dictionaries -/

namespace Store

/-- The second store has all objects of the first, and no other elements. -/
structure Extends (s s' : Store) : Prop where
  elements : s'.elements = s.elements
  list : ∀ {i : Nat} {items}, s.lists[i]? = some items → s'.lists[i]? = some items
  dict : ∀ {i : Nat} {table}, s.dicts[i]? = some table → s'.dicts[i]? = some table

section

variable {s s' s'' : Store}

theorem Extends.refl (s : Store) : s.Extends s := ⟨rfl, id, id⟩

theorem Extends.trans (h : s.Extends s') (h' : s'.Extends s'') : s.Extends s'' :=
  ⟨h'.elements.trans h.elements, fun hl => h'.list (h.list hl), fun hd => h'.dict (h.dict hd)⟩

instance : IsPreorder Store Extends where
  refl := .refl
  trans _ _ _ := .trans

theorem getElem?_push_some {α : Type} {xs : Array α} {i : Nat} {x y : α} (h : xs[i]? = some y) :
    (xs.push x)[i]? = some y := by
  have hi : i < xs.size := (Array.getElem?_eq_some_iff.mp h).1
  rw [Array.getElem?_push, if_neg (by omega), h]

theorem extends_newList (s : Store) (items : List Value) :
    s.Extends { s with lists := s.lists.push items } := ⟨rfl, getElem?_push_some, id⟩

theorem extends_newDict (s : Store) (table : Dict) :
    s.Extends { s with dicts := s.dicts.push table } := ⟨rfl, id, getElem?_push_some⟩

end

end Store

/-! ### Objects made of other data -/

section Making

open Proc Store

/-- A relation that holds where a list, a dictionary or an identity is made. -/
structure Store.HoldsMaking (R : Store → Store → Prop) : Prop where
  list : ∀ items, (newList items).Respects R
  dict : ∀ table, (newDict table).Respects R
  id : newId.Respects R

theorem Store.grows_making : HoldsMaking Grows :=
  ⟨respects_newList, respects_newDict, respects_newId⟩

theorem Store.extends_making : HoldsMaking Extends :=
  ⟨fun items s => s.extends_newList items, fun table s => s.extends_newDict table,
    fun _ => ⟨rfl, fun h => h, fun h => h⟩⟩

namespace Plain

section

variable {R : Store → Store → Prop} [IsPreorder Store R]

mutual

theorem store_respects (making : HoldsMaking R) : ∀ p : Plain, p.store.Respects R
  | .value v => respects_pure v
  | .entries table => respects_bind (making.dict table) fun _ => respects_pure _
  | .record fields =>
    respects_bind (storeFields_respects making fields) fun table =>
      respects_bind (making.dict table) fun _ => respects_pure _
  | .list items =>
    respects_bind (storeAll_respects making items) fun vs =>
      respects_bind (making.list vs) fun _ => respects_pure _
  | .tuple items =>
    respects_bind (storeAll_respects making items) fun _ =>
      respects_bind making.id fun _ => respects_pure _
  | .dict parts =>
    respects_bind (storeEntries_respects making parts) fun table =>
      respects_bind (making.dict table) fun _ => respects_pure _
  | .copy _ => respects_ofOutcome _

theorem storeAll_respects (making : HoldsMaking R) :
    ∀ ps : List Plain, (storeAll ps).Respects R
  | [] => respects_pure _
  | p :: rest =>
    respects_bind (store_respects making p) fun _ =>
      respects_bind (storeAll_respects making rest) fun _ => respects_pure _

theorem storeFields_respects (making : HoldsMaking R) :
    ∀ fields : List (String × Plain), (storeFields fields).Respects R
  | [] => respects_pure _
  | (_, p) :: rest =>
    respects_bind (store_respects making p) fun _ =>
      respects_bind (storeFields_respects making rest) fun _ => respects_pure _

theorem storeEntries_respects (making : HoldsMaking R) :
    ∀ parts : List (Plain × Plain), (storeEntries parts).Respects R
  | [] => respects_pure _
  | (k, p) :: rest =>
    respects_bind (store_respects making k) fun _ =>
      respects_bind (store_respects making p) fun _ =>
        respects_bind (storeEntries_respects making rest) fun _ => respects_pure _

end

theorem keep_respects (making : HoldsMaking R) (fields : List (String × Plain)) :
    (keep fields).Respects R := by
  unfold keep
  split
  · exact store_respects making _
  · exact respects_pure _

end

mutual

/-- A table without copies of other objects is made. -/
theorem store_made : ∀ p : Plain, p.isMade = true → ∀ s, ∃ v s', p.store s = (.value v, s')
  | .value v, _, s => ⟨v, s, rfl⟩
  | .entries table, _, s => ⟨_, _, rfl⟩
  | .record fields, h, s => by
    obtain ⟨table, s', stored⟩ := storeFields_made fields h s
    exact ⟨_, _, by rw [store, bind_apply, stored]; rfl⟩
  | .list items, h, s => by
    obtain ⟨vs, s', stored⟩ := storeAll_made items h s
    exact ⟨_, _, by rw [store, bind_apply, stored]; rfl⟩
  | .tuple items, h, s => by
    obtain ⟨vs, s', stored⟩ := storeAll_made items h s
    exact ⟨_, _, by rw [store, bind_apply, stored]; rfl⟩
  | .dict parts, h, s => by
    obtain ⟨table, s', stored⟩ := storeEntries_made parts h s
    exact ⟨_, _, by rw [store, bind_apply, stored]; rfl⟩
  | .copy _, h, _ => by cases h

theorem storeAll_made : ∀ ps : List Plain, allMade ps = true → ∀ s,
    ∃ vs s', storeAll ps s = (.value vs, s')
  | [], _, s => ⟨[], s, rfl⟩
  | p :: rest, h, s => by
    obtain ⟨made, others⟩ := (Bool.and_eq_true _ _).mp h
    obtain ⟨v, s', stored⟩ := store_made p made s
    obtain ⟨vs, s'', more⟩ := storeAll_made rest others s'
    exact ⟨v :: vs, s'', by simp only [storeAll, bind_apply, stored, more, pure_apply]⟩

theorem storeFields_made : ∀ fields : List (String × Plain), fieldsMade fields = true → ∀ s,
    ∃ table s', storeFields fields s = (.value table, s')
  | [], _, s => ⟨[], s, rfl⟩
  | (name, p) :: rest, h, s => by
    obtain ⟨made, others⟩ := (Bool.and_eq_true _ _).mp h
    obtain ⟨v, s', stored⟩ := store_made p made s
    obtain ⟨vs, s'', more⟩ := storeFields_made rest others s'
    exact ⟨(.text name, v) :: vs, s'', by
      simp only [storeFields, bind_apply, stored, more, pure_apply]⟩

theorem storeEntries_made : ∀ parts : List (Plain × Plain), entriesMade parts = true → ∀ s,
    ∃ table s', storeEntries parts s = (.value table, s')
  | [], _, s => ⟨[], s, rfl⟩
  | (k, p) :: rest, h, s => by
    obtain ⟨both, others⟩ := (Bool.and_eq_true _ _).mp h
    obtain ⟨keyMade, made⟩ := (Bool.and_eq_true _ _).mp both
    obtain ⟨key, s₁, storedKey⟩ := store_made k keyMade s
    obtain ⟨v, s₂, stored⟩ := store_made p made s₁
    obtain ⟨vs, s₃, more⟩ := storeEntries_made rest others s₂
    exact ⟨(key, v) :: vs, s₃, by
      simp only [storeEntries, bind_apply, storedKey, stored, more, pure_apply]⟩

end

end Plain

@[simp] theorem Plain.respects_store (p : Plain) : p.store.Respects Grows :=
  p.store_respects grows_making

mutual

theorem Json.respects_store : ∀ j : Json, j.store.Respects Grows
  | .atom a => by simp [Json.store]
  | .array items => by simp [Json.store, Json.respects_storeAll items]
  | .object entries => by simp [Json.store, Json.respects_storeEntries entries]

theorem Json.respects_storeAll : ∀ js : List Json, (Json.storeAll js).Respects Grows
  | [] => by simp [Json.storeAll]
  | j :: rest => by
    simp [Json.storeAll, Json.respects_store j, Json.respects_storeAll rest]

@[simp] theorem Json.respects_storeEntries :
    ∀ entries : List (String × Json), (Json.storeEntries entries).Respects Grows
  | [] => by simp [Json.storeEntries]
  | (_, j) :: rest => by
    simp [Json.storeEntries, Json.respects_store j, Json.respects_storeEntries rest]

end

end Making

end TagTree
