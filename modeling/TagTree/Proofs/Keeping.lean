import TagTree.Proofs.Making
import TagTree.Script.Exec

/-!
# What scripts do by themselves

Expressions and actions make objects, change lists and dictionaries, and write into the journal.
They leave builders and elements as they are: scripts are steady code.
-/

namespace TagTree

section Making

open Proc Store

@[simp] theorem Element.respects_property (x : Element) (p : Property) :
    (x.property p).Respects Grows := by
  cases p <;> simp only [Element.property, respects_pure]
  cases x.attributes <;> simp

@[simp] theorem Surroundings.respects_factory (w : World) (h : Handle) (name : String) :
    (Surroundings.factory w h name).Respects Grows := by
  simp [Surroundings.factory]

@[simp] theorem Surroundings.respects_lookup (w : World) (v : Value) (name : String) :
    (Surroundings.lookup w v name).Respects Grows := by
  unfold Surroundings.lookup
  cases v with
  | handle h =>
    simp only
    cases h.member? name <;> simp
  | element e =>
    simp only
    split <;> simp
  | _ => simp

theorem Handle.respects_apply (w : World) (h : Handle) (name : String) (args : List Value)
    (named : List (String × Value)) : (h.apply w name args named).Respects Grows := by
  unfold Handle.apply
  split
  · simp
  · refine respects_bind (respects_ofExcept _) ?_
    intro v
    split <;> simp
  · simp

theorem Handle.respects_applyPlain (w : World) (h : Handle) (name : String)
    (args : List Value) : (h.applyPlain w name args).Respects Grows := by
  unfold Handle.applyPlain
  split
  · split <;> simp
  all_goals simp

@[simp] theorem Handle.respects_call (w : World) (h : Handle) (name : String)
    (args : List Value) (named : List (String × Value)) :
    (h.call w name args named).Respects Grows := by
  unfold Handle.call
  split
  · split
    · simp
    · split <;> simp
  · split
    · simp
    · exact Handle.respects_applyPlain w h name args
  · exact Handle.respects_apply w h name args named

mutual

theorem Expr.respects_eval (env : Surroundings) : ∀ x : Expr, (x.eval env).Respects Grows
  | .atom a => by simp [Expr.eval]
  | .nan => by simp [Expr.eval]
  | .unreadable kind message => by simp [Expr.eval]
  | .list items => by simp [Expr.eval, respects_evalAll env items]
  | .tuple items => by simp [Expr.eval, respects_evalAll env items]
  | .dict entries => by simp [Expr.eval, respects_evalEntries env [] entries]
  | .view entries => by simp [Expr.eval, respects_evalEntries env [] entries]
  | .variable name => by simp [Expr.eval]
  | .builder name => by simp [Expr.eval]
  | .handle => by simp [Expr.eval]
  | .settings fields => by
    unfold Expr.eval
    refine respects_bind (respects_evalFields env fields) fun fields => ?_
    simp
  | .element tag attributes content => by
    unfold Expr.eval
    refine respects_bind (Expr.respects_eval env tag) fun tag => ?_
    refine respects_bind (respects_evalOption env attributes) fun attributes => ?_
    refine respects_bind (respects_evalOption env content) fun content => ?_
    simp
  | .factory name => by simp [Expr.eval]
  | .block steps result => by simp [Expr.eval]
  | .chain count tags leaf => by
    unfold Expr.eval
    refine respects_bind (Expr.respects_eval env leaf) fun v => ?_
    refine respects_bind (respects_ofExcept _) fun tags => ?_
    cases tags <;> simp

theorem respects_evalAll (env : Surroundings) :
    ∀ xs : List Expr, (evalAll env xs).Respects Grows
  | [] => by simp [evalAll]
  | x :: rest => by simp [evalAll, Expr.respects_eval env x, respects_evalAll env rest]

theorem respects_evalOption (env : Surroundings) :
    ∀ x : Option Expr, (evalOption env x).Respects Grows
  | none => by simp [evalOption]
  | some x => by simp [evalOption, Expr.respects_eval env x]

theorem respects_evalEntries (env : Surroundings) (table : Dict) :
    ∀ entries : List (Expr × Expr), (evalEntries env table entries).Respects Grows
  | [] => by simp [evalEntries]
  | (k, v) :: rest => by
    unfold evalEntries
    refine respects_bind (Expr.respects_eval env k) fun key => ?_
    refine respects_bind (Expr.respects_eval env v) fun value => ?_
    refine respects_bind (respects_ofExcept _) fun table => ?_
    exact respects_evalEntries env table rest

theorem respects_evalFields (env : Surroundings) :
    ∀ fields : List (String × Expr), (evalFields env fields).Respects Grows
  | [] => by simp [evalFields]
  | (_, x) :: rest => by
    simp [evalFields, Expr.respects_eval env x, respects_evalFields env rest]

end

end Making

/-! ### Procedures on the world -/

section Worlds

open Proc

instance : IsPreorder World World.Leaves where
  refl := .refl
  trans _ _ _ := .trans

theorem World.Leaves.of_store {w w' : World} (h : w'.builders = w.builders)
    (hs : w.store.Grows w'.store) : w.Leaves w' where
  keeps :=
    { session := fun b => by rw [session?, session?, builder?, builder?, h]
      root := fun b => by rw [root?, root?, builder?, builder?, h]
      count := fun b => by rw [elementCount, elementCount, builder?, builder?, h]
      element := hs.element
      size := hs.size }
  builder b x hb := by rwa [builder?, h]
  grows o ho := by
    cases o with
    | element e => exact Nat.lt_of_lt_of_le ho hs.size
    | list l => exact Nat.lt_of_lt_of_le ho hs.lists
    | dict d => exact Nat.lt_of_lt_of_le ho hs.dicts
    | builder b => rwa [Object.In, h]
    | identity n => exact Nat.lt_of_lt_of_le ho hs.ids
  host := hs.host

@[simp] theorem respects_inStore {α : Type} {p : Proc Store α} (h : p.Respects Store.Grows) :
    (World.inStore p).Respects World.Leaves := fun w =>
  .of_store rfl (h w.store)

theorem respects_newBuilder (configuration correlation : Value) :
    (newBuilder configuration correlation).Respects World.Leaves := fun w => by
  unfold newBuilder
  simp only
  split
  · exact .refl w
  · rename_i c hc
    have hbuilder (b : BuilderRef) : (w.builders.push
        (.idle (w.configurationFor configuration) c w.store.nextId))[b.index]? =
        if b.index = w.builders.size then
          some (.idle (w.configurationFor configuration) c w.store.nextId)
        else w.builders[b.index]? := by
      rw [Array.getElem?_push]
    have hnone : w.builders[w.builders.size]? = none := by simp
    refine ⟨⟨fun b => ?_, fun b => ?_, fun b => ?_, fun _ _ => rfl, Nat.le_refl _⟩,
      fun b x hb => ?_, fun o ho => ?_, rfl⟩
    · simp only [World.session?, World.builder?, hbuilder]
      split
      · rename_i hb
        rw [hb, hnone]
        rfl
      · rfl
    · simp only [World.root?, World.builder?, hbuilder]
      split
      · rename_i hb
        rw [hb, hnone]
        rfl
      · rfl
    · simp only [World.elementCount, World.builder?, hbuilder]
      split
      · rename_i hb
        rw [hb, hnone]
        rfl
      · rfl
    · have hlt : b.index < w.builders.size := (Array.getElem?_eq_some_iff.mp hb).1
      simp only [World.builder?, hbuilder]
      rw [if_neg (Nat.ne_of_lt hlt)]
      exact hb
    · cases o with
      | builder b => simpa [Object.In] using Nat.lt_succ_of_lt ho
      | identity n => exact Nat.lt_succ_of_lt ho
      | _ => exact ho

end Worlds

end TagTree
