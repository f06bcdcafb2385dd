import Mathlib.Data.Option.Basic
import TagTree.Proofs.Bounds
import TagTree.Proofs.Matching

/-!
# Alike worlds

Worlds are alike when matched objects have like contents. What is read of like values in
alike worlds is the same, up to matched objects. The second world may hold more elements, so
that it may still write what the first one has no fuel for.
-/

namespace TagTree

namespace Matching

abbrev Elements (ρ : Matching) (e f : ElementRef) : Prop := ρ.rel (.element e) (.element f)

abbrev Builders (ρ : Matching) (b c : BuilderRef) : Prop := ρ.rel (.builder b) (.builder c)

abbrev Ids (ρ : Matching) (i j : Nat) : Prop := ρ.rel (.identity i) (.identity j)

end Matching

/-! ### Contents of objects -/

inductive Content.Like (ρ : Matching) : Content → Content → Prop
  | empty : Like ρ .empty .empty
  | text {v w} (same : Value.Like ρ v w) : Like ρ (.text v) (.text w)
  | children {i j es fs} (id : ρ.Ids i j) (elements : List.Forall₂ ρ.Elements es fs) :
      Like ρ (.children i es) (.children j fs)

structure Element.Like (ρ : Matching) (x y : Element) : Prop where
  tag : x.tag = y.tag
  attributes : Option.Rel (Dict.Like ρ) x.attributes y.attributes
  content : Content.Like ρ x.content y.content
  isSealed : x.isSealed = y.isSealed

/-- Logs of like elements at the same depths. -/
abbrev Log.Like (ρ : Matching) : List (Nat × ElementRef) → List (Nat × ElementRef) → Prop :=
  List.Forall₂ fun x y => x.1 = y.1 ∧ ρ.Elements x.2 y.2

structure Session.Like (ρ : Matching) (s t : Session) : Prop where
  root : Option.Rel ρ.Elements s.root t.root
  log : Log.Like ρ s.log t.log
  depth : s.depth = t.depth

inductive Configuration.Like (ρ : Matching) : Configuration → Configuration → Prop
  | settings {s t} (fields : Settings.Like ρ s t) : Like ρ (.settings s) (.settings t)
  | other {v w} (same : Value.Like ρ v w) : Like ρ (.other v) (.other w)

structure Builder.Like (ρ : Matching) (x y : Builder) : Prop where
  configuration : Configuration.Like ρ x.configuration y.configuration
  correlation : Value.Like ρ x.correlation y.correlation
  handleId : ρ.Ids x.handleId y.handleId
  session : Option.Rel (Session.Like ρ) x.session y.session
  root : Option.Rel ρ.Elements x.root y.root
  remarks : x.remarks = y.remarks
  counters : x.counters = y.counters

section Mono

variable {ρ σ : Matching}

theorem rel_imp {α β : Type} {r s : α → β → Prop} (h : ∀ a b, r a b → s a b) {x : Option α}
    {y : Option β} (hr : Option.Rel r x y) : Option.Rel s x y := by
  cases hr with
  | none => exact .none
  | some hab => exact .some (h _ _ hab)

theorem rel_bind {α β γ δ : Type} {r : α → β → Prop} {s : γ → δ → Prop} {f : α → Option γ}
    {g : β → Option δ} {x : Option α} {y : Option β} (hr : Option.Rel r x y)
    (h : ∀ a b, r a b → Option.Rel s (f a) (g b)) : Option.Rel s (x.bind f) (y.bind g) := by
  cases hr with
  | none => exact .none
  | some hab => exact h _ _ hab

theorem rel_map {α β γ δ : Type} {r : α → β → Prop} {s : γ → δ → Prop} {f : α → γ} {g : β → δ}
    (h : ∀ a b, r a b → s (f a) (g b)) {x : Option α} {y : Option β} (hr : Option.Rel r x y) :
    Option.Rel s (x.map f) (y.map g) := by
  cases hr with
  | none => exact .none
  | some hab => exact .some (h _ _ hab)

theorem map_congr_rel {α β γ : Type} {r : α → β → Prop} {f : α → γ} {g : β → γ}
    (h : ∀ a b, r a b → f a = g b) {x : Option α} {y : Option β} (hr : Option.Rel r x y) :
    x.map f = y.map g := by
  cases hr with
  | none => rfl
  | some hab => exact congrArg some (h _ _ hab)

theorem isSome_congr {α β : Type} {r : α → β → Prop} {x : Option α} {y : Option β}
    (hr : Option.Rel r x y) : x.isSome = y.isSome := by
  cases hr <;> rfl

theorem isEmpty_congr {α β : Type} {r : α → β → Prop} {xs : List α} {ys : List β}
    (h : List.Forall₂ r xs ys) : xs.isEmpty = ys.isEmpty := by
  cases h <;> rfl

theorem Content.Like.mono (h : ρ ≤ σ) {c d : Content} (hl : Content.Like ρ c d) :
    Content.Like σ c d := by
  cases hl with
  | empty => exact .empty
  | text same => exact .text (same.mono h)
  | children id elements =>
    exact .children (Matching.rel_of_le h id)
      (elements.imp fun _ _ => Matching.rel_of_le h)

theorem Element.Like.mono (h : ρ ≤ σ) {x y : Element} (hl : Element.Like ρ x y) :
    Element.Like σ x y :=
  ⟨hl.tag, rel_imp (fun _ _ => Dict.Like.mono h) hl.attributes, hl.content.mono h,
    hl.isSealed⟩

theorem Session.Like.mono (h : ρ ≤ σ) {s t : Session} (hl : Session.Like ρ s t) :
    Session.Like σ s t :=
  ⟨rel_imp (fun _ _ => Matching.rel_of_le h) hl.root,
    hl.log.imp fun _ _ hx => ⟨hx.1, Matching.rel_of_le h hx.2⟩, hl.depth⟩

theorem Configuration.Like.mono (h : ρ ≤ σ) {c d : Configuration}
    (hl : Configuration.Like ρ c d) : Configuration.Like σ c d := by
  cases hl with
  | settings fields => exact .settings (fields.mono h)
  | other same => exact .other (same.mono h)

theorem Builder.Like.mono (h : ρ ≤ σ) {x y : Builder} (hl : Builder.Like ρ x y) :
    Builder.Like σ x y where
  configuration := hl.configuration.mono h
  correlation := hl.correlation.mono h
  handleId := Matching.rel_of_le h hl.handleId
  session := rel_imp (fun _ _ => Session.Like.mono h) hl.session
  root := rel_imp (fun _ _ => Matching.rel_of_le h) hl.root
  remarks := hl.remarks
  counters := hl.counters

end Mono

/-! ### Worlds -/

/-- Objects of two worlds with like contents. -/
inductive Object.Like (ρ : Matching) (w w' : World) : Object → Object → Prop
  | element {e f x y} (left : w.store.element? e = some x) (right : w'.store.element? f = some y)
      (same : Element.Like ρ x y) : Like ρ w w' (.element e) (.element f)
  | list {l m : ListRef} {xs ys} (left : w.store.lists[l.index]? = some xs)
      (right : w'.store.lists[m.index]? = some ys) (same : Values.Like ρ xs ys) :
      Like ρ w w' (.list l) (.list m)
  | dict {d e : DictRef} {xs ys} (left : w.store.dicts[d.index]? = some xs)
      (right : w'.store.dicts[e.index]? = some ys) (same : Dict.Like ρ xs ys) :
      Like ρ w w' (.dict d) (.dict e)
  | builder {b c x y} (left : w.builder? b = some x) (right : w'.builder? c = some y)
      (same : Builder.Like ρ x y) : Like ρ w w' (.builder b) (.builder c)
  | identity {i j} (left : i < w.store.nextId) (right : j < w'.store.nextId) :
      Like ρ w w' (.identity i) (.identity j)

structure World.Like (ρ : Matching) (w w' : World) : Prop where
  objects : ∀ {o p}, ρ.rel o p → Object.Like ρ w w' o p
  apart : ∀ {p}, ρ.apart p → p.In w'
  size : w.store.elements.size ≤ w'.store.elements.size
  host : w'.store.host = w.store.host

/-- Replies with related values or related errors. -/
inductive Reply.Like {ε ε' α β : Type} (E : ε → ε' → Prop) (R : α → β → Prop) :
    Except ε α → Except ε' β → Prop
  | ok {a b} (same : R a b) : Like E R (.ok a) (.ok b)
  | error {e e'} (same : E e e') : Like E R (.error e) (.error e')

theorem Reply.Like.bind {ε ε' α β γ δ : Type} {E : ε → ε' → Prop} {R : α → β → Prop}
    {S : γ → δ → Prop} {x : Except ε α} {y : Except ε' β} {k : α → Except ε γ}
    {l : β → Except ε' δ} (h : Reply.Like E R x y)
    (hk : ∀ a b, R a b → Reply.Like E S (k a) (l b)) : Reply.Like E S (x >>= k) (y >>= l) := by
  cases h with
  | ok same => exact hk _ _ same
  | error same => exact .error same

theorem Reply.Like.of_eq {ε α : Type} {x y : Except ε α} (h : x = y) : Reply.Like Eq Eq x y := by
  subst h
  cases x with
  | ok a => exact .ok rfl
  | error e => exact .error rfl

/-- Containers that are matched objects. -/
inductive Container.Like (ρ : Matching) : Container → Container → Prop
  | list {l m} (same : ρ.rel (.list l) (.list m)) : Like ρ (.list l) (.list m)
  | tuple {i j} (same : ρ.Ids i j) : Like ρ (.tuple i) (.tuple j)
  | dict {d e} (same : ρ.rel (.dict d) (.dict e)) : Like ρ (.dict d) (.dict e)
  | settings {i j} (same : ρ.Ids i j) : Like ρ (.settings i) (.settings j)

theorem Container.Like.beq {ρ : Matching} {c c' d d' : Container} (hc : Container.Like ρ c c')
    (hd : Container.Like ρ d d') : (c == d) = (c' == d') := by
  refine beq_congr ?_
  cases hc with
  | list same =>
    cases hd with
    | list same' => simpa using Matching.rel_iff same same'
    | _ => simp
  | tuple same =>
    cases hd with
    | tuple same' => simpa using Matching.rel_iff same same'
    | _ => simp
  | dict same =>
    cases hd with
    | dict same' => simpa using Matching.rel_iff same same'
    | _ => simp
  | settings same =>
    cases hd with
    | settings same' => simpa using Matching.rel_iff same same'
    | _ => simp

theorem contains_congr {ρ : Matching} {xs ys : List Container}
    (h : List.Forall₂ (Container.Like ρ) xs ys) {c d : Container} (hc : Container.Like ρ c d) :
    xs.contains c = ys.contains d := by
  induction h with
  | nil => rfl
  | cons first rest ih => rw [List.contains_cons, List.contains_cons, hc.beq first, ih]

theorem map_congr_forall₂ {α β γ : Type} {r : α → β → Prop} {f : α → γ} {g : β → γ}
    (h : ∀ a b, r a b → f a = g b) {xs : List α} {ys : List β} (hr : List.Forall₂ r xs ys) :
    xs.map f = ys.map g := by
  induction hr with
  | nil => rfl
  | cons first rest ih => rw [List.map_cons, List.map_cons, h _ _ first, ih]

/-! ### What is read in alike worlds -/

section Reading

variable {ρ : Matching} {w w' : World}

namespace World.Like

theorem left_in (h : World.Like ρ w w') {o p : Object} (hr : ρ.rel o p) : o.In w := by
  cases h.objects hr with
  | identity left right => exact left
  | element left | list left | dict left | builder left =>
    exact (Array.getElem?_eq_some_iff.mp left).1

theorem right_in (h : World.Like ρ w w') {o p : Object} (hr : ρ.rel o p) : p.In w' := by
  cases h.objects hr with
  | identity left right => exact right
  | element left right | list left right | dict left right | builder left right =>
    exact (Array.getElem?_eq_some_iff.mp right).1

theorem element (h : World.Like ρ w w') {e f : ElementRef} (hr : ρ.Elements e f) :
    ∃ x y, w.store.element? e = some x ∧ w'.store.element? f = some y ∧ Element.Like ρ x y := by
  cases h.objects hr with
  | element left right same => exact ⟨_, _, left, right, same⟩

theorem builder (h : World.Like ρ w w') {b c : BuilderRef} (hr : ρ.Builders b c) :
    ∃ x y, w.builder? b = some x ∧ w'.builder? c = some y ∧ Builder.Like ρ x y := by
  cases h.objects hr with
  | builder left right same => exact ⟨_, _, left, right, same⟩

theorem items (h : World.Like ρ w w') {l m : ListRef} (hr : ρ.rel (.list l) (.list m)) :
    Values.Like ρ (w.store.items l) (w'.store.items m) := by
  cases h.objects hr with
  | list left right same => simpa [Store.items, left, right] using same

theorem entries (h : World.Like ρ w w') {d e : DictRef} (hr : ρ.rel (.dict d) (.dict e)) :
    Dict.Like ρ (w.store.entries d) (w'.store.entries e) := by
  cases h.objects hr with
  | dict left right same => simpa [Store.entries, left, right] using same

theorem truthy (h : World.Like ρ w w') {v v' : Value} (hv : Value.Like ρ v v') :
    w.truthy v = w'.truthy v' := by
  cases hv with
  | atom same => exact same.congr Atom.truthy fun _ _ => rfl
  | list same => exact congrArg (!·) (isEmpty_congr (h.items same))
  | tuple id items => exact congrArg (!·) (isEmpty_congr items)
  | dict same => exact congrArg (!·) (isEmpty_congr (h.entries same))
  | view same => exact congrArg (!·) (isEmpty_congr (h.entries same))
  | _ => rfl

theorem sequence? (h : World.Like ρ w w') {v v' : Value} (hv : Value.Like ρ v v') :
    Option.Rel (Values.Like ρ) (w.store.sequence? v) (w'.store.sequence? v') := by
  cases hv with
  | list same => exact .some (h.items same)
  | tuple id items => exact .some items
  | _ => exact .none

theorem tagOf (h : World.Like ρ w w') {e f : ElementRef} (hr : ρ.Elements e f) :
    w.tagOf e = w'.tagOf f := by
  obtain ⟨x, y, hx, hy, hl⟩ := h.element hr
  simp [World.tagOf, hx, hy, hl.tag]

theorem rootTag (h : World.Like ρ w w') {b c : BuilderRef} (hr : ρ.Builders b c) :
    w.rootTag b = w'.rootTag c := by
  obtain ⟨x, y, hx, hy, hl⟩ := h.builder hr
  simp only [World.rootTag, hx, hy, Option.bind_some]
  exact map_congr_rel (fun _ _ he => h.tagOf he) hl.root

theorem isBuilding (h : World.Like ρ w w') {b c : BuilderRef} (hr : ρ.Builders b c) :
    w.isBuilding b = w'.isBuilding c := by
  obtain ⟨x, y, hx, hy, hl⟩ := h.builder hr
  simp only [World.isBuilding, hx, hy, Option.map_some, Option.getD_some, Builder.isBuilding]
  exact isSome_congr hl.session

theorem session? (h : World.Like ρ w w') {b c : BuilderRef} (hr : ρ.Builders b c) :
    Option.Rel (Session.Like ρ) (w.session? b) (w'.session? c) := by
  obtain ⟨x, y, hx, hy, hl⟩ := h.builder hr
  simpa only [World.session?, hx, hy, Option.bind_some] using hl.session

/-! ### Names and settings -/

theorem unreservesWithin (h : World.Like ρ w w') (n : Nat) {c d : Configuration}
    (hc : Configuration.Like ρ c d) : w.unreservesWithin n c = w'.unreservesWithin n d := by
  induction n generalizing c d with
  | zero =>
    cases hc with
    | settings fields => exact congrArg Except.ok (h.truthy (fields .unreserve))
    | other same =>
      have lacking : (Except.error _ : Except Fault Bool) = .error _ :=
        congrArg Except.error (same.lacking SettingName.unreserve.text)
      cases same <;> exact lacking
  | succ n ih =>
    cases hc with
    | settings fields => exact congrArg Except.ok (h.truthy (fields .unreserve))
    | other same =>
      have lacking : (Except.error _ : Except Fault Bool) = .error _ :=
        congrArg Except.error (same.lacking SettingName.unreserve.text)
      cases same with
      | handle same =>
        obtain ⟨x, y, hx, hy, hl⟩ := h.builder same.builder
        simp only [World.unreservesWithin, hx, hy, ih hl.configuration]
      | _ => exact lacking

theorem unreserves (h : World.Like ρ w w') {c d : Configuration}
    (hc : Configuration.Like ρ c d) : w.unreserves c = w'.unreserves d := by
  let n := max w.builders.size w'.builders.size + 1
  have hn : w.builders.size + 1 ≤ n ∧ w'.builders.size + 1 ≤ n := by omega
  rw [← unreservesWithin_eq hn.1, ← unreservesWithin_eq hn.2, h.unreservesWithin n hc]

theorem resolveName (h : World.Like ρ w w') {c d : Configuration}
    (hc : Configuration.Like ρ c d) (name : String) :
    w.resolveName c name = w'.resolveName d name := by
  simp only [World.resolveName, h.unreserves hc]

theorem lookupTag (h : World.Like ρ w w') {b c : BuilderRef} (hr : ρ.Builders b c)
    (name : String) : w.lookupTag b name = w'.lookupTag c name := by
  obtain ⟨x, y, hx, hy, hl⟩ := h.builder hr
  simp only [World.lookupTag, hx, hy, h.resolveName hl.configuration]

theorem settingOf (h : World.Like ρ w w') {c d : Configuration}
    (hc : Configuration.Like ρ c d) (n : SettingName) :
    Reply.Like Eq (Value.Like ρ) (w.settingOf c n) (w'.settingOf d n) := by
  cases hc with
  | settings fields => exact .ok (fields n)
  | other same =>
    have lacking := same.lacking n.text
    cases same with
    | handle same =>
      simp only [World.settingOf, h.lookupTag same.builder]
      cases w'.lookupTag _ n.text with
      | ok tag => exact .ok (.factory ρ.zero same.builder)
      | error f => exact .error rfl
    | builder same =>
      obtain ⟨x, y, hx, hy, hl⟩ := h.builder same
      cases n with
      | correlation =>
        simp only [World.settingOf, hx, hy]
        exact .ok hl.correlation
      | _ => exact .error lacking
    | _ => exact .error lacking

/-! ### The shown form -/

theorem shownBuilder (h : World.Like ρ w w') {b c : BuilderRef} (hr : ρ.Builders b c) :
    w.shownBuilder b = w'.shownBuilder c := by
  unfold World.shownBuilder
  rw [h.rootTag hr, h.isBuilding hr]

theorem shownHandle (h : World.Like ρ w w') {g g' : Handle} (hg : Handle.Like ρ g g') :
    w.shownHandle g = w'.shownHandle g' := by
  unfold World.shownHandle
  rw [h.shownBuilder hg.builder]

theorem shownCallable (h : World.Like ρ w w') {c d : Callable Value} (hc : Callable.Like ρ c d) :
    w.shownCallable c = w'.shownCallable d := by
  cases hc with
  | verbatim same =>
    exact congrArg ("<bound method TagHandle.tag of " ++ · ++ ">") (h.shownHandle same)
  | @member _ _ name same =>
    exact congrArg ("<bound method TagHandle." ++ name ++ " of " ++ · ++ ">") (h.shownHandle same)
  | _ => rfl

theorem shownElement {x y : Element} (hl : Element.Like ρ x y) {form form' : Value → String}
    (h : ∀ v v', Value.Like ρ v v' → form v = form' v') :
    World.shownElement x form = World.shownElement y form' := by
  obtain ⟨tag, attributes, content, isSealed⟩ := x
  obtain ⟨tag', attributes', content', isSealed'⟩ := y
  obtain ⟨rfl, -, same, -⟩ := hl
  cases same with
  | empty => rfl
  | text hv =>
    exact congrArg
      (fun text => "XMLElement(tag=" ++ Text.quoted tag ++ ", " ++ ("text=" ++ text) ++ ")")
      (h _ _ hv)
  | children id elements =>
    exact congrArg
      (fun n => "XMLElement(tag=" ++ Text.quoted tag ++ ", " ++ ("children=" ++ Nat.repr n) ++ ")")
      elements.length_eq

theorem shownWithin (h : World.Like ρ w w') (n : Nat) {inside inside' : List Container}
    (hi : List.Forall₂ (Container.Like ρ) inside inside') {v v' : Value}
    (hv : Value.Like ρ v v') : w.shownWithin n inside v = w'.shownWithin n inside' v' := by
  induction n generalizing inside inside' v v' with
  | zero => rfl
  | succ n ih =>
    cases v with
    | atom a =>
      cases hv with
      | atom same => exact same.congr Atom.shown fun _ _ => rfl
    | list l =>
      cases hv with
      | list same =>
        have hc := Container.Like.list same
        unfold World.shownWithin
        simp only [contains_congr hi hc,
          map_congr_forall₂ (fun _ _ hx => ih (.cons hc hi) hx) (h.items same)]
    | tuple i xs =>
      cases hv with
      | tuple id items =>
        have hc := Container.Like.tuple id
        unfold World.shownWithin
        simp only [contains_congr hi hc, isEmpty_congr items,
          map_congr_forall₂ (fun _ _ hx => ih (.cons hc hi) hx) items]
    | dict d =>
      cases hv with
      | dict same =>
        have hc := Container.Like.dict same
        have form : ∀ v v', Value.Like ρ v v' → _ := fun _ _ hx => ih (.cons hc hi) hx
        unfold World.shownWithin World.shownEntries
        simp only [contains_congr hi hc, map_congr_forall₂
          (fun _ _ hx => congrArg₂ (· ++ ": " ++ ·) (form _ _ hx.1) (form _ _ hx.2))
          (h.entries same)]
    | view d =>
      cases hv with
      | view same =>
        unfold World.shownWithin
        simp only [ih hi (.dict same)]
    | element e =>
      cases hv with
      | element same =>
        obtain ⟨x, y, hx, hy, hl⟩ := h.element same
        unfold World.shownWithin
        simp only [hx, hy]
        exact shownElement hl fun _ _ hx => ih hi hx
    | handle g =>
      cases hv with
      | handle same => exact h.shownHandle same
    | builder b =>
      cases hv with
      | builder same => exact h.shownBuilder same
    | settings i s =>
      cases hv with
      | settings id fields =>
        have hc := Container.Like.settings id
        have form := fun n => ih (.cons hc hi) (fields n)
        have width := form .indentWidth
        have unreserve := form .unreserve
        have limit := form .maxDepth
        have diagnostics := form .diagnostics
        have correlation := form .correlation
        simp only [Settings.get] at width unreserve limit diagnostics correlation
        unfold World.shownWithin
        simp only [contains_congr hi hc, Settings.Like.policy fields, width, unreserve, limit,
          diagnostics, correlation]
    | callable c =>
      obtain ⟨d, rfl, hd⟩ := hv.of_callable
      exact h.shownCallable hd

theorem shown (h : World.Like ρ w w') {v v' : Value} (hv : Value.Like ρ v v') :
    w.shown v = w'.shown v' := h.shownWithin World.readingDepth .nil hv

theorem plainText (h : World.Like ρ w w') {v v' : Value} (hv : Value.Like ρ v v') :
    w.plainText v = w'.plainText v' := by
  have hs := h.shown hv
  cases hv with
  | atom same => exact same.congr Atom.written fun _ _ => rfl
  | view same => exact congrArg Except.ok (h.shown (.dict same))
  | _ => exact congrArg Except.ok hs

end World.Like

end Reading

end TagTree
