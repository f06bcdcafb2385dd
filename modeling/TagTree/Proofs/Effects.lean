import TagTree.Build

/-!
# Effects on builders and elements

What each operation of a tag call or a build does to any builder and any element. The
operations touch the builder they are about and at most one element that exists.
-/

namespace TagTree

/-! ### Changes that keep the course of a build -/

/-- The builder with more remarks and more scalar blocks counted. -/
def Builder.annotated (remarks : List Remark) (scalars : Nat) (x : Builder) : Builder :=
  { x with
    remarks := x.remarks ++ remarks
    counters := { x.counters with scalarBlocks := x.counters.scalarBlocks + scalars } }

theorem Builder.annotated_nil : Builder.annotated [] 0 = id := by
  funext x
  simp [Builder.annotated]

theorem Builder.countScalar_eq : Builder.countScalar = Builder.annotated [] 1 := by
  funext x
  simp [Builder.countScalar, Counters.scalarBlock, Builder.annotated]

theorem Builder.annotated_comp (rs ts : List Remark) (n k : Nat) :
    Builder.annotated ts k ∘ Builder.annotated rs n = Builder.annotated (rs ++ ts) (n + k) := by
  funext x
  simp [Builder.annotated, Nat.add_assoc]

/-- What a builder with settings records of a remark that it is due. -/
def Settings.due (s : Settings Value) (w : World) (r : Remark) : List Remark :=
  if w.truthy s.diagnostics = true then [r] else []

/-- What a builder with settings records of a value that is discarded. -/
def Settings.dueDiscard (s : Settings Value) (w : World) (r : Remark) : List Remark :=
  if s.policy = .diagnostic then s.due w r else []

namespace World

def root? (w : World) (b : BuilderRef) : Option ElementRef :=
  (w.builder? b).bind Builder.root

def elementCount (w : World) (b : BuilderRef) : Nat :=
  ((w.builder? b).map fun x => x.counters.elementsCreated).getD 0

theorem isBuilding_eq (w : World) (b : BuilderRef) :
    w.isBuilding b = (w.session? b).isSome := by
  unfold isBuilding session?
  cases w.builder? b <;> rfl

/-- Builders of one world are those of another with a builder changed. -/
def Alters (w : World) (b : BuilderRef) (f : Builder → Builder) (w' : World) : Prop :=
  ∀ c, w'.builder? c = if b = c then (w.builder? c).map f else w.builder? c

section Alters

variable {w w' w'' : World} {b c : BuilderRef} {f g : Builder → Builder}

theorem Alters.updateBuilder (w : World) (b : BuilderRef) (f : Builder → Builder) :
    w.Alters b f (w.updateBuilder b f) := fun c => builder?_updateBuilder w b c f

theorem Alters.of_builders (w : World) (b : BuilderRef) (h : w'.builders = w.builders) :
    w.Alters b id w' := by
  intro c
  simp [builder?, h]

theorem Alters.annotated_nil (w : World) (b : BuilderRef) (h : w'.builders = w.builders) :
    w.Alters b (Builder.annotated [] 0) w' := by
  rw [Builder.annotated_nil]
  exact .of_builders w b h

theorem Alters.trans (hf : w.Alters b f w') (hg : w'.Alters b g w'') :
    w.Alters b (g ∘ f) w'' := by
  intro c
  rw [hg c, hf c]
  by_cases hb : b = c
  · simp [hb, Option.map_map]
  · simp [hb]

theorem Alters.other (h : w.Alters b f w') (hb : b ≠ c) : w'.builder? c = w.builder? c := by
  rw [h c, if_neg hb]

theorem Alters.self (h : w.Alters b f w') : w'.builder? b = (w.builder? b).map f := by
  rw [h b, if_pos rfl]

theorem Alters.session_other (h : w.Alters b f w') (hb : b ≠ c) :
    w'.session? c = w.session? c := by
  simp only [session?, h.other hb]

theorem Alters.root_other (h : w.Alters b f w') (hb : b ≠ c) : w'.root? c = w.root? c := by
  simp only [root?, h.other hb]

end Alters

/-! ### The journal -/

@[simp] theorem builder?_notice (w : World) (b c : BuilderRef) (n : Notice) :
    (w.notice b n).builder? c = w.builder? c := rfl

/-! ### Creation -/

theorem create_alters (w : World) (b : BuilderRef) (c : TagCall) :
    w.Alters b (Builder.logElement · (w.create b c).1) (w.create b c).2 := by
  intro d
  simp only [create, builder?_notice, builder?_updateBuilder]
  rfl

theorem create_ref (w : World) (b : BuilderRef) (c : TagCall) :
    (w.create b c).1 = ⟨w.store.elements.size⟩ := rfl

theorem ne_create {w : World} {e : ElementRef} (he : e.index < w.store.elements.size)
    (b : BuilderRef) (c : TagCall) : e ≠ (w.create b c).1 := by
  intro h
  rw [h, create_ref] at he
  exact Nat.lt_irrefl _ he

theorem create_elements (w : World) (b : BuilderRef) (c : TagCall) :
    (w.create b c).2.store.elements = w.store.elements.push c.element := rfl

theorem create_element? (w : World) (b : BuilderRef) (c : TagCall) (e : ElementRef)
    (he : e.index < w.store.elements.size) :
    (w.create b c).2.store.element? e = w.store.element? e := by
  simp only [Store.element?, create_elements, Array.getElem?_push]
  rw [if_neg (by omega)]

theorem create_element?_self (w : World) (b : BuilderRef) (c : TagCall) :
    (w.create b c).2.store.element? (w.create b c).1 = some c.element := by
  simp [Store.element?, create_elements, create_ref]

/-! ### Changing an element -/

theorem changeElement_builders (w : World) (e : ElementRef)
    (f : Element → Except Fault Element) :
    (w.changeElement e f).2.builders = w.builders := by
  unfold changeElement
  cases w.store.element? e with
  | none => rfl
  | some x =>
    simp only
    cases f x <;> rfl

theorem changeElement_size (w : World) (e : ElementRef)
    (f : Element → Except Fault Element) :
    (w.changeElement e f).2.store.elements.size = w.store.elements.size := by
  unfold changeElement
  cases w.store.element? e with
  | none => rfl
  | some x =>
    simp only
    cases f x with
    | error _ => rfl
    | ok y => simp [Store.setElement]

theorem changeElement_other (w : World) {e d : ElementRef}
    (f : Element → Except Fault Element) (h : e ≠ d) :
    (w.changeElement e f).2.store.element? d = w.store.element? d := by
  have hi : e.index ≠ d.index := fun hi => h (by cases e; cases d; simp_all)
  unfold changeElement
  cases w.store.element? e with
  | none => rfl
  | some x =>
    simp only
    cases f x with
    | error _ => rfl
    | ok y => simp [Store.setElement, Store.element?, hi]

theorem changeElement_self {w : World} {e : ElementRef} {x y : Element}
    {f : Element → Except Fault Element} (hx : w.store.element? e = some x)
    (hf : f x = .ok y) :
    w.changeElement e f = (.value (), { w with store := w.store.setElement e y }) := by
  simp only [changeElement, hx, hf]

theorem element?_setElement {s : Store} {e : ElementRef} {x : Element} (y : Element)
    (hx : s.element? e = some x) : (s.setElement e y).element? e = some y := by
  have hlt : e.index < s.elements.size := by
    simp only [Store.element?] at hx
    exact (Array.getElem?_eq_some_iff.mp hx).1
  simp [Store.setElement, Store.element?, hlt]

/-! ### Settling a block -/

theorem remark_alters (w : World) (b : BuilderRef) (r : Remark) :
    ∃ rs, w.Alters b (Builder.annotated rs 0) (w.remark b r) := by
  unfold remark
  cases w.builder? b with
  | none => exact ⟨[], .annotated_nil w b rfl⟩
  | some x =>
    simp only
    split
    · exact ⟨[r], .updateBuilder w b _⟩
    · exact ⟨[], .annotated_nil w b rfl⟩

/-- A builder that builds records a remark as its settings have it. -/
theorem remark_alters_due {w : World} {b : BuilderRef} {x : Builder} {s : Settings Value}
    (hx : w.builder? b = some x) (hs : x.configuration = .settings s) (r : Remark) :
    w.Alters b (Builder.annotated (if x.isBuilding = true then s.due w r else []) 0)
      (w.remark b r) := by
  have hwants : w.wantsRemarks x = w.truthy s.diagnostics := by
    simp only [wantsRemarks, hs, settingOf_settings, Settings.get]
  unfold remark Settings.due
  simp only [hx, hwants]
  cases hon : w.truthy s.diagnostics with
  | true =>
    cases x.isBuilding with
    | true => exact .updateBuilder w b _
    | false => exact .annotated_nil w b rfl
  | false =>
    cases x.isBuilding <;> exact .annotated_nil w b rfl

theorem remark_journal (w : World) (b : BuilderRef) (r : Remark) :
    (w.remark b r).journal = w.journal := by
  unfold remark
  cases w.builder? b with
  | none => rfl
  | some x =>
    simp only
    split <;> rfl

theorem remark_store (w : World) (b : BuilderRef) (r : Remark) :
    (w.remark b r).store = w.store := by
  unfold remark
  cases w.builder? b with
  | none => rfl
  | some x =>
    simp only
    split <;> rfl

theorem reportAmbiguous_alters (w : World) (b : BuilderRef) (e : ElementRef) (v : Value) :
    ∃ rs, w.Alters b (Builder.annotated rs 0) (w.reportAmbiguous b e v).2 := by
  have same : w.Alters b (Builder.annotated [] 0) w := .annotated_nil w b rfl
  unfold reportAmbiguous
  simp only
  cases w.policyOf b with
  | error f => exact ⟨[], same⟩
  | ok p =>
    cases p with
    | strict => exact ⟨[], same⟩
    | silent => exact ⟨[], same⟩
    | diagnostic =>
      obtain ⟨rs, hrs⟩ := remark_alters (w.notice b (.discarded (w.tagOf e))) b
        (.discardedValue (w.tagOf e) (w.shown v))
      exact ⟨rs, hrs⟩

theorem reportAmbiguous_store (w : World) (b : BuilderRef) (e : ElementRef) (v : Value) :
    (w.reportAmbiguous b e v).2.store = w.store := by
  unfold reportAmbiguous
  simp only
  cases w.policyOf b with
  | error f => rfl
  | ok p => cases p <;> simp [remark_store]

section Settings

variable {w : World} {b : BuilderRef} {x : Builder} {s : Settings Value}

theorem policyOf_settings (hx : w.builder? b = some x) (hs : x.configuration = .settings s) :
    w.policyOf b = .ok s.policy := by
  simp only [policyOf, hx, hs, settingOf_settings, Settings.get]
  rfl

theorem reportAmbiguous_outcome (hx : w.builder? b = some x) (hs : x.configuration = .settings s)
    (e : ElementRef) (v : Value) :
    (w.reportAmbiguous b e v).1 =
      if s.policy = .strict then .fault (.ambiguousBlock (w.tagOf e) v (w.shown v))
      else .value () := by
  unfold reportAmbiguous
  simp only [policyOf_settings hx hs]
  cases s.policy <;> rfl

theorem reportAmbiguous_alters_due (hx : w.builder? b = some x)
    (hs : x.configuration = .settings s) (e : ElementRef) (v : Value) :
    w.Alters b (Builder.annotated (if x.isBuilding = true
        then s.dueDiscard w (.discardedValue (w.tagOf e) (w.shown v)) else []) 0)
      (w.reportAmbiguous b e v).2 := by
  unfold reportAmbiguous Settings.dueDiscard
  simp only [policyOf_settings hx hs]
  cases s.policy with
  | diagnostic =>
    have hnoted : (w.notice b (.discarded (w.tagOf e))).builder? b = some x := hx
    exact remark_alters_due hnoted hs (.discardedValue (w.tagOf e) (w.shown v))
  | _ => cases x.isBuilding <;> exact .annotated_nil w b rfl

theorem reportAmbiguous_journal (hx : w.builder? b = some x) (hs : x.configuration = .settings s)
    (e : ElementRef) (v : Value) :
    (w.reportAmbiguous b e v).2.journal =
      if s.policy = .diagnostic then (w.notice b (.discarded (w.tagOf e))).journal
      else w.journal := by
  unfold reportAmbiguous
  simp only [policyOf_settings hx hs]
  cases s.policy with
  | diagnostic => exact remark_journal _ b _
  | _ => rfl

end Settings

theorem giveChildren_builders (w : World) (e : ElementRef) (children : List ElementRef) :
    (w.giveChildren e children).2.builders = w.builders := by
  simp only [giveChildren, changeElement_builders]

/-- The content that an element is given when its block returned a value. -/
def fill (w : World) (b : BuilderRef) (e : ElementRef) (start : Nat) (v : Value) :
    Outcome Unit × World :=
  let added := w.loggedSince b start
  if !added.isEmpty then
    w.giveChildren e (directly (((w.session? b).map Session.depth).getD 0) added)
  else if !v.isNone then w.changeElement e (·.attachText v)
  else (.value (), w)

theorem fill_builders (w : World) (b : BuilderRef) (e : ElementRef) (start : Nat) (v : Value) :
    (w.fill b e start v).2.builders = w.builders := by
  unfold fill
  simp only
  split
  · exact giveChildren_builders w e _
  · split
    · exact changeElement_builders w e _
    · rfl

theorem fill_size (w : World) (b : BuilderRef) (e : ElementRef) (start : Nat) (v : Value) :
    (w.fill b e start v).2.store.elements.size = w.store.elements.size := by
  unfold fill
  simp only
  split
  · exact changeElement_size _ e _
  · split
    · exact changeElement_size w e _
    · rfl

theorem fill_other (w : World) (b : BuilderRef) {e d : ElementRef} (start : Nat) (v : Value)
    (h : e ≠ d) : (w.fill b e start v).2.store.element? d = w.store.element? d := by
  unfold fill
  simp only
  split
  · exact changeElement_other _ _ h
  · split
    · exact changeElement_other w _ h
    · rfl

theorem changeElement_lists (w : World) (e : ElementRef) (f : Element → Except Fault Element) :
    (w.changeElement e f).2.store.lists = w.store.lists := by
  unfold changeElement
  cases w.store.element? e with
  | none => rfl
  | some x =>
    simp only
    cases f x <;> rfl

theorem fill_lists (w : World) (b : BuilderRef) (e : ElementRef) (start : Nat) (v : Value) :
    (w.fill b e start v).2.store.lists = w.store.lists := by
  unfold fill
  simp only
  split
  · exact changeElement_lists _ e _
  · split
    · exact changeElement_lists w e _
    · rfl

theorem isLogged_congr {w w' : World} (h : w'.store.lists = w.store.lists)
    (entries : List (Nat × ElementRef)) (v : Value) :
    w'.isLogged entries v = w.isLogged entries v := by
  have hs : w'.store.sequence? v = w.store.sequence? v := by
    cases v <;> simp only [Store.sequence?, Store.items, h]
  simp only [isLogged, hs]

/-- What follows when the element of a block that returned a value is filled. -/
def judge (w : World) (b : BuilderRef) (e : ElementRef) (start : Nat) (v : Value) :
    Outcome Unit × World → Outcome Unit × World
  | (.value (), u) =>
    if v.isNone then (.value (), u)
    else if (w.loggedSince b start).isEmpty then
      (.value (), u.updateBuilder b Builder.countScalar)
    else if w.isLogged (w.loggedSince b start) v then (.value (), u)
    else u.reportAmbiguous b e v
  | refused => refused

theorem settle_eq (w : World) (b : BuilderRef) (e : ElementRef) (start : Nat) (v : Value) :
    w.settle b e start v = w.judge b e start v (w.fill b e start v) := by
  have hlists := fill_lists w b e start v
  unfold settle
  simp only
  cases hadded : w.loggedSince b start with
  | nil =>
    cases hv : v.isNone with
    | true => simp [fill, judge, hadded, hv]
    | false =>
      simp only [fill, hadded, hv, List.isEmpty_nil, Bool.not_true, Bool.false_eq_true, if_false,
        Bool.not_false, if_true]
      rcases w.changeElement e (·.attachText v) with ⟨x, u⟩
      cases x <;> simp [judge, hadded, hv]
  | cons entry more =>
    simp only [fill, hadded, List.isEmpty_cons, Bool.not_false, if_true] at hlists ⊢
    rcases hgiven : w.giveChildren e (directly (((w.session? b).map Session.depth).getD 0)
      (entry :: more)) with ⟨x, u⟩
    rw [hgiven] at hlists
    cases x with
    | value _ =>
      have hlogged := isLogged_congr hlists (entry :: more) v
      simp only at hlogged
      simp only [judge, hadded, hlogged, List.isEmpty_cons, Bool.false_eq_true, if_false]
      cases v.isNone <;> cases w.isLogged (entry :: more) v <;> rfl
    | fault f => simp [judge]
    | exhausted => simp [judge]

/-- How a block that returned a value is settled: the element refuses its content, or it is
filled, and then the value may be counted as a scalar or found ambiguous. -/
inductive Settling (w : World) (b : BuilderRef) (e : ElementRef) (start : Nat) (v : Value) :
    Outcome Unit × World → Prop
  | refused (unfilled : (w.fill b e start v).1 ≠ .value ()) : Settling w b e start v
      (w.fill b e start v)
  | quiet {w'} (filled : w.fill b e start v = (.value (), w'))
      (plain : v.isNone = true ∨
        w.loggedSince b start ≠ [] ∧ w.isLogged (w.loggedSince b start) v = true) :
      Settling w b e start v (.value (), w')
  | scalar {w'} (filled : w.fill b e start v = (.value (), w'))
      (bare : w.loggedSince b start = []) (given : v.isNone = false) :
      Settling w b e start v (.value (), w'.updateBuilder b Builder.countScalar)
  | ambiguous {w'} (filled : w.fill b e start v = (.value (), w'))
      (entries : w.loggedSince b start ≠ []) (given : v.isNone = false)
      (foreign : w.isLogged (w.loggedSince b start) v = false) :
      Settling w b e start v (w'.reportAmbiguous b e v)

theorem settling (w : World) (b : BuilderRef) (e : ElementRef) (start : Nat) (v : Value) :
    w.Settling b e start v (w.settle b e start v) := by
  rw [settle_eq]
  rcases hfill : w.fill b e start v with ⟨x, u⟩
  have hrefused (hx : x ≠ .value ()) : w.Settling b e start v (x, u) := by
    rw [← hfill]
    exact .refused (by rw [hfill]; exact hx)
  cases x with
  | fault f => exact hrefused (by simp)
  | exhausted => exact hrefused (by simp)
  | value _ =>
    unfold judge
    simp only
    split
    · exact .quiet hfill (.inl ‹_›)
    · have given : v.isNone = false := by simpa using ‹¬ v.isNone = true›
      split
      · exact .scalar hfill (List.isEmpty_iff.mp ‹_›) given
      · have entries : w.loggedSince b start ≠ [] := by
          intro h
          simp_all
        split
        · exact .quiet hfill (.inr ⟨entries, ‹_›⟩)
        · exact .ambiguous hfill entries given (by simpa using ‹¬ w.isLogged _ v = true›)

theorem settle_alters (w : World) (b : BuilderRef) (e : ElementRef) (start : Nat) (v : Value) :
    ∃ rs n, w.Alters b (Builder.annotated rs n) (w.settle b e start v).2 := by
  have hf : w.Alters b (Builder.annotated [] 0) (w.fill b e start v).2 :=
    .annotated_nil w b (fill_builders w b e start v)
  have hs := settling w b e start v
  generalize w.settle b e start v = r at hs ⊢
  cases hs with
  | refused => exact ⟨[], 0, hf⟩
  | quiet filled =>
    rw [filled] at hf
    exact ⟨[], 0, hf⟩
  | @scalar w' filled =>
    rw [filled] at hf
    have hs : w'.Alters b (Builder.annotated [] 1) (w'.updateBuilder b Builder.countScalar) := by
      rw [← Builder.countScalar_eq]
      exact .updateBuilder w' b _
    have ht := hf.trans hs
    rw [Builder.annotated_comp] at ht
    exact ⟨_, _, ht⟩
  | @ambiguous w' filled =>
    rw [filled] at hf
    obtain ⟨rs, hrs⟩ := reportAmbiguous_alters w' b e v
    have ht := hf.trans hrs
    rw [Builder.annotated_comp] at ht
    exact ⟨_, _, ht⟩

theorem settle_store (w : World) (b : BuilderRef) (e : ElementRef) (start : Nat) (v : Value) :
    (w.settle b e start v).2.store = (w.fill b e start v).2.store := by
  have hs := settling w b e start v
  generalize w.settle b e start v = r at hs ⊢
  cases hs with
  | refused => rfl
  | quiet filled => rw [filled]
  | scalar filled => rw [filled]; rfl
  | ambiguous filled => rw [filled, reportAmbiguous_store]

theorem settle_other (w : World) (b : BuilderRef) {e d : ElementRef} (start : Nat) (v : Value)
    (h : e ≠ d) : (w.settle b e start v).2.store.element? d = w.store.element? d := by
  rw [settle_store]
  exact fill_other w b start v h

theorem settle_size (w : World) (b : BuilderRef) (e : ElementRef) (start : Nat) (v : Value) :
    (w.settle b e start v).2.store.elements.size = w.store.elements.size := by
  rw [settle_store]
  exact fill_size w b e start v

theorem giveChildren_self {w : World} {e : ElementRef} {x : Element}
    (children : List ElementRef) (hx : w.store.element? e = some x)
    (hs : x.isSealed = false) :
    ∃ w' y, w.giveChildren e children = (.value (), w') ∧ w'.store.element? e = some y ∧
      y.content = .children w.store.nextId children := by
  have hy : x.withContent (.children w.store.nextId children) =
      .ok { x with content := .children w.store.nextId children, isSealed := true } := by
    simp [Element.withContent, hs]
  have hx' : ({ w with store := { w.store with nextId := w.store.nextId + 1 } } :
      World).store.element? e = some x := hx
  have hg := changeElement_self (f := (·.withContent (.children w.store.nextId children))) hx' hy
  exact ⟨_, _, hg, element?_setElement _ hx', rfl⟩

theorem fill_of_unsealed {w : World} (b : BuilderRef) {e : ElementRef} {x : Element}
    (start : Nat) (v : Value) (hx : w.store.element? e = some x) (hs : x.isSealed = false) :
    ∃ w', w.fill b e start v = (.value (), w') := by
  have hy : x.attachText v =
      .ok { x with content := Element.textContent v, isSealed := true } := by
    simp [Element.attachText, Element.withContent, hs]
  obtain ⟨w', y, hw', -⟩ := giveChildren_self
    (directly (((w.session? b).map Session.depth).getD 0) (w.loggedSince b start)) hx hs
  unfold fill
  simp only
  split
  · exact ⟨w', hw'⟩
  · split
    · exact ⟨_, changeElement_self hx hy⟩
    · exact ⟨w, rfl⟩

theorem textContent_cases (v : Value) :
    (v = .none ∧ Element.textContent v = .empty) ∨
      (v.isNone = false ∧ Element.textContent v = .text v) := by
  cases v with
  | atom a =>
    cases a with
    | none => exact .inl ⟨rfl, rfl⟩
    | _ => exact .inr ⟨rfl, rfl⟩
  | _ => exact .inr ⟨rfl, rfl⟩

def settledContent (w : World) (b : BuilderRef) (start : Nat) (v : Value) : Content :=
  let added := w.loggedSince b start
  if added.isEmpty then Element.textContent v
  else .children w.store.nextId (directly (((w.session? b).map Session.depth).getD 0) added)

theorem settle_self {w : World} {b : BuilderRef} {e : ElementRef} {x : Element} (start : Nat)
    (v : Value) (hx : w.store.element? e = some x) (hs : x.isSealed = false)
    (hc : x.content = .empty) :
    ∃ y, (w.settle b e start v).2.store.element? e = some y ∧
      y.content = w.settledContent b start v := by
  unfold settle settledContent
  by_cases ha : (w.loggedSince b start).isEmpty
  · simp only [ha, Bool.not_true, Bool.false_eq_true, if_false, if_true]
    by_cases hv : v.isNone
    · refine ⟨x, by simpa [hv] using hx, ?_⟩
      rcases textContent_cases v with ⟨-, ht⟩ | ⟨hn, -⟩
      · rw [hc, ht]
      · rw [hn] at hv
        cases hv
    · have hy : x.attachText v =
          .ok { x with content := Element.textContent v, isSealed := true } := by
        simp [Element.attachText, Element.withContent, hs]
      refine ⟨{ x with content := Element.textContent v, isSealed := true }, ?_, rfl⟩
      rw [changeElement_self hx hy]
      simp only [hv, Bool.not_false, if_true]
      exact element?_setElement _ hx
  · obtain ⟨w', y, hw', hy, hc'⟩ := giveChildren_self
      (directly (((w.session? b).map Session.depth).getD 0) (w.loggedSince b start)) hx hs
    simp only [ha, Bool.not_false, if_true, Bool.false_eq_true, if_false, hw']
    refine ⟨y, ?_, hc'⟩
    split
    · rw [reportAmbiguous_store]
      exact hy
    · exact hy

/-! ### Beginning and ending a build -/

theorem startBuild_alters (w : World) (b : BuilderRef) :
    w.Alters b Builder.start (w.startBuild b) := fun c => by
  simp only [startBuild, builder?_notice, builder?_updateBuilder]

theorem reportOrphans_alters (w : World) (b : BuilderRef) (s : Session) (root : ElementRef) :
    ∃ rs, w.Alters b (Builder.annotated rs 0) (w.reportOrphans b s root) := by
  unfold reportOrphans
  simp only
  split
  · exact ⟨[], .annotated_nil w b rfl⟩
  · obtain ⟨rs, hrs⟩ := remark_alters
      (w.notice b (.orphaned (w.tagOf root) ((orphansOf s).map w.tagOf).length)) b
      (.orphans (w.tagOf root) ((orphansOf s).map w.tagOf))
    exact ⟨rs, hrs⟩

theorem reportOrphans_store (w : World) (b : BuilderRef) (s : Session) (root : ElementRef) :
    (w.reportOrphans b s root).store = w.store := by
  unfold reportOrphans
  simp only
  split
  · rfl
  · rw [remark_store, store_notice]

theorem failBuild_alters (w : World) (b : BuilderRef) (f : Fault) :
    w.Alters b (Builder.finish · none) (w.failBuild b f) := fun c => by
  have noted : (if f.isException
      then w.notice b (.failed (w.countersOf b).elementsCreated f.kind) else w).builder? c =
      w.builder? c := by
    split <;> rfl
  simp only [failBuild, builder?_updateBuilder, noted]

theorem failBuild_store (w : World) (b : BuilderRef) (f : Fault) :
    (w.failBuild b f).store = w.store := by
  unfold failBuild
  simp only [store_updateBuilder]
  split <;> rfl

theorem completeBuild_alters (w : World) (b : BuilderRef) (s : Session) (root : ElementRef) :
    ∃ rs, w.Alters b ((Builder.finish · (some root)) ∘ Builder.annotated rs 0)
      (w.completeBuild b s root) := by
  obtain ⟨rs, hrs⟩ := reportOrphans_alters w b s root
  exact ⟨rs, hrs.trans (.updateBuilder _ b _)⟩

theorem completeBuild_store (w : World) (b : BuilderRef) (s : Session) (root : ElementRef) :
    (w.completeBuild b s root).store = w.store := by
  simp only [completeBuild, store_notice, store_updateBuilder, reportOrphans_store]

end World

/-! ### Ends of blocks and builds -/

theorem endBlock_alters (b : BuilderRef) (e : ElementRef) (start : Nat) (x : Outcome Value)
    (s : State) :
    ∃ rs n, s.world.Alters b (Builder.leaveBlock ∘ Builder.annotated rs n)
      (endBlock b e start x s).2.world := by
  have quiet : s.world.Alters b (Builder.leaveBlock ∘ Builder.annotated [] 0)
      (leaveBlock b s).world :=
    (World.Alters.annotated_nil s.world b rfl).trans (.updateBuilder s.world b _)
  cases x with
  | value v =>
    obtain ⟨rs, n, h⟩ := World.settle_alters s.world b e start v
    exact ⟨rs, n, h.trans (.updateBuilder _ b _)⟩
  | fault f => exact ⟨[], 0, quiet⟩
  | exhausted => exact ⟨[], 0, quiet⟩

theorem endBlock_other (b : BuilderRef) {e d : ElementRef} (start : Nat) (x : Outcome Value)
    (s : State) (h : e ≠ d) :
    (endBlock b e start x s).2.world.store.element? d = s.world.store.element? d := by
  cases x with
  | value v => exact World.settle_other s.world b start v h
  | fault f => rfl
  | exhausted => rfl

theorem endBlock_size (b : BuilderRef) (e : ElementRef) (start : Nat) (x : Outcome Value)
    (s : State) :
    (endBlock b e start x s).2.world.store.elements.size = s.world.store.elements.size := by
  cases x with
  | value v => exact World.settle_size s.world b e start v
  | fault f => rfl
  | exhausted => rfl

def contentAfter (w : World) (b : BuilderRef) (start : Nat) : Outcome Value → Content
  | .value v => w.settledContent b start v
  | _ => .empty

theorem endBlock_self {b : BuilderRef} {e : ElementRef} {y : Element} (start : Nat)
    (x : Outcome Value) {s : State} (hy : s.world.store.element? e = some y)
    (hs : y.isSealed = false) (hc : y.content = .empty) :
    ∃ z, (endBlock b e start x s).2.world.store.element? e = some z ∧
      z.content = contentAfter s.world b start x := by
  cases x with
  | value v => exact World.settle_self start v hy hs hc
  | fault f => exact ⟨y, hy, hc⟩
  | exhausted => exact ⟨y, hy, hc⟩

def Session.conclusion (session : Session) : Outcome Value → Outcome ElementRef
  | .value _ =>
    match session.root with
    | some root => .value root
    | none => .fault .noRoot
  | .fault f => .fault f
  | .exhausted => .exhausted

theorem endBuild_ending {b : BuilderRef} {s : State} {session : Session}
    (hs : s.world.session? b = some session) (x : Outcome Value) :
    (endBuild b x s).1 = session.conclusion x := by
  cases x with
  | value v =>
    simp only [endBuild, World.concludeBuild, hs, Session.conclusion]
    cases session.root <;> rfl
  | fault f => rfl
  | exhausted => rfl

theorem endBuild_alters {b : BuilderRef} {s : State} {session : Session}
    (hs : s.world.session? b = some session) (x : Outcome Value) :
    ∃ rs, s.world.Alters b
      ((Builder.finish · (session.conclusion x).value?) ∘ Builder.annotated rs 0)
      (endBuild b x s).2.world := by
  have quiet (w : World) (h : s.world.Alters b (Builder.finish · none) w) :
      s.world.Alters b ((Builder.finish · none) ∘ Builder.annotated [] 0) w := by
    rw [Builder.annotated_nil, Function.comp_id]
    exact h
  cases x with
  | value v =>
    simp only [endBuild, World.concludeBuild, hs, Session.conclusion]
    cases session.root with
    | none => exact ⟨[], quiet _ (World.failBuild_alters s.world b .noRoot)⟩
    | some root => exact World.completeBuild_alters s.world b session root
  | fault f => exact ⟨[], quiet _ (World.failBuild_alters s.world b f)⟩
  | exhausted => exact ⟨[], quiet _ (.updateBuilder s.world b _)⟩

theorem endBuild_store {b : BuilderRef} {s : State} {session : Session}
    (hs : s.world.session? b = some session) (x : Outcome Value) :
    (endBuild b x s).2.world.store = s.world.store := by
  cases x with
  | value v =>
    simp only [endBuild, World.concludeBuild, hs]
    cases session.root with
    | none => exact World.failBuild_store s.world b .noRoot
    | some root => exact World.completeBuild_store s.world b session root
  | fault f => exact World.failBuild_store s.world b f
  | exhausted => rfl

/-! ### Where a builder stands -/

namespace World

/-- The session that a builder runs, the root that it keeps and the elements it counted. -/
structure Stands (w : World) (b : BuilderRef) (session : Option Session)
    (root : Option ElementRef) (count : Nat) : Prop where
  session : w.session? b = session
  root : w.root? b = root
  count : w.elementCount b = count

section Stands

variable {w w' : World} {b c : BuilderRef} {f : Builder → Builder} {x : Builder}
  {session : Option Session} {root : Option ElementRef} {count : Nat}

theorem stands (w : World) (b : BuilderRef) :
    w.Stands b (w.session? b) (w.root? b) (w.elementCount b) := ⟨rfl, rfl, rfl⟩

theorem Stands.of_builder (hx : w.builder? b = some x) :
    w.Stands b x.session x.root x.counters.elementsCreated := by
  constructor
  · simp [session?, hx]
  · simp [root?, hx]
  · simp [elementCount, hx]

theorem Stands.builder {s : Session} (h : w.Stands b (some s) root count) :
    ∃ x, w.builder? b = some x ∧ x.session = some s ∧ x.root = root ∧
      x.counters.elementsCreated = count := by
  obtain ⟨hs, hr, hc⟩ := h
  cases hx : w.builder? b with
  | none => simp [session?, hx] at hs
  | some x =>
    refine ⟨x, rfl, ?_, ?_, ?_⟩
    · simpa [session?, hx] using hs
    · simpa [root?, hx] using hr
    · simpa [elementCount, hx] using hc

theorem Alters.stands_self (h : w.Alters b f w') (hx : w.builder? b = some x) :
    w'.Stands b (f x).session (f x).root (f x).counters.elementsCreated := by
  refine .of_builder ?_
  rw [h.self, hx]
  rfl

theorem Alters.stands_other (h : w.Alters b f w') (hb : b ≠ c)
    (hc : w.Stands c session root count) : w'.Stands c session root count := by
  obtain ⟨hs, hr, hn⟩ := hc
  constructor
  · rw [h.session_other hb, hs]
  · rw [h.root_other hb, hr]
  · simpa only [elementCount, h.other hb] using hn

theorem create_stands {s : Session} (c : TagCall) (h : w.Stands b (some s) root count) :
    (w.create b c).2.Stands b
      (some ⟨s.root <|> some (w.create b c).1, s.log ++ [(s.depth, (w.create b c).1)], s.depth⟩)
      root (count + 1) := by
  obtain ⟨x, hx, hs, rfl, rfl⟩ := h.builder
  have hc := (create_alters w b c).stands_self hx
  simpa only [Builder.logElement, hs, Counters.elementCreated] using hc

theorem startBuild_stands (hx : w.builder? b = some x) :
    (w.startBuild b).Stands b (some .empty) none 0 :=
  (startBuild_alters w b).stands_self hx

end Stands

end World

theorem enterBlock_stands {b : BuilderRef} {s : State} {session : Session}
    {root : Option ElementRef} {count : Nat}
    (h : s.world.Stands b (some session) root count) :
    (enterBlock b s).world.Stands b
      (some ⟨session.root, session.log, session.depth + 1⟩) root count := by
  obtain ⟨x, hx, hs, rfl, rfl⟩ := h.builder
  have he := (World.Alters.updateBuilder s.world b Builder.enterBlock).stands_self hx
  simp only [Builder.enterBlock, hs] at he
  exact he

theorem endBlock_stands {b : BuilderRef} {s : State} {session : Session}
    {root : Option ElementRef} {count : Nat} (e : ElementRef) (start : Nat)
    (ending : Outcome Value) (h : s.world.Stands b (some session) root count) :
    (endBlock b e start ending s).2.world.Stands b
      (some ⟨session.root, session.log, session.depth - 1⟩) root count := by
  obtain ⟨x, hx, hs, rfl, rfl⟩ := h.builder
  obtain ⟨rs, n, ha⟩ := endBlock_alters b e start ending s
  have he := ha.stands_self hx
  simpa only [Function.comp_apply, Builder.leaveBlock, Builder.annotated, hs] using he

theorem endBuild_stands {b : BuilderRef} {s : State} {session : Session}
    {root : Option ElementRef} {count : Nat} (ending : Outcome Value)
    (h : s.world.Stands b (some session) root count) :
    (endBuild b ending s).2.world.Stands b none (session.conclusion ending).value? count := by
  obtain ⟨x, hx, hs, rfl, rfl⟩ := h.builder
  obtain ⟨rs, ha⟩ := endBuild_alters h.session ending
  exact ha.stands_self hx

end TagTree
