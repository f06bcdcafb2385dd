import TagTree.Proofs.Faults

/-!
# Sound elements

Whatever programs do short of attaching content by hand, elements stay well made: tagged, with
content of one kind, sealed when they have any, over children that exist and never over
themselves. So every walk over children ends, and no operation gives content twice.
-/

namespace TagTree

/-! ### Crafted states -/

/-- What code does to elements by itself: it constructs some out of those that exist, and it
attaches nothing by hand. -/
def Machine.Crafts (m m' : Machine) : Prop :=
  match m.program with
  | .act _ _ => m.state.world.store.Crafts m'.state.world.store
  | .attach .. => False
  | _ => True

/-- What programs lead to from a state without elements, if they attach nothing by hand. -/
inductive Crafted (code : Code) : Machine → Prop
  | initial {s : State} (fresh : s.Fresh) (bare : s.world.store.elements = #[])
      (p : Program Value) : Crafted code (Machine.initial s p)
  | move {m m' : Machine} (crafted : Crafted code m) (move : Move code m m')
      (crafts : m.Crafts m') : Crafted code m'

theorem Crafted.reachable {code : Code} {m : Machine} (h : Crafted code m) :
    Reachable code m := by
  induction h with
  | initial fresh _ p => exact .initial fresh p
  | move _ move _ ih => exact .move ih move

/-- Tag calls have created the element. -/
def Called (h : List Event) (e : ElementRef) : Prop := ∃ b, ∃ x ∈ createdBy b h, x.1 = e

/-- The elements are layered by the tag calls that happened. -/
structure Machine.Layered (m : Machine) : Prop where
  store : m.state.world.store.Layered (Called m.history)
  around : ∀ b, ∀ x ∈ createdBy b m.history, ∀ d ∈ x.2, d.index < x.1.index
  opened : ∀ o ∈ openBlocks m.stack, Called m.history o.element
  unattached : ∀ e, .attached e ∉ m.history

section Layered

variable {h : List Event} {e d : ElementRef}

theorem called_snoc {ev : Event} (hev : ∀ b, createdBy b [ev] = []) :
    Called (h ++ [ev]) e ↔ Called h e := by
  simp only [Called, createdBy_snoc (hev _)]

theorem called_created {b : BuilderRef} {around : List ElementRef} :
    Called (h ++ [.created b e around]) d ↔ Called h d ∨ d = e := by
  constructor
  · rintro ⟨c, x, hx, rfl⟩
    rcases mem_createdBy_snoc hx with hx | ⟨-, rfl⟩
    · exact .inl ⟨c, x, hx, rfl⟩
    · exact .inr rfl
  · rintro (⟨c, x, hx, rfl⟩ | rfl)
    · exact ⟨c, x, by rw [createdBy_append]; exact List.mem_append_left _ hx, rfl⟩
    · exact ⟨b, (d, around), by rw [createdBy_append, createdBy_self]; simp, rfl⟩

theorem Store.Layered.congr {s : Store} {called called' : ElementRef → Prop}
    (l : s.Layered called) (h : ∀ e, called' e ↔ called e) : s.Layered called' := by
  have same : called' = called := funext fun e => propext (h e)
  rw [same]
  exact l

theorem Machine.Layered.event {m : Machine} (l : m.Layered) {ev : Event}
    (hev : ∀ b, createdBy b [ev] = []) (hat : ∀ e, ev ≠ .attached e) {m' : Machine}
    (hs : m'.state.world.store.Layered (Called m.history)) (hh : m'.history = m.history ++ [ev])
    (ho : ∀ o ∈ openBlocks m'.stack, o ∈ openBlocks m.stack) : m'.Layered where
  store := by
    rw [hh]
    exact hs.congr fun e => called_snoc hev
  around b x hx d hd := by
    rw [hh, createdBy_snoc (hev b)] at hx
    exact l.around b x hx d hd
  opened o hm := by
    rw [hh, called_snoc hev]
    exact l.opened o (ho o hm)
  unattached e he := by
    rw [hh, List.mem_append, List.mem_singleton] at he
    rcases he with he | he
    · exact l.unattached e he
    · exact hat e he.symm

theorem children_of_reconciled {created : List (ElementRef × List ElementRef)} {y : Element}
    {x : Outcome Value} (hr : Reconciled e created y x) (hd : d ∈ y.children) :
    d ∈ directlyIn e created := by
  have none (hc : y.children = []) : d ∈ directlyIn e created := by
    rw [hc] at hd
    cases hd
  cases x with
  | value v =>
    rw [Reconciled] at hr
    split at hr
    · exact none (text_textContent hr).1
    · obtain ⟨-, id, hc⟩ := hr
      simpa [Element.children, hc] using hd
  | fault f => exact none (by rw [Element.children, hr.1])
  | exhausted => exact none (by rw [Element.children, hr.1])

/-- What was created directly in a block is younger than the element of the block. -/
theorem Machine.Layered.directly {m : Machine} (l : m.Layered) {b : BuilderRef}
    (hd : d ∈ directlyIn e (createdBy b m.history)) : Called m.history d ∧ e.index < d.index := by
  obtain ⟨x, hx, rfl⟩ := List.mem_map.mp hd
  obtain ⟨hx, hhead⟩ := List.mem_filter.mp hx
  have hmem : e ∈ x.2 := List.mem_of_mem_head? (by simpa using hhead)
  exact ⟨⟨b, x, hx, rfl⟩, l.around b x hx e hmem⟩

theorem TagCall.element_proper {w : World} {b : BuilderRef} {name : Value} {args : List Value}
    {named : List (String × Value)} {c : TagCall}
    (h : w.admitCall b name args named = .value c) :
    c.element.Proper ∧ c.element.children = [] := by
  obtain ⟨x, s, resolved, shape, limit, tag, -, -, -, -, -, -, ht, hc⟩ := admitCall_eq_value h
  have tagged : c.tag ≠ "" := by
    rw [hc]
    exact Element.tagOf_eq_ok ht
  unfold TagCall.element
  split
  · exact ⟨Element.bare_proper tagged _, rfl⟩
  · rename_i hv
    have hv : c.text.isNone = false := by simpa using hv
    exact ⟨Element.filled_text_proper (x := .bare c.tag c.attributes) tagged hv, rfl⟩

theorem Machine.Layered.call {m m' : Machine} (l : m.Layered) (ha : m.Accounted)
    {b : BuilderRef} {name : Value} {args : List Value} {named : List (String × Value)}
    {c : TagCall} (admitted : m.state.world.admitCall b name args named = .value c)
    (hstore : m'.state.world.store = (m.state.world.create b c).2.store)
    (hh : m'.history =
      m.history ++ [.created b (m.state.world.create b c).1 (running b m.stack)])
    (ho : ∀ o ∈ openBlocks m'.stack, o ∈ openBlocks m.stack ∨
      o.element = (m.state.world.create b c).1) : m'.Layered where
  store := by
    obtain ⟨proper, bare⟩ := TagCall.element_proper admitted
    rw [hstore, hh]
    exact l.store.call (World.create_elements _ b c) proper bare fun e => called_created
  around d x hx y hy := by
    rw [hh] at hx
    rcases mem_createdBy_snoc hx with hx | ⟨-, rfl⟩
    · exact l.around d x hx y hy
    · exact TagTree.Accounted.elementsOf_stored ha hy
  opened o hm := by
    rw [hh, called_created]
    exact (ho o hm).imp (l.opened o) id
  unattached e he := by
    rw [hh, List.mem_append, List.mem_singleton] at he
    rcases he with he | he
    · exact l.unattached e he
    · cases he

theorem layered_move {code : Code} {m m' : Machine} (ordered : m.Orderly) (ha : m.Accounted)
    (l : m.Layered) (hm : Move code m m') (crafts : m.Crafts m') : m'.Layered := by
  cases hm with
  | returned => exact ⟨l.store, l.around, l.opened, l.unattached⟩
  | @left s b e start next stack x h =>
    obtain ⟨session, created, building⟩ := (ordered b).2.building_of_block (ordered b).1
    have depth := building.depth
    rw [running_block_self] at depth
    obtain ⟨t, earlier, prior, inner, op⟩ := ha.opened [] ⟨b, e, start⟩ (openBlocks stack) rfl
    obtain rfl : t = session := Option.some.inj (op.session.symm.trans building.stands.session)
    obtain ⟨y, hy, hs, -⟩ := op.bare (l.unattached e)
    obtain ⟨-, z, hz, proper⟩ := endBlock_fills start x hy hs (l.store.proper e y hy)
    obtain ⟨z', hz', reconciled⟩ := op.reconciled depth x (l.unattached e)
    obtain rfl : z' = z := Option.some.inj (hz'.symm.trans hz)
    have called : Called h e := l.opened ⟨b, e, start⟩ (List.mem_cons_self ..)
    refine l.event (fun _ => rfl) (fun _ => by simp) ?_ rfl
      fun o ho => List.mem_cons_of_mem _ ho
    exact l.store.fill (endBlock_size b e start x s) called
      (fun d hd => endBlock_other b start x s hd) hz proper
      fun d hd => l.directly (children_of_reconciled reconciled hd)
  | @ended s b next stack x h =>
    obtain ⟨session, created, building⟩ := (ordered b).2.building_of_build
    refine l.event (fun _ => rfl) (fun _ => by simp) ?_ rfl fun o ho => ho
    have hstore := endBuild_store building.stands.session x
    exact l.store.of_elements (by rw [hstore])
  | acted => exact ⟨l.store.crafts crafts, l.around, l.opened, l.unattached⟩
  | attached => exact crafts.elim
  | refusedCall => exact ⟨l.store, l.around, l.opened, l.unattached⟩
  | unreadCall => exact ⟨l.store, l.around, l.opened, l.unattached⟩
  | created admitted => exact l.call ha admitted rfl rfl fun o ho => .inl ho
  | entered admitted =>
    refine l.call ha admitted rfl rfl fun o ho => ?_
    rcases List.mem_cons.mp ho with rfl | ho
    · exact .inr rfl
    · exact .inl ho
  | refusedBuild => exact ⟨l.store, l.around, l.opened, l.unattached⟩
  | unreadBuild => exact ⟨l.store, l.around, l.opened, l.unattached⟩
  | began => exact l.event (fun _ => rfl) (fun _ => by simp) l.store rfl fun o ho => ho
  | applied => exact ⟨l.store, l.around, l.opened, l.unattached⟩
  | loaded => exact ⟨l.store, l.around, l.opened, l.unattached⟩

theorem layered_of_crafted {code : Code} {m : Machine} (h : Crafted code m) : m.Layered := by
  induction h with
  | @initial s fresh bare p =>
    have none (e : ElementRef) : s.world.store.element? e = none := by
      simp [Store.element?, bare]
    refine ⟨⟨?_, ?_, ?_, ?_⟩, by simp [Machine.initial, createdBy], ?_, by simp [Machine.initial]⟩
    · rintro e ⟨b, x, hx, -⟩
      cases hx
    · intro e x hx
      exact absurd (hx.symm.trans (none e)) (by simp)
    · rintro e d - ⟨x, hx, -⟩
      exact absurd (hx.symm.trans (none e)) (by simp)
    · rintro e d - ⟨x, hx, -⟩
      exact absurd (hx.symm.trans (none e)) (by simp)
    · intro o ho
      cases ho
  | move crafted move crafts ih =>
    exact layered_move (orderly_of_reachable crafted.reachable)
      (accounted_of_reachable crafted.reachable) ih move crafts

end Layered

/-! ### What operations raise -/

/-- Faults that the operations of tag calls and builds raise themselves: the end of a block or
a build in place of the fault of what ran, and refusals. -/
inductive Machine.Raises : Machine → Fault → Prop
  | block {s b e start next stack x h f} (fails : (endBlock b e start x s).1 = .fault f)
      (own : x ≠ .fault f) : Raises ⟨s, .block b e start next :: stack, .done x, h⟩ f
  | build {s b next stack x h f} (fails : (endBuild b x s).1 = .fault f) (own : x ≠ .fault f) :
      Raises ⟨s, .build b next :: stack, .done x, h⟩ f
  | refusedCall {s stack b name args named next h f}
      (refused : s.world.admitCall b name args named = .fault f) :
      Raises ⟨s, stack, .tag b name args named next, h⟩ f
  | refusedBuild {s stack b block next h f}
      (refused : s.world.admitBuild b block = .fault f) :
      Raises ⟨s, stack, .build b block next, h⟩ f

theorem raises_single {code : Code} {m : Machine} (crafted : Crafted code m) {f : Fault}
    (h : m.Raises f) : f.Single := by
  have ordered := orderly_of_reachable crafted.reachable
  have l := layered_of_crafted crafted
  cases h with
  | @block s b e start next stack x h _ fails own =>
    obtain ⟨t, earlier, prior, inner, op⟩ :=
      (accounted_of_reachable crafted.reachable).opened [] ⟨b, e, start⟩ (openBlocks stack) rfl
    obtain ⟨y, hy, hs, -⟩ := op.bare (l.unattached e)
    exact (endBlock_fills start x hy hs (l.store.proper e y hy)).1 f fails own
  | @build s b next stack x h _ fails own =>
    obtain ⟨session, created, building⟩ := (ordered b).2.building_of_build
    exact endBuild_single building.stands.session fails own
  | @refusedCall s stack b name args named next h _ refused =>
    have single := World.admitCall_single (w := s.world) b name args named
    rw [refused] at single
    exact single
  | @refusedBuild s stack b block next h _ refused =>
    have single := World.admitBuild_single (w := s.world) b block
    rw [refused] at single
    exact single

/-! ### Sound elements -/

/-- In every state that is reached without attaching content by hand, all elements are proper
and stand over elements, none stands below itself, every walk over children ends, and neither
the operations of tag calls and builds nor the constructor find an element that has its content
already. -/
theorem elements_sound {code : Code} {m : Machine} (crafted : Crafted code m) :
    (∀ e x, m.state.world.store.element? e = some x →
      x.Proper ∧ ∀ d ∈ x.children, ∃ y, m.state.world.store.element? d = some y) ∧
    m.state.world.store.Acyclic ∧
    (∀ e : ElementRef, e.index < m.state.world.store.elements.size →
      (∃ t, m.state.world.treeOf e = .value t) ∧
      ∀ write width depth, (∀ v, write v ≠ .exhausted) →
        m.state.world.renderWith write e width depth ≠ .exhausted) ∧
    (∀ f, m.Raises f → ∀ tag, f ≠ .alreadySealed tag) ∧
    ∀ tag attributes content t,
      (Store.makeElement tag attributes content m.state.world.store).1 ≠
        .fault (.alreadySealed t) := by
  have l := layered_of_crafted crafted
  have single {f : Fault} (hf : f.Single) (tag : String) : f ≠ .alreadySealed tag := by
    rintro rfl
    exact hf
  have stored : ∀ e d, m.state.world.store.Child e d →
      d.index < m.state.world.store.elements.size := fun e d h => l.store.child_stored h
  refine ⟨fun e x hx => ⟨l.store.proper e x hx, fun d hd => ?_⟩, l.store.acyclic,
    fun e he => ?_, fun f hf => single (raises_single crafted hf),
    fun tag attributes content t h => ?_⟩
  · exact ⟨_, Array.getElem?_eq_getElem (stored e d ⟨x, hx, hd⟩)⟩
  · obtain ⟨t, ht⟩ := Store.tree_of_acyclic l.store.acyclic stored he
    refine ⟨⟨t, by simp [World.treeOf, ht, Outcome.ofOption]⟩, fun write width depth hw => ?_⟩
    exact World.renderWith_ends ht hw width depth
  · unfold Store.makeElement at h
    cases hd : m.state.world.store.describe tag attributes content with
    | ok x =>
      rw [hd] at h
      cases h
    | error f =>
      rw [hd] at h
      cases h
      exact Store.describe_single hd

/-- An element is constructed before a small build, which creates two more. -/
theorem small_elements_sound : ∃ m, Crafted Script.code m ∧
    m.state.world.store.elements.size = 3 ∧ m.state.world.store.Acyclic ∧
    ∀ e : ElementRef, e.index < 3 → ∃ t, m.state.world.treeOf e = .value t := by
  have made : smallState.world.store.Crafts
      (Store.makeElement (.text "c") .none .none smallState.world.store).2 :=
    .made .refl _ _ fun items hs => by cases hs
  have h0 : Crafted Script.code _ := .initial small_fresh rfl
    (.act (World.inState (World.inStore (Store.makeElement (.text "c") .none .none))) fun _ =>
      .build ⟨0⟩ (.callable smallBlock) ignoring)
  have h1 := h0.move (.acted (by
    refine ⟨fun _ => rfl, fun _ => rfl, fun _ => rfl, ?_, by decide⟩
    intro e he
    exact absurd he (Nat.not_lt_zero _))) made
  have h2 := h1.move (.began (c := smallBlock) rfl) trivial
  have h3 := h2.move (.entered (b := ⟨0⟩) rfl rfl) trivial
  have h4 := h3.move (.created rfl rfl) trivial
  have h5 := h4.move .left trivial
  obtain ⟨-, acyclic, walks, -⟩ := elements_sound h5
  exact ⟨_, h5, rfl, acyclic, fun e he => (walks e he).1⟩

end TagTree
