import TagTree.Proofs.Course

/-!
# What blocks leave

The log does not say which block an element was created in; it holds depths. Still the element
of a block that returned gets the elements created directly in the block, and the block's value
if there are none. Every open block keeps the entries made inside of it at the end of the log.
-/

namespace TagTree

/-! ### Elements by the blocks around them -/

def createdBy (b : BuilderRef) (h : List Event) : List (ElementRef × List ElementRef) :=
  h.filterMap fun
    | .created d e around => if d = b then some (e, around) else none
    | _ => none

/-- The elements created while the block of an element was the innermost one. -/
def directlyIn (e : ElementRef) (created : List (ElementRef × List ElementRef)) :
    List ElementRef :=
  (created.filter fun x => x.2.head? = some e).map Prod.fst

/-- The elements created while the block of an element ran. -/
def anywhereIn (e : ElementRef) (created : List (ElementRef × List ElementRef)) :
    List ElementRef :=
  (created.filter fun x => e ∈ x.2).map Prod.fst

/-- What an element is after its block. -/
def Reconciled (e : ElementRef) (created : List (ElementRef × List ElementRef)) (y : Element) :
    Outcome Value → Prop
  | .value v =>
    if anywhereIn e created = [] then y.content = Element.textContent v
    else directlyIn e created ≠ [] ∧ ∃ id, y.content = .children id (directlyIn e created)
  | _ => y.content = .empty ∧ y.isSealed = false

section Created

variable {b d : BuilderRef} {e : ElementRef} {around : List ElementRef} {h : List Event}
  {xs ys : List (ElementRef × List ElementRef)}

theorem createdBy_append (b : BuilderRef) (h h' : List Event) :
    createdBy b (h ++ h') = createdBy b h ++ createdBy b h' := List.filterMap_append

theorem createdBy_self : createdBy b [.created b e around] = [(e, around)] := by
  simp [createdBy]

theorem createdBy_other (hd : d ≠ b) : createdBy b [.created d e around] = [] := by
  simp [createdBy, hd]

theorem createdBy_snoc {ev : Event} (hev : createdBy b [ev] = []) :
    createdBy b (h ++ [ev]) = createdBy b h := by
  rw [createdBy_append, hev, List.append_nil]

theorem mem_createdBy_snoc {x : ElementRef × List ElementRef}
    (hx : x ∈ createdBy d (h ++ [.created b e around])) :
    x ∈ createdBy d h ∨ (b = d ∧ x = (e, around)) := by
  rw [createdBy_append, List.mem_append] at hx
  rcases hx with hx | hx
  · exact .inl hx
  · by_cases hb : b = d
    · subst hb
      rw [createdBy_self, List.mem_singleton] at hx
      exact .inr ⟨rfl, hx⟩
    · simp [createdBy_other hb] at hx

theorem directlyIn_append :
    directlyIn e (xs ++ ys) = directlyIn e xs ++ directlyIn e ys := by
  simp [directlyIn]

theorem anywhereIn_append :
    anywhereIn e (xs ++ ys) = anywhereIn e xs ++ anywhereIn e ys := by
  simp [anywhereIn]

theorem directlyIn_outside (h : ∀ x ∈ xs, e ∉ x.2) : directlyIn e xs = [] := by
  have hf : (xs.filter fun x => x.2.head? = some e) = [] := by
    rw [List.filter_eq_nil_iff]
    intro x hx hh
    exact h x hx (List.mem_of_mem_head? (by simpa using hh))
  rw [directlyIn, hf, List.map_nil]

theorem anywhereIn_outside (h : ∀ x ∈ xs, e ∉ x.2) : anywhereIn e xs = [] := by
  have hf : (xs.filter fun x => e ∈ x.2) = [] := by
    rw [List.filter_eq_nil_iff]
    intro x hx hh
    exact h x hx (by simpa using hh)
  rw [anywhereIn, hf, List.map_nil]

theorem anywhereIn_inside (h : ∀ x ∈ xs, e ∈ x.2) : anywhereIn e xs = xs.map Prod.fst := by
  have hf : (xs.filter fun x => e ∈ x.2) = xs := by
    rw [List.filter_eq_self]
    intro x hx
    simpa using h x hx
  rw [anywhereIn, hf]

theorem Reconciled.outside {y : Element} {x : Outcome Value} (hr : Reconciled e xs y x)
    (ho : ∀ z ∈ ys, e ∉ z.2) : Reconciled e (xs ++ ys) y x := by
  cases x with
  | value v =>
    simpa only [Reconciled, anywhereIn_append, directlyIn_append, anywhereIn_outside ho,
      directlyIn_outside ho, List.append_nil] using hr
  | fault f => exact hr
  | exhausted => exact hr

end Created

/-! ### Open blocks -/

/-- An open block. The entries made inside of it are the end of the log and the latest that
its builder created; each was made inside of the block and of the blocks around it. -/
structure Opened (w : World) (h : List Event) (above : List OpenBlock) (o : OpenBlock)
    (below : List OpenBlock) (s : Session) (earlier : List (Nat × ElementRef))
    (prior inner : List (ElementRef × List ElementRef)) : Prop where
  session : w.session? o.builder = some s
  log : s.log = earlier ++ Course.log inner
  start : earlier.length = o.start
  created : createdBy o.builder h = prior ++ inner
  outside : ∀ x ∈ prior, o.element ∉ x.2
  inside : ∀ x ∈ inner, ∃ between,
    x.2 = between ++ o.element :: elementsOf o.builder below ∧ o.element ∉ between
  first : ∀ x, inner.head? = some x → x.2.head? = some o.element
  busy : elementsOf o.builder above ≠ [] → inner ≠ []
  bare : .attached o.element ∉ h → ∃ y, w.store.element? o.element = some y ∧
    y.isSealed = false ∧ y.content = .empty

/-- An element whose block was left. -/
structure Left (w : World) (blocks : List OpenBlock) (h : List Event) (b : BuilderRef)
    (e : ElementRef) (x : Outcome Value) : Prop where
  gone : e ∉ blocks.map OpenBlock.element
  stored : e.index < w.store.elements.size
  content : .attached e ∉ h → ∃ y, w.store.element? e = some y ∧
    Reconciled e (createdBy b h) y x

/-- The open blocks are accounted for by the log, and those that were left are reconciled. -/
structure Accounted (w : World) (blocks : List OpenBlock) (h : List Event) : Prop where
  distinct : (blocks.map OpenBlock.element).Nodup
  stored : ∀ o ∈ blocks, o.element.index < w.store.elements.size
  around : ∀ b, ∀ x ∈ createdBy b h, ∀ d ∈ x.2, d.index < w.store.elements.size
  opened : ∀ above o below, blocks = above ++ o :: below →
    ∃ s earlier prior inner, Opened w h above o below s earlier prior inner
  left : ∀ b e x, .left b e x ∈ h → Left w blocks h b e x

section Accounted

variable {w w' : World} {blocks : List OpenBlock} {h h' : List Event}

theorem Accounted.frame (a : Accounted w blocks h)
    (hs : ∀ o ∈ blocks, ∀ s, w.session? o.builder = some s →
      ∃ s', w'.session? o.builder = some s' ∧ s'.log = s.log)
    (hz : w.store.elements.size ≤ w'.store.elements.size)
    (hc : ∀ b, createdBy b h' = createdBy b h)
    (hl : ∀ b e x, .left b e x ∈ h' → .left b e x ∈ h)
    (he : ∀ e : ElementRef, e.index < w.store.elements.size → .attached e ∉ h' →
      .attached e ∉ h ∧ w'.store.element? e = w.store.element? e) :
    Accounted w' blocks h' where
  distinct := a.distinct
  stored o ho := Nat.lt_of_lt_of_le (a.stored o ho) hz
  around b x hx d hd := by
    rw [hc] at hx
    exact Nat.lt_of_lt_of_le (a.around b x hx d hd) hz
  opened := by
    intro above o below hb
    have ho : o ∈ blocks := by simp [hb]
    obtain ⟨s, earlier, prior, inner, op⟩ := a.opened above o below hb
    obtain ⟨s', hs', hlog⟩ := hs o ho s op.session
    refine ⟨s', earlier, prior, inner, hs', hlog.trans op.log, op.start, ?_, op.outside,
      op.inside, op.first, op.busy, ?_⟩
    · rw [hc, op.created]
    · intro ha
      obtain ⟨ha', hsame⟩ := he o.element (a.stored o ho) ha
      rw [hsame]
      exact op.bare ha'
  left := by
    intro b e x hx
    have l := a.left b e x (hl b e x hx)
    refine ⟨l.gone, Nat.lt_of_lt_of_le l.stored hz, ?_⟩
    intro ha
    obtain ⟨ha', hsame⟩ := he e l.stored ha
    rw [hsame, hc]
    exact l.content ha'

theorem element_mem_of_elementsOf {b : BuilderRef} {e : ElementRef}
    (he : e ∈ elementsOf b blocks) : e ∈ blocks.map OpenBlock.element := by
  obtain ⟨o, ho, rfl⟩ := List.mem_map.mp he
  exact List.mem_map_of_mem (List.mem_filter.mp ho).1

theorem Accounted.elementsOf_stored (a : Accounted w blocks h) {b : BuilderRef}
    {e : ElementRef} (he : e ∈ elementsOf b blocks) : e.index < w.store.elements.size := by
  obtain ⟨o, ho, rfl⟩ := List.mem_map.mp (element_mem_of_elementsOf he)
  exact a.stored o ho

theorem Accounted.fresh (a : Accounted w blocks h) (b d : BuilderRef) (c : TagCall) :
    ∀ x ∈ createdBy d h, (w.create b c).1 ∉ x.2 :=
  fun x hx hmem => World.ne_create (a.around d x hx _ hmem) b c rfl

theorem create_size (w : World) (b : BuilderRef) (c : TagCall) :
    (w.create b c).2.store.elements.size = w.store.elements.size + 1 := by
  rw [World.create_elements, Array.size_push]

/-- A fresh element is created inside of the open blocks of its builder. -/
theorem Opened.create_own {above below : List OpenBlock} {o : OpenBlock} {s : Session}
    {earlier : List (Nat × ElementRef)} {prior inner : List (ElementRef × List ElementRef)}
    (op : Opened w h above o below s earlier prior inner) (call : TagCall)
    (hd : s.depth = (elementsOf o.builder (above ++ o :: below)).length)
    (hfresh : o.element ∉ elementsOf o.builder above)
    (hz : o.element.index < w.store.elements.size) :
    ∃ s' inner', Opened (w.create o.builder call).2
      (h ++ [.created o.builder (w.create o.builder call).1
        (elementsOf o.builder (above ++ o :: below))]) above o below s' earlier prior inner' := by
  have stands := World.create_stands call ⟨op.session, rfl, rfl⟩
  have haround : elementsOf o.builder (above ++ o :: below) =
      elementsOf o.builder above ++ o.element :: elementsOf o.builder below := by
    rw [elementsOf_append]
    exact congrArg _ (elementsOf_self below)
  refine ⟨_, inner ++ [((w.create o.builder call).1,
    elementsOf o.builder (above ++ o :: below))], stands.session, ?_, op.start, ?_, op.outside,
    ?_, ?_, ?_, ?_⟩
  · rw [Course.log_append, ← List.append_assoc, ← op.log, hd]
    rfl
  · rw [createdBy_append, createdBy_self, op.created, List.append_assoc]
  · intro x hx
    rw [List.mem_append, List.mem_singleton] at hx
    rcases hx with hx | rfl
    · exact op.inside x hx
    · exact ⟨_, haround, hfresh⟩
  · intro x hx
    cases inner with
    | cons y ys => exact op.first x (by simpa using hx)
    | nil =>
      have habove : elementsOf o.builder above = [] := by
        cases he : elementsOf o.builder above with
        | nil => rfl
        | cons z zs => exact absurd rfl (op.busy (by simp [he]))
      simp only [List.nil_append, List.head?_cons, Option.some.injEq] at hx
      rw [← hx, haround, habove]
      rfl
  · simp
  · intro ha
    rw [World.create_element? w o.builder call o.element hz]
    exact op.bare fun hmem => ha (List.mem_append_left _ hmem)

theorem Opened.create_other {above below : List OpenBlock} {o : OpenBlock} {s : Session}
    {earlier : List (Nat × ElementRef)} {prior inner : List (ElementRef × List ElementRef)}
    {b : BuilderRef} {around : List ElementRef}
    (op : Opened w h above o below s earlier prior inner) (call : TagCall)
    (hb : b ≠ o.builder) (hz : o.element.index < w.store.elements.size) :
    Opened (w.create b call).2 (h ++ [.created b (w.create b call).1 around]) above o below s
      earlier prior inner where
  session := by
    rw [(World.create_alters w b call).session_other hb]
    exact op.session
  log := op.log
  start := op.start
  created := by rw [createdBy_append, createdBy_other hb, List.append_nil, op.created]
  outside := op.outside
  inside := op.inside
  first := op.first
  busy := op.busy
  bare := by
    intro ha
    rw [World.create_element? w b call o.element hz]
    exact op.bare fun hmem => ha (List.mem_append_left _ hmem)

theorem Left.create {b d : BuilderRef} {e : ElementRef} {x : Outcome Value}
    (l : Left w blocks h d e x) (call : TagCall) :
    Left (w.create b call).2 blocks
      (h ++ [.created b (w.create b call).1 (elementsOf b blocks)]) d e x where
  gone := l.gone
  stored := by
    rw [create_size]
    exact Nat.lt_succ_of_lt l.stored
  content := by
    intro ha
    rw [World.create_element? w b call e l.stored]
    obtain ⟨y, hy, hr⟩ := l.content fun hmem => ha (List.mem_append_left _ hmem)
    refine ⟨y, hy, ?_⟩
    rw [createdBy_append]
    refine hr.outside ?_
    intro z hz
    -- the block was left, so it does not run around the fresh element
    rcases mem_createdBy_snoc (h := []) hz with hz | ⟨rfl, rfl⟩
    · cases hz
    · exact fun hmem => l.gone (element_mem_of_elementsOf hmem)

theorem Accounted.create {b : BuilderRef} {s : Session} (a : Accounted w blocks h)
    (call : TagCall) (hs : w.session? b = some s)
    (hd : s.depth = (elementsOf b blocks).length) :
    Accounted (w.create b call).2 blocks
      (h ++ [.created b (w.create b call).1 (elementsOf b blocks)]) where
  distinct := a.distinct
  stored o ho := by
    rw [create_size]
    exact Nat.lt_succ_of_lt (a.stored o ho)
  around d x hx y hy := by
    rw [create_size]
    rcases mem_createdBy_snoc hx with hx | ⟨rfl, rfl⟩
    · exact Nat.lt_succ_of_lt (a.around d x hx y hy)
    · exact Nat.lt_succ_of_lt (a.elementsOf_stored hy)
  opened := by
    rintro above o below rfl
    have hz := a.stored o (List.mem_append_right _ (List.mem_cons_self ..))
    obtain ⟨t, earlier, prior, inner, op⟩ := a.opened above o below rfl
    by_cases hb : b = o.builder
    · subst hb
      have hst : t = s := Option.some.inj (op.session.symm.trans hs)
      subst hst
      have hfresh : o.element ∉ elementsOf o.builder above := by
        have hnodup := a.distinct
        rw [List.map_append, List.map_cons, List.nodup_append] at hnodup
        intro hmem
        exact hnodup.2.2 _ (element_mem_of_elementsOf hmem) _ (List.mem_cons_self ..) rfl
      obtain ⟨s', inner', op'⟩ := op.create_own call hd hfresh hz
      exact ⟨s', earlier, prior, inner', op'⟩
    · exact ⟨t, earlier, prior, inner, op.create_other call hb hz⟩
  left := by
    intro d e x hx
    rw [List.mem_append] at hx
    rcases hx with hx | hx
    · exact (a.left d e x hx).create call
    · simp at hx

theorem Accounted.enter {b : BuilderRef} {e : ElementRef} {s : Session}
    (a : Accounted w blocks h) (hs : w.session? b = some s)
    (hlast : (e, elementsOf b blocks) ∈ createdBy b h)
    (hz : e.index < w.store.elements.size) (hnew : e ∉ blocks.map OpenBlock.element)
    (hout : ∀ x ∈ createdBy b h, e ∉ x.2) (hleft : ∀ d x, .left d e x ∉ h)
    (hbare : ∃ y, w.store.element? e = some y ∧ y.isSealed = false ∧ y.content = .empty) :
    Accounted w (⟨b, e, s.log.length⟩ :: blocks) h where
  distinct := by
    rw [List.map_cons, List.nodup_cons]
    exact ⟨hnew, a.distinct⟩
  stored o ho := by
    rw [List.mem_cons] at ho
    rcases ho with rfl | ho
    · exact hz
    · exact a.stored o ho
  around := a.around
  opened := by
    intro above o below hblocks
    cases above with
    | nil =>
      rw [List.nil_append, List.cons.injEq] at hblocks
      obtain ⟨rfl, rfl⟩ := hblocks
      exact ⟨s, s.log, createdBy b h, [], hs, (List.append_nil _).symm, rfl,
        (List.append_nil _).symm, hout, by simp, by simp, by simp [elementsOf],
        fun _ => hbare⟩
    | cons z above =>
      rw [List.cons_append, List.cons.injEq] at hblocks
      obtain ⟨rfl, hblocks⟩ := hblocks
      obtain ⟨t, earlier, prior, inner, op⟩ := a.opened above o below hblocks
      refine ⟨t, earlier, prior, inner, op.session, op.log, op.start, op.created, op.outside,
        op.inside, op.first, ?_, op.bare⟩
      intro habove hinner
      by_cases hb : b = o.builder
      · -- the element itself was created inside of every open block of its builder
        subst hb
        have hprior : (e, elementsOf o.builder blocks) ∈ prior := by
          have hc := op.created
          rw [hinner, List.append_nil] at hc
          exact hc ▸ hlast
        refine op.outside _ hprior ?_
        rw [hblocks, elementsOf_append]
        exact List.mem_append_right _ (elementsOf_self below ▸ List.mem_cons_self ..)
      · rw [elementsOf_other above hb] at habove
        exact op.busy habove hinner
  left d f x hx := by
    have l := a.left d f x hx
    refine ⟨?_, l.stored, l.content⟩
    rw [List.map_cons, List.mem_cons, not_or]
    refine ⟨?_, l.gone⟩
    rintro rfl
    exact hleft d x hx

end Accounted

/-! ### Reconciliation -/

theorem directly_log {e : ElementRef} {outer : List ElementRef}
    {inner : List (ElementRef × List ElementRef)}
    (h : ∀ x ∈ inner, ∃ between, x.2 = between ++ e :: outer ∧ e ∉ between) :
    World.directly (outer.length + 1) (Course.log inner) = directlyIn e inner := by
  induction inner with
  | nil => rfl
  | cons x xs ih =>
    have hrest := ih fun y hy => h y (List.mem_cons_of_mem _ hy)
    obtain ⟨between, hx, hb⟩ := h x (List.mem_cons_self ..)
    have hsame : (x.2.length == outer.length + 1) = decide (x.2.head? = some e) := by
      cases between with
      | nil => simp [hx]
      | cons c cs =>
        have hce : c ≠ e := fun hce => hb (hce ▸ List.mem_cons_self ..)
        have hhead : x.2.head? ≠ some e := by
          simp [hx, hce]
        have hlen : (x.2.length == outer.length + 1) = false := by
          rw [beq_eq_false_iff_ne, hx, List.length_append, List.length_cons, List.length_cons]
          omega
        rw [hlen, decide_eq_false hhead]
    simp only [World.directly, Course.log, directlyIn, List.map_cons, List.filter_cons] at hrest ⊢
    rw [hsame]
    cases decide (x.2.head? = some e) with
    | false => exact hrest
    | true => exact congrArg _ hrest

/-- The entries since the beginning of an open block are those of what was created inside. -/
theorem Opened.loggedSince {w : World} {h : List Event} {above below : List OpenBlock}
    {o : OpenBlock} {s : Session} {earlier : List (Nat × ElementRef)}
    {prior inner : List (ElementRef × List ElementRef)}
    (op : Opened w h above o below s earlier prior inner) :
    w.loggedSince o.builder o.start = Course.log inner := by
  simp only [World.loggedSince, op.session, Option.map_some, Option.getD_some]
  rw [op.log, ← op.start, List.drop_left]

theorem Opened.anywhere {w : World} {h : List Event} {above below : List OpenBlock}
    {o : OpenBlock} {s : Session} {earlier : List (Nat × ElementRef)}
    {prior inner : List (ElementRef × List ElementRef)}
    (op : Opened w h above o below s earlier prior inner) :
    anywhereIn o.element (createdBy o.builder h) = inner.map Prod.fst := by
  have hin : ∀ x ∈ inner, o.element ∈ x.2 := by
    intro x hx
    obtain ⟨between, hb, -⟩ := op.inside x hx
    rw [hb]
    exact List.mem_append_right _ (List.mem_cons_self ..)
  rw [op.created, anywhereIn_append, anywhereIn_outside op.outside, anywhereIn_inside hin]
  rfl

/-- The content of a block's element is what was created directly in the block, or else the
text of the block's value. -/
theorem Opened.settled {w : World} {h : List Event} {b : BuilderRef} {e : ElementRef}
    {start : Nat} {below : List OpenBlock} {s : Session} {earlier : List (Nat × ElementRef)}
    {prior inner : List (ElementRef × List ElementRef)}
    (op : Opened w h [] ⟨b, e, start⟩ below s earlier prior inner)
    (hd : s.depth = (elementsOf b below).length + 1) (v : Value) {y : Element}
    (hy : y.content = w.settledContent b start v) :
    Reconciled e (createdBy b h) y (.value v) := by
  have hsession : w.session? b = some s := op.session
  have hadded : w.loggedSince b start = Course.log inner := op.loggedSince
  have hdirect : World.directly s.depth (Course.log inner) = directlyIn e inner := by
    rw [hd]
    exact directly_log op.inside
  have hany : anywhereIn e (createdBy b h) = inner.map Prod.fst := op.anywhere
  have hdirectly : directlyIn e (createdBy b h) = directlyIn e inner := by
    rw [op.created, directlyIn_append, directlyIn_outside op.outside]
    rfl
  simp only [World.settledContent, hadded, hsession, Option.map_some, Option.getD_some,
    hdirect] at hy
  simp only [Reconciled, hany, hdirectly]
  cases hi : inner with
  | nil =>
    rw [hi] at hy
    exact hy
  | cons x xs =>
    have hfirst : x.2.head? = some e := op.first x (by rw [hi]; rfl)
    rw [hi] at hy
    simp only [Course.log, List.map_cons, List.isEmpty_cons, Bool.false_eq_true,
      if_false] at hy
    refine ⟨?_, _, hy⟩
    simp [directlyIn, hfirst]

theorem Opened.reconciled {st : State} {h : List Event} {b : BuilderRef} {e : ElementRef}
    {start : Nat} {below : List OpenBlock} {s : Session} {earlier : List (Nat × ElementRef)}
    {prior inner : List (ElementRef × List ElementRef)}
    (op : Opened st.world h [] ⟨b, e, start⟩ below s earlier prior inner)
    (hd : s.depth = (elementsOf b below).length + 1) (x : Outcome Value)
    (ha : .attached e ∉ h) :
    ∃ y, (endBlock b e start x st).2.world.store.element? e = some y ∧
      Reconciled e (createdBy b h) y x := by
  obtain ⟨y, hy, hsealed, hempty⟩ := op.bare ha
  cases x with
  | value v =>
    obtain ⟨z, hz, hc⟩ := endBlock_self start (.value v) hy hsealed hempty
    exact ⟨z, hz, op.settled hd v hc⟩
  | fault f => exact ⟨y, hy, hempty, hsealed⟩
  | exhausted => exact ⟨y, hy, hempty, hsealed⟩

section Leave

variable {st : State} {blocks : List OpenBlock} {h : List Event} {b : BuilderRef}
  {e : ElementRef} {start : Nat}

/-- The blocks around the innermost one stay open when that is left. -/
theorem Opened.leave {above below : List OpenBlock} {o : OpenBlock} {s : Session}
    {earlier : List (Nat × ElementRef)} {prior inner : List (ElementRef × List ElementRef)}
    (op : Opened st.world h (⟨b, e, start⟩ :: above) o below s earlier prior inner)
    (hne : e ≠ o.element) (x : Outcome Value) :
    ∃ s', Opened (endBlock b e start x st).2.world (h ++ [.left b e x]) above o below s' earlier
      prior inner := by
  obtain ⟨rs, n, ha⟩ := endBlock_alters b e start x st
  have hsession : ∃ s', (endBlock b e start x st).2.world.session? o.builder = some s' ∧
      s'.log = s.log := by
    by_cases hb : b = o.builder
    · subst hb
      exact ⟨_, (endBlock_stands e start x ⟨op.session, rfl, rfl⟩).session, rfl⟩
    · exact ⟨s, (ha.session_other hb).trans op.session, rfl⟩
  obtain ⟨s', hs', hlog⟩ := hsession
  refine ⟨s', hs', hlog.trans op.log, op.start, ?_, op.outside, op.inside, op.first, ?_, ?_⟩
  · rw [createdBy_snoc rfl, op.created]
  · intro habove
    apply op.busy
    by_cases hb : b = o.builder
    · subst hb
      rw [elementsOf_self]
      exact List.cons_ne_nil _ _
    · rwa [elementsOf_other above hb]
  · intro hn
    rw [endBlock_other b start x st hne]
    exact op.bare fun hmem => hn (List.mem_append_left _ hmem)

theorem Left.leave {d : BuilderRef} {f : ElementRef} {y : Outcome Value}
    (l : Left st.world (⟨b, e, start⟩ :: blocks) h d f y) (x : Outcome Value) :
    Left (endBlock b e start x st).2.world blocks (h ++ [.left b e x]) d f y := by
  have hgone := l.gone
  rw [List.map_cons, List.mem_cons, not_or] at hgone
  refine ⟨hgone.2, ?_, ?_⟩
  · rw [endBlock_size]
    exact l.stored
  · intro hn
    rw [endBlock_other b start x st (Ne.symm hgone.1), createdBy_snoc rfl]
    exact l.content fun hmem => hn (List.mem_append_left _ hmem)

theorem Accounted.leave {s : Session} (a : Accounted st.world (⟨b, e, start⟩ :: blocks) h)
    (hs : st.world.session? b = some s) (hd : s.depth = (elementsOf b blocks).length + 1)
    (x : Outcome Value) :
    Accounted (endBlock b e start x st).2.world blocks (h ++ [.left b e x]) := by
  have hdistinct := a.distinct
  rw [List.map_cons, List.nodup_cons] at hdistinct
  refine ⟨hdistinct.2, ?_, ?_, ?_, ?_⟩
  · intro o ho
    rw [endBlock_size]
    exact a.stored o (List.mem_cons_of_mem _ ho)
  · intro d y hy
    rw [endBlock_size]
    rw [createdBy_snoc rfl] at hy
    exact a.around d y hy
  · rintro above o below rfl
    obtain ⟨t, earlier, prior, inner, op⟩ := a.opened (⟨b, e, start⟩ :: above) o below rfl
    have hne : e ≠ o.element := by
      rintro rfl
      exact hdistinct.1 (List.mem_map.mpr ⟨o, by simp, rfl⟩)
    obtain ⟨t', op'⟩ := op.leave hne x
    exact ⟨t', earlier, prior, inner, op'⟩
  · intro d f y hy
    rw [List.mem_append, List.mem_singleton] at hy
    rcases hy with hy | hy
    · exact (a.left d f y hy).leave x
    · cases hy
      obtain ⟨t, earlier, prior, inner, op⟩ := a.opened [] ⟨b, e, start⟩ blocks rfl
      have hst : t = s := Option.some.inj (op.session.symm.trans hs)
      subst hst
      refine ⟨hdistinct.1, ?_, ?_⟩
      · rw [endBlock_size]
        exact a.stored ⟨b, e, start⟩ (List.mem_cons_self ..)
      · intro hn
        rw [createdBy_snoc rfl]
        exact op.reconciled hd x fun hmem => hn (List.mem_append_left _ hmem)

end Leave

/-! ### Runs -/

section Runs

variable {w w' : World} {blocks : List OpenBlock} {h : List Event}

theorem Accounted.keep (a : Accounted w blocks h) (k : w.Keeps w') : Accounted w' blocks h :=
  a.frame (fun o _ s hs => ⟨s, (k.session o.builder).trans hs, rfl⟩) k.size (fun _ => rfl)
    (fun _ _ _ hl => hl) fun e he ha => ⟨ha, k.element e he⟩

theorem attachContent_other {s : State} {e d : ElementRef}
    (change : Element → Except Fault Element) (hd : .attached d ∉ h ++ [.attached e]) :
    .attached d ∉ h ∧ (Program.attachContent e change s).2.world.store.element? d =
      s.world.store.element? d := by
  rw [List.mem_append, List.mem_singleton, not_or] at hd
  have hne : e ≠ d := fun hed => hd.2 (by rw [hed])
  exact ⟨hd.1, World.changeElement_other s.world change hne⟩

theorem Accounted.attach {s : State} (a : Accounted s.world blocks h) (e : ElementRef)
    (change : Element → Except Fault Element) :
    Accounted (Program.attachContent e change s).2.world blocks (h ++ [.attached e]) := by
  refine a.frame ?_ ?_ ?_ ?_ ?_
  · intro o _ t ht
    refine ⟨t, ?_, rfl⟩
    simpa only [World.session?, World.builder?, attachContent_builders] using ht
  · exact Nat.le_of_eq (World.changeElement_size s.world e change).symm
  · exact fun _ => createdBy_snoc rfl
  · intro b d x hl
    simpa using hl
  · exact fun d _ hd => attachContent_other change hd

theorem Accounted.elsewhere {b : BuilderRef} {f : Builder → Builder} {ev : Event}
    (a : Accounted w blocks h) (ha : w.Alters b f w') (hstore : w'.store = w.store)
    (hb : ∀ o ∈ blocks, o.builder ≠ b)
    (hev : ev = .began b ∨ ∃ x, ev = .ended b x) :
    Accounted w' blocks (h ++ [ev]) := by
  refine a.frame ?_ (Nat.le_of_eq (by rw [hstore])) ?_ ?_ ?_
  · intro o ho t ht
    exact ⟨t, (ha.session_other (Ne.symm (hb o ho))).trans ht, rfl⟩
  · intro d
    rcases hev with rfl | ⟨x, rfl⟩ <;> exact createdBy_snoc rfl
  · intro d e x hl
    rcases hev with rfl | ⟨y, rfl⟩ <;> simpa using hl
  · intro e _ he
    rw [hstore]
    exact ⟨fun hmem => he (List.mem_append_left _ hmem), rfl⟩

theorem Accounted.call {st : State} {b : BuilderRef} {s : Session} {c : TagCall}
    (a : Accounted st.world blocks h) (hs : st.world.session? b = some s)
    (hd : s.depth = (elementsOf b blocks).length)
    (hc : c.element = .bare c.tag c.attributes) :
    Accounted (enterBlock b (createElement b c st)).world
      (⟨b, (st.world.create b c).1, (createElement b c st).world.logLength b⟩ :: blocks)
      (h ++ [.created b (st.world.create b c).1 (elementsOf b blocks)]) := by
  have a' := a.create c hs hd
  have stands := World.create_stands c ⟨hs, rfl, rfl⟩
  have hself := World.create_element?_self st.world b c
  rw [hc] at hself
  have hlen : (createElement b c st).world.logLength b =
      (s.log ++ [(s.depth, (st.world.create b c).1)]).length := by
    simp only [World.logLength, createElement, stands.session, Option.map_some,
      Option.getD_some]
  have hgone : (st.world.create b c).1 ∉ blocks.map OpenBlock.element := by
    intro hmem
    obtain ⟨o, ho, he⟩ := List.mem_map.mp hmem
    exact World.ne_create (a.stored o ho) b c he
  have entered := a'.enter stands.session (e := (st.world.create b c).1) ?_ ?_ hgone ?_ ?_
    ⟨_, hself, rfl, rfl⟩
  · rw [hlen]
    refine entered.frame ?_ (Nat.le_refl _) (fun _ => rfl) (fun _ _ _ hl => hl)
      fun _ _ he => ⟨he, rfl⟩
    intro o _ t ht
    by_cases hb : b = o.builder
    · subst hb
      exact ⟨_, (enterBlock_stands (s := createElement o.builder c st)
        ⟨ht, rfl, rfl⟩).session, rfl⟩
    · refine ⟨t, ?_, rfl⟩
      have ha := World.Alters.updateBuilder (st.world.create b c).2 b Builder.enterBlock
      exact (ha.session_other hb).trans ht
  · rw [createdBy_append, createdBy_self]
    exact List.mem_append_right _ (List.mem_cons_self ..)
  · rw [create_size, World.create_ref]
    exact Nat.lt_succ_self _
  · intro x hx hmem
    rcases mem_createdBy_snoc hx with hx | ⟨-, rfl⟩
    · exact a.fresh b b c x hx hmem
    · exact hgone (element_mem_of_elementsOf hmem)
  · intro d x hl
    rw [List.mem_append, List.mem_singleton] at hl
    rcases hl with hl | hl
    · exact World.ne_create (a.left d _ x hl).stored b c rfl
    · cases hl

end Runs

def Machine.Accounted (m : Machine) : Prop :=
  TagTree.Accounted m.state.world (openBlocks m.stack) m.history

theorem builder_ne_of_running {b : BuilderRef} {blocks : List OpenBlock}
    (h : elementsOf b blocks = []) : ∀ o ∈ blocks, o.builder ≠ b := by
  intro o ho hb
  have hmem : o.element ∈ elementsOf b blocks :=
    List.mem_map_of_mem (List.mem_filter.mpr ⟨ho, by simp [hb]⟩)
  rw [h] at hmem
  cases hmem

theorem accounted_move {code : Code} {m m' : Machine} (ho : m.Orderly) (ha : m.Accounted)
    (hm : Move code m m') : m'.Accounted := by
  cases hm with
  | returned => exact ha
  | @left s b e start next stack x h =>
    obtain ⟨session, created, building⟩ := (ho b).2.building_of_block (ho b).1
    have hd := building.depth
    rw [running_block_self] at hd
    exact Accounted.leave ha building.stands.session hd x
  | @ended s b next stack x h =>
    obtain ⟨session, created, building⟩ := (ho b).2.building_of_build
    obtain ⟨rs, halters⟩ := endBuild_alters building.stands.session x
    exact Accounted.elsewhere ha halters (endBuild_store building.stands.session x)
      (builder_ne_of_running ((ho b).1.1 rfl).2) (.inr ⟨_, rfl⟩)
  | acted kept => exact Accounted.keep ha kept
  | @attached s stack e change next h => exact Accounted.attach ha e change
  | refusedCall => exact ha
  | unreadCall => exact ha
  | @created s stack b name args named next h c admitted leaf =>
    obtain ⟨session, hs⟩ := session_of_admitCall admitted
    obtain ⟨created, building⟩ := (ho b).2.building_of_session hs
    exact Accounted.create ha c hs building.depth
  | @entered s stack b name args named next h c block admitted branch =>
    obtain ⟨session, hs⟩ := session_of_admitCall admitted
    obtain ⟨created, building⟩ := (ho b).2.building_of_session hs
    exact Accounted.call ha hs building.depth (element_of_admitCall admitted branch)
  | refusedBuild => exact ha
  | unreadBuild => exact ha
  | @began s stack b block next h c admitted =>
    obtain ⟨-, hs⟩ := idle_of_admitBuild admitted
    have idle := (ho b).2.idle_of_none hs
    exact Accounted.elsewhere ha (World.startBuild_alters s.world b) rfl
      (builder_ne_of_running idle.outside) (.inl rfl)
  | applied => exact ha
  | loaded => exact ha

theorem accounted_of_reachable {code : Code} {m : Machine} (h : Reachable code m) :
    m.Accounted := by
  induction h with
  | initial fresh p =>
    refine ⟨List.nodup_nil, ?_, ?_, ?_, ?_⟩
    · intro o ho
      cases ho
    · intro b x hx
      cases hx
    · intro above o below hb
      simp [Machine.initial, openBlocks] at hb
    · intro b e x hx
      cases hx
  | move hr hm ih => exact accounted_move (orderly_of_reachable hr) ih hm

/-! ### What a left block's element is -/

theorem text_textContent {y : Element} {v : Value} (h : y.content = Element.textContent v) :
    y.children = [] ∧ y.text = v ∧ y.isSelfClosing = v.isNone := by
  rcases World.textContent_cases v with ⟨rfl, ht⟩ | ⟨hn, ht⟩
  · rw [ht] at h
    simp [Element.children, Element.text, Element.isSelfClosing, h, Value.isNone]
  · rw [ht] at h
    simp [Element.children, Element.text, Element.isSelfClosing, h, hn]

/-- The element of a block that returned has exactly the elements created directly in the block
as children, in order of creation, or the block's value as text if none was created inside. The
element of a block that failed has no content, and its tag call raises the fault of the block.
This holds of every element that code gave no content by hand. -/
theorem block_content {code : Code} {m : Machine} (hm : Reachable code m) {b : BuilderRef}
    {e : ElementRef} {x : Outcome Value} (hl : .left b e x ∈ m.history)
    (ha : .attached e ∉ m.history) :
    ∃ y, m.state.world.store.element? e = some y ∧
      (∀ v, x = .value v → anywhereIn e (createdBy b m.history) ≠ [] →
        y.children = directlyIn e (createdBy b m.history) ∧ y.children ≠ [] ∧
          y.text = .none) ∧
      (∀ v, x = .value v → anywhereIn e (createdBy b m.history) = [] →
        y.children = [] ∧ y.text = v ∧ y.isSelfClosing = v.isNone) ∧
      ∀ f, x = .fault f →
        y.children = [] ∧ y.text = .none ∧ y.isSelfClosing = true ∧ y.isSealed = false ∧
          ∀ start s, (endBlock b e start x s).1 = .fault f := by
  obtain ⟨y, hy, hr⟩ := ((accounted_of_reachable hm).left b e x hl).content ha
  refine ⟨y, hy, ?_, ?_, ?_⟩
  · rintro v rfl hin
    rw [Reconciled, if_neg hin] at hr
    obtain ⟨hne, id, hc⟩ := hr
    have hchildren : y.children = directlyIn e (createdBy b m.history) := by
      rw [Element.children, hc]
    refine ⟨hchildren, ?_, by rw [Element.text, hc]⟩
    rw [hchildren]
    exact hne
  · rintro v rfl hin
    rw [Reconciled, if_pos hin] at hr
    exact text_textContent hr
  · rintro f rfl
    obtain ⟨hc, hs⟩ := hr
    refine ⟨?_, ?_, ?_, hs, fun _ _ => rfl⟩
    · rw [Element.children, hc]
    · rw [Element.text, hc]
    · rw [Element.isSelfClosing, hc]

theorem small_block_content : ∃ m y, Reachable Script.code m ∧
    m.state.world.store.element? ⟨0⟩ = some y ∧ y.children = [⟨1⟩] ∧ y.text = .none := by
  obtain ⟨s, next, session, hm, -⟩ := small_left
  obtain ⟨y, hy, hchildren, -, -⟩ := block_content hm
    (b := ⟨0⟩) (e := ⟨0⟩) (x := .value (.element ⟨1⟩)) (by simp) (by simp)
  obtain ⟨hc, -, ht⟩ := hchildren _ rfl (by simp [anywhereIn, createdBy])
  exact ⟨_, y, hm, hy, by simpa [directlyIn, createdBy] using hc, ht⟩

end TagTree
