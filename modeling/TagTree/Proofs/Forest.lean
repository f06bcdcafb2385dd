import TagTree.Proofs.Calls

/-!
# The tree of a build

What a build created is a forest of calls, of which the store holds what returning blocks kept.
The root's tree is read out of it without loss or repetition and in the order of the log.
-/

namespace TagTree

/-! ### What is known of created elements -/

/-- Every element is created once, and fills with children in its own block only. -/
structure Traced (s : Store) (blocks : List OpenBlock) (h : List Event) : Prop where
  distinct : ∀ b, ((createdBy b h).map Prod.fst).Nodup
  stored : ∀ b, ∀ x ∈ createdBy b h, x.1.index < s.elements.size
  owned : ∀ b d x y, x ∈ createdBy b h → y ∈ createdBy d h → x.1 = y.1 → b = d
  opened : ∀ o ∈ blocks, o.element ∈ (createdBy o.builder h).map Prod.fst
  around : ∀ b, ∀ x ∈ createdBy b h, ∀ p ∈ x.2,
    p ∈ elementsOf b blocks ∨ ∃ y, .left b p y ∈ h
  leaves : ∀ b, ∀ x ∈ createdBy b h, x.1 ∈ elementsOf b blocks ∨ (∃ y, .left b x.1 y ∈ h) ∨
    (.attached x.1 ∉ h → ∃ y, s.element? x.1 = some y ∧ y.children = [])

/-- What a running build created is a forest as far as its blocks ran. Blocks before it are
not around anything in it. -/
def Spined (b : BuilderRef) (blocks : List OpenBlock) (h : List Event) : Prop :=
  ∀ created, course? b h = some ⟨created, none⟩ →
    ∃ prior, createdBy b h = prior ++ created ∧
      (∀ x ∈ prior, ∀ p ∈ x.2, p ∉ created.map Prod.fst) ∧
      Calls.Spine created (elementsOf b blocks)

section Traced

variable {w : World} {s s' : Store} {blocks : List OpenBlock} {h h' : List Event}

theorem Traced.frame (t : Traced s blocks h) (hz : s.elements.size ≤ s'.elements.size)
    (hc : ∀ b, createdBy b h' = createdBy b h)
    (hl : ∀ b e x, .left b e x ∈ h → .left b e x ∈ h')
    (he : ∀ e : ElementRef, e.index < s.elements.size → .attached e ∉ h' →
      .attached e ∉ h ∧ s'.element? e = s.element? e) :
    Traced s' blocks h' where
  distinct b := by
    rw [hc]
    exact t.distinct b
  stored b x hx := by
    rw [hc] at hx
    exact Nat.lt_of_lt_of_le (t.stored b x hx) hz
  owned b d x y hx hy := by
    rw [hc] at hx hy
    exact t.owned b d x y hx hy
  opened o ho := by
    rw [hc]
    exact t.opened o ho
  around b x hx p hp := by
    rw [hc] at hx
    rcases t.around b x hx p hp with hopen | ⟨y, hy⟩
    · exact .inl hopen
    · exact .inr ⟨y, hl b p y hy⟩
  leaves b x hx := by
    rw [hc] at hx
    rcases t.leaves b x hx with hopen | ⟨y, hy⟩ | hleaf
    · exact .inl hopen
    · exact .inr (.inl ⟨y, hl b x.1 y hy⟩)
    · refine .inr (.inr ?_)
      intro ha
      obtain ⟨ha', hsame⟩ := he x.1 (t.stored b x hx) ha
      rw [hsame]
      exact hleaf ha'

theorem Traced.event {ev : Event} (t : Traced s blocks h)
    (hev : ∀ b, createdBy b [ev] = []) : Traced s blocks (h ++ [ev]) := by
  refine t.frame (Nat.le_refl _) (fun b => createdBy_snoc (hev b)) ?_ ?_
  · intro b e x hl
    exact List.mem_append_left _ hl
  · intro e _ he
    exact ⟨fun hmem => he (List.mem_append_left _ hmem), rfl⟩

theorem children_element (c : TagCall) : c.element.children = [] := by
  unfold TagCall.element
  split <;> rfl

theorem Traced.create {b : BuilderRef} (t : Traced w.store blocks h) (call : TagCall) :
    Traced (w.create b call).2.store blocks
      (h ++ [.created b (w.create b call).1 (elementsOf b blocks)]) := by
  have hnew {d : BuilderRef} {x : ElementRef × List ElementRef} (hx : x ∈ createdBy d h) :
      x.1 ≠ (w.create b call).1 := World.ne_create (t.stored d x hx) b call
  refine ⟨?_, ?_, ?_, ?_, ?_, ?_⟩
  · intro d
    rw [createdBy_append, List.map_append]
    by_cases hb : b = d
    · subst hb
      rw [createdBy_self, List.nodup_append]
      refine ⟨t.distinct b, by simp, ?_⟩
      intro e he f hf hef
      obtain ⟨x, hx, rfl⟩ := List.mem_map.mp he
      rw [List.map_cons, List.map_nil, List.mem_singleton] at hf
      exact hnew hx (hef.trans hf)
    · rw [createdBy_other hb, List.map_nil, List.append_nil]
      exact t.distinct d
  · intro d x hx
    rw [create_size]
    rcases mem_createdBy_snoc hx with hx | ⟨-, rfl⟩
    · exact Nat.lt_succ_of_lt (t.stored d x hx)
    · exact Nat.lt_succ_self _
  · intro c d x y hx hy hxy
    rcases mem_createdBy_snoc hx with hx | ⟨rfl, rfl⟩ <;>
      rcases mem_createdBy_snoc hy with hy | ⟨rfl, rfl⟩
    · exact t.owned c d x y hx hy hxy
    · exact absurd hxy (hnew hx)
    · exact absurd hxy.symm (hnew hy)
    · rfl
  · intro o ho
    rw [createdBy_append, List.map_append]
    exact List.mem_append_left _ (t.opened o ho)
  · intro d x hx p hp
    rcases mem_createdBy_snoc hx with hx | ⟨rfl, rfl⟩
    · rcases t.around d x hx p hp with hopen | ⟨y, hy⟩
      · exact .inl hopen
      · exact .inr ⟨y, List.mem_append_left _ hy⟩
    · exact .inl hp
  · intro d x hx
    rcases mem_createdBy_snoc hx with hx | ⟨rfl, rfl⟩
    · rcases t.leaves d x hx with hopen | ⟨y, hy⟩ | hleaf
      · exact .inl hopen
      · exact .inr (.inl ⟨y, List.mem_append_left _ hy⟩)
      · refine .inr (.inr ?_)
        intro ha
        rw [World.create_element? w b call x.1 (t.stored d x hx)]
        exact hleaf fun hmem => ha (List.mem_append_left _ hmem)
    · exact .inr (.inr fun _ =>
        ⟨_, World.create_element?_self w b call, children_element call⟩)

theorem Traced.enter {b : BuilderRef} {e : ElementRef} (t : Traced s blocks h)
    (he : e ∈ (createdBy b h).map Prod.fst) (start : Nat) :
    Traced s (⟨b, e, start⟩ :: blocks) h := by
  have hgrow {d : BuilderRef} {p : ElementRef} (hp : p ∈ elementsOf d blocks) :
      p ∈ elementsOf d (⟨b, e, start⟩ :: blocks) := by
    by_cases hb : b = d
    · subst hb
      rw [elementsOf_self]
      exact List.mem_cons_of_mem _ hp
    · rwa [elementsOf_other blocks hb]
  refine ⟨t.distinct, t.stored, t.owned, ?_, ?_, ?_⟩
  · intro o ho
    rw [List.mem_cons] at ho
    rcases ho with rfl | ho
    · exact he
    · exact t.opened o ho
  · intro d x hx p hp
    rcases t.around d x hx p hp with hopen | hleft
    · exact .inl (hgrow hopen)
    · exact .inr hleft
  · intro d x hx
    rcases t.leaves d x hx with hopen | hrest
    · exact .inl (hgrow hopen)
    · exact .inr hrest

theorem Traced.leave {st : State} {b : BuilderRef} {e : ElementRef} {start : Nat}
    (t : Traced st.world.store (⟨b, e, start⟩ :: blocks) h) (y : Outcome Value) :
    Traced (endBlock b e start y st).2.world.store blocks (h ++ [.left b e y]) := by
  have hcreated (d : BuilderRef) : createdBy d (h ++ [.left b e y]) = createdBy d h :=
    createdBy_snoc rfl
  have hopen {d : BuilderRef} {p : ElementRef}
      (hp : p ∈ elementsOf d (⟨b, e, start⟩ :: blocks)) :
      p ∈ elementsOf d blocks ∨ ∃ z, .left d p z ∈ h ++ [.left b e y] := by
    by_cases hb : b = d
    · subst hb
      rw [elementsOf_self, List.mem_cons] at hp
      rcases hp with rfl | hp
      · exact .inr ⟨y, List.mem_append_right _ (List.mem_singleton.mpr rfl)⟩
      · exact .inl hp
    · rw [elementsOf_other blocks hb] at hp
      exact .inl hp
  refine ⟨?_, ?_, ?_, ?_, ?_, ?_⟩
  · intro d
    rw [hcreated]
    exact t.distinct d
  · intro d x hx
    rw [endBlock_size]
    rw [hcreated] at hx
    exact t.stored d x hx
  · intro c d x z hx hz
    rw [hcreated] at hx hz
    exact t.owned c d x z hx hz
  · intro o ho
    rw [hcreated]
    exact t.opened o (List.mem_cons_of_mem _ ho)
  · intro d x hx p hp
    rw [hcreated] at hx
    rcases t.around d x hx p hp with hp | ⟨z, hz⟩
    · exact hopen hp
    · exact .inr ⟨z, List.mem_append_left _ hz⟩
  · intro d x hx
    rw [hcreated] at hx
    rcases t.leaves d x hx with hp | ⟨z, hz⟩ | hleaf
    · rcases hopen hp with hp | hp
      · exact .inl hp
      · exact .inr (.inl hp)
    · exact .inr (.inl ⟨z, List.mem_append_left _ hz⟩)
    · by_cases he : e = x.1
      · -- the element is the builder's own, whose block was just left
        obtain ⟨z, hz, hze⟩ := List.mem_map.mp (t.opened ⟨b, e, start⟩ (List.mem_cons_self ..))
        have hb : b = d := t.owned b d z x hz hx (hze.trans he)
        subst hb
        refine .inr (.inl ⟨y, ?_⟩)
        rw [he]
        exact List.mem_append_right _ (List.mem_singleton.mpr rfl)
      · refine .inr (.inr ?_)
        intro ha
        rw [endBlock_other b start y st he]
        exact hleaf fun hmem => ha (List.mem_append_left _ hmem)

end Traced

/-! ### Running builds -/

section Spined

variable {b d : BuilderRef} {blocks : List OpenBlock} {h : List Event}

theorem Spined.aside {ev : Event} {blocks' : List OpenBlock} (sp : Spined b blocks h)
    (hc : createdBy b [ev] = []) (ha : Course.after b (course? b h) ev = course? b h)
    (hr : elementsOf b blocks' = elementsOf b blocks) : Spined b blocks' (h ++ [ev]) := by
  intro created hcourse
  rw [course?_append, ha] at hcourse
  rw [createdBy_append, hc, List.append_nil, hr]
  exact sp created hcourse

theorem spined_began (hr : elementsOf b blocks = []) : Spined b blocks (h ++ [.began b]) := by
  intro created hcourse
  rw [course?_append] at hcourse
  simp only [Course.after, if_true, Option.some.injEq, Course.mk.injEq, and_true] at hcourse
  rw [← hcourse, createdBy_append, hr]
  exact ⟨createdBy b h, rfl, by simp, .outside .nil⟩

theorem spined_ended (x : Outcome ElementRef) : Spined b blocks (h ++ [.ended b x]) := by
  intro created hcourse
  rw [course?_append] at hcourse
  simp only [Course.after, if_true] at hcourse
  cases hc : course? b h with
  | none => simp [hc] at hcourse
  | some c => simp [hc] at hcourse

theorem Spined.created {e : ElementRef} {around : List ElementRef}
    {created : List (ElementRef × List ElementRef)} (sp : Spined b blocks h)
    (hfresh : ∀ x ∈ createdBy b h, e ∉ x.2)
    (hcourse : course? b (h ++ [.created b e around]) = some ⟨created, none⟩) :
    ∃ prior before, created = before ++ [(e, around)] ∧
      createdBy b (h ++ [.created b e around]) = prior ++ created ∧
      (∀ x ∈ prior, ∀ p ∈ x.2, p ∉ created.map Prod.fst) ∧
      Calls.Spine before (elementsOf b blocks) := by
  rw [course?_append] at hcourse
  simp only [Course.after, if_true] at hcourse
  cases hc : course? b h with
  | none => simp [hc] at hcourse
  | some c =>
    obtain ⟨before, ending⟩ := c
    simp only [hc, Option.map_some, Option.some.injEq, Course.mk.injEq] at hcourse
    obtain ⟨rfl, rfl⟩ := hcourse
    obtain ⟨prior, hsplit, hout, hspine⟩ := sp before hc
    refine ⟨prior, before, rfl, ?_, ?_, hspine⟩
    · rw [createdBy_append, createdBy_self, hsplit, List.append_assoc]
    · intro x hx p hp hmem
      rw [List.map_append, List.mem_append] at hmem
      rcases hmem with hmem | hmem
      · exact hout x hx p hp hmem
      · rw [List.map_cons, List.map_nil, List.mem_singleton] at hmem
        subst hmem
        refine hfresh x ?_ hp
        rw [hsplit]
        exact List.mem_append_left _ hx

theorem Spined.leaf {e : ElementRef} (sp : Spined b blocks h)
    (hfresh : ∀ x ∈ createdBy b h, e ∉ x.2) :
    Spined b blocks (h ++ [.created b e (elementsOf b blocks)]) := by
  intro created hcourse
  obtain ⟨prior, before, rfl, hsplit, hout, hspine⟩ := sp.created hfresh hcourse
  exact ⟨prior, hsplit, hout, hspine.leaf e⟩

theorem Spined.enter {e : ElementRef} (sp : Spined b blocks h)
    (hfresh : ∀ x ∈ createdBy b h, e ∉ x.2) (start : Nat) :
    Spined b (⟨b, e, start⟩ :: blocks) (h ++ [.created b e (elementsOf b blocks)]) := by
  intro created hcourse
  obtain ⟨prior, before, rfl, hsplit, hout, hspine⟩ := sp.created hfresh hcourse
  rw [elementsOf_self]
  exact ⟨prior, hsplit, hout, hspine.enter e⟩

theorem Spined.leave {e : ElementRef} {start : Nat}
    (sp : Spined b (⟨b, e, start⟩ :: blocks) h) (y : Outcome Value) :
    Spined b blocks (h ++ [.left b e y]) := by
  intro created hcourse
  rw [course?_append] at hcourse
  obtain ⟨prior, hsplit, hout, hspine⟩ := sp created hcourse
  rw [elementsOf_self] at hspine
  rw [createdBy_append]
  exact ⟨prior, by rw [hsplit]; exact List.append_nil _, hout, hspine.leave⟩

end Spined

/-! ### Runs -/

structure Machine.Traced (m : Machine) : Prop where
  traced : TagTree.Traced m.state.world.store (openBlocks m.stack) m.history
  spined : ∀ b, Spined b (openBlocks m.stack) m.history

theorem traced_move {code : Code} {m m' : Machine} (ho : m.Orderly) (ha : m.Accounted)
    (ht : m.Traced) (hm : Move code m m') : m'.Traced := by
  obtain ⟨t, sp⟩ := ht
  cases hm with
  | returned => exact ⟨t, sp⟩
  | @left s b e start next stack x h =>
    refine ⟨Traced.leave t x, ?_⟩
    intro d
    by_cases hb : b = d
    · subst hb
      exact (sp b).leave x
    · exact (sp d).aside rfl rfl (elementsOf_other _ hb).symm
  | @ended s b next stack x h =>
    obtain ⟨session, created, building⟩ := (ho b).2.building_of_build
    have hstore := endBuild_store building.stands.session x
    constructor
    · simp only [hstore]
      exact t.event fun _ => rfl
    · intro d
      by_cases hb : b = d
      · subst hb
        exact spined_ended _
      · exact (sp d).aside rfl (by simp [Course.after, hb]) rfl
  | acted kept =>
    exact ⟨t.frame kept.size (fun _ => rfl) (fun _ _ _ hl => hl)
      fun e he hn => ⟨hn, kept.element e he⟩, sp⟩
  | @attached s stack e change next h =>
    constructor
    · refine t.frame (Nat.le_of_eq (World.changeElement_size s.world e change).symm)
        (fun _ => createdBy_snoc rfl) ?_ ?_
      · intro d f y hl
        exact List.mem_append_left _ hl
      · exact fun d _ hd => attachContent_other change hd
    · intro d
      exact (sp d).aside rfl rfl rfl
  | refusedCall => exact ⟨t, sp⟩
  | unreadCall => exact ⟨t, sp⟩
  | @created s stack b name args named next h c admitted leaf =>
    refine ⟨t.create c, ?_⟩
    intro d
    by_cases hb : b = d
    · subst hb
      exact (sp b).leaf (ha.fresh b b c)
    · exact (sp d).aside (createdBy_other hb) (by simp [Course.after, hb]) rfl
  | @entered s stack b name args named next h c block admitted branch =>
    constructor
    · have hself : (s.world.create b c).1 ∈ (createdBy b (h ++ [.created b
          (s.world.create b c).1 (elementsOf b (openBlocks stack))])).map Prod.fst := by
        rw [createdBy_append, createdBy_self, List.map_append]
        exact List.mem_append_right _ (List.mem_cons_self ..)
      exact (t.create c).enter hself _
    · intro d
      by_cases hb : b = d
      · subst hb
        exact (sp b).enter (ha.fresh b b c) _
      · exact (sp d).aside (createdBy_other hb) (by simp [Course.after, hb])
          (elementsOf_other _ hb)
  | refusedBuild => exact ⟨t, sp⟩
  | unreadBuild => exact ⟨t, sp⟩
  | @began s stack b block next h c admitted =>
    obtain ⟨-, hs⟩ := idle_of_admitBuild admitted
    have idle := (ho b).2.idle_of_none hs
    refine ⟨t.event fun _ => rfl, ?_⟩
    · intro d
      by_cases hb : b = d
      · subst hb
        exact spined_began idle.outside
      · exact (sp d).aside rfl (by simp [Course.after, hb]) rfl
  | applied => exact ⟨t, sp⟩
  | loaded => exact ⟨t, sp⟩

theorem traced_of_reachable {code : Code} {m : Machine} (h : Reachable code m) :
    m.Traced := by
  induction h with
  | initial fresh p =>
    refine ⟨⟨?_, ?_, ?_, ?_, ?_, ?_⟩, ?_⟩
    · intro b
      exact List.nodup_nil
    · intro b x hx
      cases hx
    · intro b d x y hx
      cases hx
    · intro o ho
      cases ho
    · intro b x hx
      cases hx
    · intro b x hx
      cases hx
    · intro b created hc
      cases hc
  | move hr hm ih =>
    exact traced_move (orderly_of_reachable hr) (accounted_of_reachable hr) ih hm

end TagTree
