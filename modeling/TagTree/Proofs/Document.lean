import Mathlib.Data.List.Nodup
import Mathlib.Data.List.Perm.Subperm
import TagTree.Proofs.Forest
import TagTree.Proofs.Sessions

/-!
# The document of a build

The root's tree has every element once, in the order of the log and at the depth of its entry.
An element that was created inside of the root is missing exactly when a block around it failed.
-/

namespace TagTree

/-! ### What blocks keep -/

def returned (b : BuilderRef) (h : List Event) (e : ElementRef) : Bool :=
  h.any fun
    | .left d f (.value _) => d = b && f = e
    | _ => false

theorem returned_iff {b : BuilderRef} {h : List Event} {e : ElementRef} :
    returned b h e = true ↔ ∃ v, .left b e (.value v) ∈ h := by
  unfold returned
  rw [List.any_eq_true]
  constructor
  · rintro ⟨ev, hmem, hev⟩
    cases ev with
    | left d f x =>
      cases x with
      | value v =>
        simp only [Bool.and_eq_true, decide_eq_true_eq] at hev
        obtain ⟨rfl, rfl⟩ := hev
        exact ⟨v, hmem⟩
      | _ => cases hev
    | _ => cases hev
  · rintro ⟨v, hmem⟩
    exact ⟨_, hmem, by simp⟩

theorem directlyIn_of_none {e : ElementRef} {created : List (ElementRef × List ElementRef)}
    (h : anywhereIn e created = []) : directlyIn e created = [] := by
  refine directlyIn_outside ?_
  intro x hx hmem
  have hin : x.1 ∈ anywhereIn e created :=
    List.mem_map_of_mem (List.mem_filter.mpr ⟨hx, by simpa using hmem⟩)
  rw [h] at hin
  cases hin

theorem children_of_created {w : World} {blocks : List OpenBlock} {h : List Event}
    {b : BuilderRef} {x : ElementRef × List ElementRef} (a : Accounted w blocks h)
    (t : Traced w.store blocks h) (hx : x ∈ createdBy b h) (hout : elementsOf b blocks = [])
    (ha : .attached x.1 ∉ h) :
    ∃ y, w.store.element? x.1 = some y ∧
      y.children = if returned b h x.1 then directlyIn x.1 (createdBy b h) else [] := by
  split
  · rename_i hr
    obtain ⟨v, hv⟩ := returned_iff.mp hr
    obtain ⟨y, hy, hrec⟩ := (a.left b x.1 _ hv).content ha
    refine ⟨y, hy, ?_⟩
    by_cases hnone : anywhereIn x.1 (createdBy b h) = []
    · rw [Reconciled, if_pos hnone] at hrec
      rw [directlyIn_of_none hnone]
      exact (text_textContent hrec).1
    · rw [Reconciled, if_neg hnone] at hrec
      obtain ⟨-, id, hc⟩ := hrec
      rw [Element.children, hc]
  · rename_i hr
    rcases t.leaves b x hx with hopen | ⟨z, hz⟩ | hleaf
    · rw [hout] at hopen
      cases hopen
    · obtain ⟨y, hy, hrec⟩ := (a.left b x.1 z hz).content ha
      refine ⟨y, hy, ?_⟩
      cases z with
      | value v => exact absurd (returned_iff.mpr ⟨v, hz⟩) hr
      | fault f => rw [Element.children, hrec.1]
      | exhausted => rw [Element.children, hrec.1]
    · exact hleaf ha

namespace Calls

variable {s : Store} {keeps : ElementRef → Bool}
  {created : List (ElementRef × List ElementRef)} {around : List ElementRef}

theorem fits_of_direct {c : Calls} (hd : c.Direct created)
    (hs : ∀ e ∈ c.refs, ∃ y, s.element? e = some y ∧
      y.children = if keeps e then directlyIn e created else []) : c.Fits s keeps := by
  induction c with
  | nil => trivial
  | call e inner rest ihi ihr =>
    obtain ⟨htops, hi, hr⟩ := hd
    refine ⟨?_, ihi hi fun d hd => hs d (by simp [refs, hd]),
      ihr hr fun d hd => hs d (by simp [refs, hd])⟩
    rw [← htops]
    exact hs e (by simp [refs])

theorem directly_log_entries (c : Calls) (around : List ElementRef) :
    World.directly around.length (Course.log (c.entries around)) = c.tops := by
  induction c generalizing around with
  | nil => rfl
  | call e inner rest ihi ihr =>
    have hinner : World.directly around.length (Course.log (inner.entries (e :: around))) =
        [] := by
      have hf : ((Course.log (inner.entries (e :: around))).filter fun x =>
          x.1 == around.length) = [] := by
        rw [List.filter_eq_nil_iff]
        intro x hx hh
        obtain ⟨z, hz, rfl⟩ := List.mem_map.mp hx
        obtain ⟨between, hb, -⟩ := around_of_mem hz
        simp only [hb, List.length_append, List.length_cons, beq_iff_eq] at hh
        omega
      rw [World.directly, hf, List.map_nil]
    have hsplit : Course.log ((call e inner rest).entries around) =
        (around.length, e) :: (Course.log (inner.entries (e :: around)) ++
          Course.log (rest.entries around)) := by
      simp [entries, Course.log]
    have happend (xs ys : List (Nat × ElementRef)) :
        World.directly around.length (xs ++ ys) =
          World.directly around.length xs ++ World.directly around.length ys := by
      simp [World.directly]
    rw [hsplit, ← List.singleton_append, happend, happend, hinner, ihr around]
    simp [World.directly, tops]

theorem map_log (c : Calls) (around : List ElementRef) :
    (Course.log (c.entries around)).map Prod.snd = c.refs := by
  rw [← map_entries around c]
  simp [Course.log]

end Calls

/-! ### The calls of a build -/

/-- What a build created whose block is over, as calls: all of it is logged, what returning
blocks kept is in the store, and every block around anything was left. -/
structure Built (m : Machine) (b : BuilderRef) (s : Session) (c : Calls) : Prop where
  log : s.log = Course.log (c.entries [])
  root : s.root = c.tops.head?
  distinct : c.refs.Nodup
  fits : c.Fits m.state.world.store (returned b m.history)
  height : c.height ≤ m.state.world.store.elements.size
  created : ∀ e around, .created b e around ∈ m.history → e ∈ c.refs →
    (e, around) ∈ c.entries []
  left : ∀ x ∈ c.entries [], ∀ p ∈ x.2, ∃ y, .left b p y ∈ m.history
  count : m.state.world.elementCount b = c.refs.length

theorem mem_createdBy {b : BuilderRef} {h : List Event} {e : ElementRef}
    {around : List ElementRef} (hc : .created b e around ∈ h) :
    (e, around) ∈ createdBy b h :=
  List.mem_filterMap.mpr ⟨_, hc, by simp⟩

theorem length_le_of_distinct {es : List ElementRef} {size : Nat} (hd : es.Nodup)
    (hs : ∀ e ∈ es, e.index < size) : es.length ≤ size := by
  have hinj : (es.map ElementRef.index).Nodup := by
    refine hd.map ?_
    intro x y hxy
    cases x
    cases y
    exact congrArg ElementRef.mk hxy
  have hsub : es.map ElementRef.index ⊆ List.range size := by
    intro i hi
    obtain ⟨e, he, rfl⟩ := List.mem_map.mp hi
    exact List.mem_range.mpr (hs e he)
  simpa using (hinj.subperm hsub).length_le

theorem built_of_reachable {code : Code} {m : Machine} (hm : Reachable code m)
    {b : BuilderRef} {next : Except Fault ElementRef → Program Value} {stack : List Frame}
    {s : Session} (hstack : m.stack = .build b next :: stack)
    (hs : m.state.world.session? b = some s)
    (ha : ∀ e ∈ s.log.map Prod.snd, .attached e ∉ m.history) : ∃ c, Built m b s c := by
  obtain ⟨nested, standing⟩ := orderly_of_reachable hm b
  obtain ⟨created, building⟩ := standing.building_of_session hs
  obtain ⟨traced, spined⟩ := traced_of_reachable hm
  have accounted := accounted_of_reachable hm
  rw [hstack] at nested
  have hout : elementsOf b (openBlocks m.stack) = [] := by
    rw [hstack]
    exact (nested.1 rfl).2
  obtain ⟨prior, hprior, hbefore, hspine⟩ := spined b created building.course
  rw [hout] at hspine
  obtain ⟨c, rfl⟩ := hspine.calls
  have hrefs := c.map_entries []
  have hall := traced.distinct b
  rw [hprior, List.map_append, List.nodup_append, hrefs] at hall
  obtain ⟨-, hdistinct, hapart⟩ := hall
  have hmem {x : ElementRef × List ElementRef} (hx : x ∈ c.entries []) :
      x ∈ createdBy b m.history := by
    rw [hprior]
    exact List.mem_append_right _ hx
  have hdirect : c.Direct (createdBy b m.history) := by
    have hnone : ∀ e ∈ c.refs, e ∉ ([] : List ElementRef) := fun _ _ => List.not_mem_nil
    refine Calls.direct_of_entries hdistinct hnone ?_
    intro e he
    rw [hprior, directlyIn_append, directlyIn_outside, List.nil_append]
    intro x hx hex
    exact hbefore x hx e hex (hrefs ▸ he)
  refine ⟨c, building.log, ?_, hdistinct, ?_, ?_, ?_, ?_, ?_⟩
  · rw [building.root]
    cases c <;> rfl
  · refine Calls.fits_of_direct hdirect ?_
    intro e he
    rw [← hrefs] at he
    obtain ⟨x, hx, rfl⟩ := List.mem_map.mp he
    refine children_of_created accounted traced (hmem hx) hout (ha x.1 ?_)
    rw [building.log, Calls.map_log]
    exact Calls.mem_refs hx
  · refine Nat.le_trans c.height_le (length_le_of_distinct hdistinct ?_)
    intro e he
    rw [← hrefs] at he
    obtain ⟨x, hx, rfl⟩ := List.mem_map.mp he
    exact traced.stored b x (hmem hx)
  · intro e around hcreated he
    have hx := mem_createdBy hcreated
    rw [hprior, List.mem_append] at hx
    rcases hx with hx | hx
    · exact absurd rfl (hapart e (List.mem_map_of_mem hx) e he)
    · exact hx
  · intro x hx p hp
    rcases traced.around b x (hmem hx) p hp with hopen | hleft
    · rw [hout] at hopen
      cases hopen
    · exact hleft
  · rw [building.stands.count, ← hrefs, List.length_map]

/-! ### The document -/

/-- How the tree of a build's root relates to the session: every element stands in it once, in
the order of the log and at its depth; missing are elements inside of blocks that failed, and
those outside of the root. If no block failed, the trees of all outermost elements are the
whole log. -/
structure Documented (m : Machine) (b : BuilderRef) (s : Session) (root : ElementRef)
    (w : World) (t : ElementTree) : Prop where
  read : w.store.tree? root = some t
  distinct : t.refs.Nodup
  placed : t.placed.Sublist s.log
  complete : ∀ e around, .created b e around ∈ m.history → e ∈ s.log.map Prod.snd →
    (e ∈ t.refs ↔ e = root ∨
      (root ∈ around ∧ ∀ p ∈ around, ∃ v, .left b p (.value v) ∈ m.history))
  whole : (∀ e ∈ s.log.map Prod.snd, ∀ y, .left b e y ∈ m.history → ∃ v, y = .value v) →
    ∃ ts, (World.directly 0 s.log).mapM w.store.tree? = some ts ∧
      s.log = ts.flatMap ElementTree.placed ∧
      w.elementCount b = (ts.flatMap Tree.nodes).length

section Built

variable {m : Machine} {b : BuilderRef} {s : Session} {c : Calls}

theorem Built.whole (built : Built m b s c)
    (h : ∀ e ∈ s.log.map Prod.snd, ∀ y, .left b e y ∈ m.history → ∃ v, y = .value v) :
    ∃ ts, (World.directly 0 s.log).mapM m.state.world.store.tree? = some ts ∧
      s.log = ts.flatMap ElementTree.placed ∧
      m.state.world.elementCount b = (ts.flatMap Tree.nodes).length := by
  have hkeeps : ∀ x ∈ c.entries [], ∀ p ∈ x.2, returned b m.history p = true := by
    intro x hx p hp
    obtain ⟨between, hb, hrefs⟩ := Calls.around_of_mem hx
    have hp' : p ∈ c.refs := hrefs p (by simpa [hb] using hp)
    obtain ⟨y, hy⟩ := built.left x hx p hp
    obtain ⟨v, rfl⟩ := h p (by rw [built.log, Calls.map_log]; exact hp') y hy
    exact returned_iff.mpr ⟨v, hy⟩
  obtain ⟨ts, hts, hplaced⟩ := Calls.trees_of_fits built.fits
    (Nat.le_succ_of_le built.height) 0
  have hlog : s.log = ts.flatMap ElementTree.placed := by
    rw [built.log, ← Calls.document_eq_log hkeeps, ← ElementTree.placedAll_eq_flatMap, hplaced]
    rfl
  refine ⟨ts, ?_, hlog, ?_⟩
  · have htops := Calls.directly_log_entries c []
    rw [built.log]
    rw [List.length_nil] at htops
    rw [htops]
    exact hts
  · have hnodes : s.log.map Prod.snd = (ts.flatMap Tree.nodes).map fun x => x.head.ref := by
      rw [hlog, List.map_flatMap, List.map_flatMap]
      exact congrArg (ts.flatMap ·) (funext ElementTree.map_placed)
    have hlength := congrArg List.length hnodes
    rw [built.log, Calls.map_log, List.length_map] at hlength
    rw [built.count, hlength]

theorem Built.document {root : ElementRef} (built : Built m b s c) (hroot : s.root = some root) :
    ∃ t, Documented m b s root m.state.world t := by
  have hhead := built.root.symm.trans hroot
  cases c with
  | nil => cases hhead
  | call e inner rest =>
    simp only [Calls.tops, List.head?_cons, Option.some.injEq] at hhead
    subst hhead
    obtain ⟨hfits, hfi, hfr⟩ := built.fits
    have hdistinct := built.distinct
    rw [Calls.refs, List.nodup_cons, List.mem_append, not_or, List.nodup_append] at hdistinct
    obtain ⟨⟨hei, her⟩, hi, hr, hir⟩ := hdistinct
    have hheight := built.height
    simp only [Calls.height] at hheight
    have single : (Calls.call e inner .nil).Fits m.state.world.store (returned b m.history) :=
      ⟨hfits, hfi, trivial⟩
    have hsingle : (Calls.call e inner .nil).height ≤ m.state.world.store.elements.size + 1 := by
      simp only [Calls.height]
      omega
    obtain ⟨t, ht, hplaced⟩ := Calls.tree_of_fits single hsingle
    have hrefs : t.refs =
        ((Calls.call e inner .nil).document (returned b m.history) 0).map Prod.snd := by
      rw [← ElementTree.map_placed, hplaced]
    have hsub : t.placed.Sublist s.log := by
      rw [hplaced, built.log]
      refine (Calls.document_sublist _ [] _).trans ?_
      simp only [Calls.entries, List.append_nil]
      exact List.Sublist.map _ ((List.sublist_append_left _ _).cons_cons _)
    refine ⟨t, ht, ?_, hsub, ?_, built.whole⟩
    · rw [← ElementTree.map_placed]
      refine List.Nodup.sublist (hsub.map Prod.snd) ?_
      rw [built.log, Calls.map_log]
      exact built.distinct
    · intro z around hcreated hz
      rw [built.log, Calls.map_log] at hz
      have hx := built.created z around hcreated hz
      rw [hrefs, Calls.mem_document_first built.distinct hx]
      simp only [returned_iff]

end Built

/-- A build whose block returned, and that created anything, ends with its root and the tree
that the log describes. -/
theorem build_document {code : Code} {m m' : Machine} (hm : Reachable code m)
    {b : BuilderRef} {next : Except Fault ElementRef → Program Value} {stack : List Frame}
    {v : Value} {s : Session} {root : ElementRef} (hstack : m.stack = .build b next :: stack)
    (hp : m.program = .done (.value v)) (hs : m.state.world.session? b = some s)
    (hroot : s.root = some root) (ha : ∀ e ∈ s.log.map Prod.snd, .attached e ∉ m.history)
    (hmove : Move code m m') :
    m'.program = next (.ok root) ∧ ∃ t, Documented m b s root m'.state.world t := by
  obtain ⟨-, hprog, hstate⟩ := ended_program hstack hp hs hmove
  obtain ⟨c, built⟩ := built_of_reachable hm hstack hs ha
  obtain ⟨t, doc⟩ := built.document hroot
  have hstore : m'.state.world.store = m.state.world.store := by
    rw [hstate, endBuild_store hs]
  have hcount : m'.state.world.elementCount b = m.state.world.elementCount b := by
    have stands := endBuild_stands (.value v) ⟨hs, rfl, rfl⟩
    rw [hstate, stands.count]
  refine ⟨?_, t, ?_, doc.distinct, doc.placed, doc.complete, ?_⟩
  · simp only [Session.conclusion, hroot] at hprog
    exact hprog
  · rw [hstore]
    exact doc.read
  · rw [hstore, hcount]
    exact doc.whole

theorem small_build_document : ∃ m m' s t, Reachable Script.code m ∧
    Move Script.code m m' ∧ m.state.world.session? ⟨0⟩ = some s ∧
    s.log = [(0, ⟨0⟩), (1, ⟨1⟩)] ∧ Documented m ⟨0⟩ s ⟨0⟩ m'.state.world t ∧
    ⟨1⟩ ∈ t.refs := by
  obtain ⟨s, next, session, hm, hs, hroot, hlog⟩ := small_left
  obtain ⟨-, t, doc⟩ := build_document hm rfl rfl hs hroot (by simp [hlog]) .ended
  refine ⟨_, _, session, t, hm, .ended, hs, hlog, doc, ?_⟩
  rw [doc.complete ⟨1⟩ [⟨0⟩] (by simp) (by simp [hlog])]
  exact .inr (by simp)

end TagTree
