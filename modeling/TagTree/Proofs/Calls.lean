import TagTree.Proofs.Blocks
import TagTree.Proofs.Trees

/-!
# Forests of calls

Tag calls made one after another, each with those in its block, make a forest. Its entries in
order of creation are its nodes in document order, and the blocks around an entry are its
ancestors. Where some blocks keep nothing, the document is the forest without what is in them.
-/

namespace TagTree

/-- Tag calls made one after another, each with those in its block. -/
inductive Calls where
  | nil
  | call (e : ElementRef) (inner rest : Calls)

namespace Calls

def entries (around : List ElementRef) : Calls → List (ElementRef × List ElementRef)
  | nil => []
  | call e inner rest =>
    (e, around) :: (inner.entries (e :: around) ++ rest.entries around)

def refs : Calls → List ElementRef
  | nil => []
  | call e inner rest => e :: (inner.refs ++ rest.refs)

def tops : Calls → List ElementRef
  | nil => []
  | call e _ rest => e :: rest.tops

def append : Calls → Calls → Calls
  | nil, d => d
  | call e inner rest, d => call e inner (rest.append d)

def height : Calls → Nat
  | nil => 0
  | call _ inner rest => max (inner.height + 1) rest.height

/-- The elements in document order with their depths, where some elements keep what was created
in their blocks. -/
def document (keeps : ElementRef → Bool) (depth : Nat) : Calls → List (Nat × ElementRef)
  | nil => []
  | call e inner rest =>
    (depth, e) :: ((if keeps e then inner.document keeps (depth + 1) else []) ++
      rest.document keeps depth)

variable {e : ElementRef} {around : List ElementRef} {keeps : ElementRef → Bool}
  {x : ElementRef × List ElementRef}

/-! ### Entries -/

theorem entries_append (around : List ElementRef) (c d : Calls) :
    (c.append d).entries around = c.entries around ++ d.entries around := by
  induction c with
  | nil => rfl
  | call e inner rest _ ih => simp [append, entries, ih]

theorem map_entries (around : List ElementRef) (c : Calls) :
    (c.entries around).map Prod.fst = c.refs := by
  induction c generalizing around with
  | nil => rfl
  | call e inner rest ihi ihr => simp [entries, refs, ihi, ihr]

theorem mem_refs {c : Calls} (hx : x ∈ c.entries around) : x.1 ∈ c.refs := by
  rw [← map_entries around c]
  exact List.mem_map_of_mem hx

theorem around_of_mem {c : Calls} (hx : x ∈ c.entries around) :
    ∃ between, x.2 = between ++ around ∧ ∀ p ∈ between, p ∈ c.refs := by
  induction c generalizing around with
  | nil => cases hx
  | call e inner rest ihi ihr =>
    simp only [entries, List.mem_cons, List.mem_append] at hx
    rcases hx with rfl | hx | hx
    · exact ⟨[], rfl, by simp⟩
    · obtain ⟨between, hb, hp⟩ := ihi hx
      refine ⟨between ++ [e], by rw [hb]; simp, ?_⟩
      intro p hmem
      rw [List.mem_append, List.mem_singleton] at hmem
      rcases hmem with hmem | rfl
      · simp [refs, hp p hmem]
      · simp [refs]
    · obtain ⟨between, hb, hp⟩ := ihr hx
      refine ⟨between, hb, ?_⟩
      intro p hmem
      simp [refs, hp p hmem]

theorem not_around {c : Calls} (he : e ∉ c.refs) (ha : e ∉ around)
    (hx : x ∈ c.entries around) : e ∉ x.2 := by
  obtain ⟨between, hb, hp⟩ := around_of_mem hx
  rw [hb, List.mem_append, not_or]
  exact ⟨fun hmem => he (hp e hmem), ha⟩

theorem height_le (c : Calls) : c.height ≤ c.refs.length := by
  induction c with
  | nil => exact Nat.le_refl 0
  | call e inner rest ihi ihr =>
    simp only [height, refs, List.length_cons, List.length_append]
    omega

/-! ### What is directly in a block -/

theorem directlyIn_entries {c : Calls} (he : e ∉ c.refs) :
    directlyIn e (c.entries (e :: around)) = c.tops := by
  induction c generalizing around with
  | nil => rfl
  | call z inner rest ihi ihr =>
    simp only [refs, List.mem_cons, List.mem_append, not_or] at he
    obtain ⟨hz, hi, hr⟩ := he
    have hinner : directlyIn e (inner.entries (z :: e :: around)) = [] := by
      have hf : ((inner.entries (z :: e :: around)).filter fun x => x.2.head? = some e) = [] := by
        rw [List.filter_eq_nil_iff]
        intro x hx hh
        obtain ⟨between, hb, hp⟩ := around_of_mem hx
        cases between with
        | nil => simp [hb, Ne.symm hz] at hh
        | cons p ps =>
          simp only [hb, List.cons_append, List.head?_cons, Option.some.injEq,
            decide_eq_true_eq] at hh
          exact hi (hh ▸ hp p (List.mem_cons_self ..))
      rw [directlyIn, hf, List.map_nil]
    have hhead : directlyIn e [(z, e :: around)] = [z] := by simp [directlyIn]
    rw [entries, ← List.singleton_append, directlyIn_append, directlyIn_append, hhead, hinner,
      ihr hr]
    rfl

/-- Each call's block has directly in it, among all that is created, the calls made in it. -/
def Direct (created : List (ElementRef × List ElementRef)) : Calls → Prop
  | nil => True
  | call e inner rest =>
    directlyIn e created = inner.tops ∧ inner.Direct created ∧ rest.Direct created

theorem direct_of_entries {created : List (ElementRef × List ElementRef)} {c : Calls}
    (hd : c.refs.Nodup) (ha : ∀ e ∈ c.refs, e ∉ around)
    (hc : ∀ e ∈ c.refs, directlyIn e created = directlyIn e (c.entries around)) :
    c.Direct created := by
  induction c generalizing around with
  | nil => trivial
  | call z inner rest ihi ihr =>
    rw [refs, List.nodup_cons, List.mem_append, not_or, List.nodup_append] at hd
    obtain ⟨⟨hzi, hzr⟩, hi, hr, hir⟩ := hd
    have hz : z ∉ around := ha z (by simp [refs])
    have hai : ∀ e ∈ inner.refs, e ∉ z :: around := by
      intro e he
      rw [List.mem_cons, not_or]
      exact ⟨fun hez => hzi (hez ▸ he), ha e (by simp [refs, he])⟩
    have har : ∀ e ∈ rest.refs, e ∉ around := fun e he => ha e (by simp [refs, he])
    have split (e : ElementRef) : directlyIn e ((call z inner rest).entries around) =
        directlyIn e [(z, around)] ++ (directlyIn e (inner.entries (z :: around)) ++
          directlyIn e (rest.entries around)) := by
      rw [entries, ← List.singleton_append, directlyIn_append, directlyIn_append]
    have hself (e : ElementRef) (he : e ∉ around) : directlyIn e [(z, around)] = [] :=
      directlyIn_outside (by simpa using he)
    refine ⟨?_, ihi hi hai ?_, ihr hr har ?_⟩
    · rw [hc z (by simp [refs]), split, hself z hz, directlyIn_entries hzi,
        directlyIn_outside fun x hx => not_around hzr hz hx]
      simp
    · intro e he
      have hne : e ∉ rest.refs := fun hmem => hir e he e hmem rfl
      have hout : e ∉ around := ha e (by simp [refs, he])
      rw [hc e (by simp [refs, he]), split, hself e hout,
        directlyIn_outside fun x hx => not_around hne hout hx]
      simp
    · intro e he
      have hne : e ∉ inner.refs := fun hmem => hir e hmem e he rfl
      have hout : e ∉ around := ha e (by simp [refs, he])
      have hez : e ∉ z :: around := by
        rw [List.mem_cons, not_or]
        exact ⟨fun h => hzr (h ▸ he), hout⟩
      rw [hc e (by simp [refs, he]), split, hself e hout,
        directlyIn_outside fun x hx => not_around hne hez hx]
      simp

/-! ### Documents -/

theorem document_sublist (keeps : ElementRef → Bool) (around : List ElementRef) (c : Calls) :
    (c.document keeps around.length).Sublist (Course.log (c.entries around)) := by
  induction c generalizing around with
  | nil => exact List.Sublist.refl []
  | call e inner rest ihi ihr =>
    have hi : (if keeps e then inner.document keeps (around.length + 1) else []).Sublist
        (Course.log (inner.entries (e :: around))) := by
      split
      · exact ihi (e :: around)
      · exact List.nil_sublist _
    have hsplit : Course.log ((call e inner rest).entries around) =
        (around.length, e) :: (Course.log (inner.entries (e :: around)) ++
          Course.log (rest.entries around)) := by
      simp [entries, Course.log]
    rw [document, hsplit]
    exact (hi.append (ihr around)).cons_cons _

theorem document_eq_log {c : Calls}
    (h : ∀ x ∈ c.entries around, ∀ p ∈ x.2, keeps p = true) :
    c.document keeps around.length = Course.log (c.entries around) := by
  induction c generalizing around with
  | nil => rfl
  | call e inner rest ihi ihr =>
    have hi : inner.document keeps (around.length + 1) =
        Course.log (inner.entries (e :: around)) :=
      @ihi (e :: around) fun x hx => h x (by simp [entries, hx])
    have hr : rest.document keeps around.length = Course.log (rest.entries around) :=
      ihr fun x hx => h x (by simp [entries, hx])
    have hinner : (if keeps e then inner.document keeps (around.length + 1) else []) =
        Course.log (inner.entries (e :: around)) := by
      split
      · exact hi
      · rename_i he
        cases inner with
        | nil => rfl
        | call z below next =>
          -- an element was created in the block, which thus keeps it
          exact absurd (h (z, e :: around) (by simp [entries]) e (List.mem_cons_self ..)) he
    rw [document, hinner, hr]
    simp [entries, Course.log]

theorem mem_document_refs {depth : Nat} {c : Calls}
    (h : e ∈ (c.document keeps depth).map Prod.snd) : e ∈ c.refs := by
  induction c generalizing depth with
  | nil => cases h
  | call z inner rest ihi ihr =>
    simp only [document, List.map_cons, List.map_append, List.mem_cons, List.mem_append] at h
    rcases h with rfl | h | h
    · simp [refs]
    · split at h
      · simp [refs, ihi h]
      · cases h
    · simp [refs, ihr h]

theorem mem_document {c : Calls} (hd : c.refs.Nodup) (hx : x ∈ c.entries around) {depth : Nat}
    {between : List ElementRef} (hb : x.2 = between ++ around) :
    x.1 ∈ (c.document keeps depth).map Prod.snd ↔ ∀ p ∈ between, keeps p = true := by
  induction c generalizing around between depth with
  | nil => cases hx
  | call e inner rest ihi ihr =>
    rw [refs, List.nodup_cons, List.mem_append, not_or, List.nodup_append] at hd
    obtain ⟨⟨hei, her⟩, hi, hr, hir⟩ := hd
    simp only [entries, List.mem_cons, List.mem_append] at hx
    simp only [document, List.map_cons, List.map_append, List.mem_cons, List.mem_append]
    rcases hx with rfl | hx | hx
    · have hnil : between = [] := by
        have hl := congrArg List.length hb
        simp only [List.length_append] at hl
        exact List.length_eq_zero_iff.mp (by omega)
      simp [hnil]
    · obtain ⟨between', hb', -⟩ := around_of_mem hx
      have hsplit : between = between' ++ [e] := by
        rw [hb', ← List.singleton_append, ← List.append_assoc] at hb
        exact (List.append_cancel_right hb).symm
      have hself : x.1 ≠ e := fun h => hei (h ▸ mem_refs hx)
      have hrest : x.1 ∉ (rest.document keeps depth).map Prod.snd :=
        fun h => hir _ (mem_refs hx) _ (mem_document_refs h) rfl
      have hin : x.1 ∈ (inner.document keeps (depth + 1)).map Prod.snd ↔
          ∀ p ∈ between', keeps p = true := ihi hi hx hb'
      rw [hsplit]
      cases hk : keeps e with
      | false => simp [hself, hrest, hk]
      | true => simp [hself, hrest, hk, hin, or_imp, forall_and]
    · have hself : x.1 ≠ e := fun h => her (h ▸ mem_refs hx)
      have hinner : x.1 ∉ (if keeps e then inner.document keeps (depth + 1) else []).map
          Prod.snd := by
        split
        · exact fun h => hir _ (mem_document_refs h) _ (mem_refs hx) rfl
        · simp
      simp only [hself, hinner, false_or]
      exact ihr hr hx hb

/-- An element is in the document of the first call when it is that call's, or was created inside
of its block and of blocks that keep what is in them. -/
theorem mem_document_first {inner rest : Calls} (hd : (call e inner rest).refs.Nodup)
    (hx : x ∈ (call e inner rest).entries []) :
    x.1 ∈ ((call e inner nil).document keeps 0).map Prod.snd ↔
      x.1 = e ∨ (e ∈ x.2 ∧ ∀ p ∈ x.2, keeps p = true) := by
  rw [refs, List.nodup_cons, List.mem_append, not_or, List.nodup_append] at hd
  obtain ⟨⟨hei, her⟩, hi, hr, hir⟩ := hd
  have single : (call e inner nil).refs.Nodup := by
    simpa [refs] using ⟨hei, hi⟩
  simp only [entries, List.mem_cons, List.mem_append] at hx
  rcases hx with rfl | hx | hx
  · simp [document]
  · have hmem : x ∈ (call e inner nil).entries [] := by simp [entries, hx]
    have hself : x.1 ≠ e := fun h => hei (h ▸ mem_refs hx)
    have hin : e ∈ x.2 := by
      obtain ⟨between, hb, -⟩ := around_of_mem hx
      simp [hb]
    rw [mem_document single hmem (List.append_nil _).symm]
    simp [hself, hin]
  · have hself : x.1 ≠ e := fun h => her (h ▸ mem_refs hx)
    have hin : e ∉ x.2 := not_around her List.not_mem_nil hx
    have hout : x.1 ∉ ((call e inner nil).document keeps 0).map Prod.snd := by
      intro h
      have href := mem_document_refs h
      simp only [refs, List.append_nil, List.mem_cons] at href
      rcases href with href | href
      · exact hself href
      · exact hir _ href _ (mem_refs hx) rfl
    simp [hself, hin, hout]

/-! ### Calls on the way -/

/-- What is created while blocks run: calls made after one another inside of the innermost one,
after its own call and the calls made before that in the block around it. -/
inductive Spine : List (ElementRef × List ElementRef) → List ElementRef → Prop
  | outside (c : Calls) : Spine (c.entries []) []
  | inside {created : List (ElementRef × List ElementRef)} {around : List ElementRef}
      (e : ElementRef) (c : Calls) (before : Spine created around) :
      Spine (created ++ (e, around) :: c.entries (e :: around)) (e :: around)

theorem Spine.append {created : List (ElementRef × List ElementRef)}
    (h : Spine created around) (d : Calls) : Spine (created ++ d.entries around) around := by
  cases h with
  | outside c =>
    rw [← entries_append]
    exact .outside _
  | inside e c before =>
    rw [List.append_assoc, List.cons_append, ← entries_append]
    exact .inside e _ before

theorem Spine.leaf {created : List (ElementRef × List ElementRef)} (h : Spine created around)
    (e : ElementRef) : Spine (created ++ [(e, around)]) around :=
  h.append (.call e .nil .nil)

theorem Spine.enter {created : List (ElementRef × List ElementRef)} (h : Spine created around)
    (e : ElementRef) : Spine (created ++ [(e, around)]) (e :: around) :=
  .inside e .nil h

theorem Spine.leave {created : List (ElementRef × List ElementRef)}
    (h : Spine created (e :: around)) : Spine created around := by
  cases h with
  | inside _ c before =>
    have hcall := before.append (.call e c .nil)
    simpa only [entries, List.append_nil] using hcall

theorem Spine.calls {created : List (ElementRef × List ElementRef)} (h : Spine created []) :
    ∃ c : Calls, created = c.entries [] := by
  cases h with
  | outside c => exact ⟨c, rfl⟩

end Calls

/-! ### Trees of elements -/

namespace ElementTree

def placedAll (depth : Nat) (ts : List ElementTree) : List (Nat × ElementRef) :=
  (Tree.levelsOf depth ts).map fun x => (x.1, x.2.ref)

def placed (t : ElementTree) : List (Nat × ElementRef) := placedAll 0 [t]

def refs (t : ElementTree) : List ElementRef := t.nodes.map fun x => x.head.ref

theorem placedAll_cons (depth : Nat) (t : ElementTree) (ts : List ElementTree) :
    placedAll depth (t :: ts) = placedAll depth [t] ++ placedAll depth ts := by
  simp [placedAll, Tree.levelsOf]

theorem placedAll_eq_flatMap (ts : List ElementTree) :
    placedAll 0 ts = ts.flatMap placed := by
  induction ts with
  | nil => rfl
  | cons t ts ih =>
    rw [placedAll_cons, ih]
    rfl

theorem map_placed (t : ElementTree) : t.placed.map Prod.snd = t.refs := by
  have h := congrArg (List.map Node.ref) (Tree.map_levels 0 t)
  simpa [placed, placedAll, Tree.levelsOf, refs, Function.comp_def] using h

end ElementTree

namespace Calls

variable {s : Store} {keeps : ElementRef → Bool}

/-- The elements of calls hold in the store what was created in their blocks, if they keep
it. -/
def Fits (s : Store) (keeps : ElementRef → Bool) : Calls → Prop
  | nil => True
  | call e inner rest =>
    (∃ x, s.element? e = some x ∧ x.children = if keeps e then inner.tops else []) ∧
      inner.Fits s keeps ∧ rest.Fits s keeps

theorem treeWithin_of_children {n : Nat} {e : ElementRef} {x : Element} {ts : List ElementTree}
    (hx : s.element? e = some x) (hts : x.children.mapM (s.treeWithin n) = some ts)
    (depth : Nat) :
    ∃ t, s.treeWithin (n + 1) e = some t ∧
      ElementTree.placedAll depth [t] =
        (depth, e) :: ElementTree.placedAll (depth + 1) ts := by
  unfold Store.treeWithin
  simp only [hx]
  cases hc : x.content with
  | empty =>
    rw [Element.children, hc] at hts
    cases hts
    exact ⟨_, rfl, rfl⟩
  | text v =>
    rw [Element.children, hc] at hts
    cases hts
    exact ⟨_, rfl, rfl⟩
  | children id c =>
    rw [Element.children, hc] at hts
    simp only [hts, Option.map_some]
    refine ⟨_, rfl, ?_⟩
    simp [ElementTree.placedAll, Tree.levelsOf, Tree.levels]

theorem trees_of_fits {c : Calls} (fits : c.Fits s keeps) {n : Nat} (hn : c.height ≤ n)
    (depth : Nat) :
    ∃ ts, c.tops.mapM (s.treeWithin n) = some ts ∧
      ElementTree.placedAll depth ts = c.document keeps depth := by
  induction c generalizing n depth with
  | nil => exact ⟨[], rfl, rfl⟩
  | call e inner rest ihi ihr =>
    obtain ⟨⟨x, hx, hchildren⟩, hi, hr⟩ := fits
    simp only [height] at hn
    obtain ⟨k, rfl⟩ : ∃ k, n = k + 1 := ⟨n - 1, by omega⟩
    have hinner : ∃ ts, x.children.mapM (s.treeWithin k) = some ts ∧
        ElementTree.placedAll (depth + 1) ts =
          if keeps e then inner.document keeps (depth + 1) else [] := by
      rw [hchildren]
      split
      · exact ihi hi (by omega) (depth + 1)
      · exact ⟨[], rfl, rfl⟩
    obtain ⟨below, hbelow, hplaced⟩ := hinner
    obtain ⟨t, ht, htop⟩ := treeWithin_of_children hx hbelow depth
    obtain ⟨ts, hts, hrest⟩ := ihr hr (n := k + 1) (by omega) depth
    refine ⟨t :: ts, ?_, ?_⟩
    · simp [tops, List.mapM_cons, ht, hts]
    · rw [ElementTree.placedAll_cons, htop, hplaced, hrest]
      rfl

theorem tree_of_fits {e : ElementRef} {inner : Calls}
    (fits : (call e inner nil).Fits s keeps) {n : Nat} (hn : (call e inner nil).height ≤ n) :
    ∃ t, s.treeWithin n e = some t ∧ t.placed = (call e inner nil).document keeps 0 := by
  obtain ⟨ts, hts, hplaced⟩ := trees_of_fits fits hn 0
  simp only [tops, List.mapM_cons, List.mapM_nil, Option.bind_eq_bind, Option.pure_def,
    Option.bind_some, Option.bind_eq_some_iff, Option.some.injEq] at hts
  obtain ⟨t, ht, rfl⟩ := hts
  exact ⟨t, ht, hplaced⟩

end Calls

end TagTree
