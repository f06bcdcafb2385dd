import TagTree.Proofs.Scripts
import TagTree.Proofs.Sessions
import TagTree.Proofs.Blocks

/-!
# Finished elements

An element is finished when it exists and no block runs that fills it. What a script does from
then on leaves it as it is: only the end of its own block fills an element, and content that is
attached by hand.
-/

namespace TagTree

/-! ### Steps are never refused -/

/-- Whatever comes back to a frame, a steady program follows. -/
def Frame.Steady : Frame → Prop
  | .plain next => ∀ r, (next r).Steady
  | .block _ _ _ next | .build _ next => ∀ r, (next r).Steady

structure Machine.Steady (m : Machine) : Prop where
  program : m.program.Steady
  stack : ∀ frame ∈ m.stack, frame.Steady

theorem Program.steady_resume {α β : Type} {next : Except Fault β → Program α}
    (h : ∀ r, (next r).Steady) (x : Outcome β) : (Program.resume next x).Steady := by
  cases x with
  | value a => exact h (.ok a)
  | fault f => exact h (.error f)
  | exhausted => trivial

theorem Machine.Steady.move {code : Code} {m m' : Machine} (hm : m.Steady)
    (steady : code.Steady) (hs : Machine.Step code m m') : m'.Steady := by
  obtain ⟨⟨move, -⟩, going⟩ := hs
  cases move with
  | returned | left | ended =>
    refine ⟨Program.steady_resume (hm.stack _ (List.mem_cons_self ..)) _, ?_⟩
    exact fun frame hf => hm.stack frame (List.mem_cons_of_mem _ hf)
  | acted => exact ⟨Program.steady_resume hm.program.2 _, hm.stack⟩
  | attached => exact ⟨Program.steady_resume hm.program _, hm.stack⟩
  | refusedCall | created | refusedBuild => exact ⟨hm.program _, hm.stack⟩
  | unreadCall | unreadBuild => exact ⟨trivial, hm.stack⟩
  | entered | began | applied =>
    refine ⟨steady _ _ _, ?_⟩
    intro frame hf
    rcases List.mem_cons.mp hf with rfl | hf
    · exact hm.program
    · exact hm.stack frame hf
  | loaded => exact absurd ⟨rfl, _, rfl⟩ going

/-- A machine with a steady program goes on until it is over. -/
theorem Machine.Steady.goes_on {code : Code} {m : Machine} (hm : m.Steady)
    (going : ¬ m.Over) : ∃ m', Machine.Step code m m' := by
  obtain ⟨s, stack, program, h⟩ := m
  cases program with
  | done x =>
    cases stack with
    | nil => exact absurd ⟨rfl, x, rfl⟩ going
    | cons frame stack =>
      cases frame with
      | plain next => exact ⟨_, .of_ending .returned⟩
      | block b e start next => exact ⟨_, .of_ending .left⟩
      | build b next => exact ⟨_, .of_ending .ended⟩
  | act p next => exact ⟨_, .acted (hm.program.1 s)⟩
  | attach e change next => exact ⟨_, .of_deed .attached rfl rfl⟩
  | tag b name args named next =>
    cases hadmission : s.world.admitCall b name args named with
    | fault f => exact ⟨_, .of_deed (.refusedCall hadmission) rfl rfl⟩
    | exhausted => exact ⟨_, .of_deed (.unreadCall hadmission) rfl rfl⟩
    | value c =>
      cases hblock : c.block with
      | none => exact ⟨_, .of_deed (.created hadmission hblock) rfl rfl⟩
      | some block => exact ⟨_, .of_deed (.entered hadmission hblock) rfl rfl⟩
  | build b block next =>
    cases hadmission : s.world.admitBuild b block with
    | fault f => exact ⟨_, .of_deed (.refusedBuild hadmission) rfl rfl⟩
    | exhausted => exact ⟨_, .of_deed (.unreadBuild hadmission) rfl rfl⟩
    | value c => exact ⟨_, .of_deed (.began hadmission) rfl rfl⟩
  | apply c args named next => exact ⟨_, .of_deed .applied rfl rfl⟩

theorem Machine.Steady.goes {m m' : Machine} (hm : m.Steady) (h : Script.Goes m m') :
    m'.Steady := by
  cases h with
  | on made => exact hm.move Script.steady_code made
  | next ended step =>
    refine ⟨step.steady_program, ?_⟩
    intro frame hf
    cases hf

theorem Machine.Steady.leads {m m' : Machine} (hm : m.Steady) (h : Script.Leads m m') :
    m'.Steady := by
  induction h with
  | refl => exact hm
  | tail _ hs ih => exact ih.goes hs

theorem Script.beginning_steady (host : Host) : (Script.beginning host).Steady := by
  refine ⟨trivial, ?_⟩
  intro frame hf
  cases hf

theorem Script.Leads.acted {m : Machine} {s : State} {stack : List Frame} {h : List Event}
    {β : Type} {p : Proc State β} {next : Except Fault β → Program Value} (hm : m.Steady)
    (hl : Script.Leads m ⟨s, stack, .act p next, h⟩) :
    Script.Leads m ⟨(p s).2, stack, .resume next (p s).1, h⟩ :=
  hl.tail (.on (.acted ((hm.leads hl).program.1 s)))

/-! ### Elements that are finished -/

def Machine.element? (m : Machine) (e : ElementRef) : Option Element :=
  m.state.world.store.element? e

/-- An element that exists, and no block that is to fill it runs. -/
structure Machine.Finished (m : Machine) (e : ElementRef) : Prop where
  stored : e.index < m.state.world.store.elements.size
  closed : e ∉ (openBlocks m.stack).map OpenBlock.element

section Finished

variable {code : Code} {m m' : Machine} {e : ElementRef}

theorem Machine.Finished.exists (h : m.Finished e) : ∃ x, m.element? e = some x :=
  ⟨_, Array.getElem?_eq_getElem h.stored⟩

/-- One move leaves a finished element as it is. -/
theorem finished_move (ho : m.Orderly) (hm : Move code m m') (hf : m.Finished e) :
    m'.Finished e ∧ (.attached e ∉ m'.history.drop m.history.length →
      m'.element? e = m.element? e) := by
  obtain ⟨hstored, hclosed⟩ := hf
  cases hm with
  | returned => exact ⟨⟨hstored, hclosed⟩, fun _ => rfl⟩
  | @left s b d start next stack x h =>
    simp only [openBlocks, List.map_cons, List.mem_cons, not_or] at hclosed
    refine ⟨⟨?_, hclosed.2⟩, fun _ => endBlock_other b start x s (Ne.symm hclosed.1)⟩
    rw [endBlock_size]
    exact hstored
  | @ended s b next stack x h =>
    obtain ⟨session, created, building⟩ := (ho b).2.building_of_build
    have hstore := endBuild_store building.stands.session x
    refine ⟨⟨?_, hclosed⟩, fun _ => ?_⟩
    · rw [hstore]
      exact hstored
    · simp only [Machine.element?, hstore]
  | acted kept =>
    exact ⟨⟨Nat.lt_of_lt_of_le hstored kept.size, hclosed⟩, fun _ => kept.element e hstored⟩
  | @attached s stack d change next h =>
    refine ⟨⟨?_, hclosed⟩, ?_⟩
    · exact Nat.lt_of_lt_of_eq hstored (World.changeElement_size s.world d change).symm
    · intro ha
      rw [List.drop_left] at ha
      have hne : d ≠ e := fun hd => ha (by rw [hd]; exact List.mem_singleton.mpr rfl)
      exact World.changeElement_other s.world change hne
  | refusedCall => exact ⟨⟨hstored, hclosed⟩, fun _ => rfl⟩
  | unreadCall => exact ⟨⟨hstored, hclosed⟩, fun _ => rfl⟩
  | @created s stack b name args named next h c =>
    refine ⟨⟨?_, hclosed⟩, fun _ => World.create_element? s.world b c e hstored⟩
    exact Nat.lt_of_lt_of_eq (Nat.lt_succ_of_lt hstored) (create_size s.world b c).symm
  | @entered s stack b name args named next h c =>
    have hne : e ≠ (s.world.create b c).1 := fun he => World.ne_create hstored b c he
    refine ⟨⟨?_, ?_⟩, fun _ => World.create_element? s.world b c e hstored⟩
    · exact Nat.lt_of_lt_of_eq (Nat.lt_succ_of_lt hstored) (create_size s.world b c).symm
    · simp only [openBlocks, List.map_cons, List.mem_cons, not_or]
      exact ⟨hne, hclosed⟩
  | refusedBuild => exact ⟨⟨hstored, hclosed⟩, fun _ => rfl⟩
  | unreadBuild => exact ⟨⟨hstored, hclosed⟩, fun _ => rfl⟩
  | began => exact ⟨⟨hstored, hclosed⟩, fun _ => rfl⟩
  | applied => exact ⟨⟨hstored, hclosed⟩, fun _ => rfl⟩
  | loaded => exact ⟨⟨hstored, hclosed⟩, fun _ => rfl⟩

/-- All that follows leaves a finished element as it is. -/
theorem finished_moves (hr : Reachable code m) (hm : Moves code m m') (hf : m.Finished e) :
    m'.Finished e ∧ ∃ events, m'.history = m.history ++ events ∧
      (.attached e ∉ events → m'.element? e = m.element? e) := by
  induction hm with
  | refl => exact ⟨hf, [], (List.append_nil _).symm, fun _ => rfl⟩
  | @tail n m' hn hs ih =>
    obtain ⟨hfinished, events, hevents, hsame⟩ := ih
    obtain ⟨more, hmore⟩ := move_history hs
    obtain ⟨hafter, hstill⟩ := finished_move (orderly_of_reachable (hr.moves hn)) hs hfinished
    rw [hmore, List.drop_left] at hstill
    refine ⟨hafter, events ++ more, ?_, ?_⟩
    · rw [hmore, hevents, List.append_assoc]
    · intro ha
      rw [List.mem_append, not_or] at ha
      exact (hstill ha.2).trans (hsame ha.1)

theorem finished_of_left (hr : Reachable code m) {b : BuilderRef} {x : Outcome Value}
    (hl : .left b e x ∈ m.history) : m.Finished e :=
  have left := (accounted_of_reachable hr).left b e x hl
  ⟨left.stored, left.gone⟩

/-- An element that a move makes is finished, unless the move enters the element's block. -/
theorem finished_of_made (hr : Reachable code m) (hm : Move code m m')
    (before : m.state.world.store.elements.size ≤ e.index)
    (after : e.index < m'.state.world.store.elements.size) :
    m'.Finished e ∨ ∃ b start next, m'.stack = .block b e start next :: m.stack := by
  have hclosed : e ∉ (openBlocks m.stack).map OpenBlock.element := by
    intro hmem
    obtain ⟨o, ho, rfl⟩ := List.mem_map.mp hmem
    exact absurd ((accounted_of_reachable hr).stored o ho) (Nat.not_lt.mpr before)
  cases hm with
  | @left s b d start next stack x h =>
    rw [endBlock_size] at after
    exact absurd after (Nat.not_lt.mpr before)
  | @ended s b next stack x h =>
    obtain ⟨session, created, building⟩ := (orderly_of_reachable hr b).2.building_of_build
    rw [endBuild_store building.stands.session x] at after
    exact absurd after (Nat.not_lt.mpr before)
  | acted => exact .inl ⟨after, hclosed⟩
  | @attached s stack d change next h =>
    exact absurd (Nat.lt_of_lt_of_eq after (World.changeElement_size s.world d change))
      (Nat.not_lt.mpr before)
  | created => exact .inl ⟨after, hclosed⟩
  | @entered s stack b name args named next h c =>
    have hindex : e.index < s.world.store.elements.size + 1 :=
      Nat.lt_of_lt_of_eq after (create_size s.world b c)
    have he : e = (s.world.create b c).1 := by
      rw [World.create_ref]
      obtain ⟨i⟩ := e
      exact congrArg ElementRef.mk (Nat.le_antisymm (Nat.le_of_lt_succ hindex) before)
    rw [he]
    exact .inr ⟨_, _, _, rfl⟩
  | _ => exact absurd after (Nat.not_lt.mpr before)

end Finished

/-- Elements are read-only once the call that makes them is over. A script goes on without
fault of the machine; an element is finished when its block was left, or at once when it has
none; and whatever the script does then, unless it attaches content to the element by hand,
the element keeps its tag, its attributes, its text and its children. -/
theorem finished_elements_fixed {host : Host} {m : Machine}
    (hm : Script.Leads (Script.beginning host) m) (e : ElementRef) :
    (¬ m.Over → ∃ m', Machine.Step Script.code m m') ∧
    (∀ b x, .left b e x ∈ m.history → m.Finished e) ∧
    (∀ m', Script.Goes m m' → m.element? e = none → m'.element? e ≠ none →
      m'.Finished e ∨ ∃ b start next, m'.stack = .block b e start next :: m.stack) ∧
    ∀ m', m.Finished e → Script.Leads m m' →
      m'.Finished e ∧ ∃ events, m'.history = m.history ++ events ∧
        (.attached e ∉ events →
          ∃ x, m.element? e = some x ∧ m'.element? e = some x) := by
  have reached := Script.reachable_of_leads hm
  refine ⟨((Script.beginning_steady host).leads hm).goes_on,
    fun b x => finished_of_left reached, ?_, ?_⟩
  · intro m' hs before after
    refine finished_of_made reached hs.move ?_ ?_
    · simpa [Machine.element?, Store.element?] using before
    · simpa [Machine.element?, Store.element?] using after
  · intro m' hf hl
    obtain ⟨hfinished, events, hevents, hsame⟩ := finished_moves reached hl.moves hf
    obtain ⟨x, hx⟩ := hf.exists
    exact ⟨hfinished, events, hevents, fun ha => ⟨x, hx, (hsame ha).trans hx⟩⟩

/-- A self-closing element outlives a write to the dict that it was given. -/
theorem written_dict_leaves_element : ∃ m m', Script.Leads (Script.beginning .small) m ∧
    Script.Leads m m' ∧ m.Finished ⟨0⟩ ∧
    m'.state.world.store.entries ⟨0⟩ = [(.text "k", .text "w")] ∧
    ∃ x, m'.element? ⟨0⟩ = some x ∧ x.tag = "br" ∧
      x.attributes = some [(.text "k", .text "v")] ∧ x.isSelfClosing = true := by
  have h0 : Script.Leads (Script.beginning .small)
      ⟨.initial .small, [], .done (.value .none), []⟩ := .refl
  have first := Script.beginning_steady .small
  have h1 := h0.next
    (.act (.keep (.dict [(.atom (.text "k"), .atom (.text "v"))])) (some "d"))
  have h2 := Script.Leads.acted first h1
  have h3 := Script.Leads.acted first h2
  have h4 := Script.Leads.acted first h3
  have h5 := Script.Leads.acted first h4
  have h6 := Script.Leads.next h5
    (.act (.element (.atom (.text "br")) (some (.variable "d")) none) (some "e"))
  have h7 := Script.Leads.acted first h6
  have h8 := Script.Leads.acted first h7
  have h9 := Script.Leads.acted first h8
  have hm := Script.Leads.acted first h9
  have steady := first.leads hm
  have stay {m : Machine} (_ : m.Steady) : Script.Leads m m := .refl
  have g1 := (stay steady).next
    (.act (.putEntry (.variable "d") (.atom (.text "w")) (.atom (.text "k"))) none)
  have g2 := Script.Leads.acted steady g1
  have g3 := Script.Leads.acted steady g2
  have g4 := Script.Leads.acted steady g3
  have g5 := Script.Leads.acted steady g4
  obtain ⟨-, -, -, fixed⟩ := finished_elements_fixed hm ⟨0⟩
  obtain ⟨-, events, hevents, hsame⟩ := fixed _ ⟨Nat.zero_lt_one, List.not_mem_nil⟩ g5
  have hnone : events = [] := (List.nil_append events).symm.trans hevents.symm
  obtain ⟨x, hx, hx'⟩ := hsame (hnone ▸ List.not_mem_nil)
  refine ⟨_, _, hm, g5, ⟨Nat.zero_lt_one, List.not_mem_nil⟩, rfl, x, hx', ?_⟩
  cases hx
  exact ⟨rfl, rfl, rfl⟩

end TagTree
