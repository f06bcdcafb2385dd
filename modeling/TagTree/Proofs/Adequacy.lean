import TagTree.Proofs.Machine
import TagTree.Proofs.Matching

/-!
# Runs are machine runs

A program that runs without using up its fuel runs to the same end on the machine, whatever is
open below it.
-/

namespace TagTree

/-- What steady code does by itself: all builders are kept, those that exist stay as they are,
and no object is gone. -/
structure World.Leaves (w w' : World) : Prop where
  keeps : w.Keeps w'
  builder : ∀ b x, w.builder? b = some x → w'.builder? b = some x
  grows : ∀ o : Object, o.In w → o.In w'
  host : w'.store.host = w.store.host

namespace World.Leaves

theorem refl (w : World) : w.Leaves w := ⟨.refl w, fun _ _ h => h, fun _ h => h, rfl⟩

theorem trans {w w' w'' : World} (h : w.Leaves w') (h' : w'.Leaves w'') : w.Leaves w'' :=
  ⟨h.keeps.trans h'.keeps, fun b x hb => h'.builder b x (h.builder b x hb),
    fun o ho => h'.grows o (h.grows o ho), h'.host.trans h.host⟩

end World.Leaves

/-- A program that does nothing by itself but what leaves builders and elements as they are. -/
def Program.Steady {α : Type} : Program α → Prop
  | .done _ => True
  | .act p next => (∀ s : State, s.world.Leaves (p s).2.world) ∧ ∀ r, (next r).Steady
  | .attach _ _ next => ∀ r, (next r).Steady
  | .tag _ _ _ _ next => ∀ r, (next r).Steady
  | .build _ _ next => ∀ r, (next r).Steady
  | .apply _ _ _ next => ∀ r, (next r).Steady

def Code.Steady (code : Code) : Prop := ∀ c args named, (code c args named).Steady

/-- Whether a program acts on the state by itself. -/
def Program.acts {α : Type} : Program α → Bool
  | .act .. => true
  | _ => false

/-- Whether a program is at its end. -/
def Program.isDone {α : Type} : Program α → Bool
  | .done _ => true
  | _ => false

/-- A move that is no more than steady code makes. -/
structure Advance (code : Code) (m m' : Machine) : Prop where
  move : Move code m m'
  leaves : ∀ {β : Type} (p : Proc State β) next, m.program = .act p next →
    m.state.world.Leaves m'.state.world

/-- The machine at the end of its program, with nothing open. -/
def Machine.Over (m : Machine) : Prop := m.stack = [] ∧ ∃ x, m.program = .done x

/-- A step of the program that the machine runs; no other program is loaded. -/
structure Machine.Step (code : Code) (m m' : Machine) : Prop extends Advance code m m' where
  going : ¬ m.Over

abbrev Machine.Steps (code : Code) : Machine → Machine → Prop :=
  Relation.ReflTransGen (Machine.Step code)

/-- A move that is no deed of code by itself. -/
theorem Advance.of_move {code : Code} {m m' : Machine} (hm : Move code m m')
    (idle : m.program.acts = false) : Advance code m m' where
  move := hm
  leaves p next h := by
    rw [h] at idle
    cases idle

theorem Machine.Step.of_deed {code : Code} {m m' : Machine} (hm : Move code m m')
    (idle : m.program.acts = false) (going : m.program.isDone = false) :
    Machine.Step code m m' where
  toAdvance := .of_move hm idle
  going hover := by
    obtain ⟨-, x, hx⟩ := hover
    rw [hx] at going
    cases going

theorem Machine.Step.acted {code : Code} {s : State} {stack : List Frame} {h : List Event}
    {β : Type} {p : Proc State β} {next : Except Fault β → Program Value}
    (leaves : s.world.Leaves (p s).2.world) :
    Machine.Step code ⟨s, stack, .act p next, h⟩ ⟨(p s).2, stack, .resume next (p s).1, h⟩ where
  move := .acted leaves.keeps
  leaves _ _ _ := leaves
  going hover := by
    obtain ⟨-, x, hx⟩ := hover
    cases hx

theorem Machine.Step.of_ending {code : Code} {s : State} {frame : Frame} {stack : List Frame}
    {x : Outcome Value} {h : List Event} {m : Machine}
    (hm : Move code ⟨s, frame :: stack, .done x, h⟩ m) :
    Machine.Step code ⟨s, frame :: stack, .done x, h⟩ m :=
  ⟨.of_move hm rfl, fun hover => List.cons_ne_nil _ _ hover.1⟩

/-- The machine has one step to make at a time. -/
theorem Machine.Step.unique {code : Code} {m m' m'' : Machine} (h : Machine.Step code m m')
    (h' : Machine.Step code m m'') : m'' = m' := by
  obtain ⟨⟨move, -⟩, going⟩ := h
  obtain ⟨⟨move', -⟩, -⟩ := h'
  cases move with
  | returned | left | ended | acted | attached | applied =>
    cases move'
    rfl
  | loaded => exact absurd ⟨rfl, _, rfl⟩ going
  | refusedCall refused =>
    cases move' with
    | refusedCall refused' =>
      cases refused.symm.trans refused'
      rfl
    | unreadCall unread => cases refused.symm.trans unread
    | created admitted | entered admitted => cases refused.symm.trans admitted
  | unreadCall unread =>
    cases move' with
    | refusedCall refused => cases unread.symm.trans refused
    | unreadCall => rfl
    | created admitted | entered admitted => cases unread.symm.trans admitted
  | created admitted leaf =>
    cases move' with
    | refusedCall refused => cases admitted.symm.trans refused
    | unreadCall unread => cases admitted.symm.trans unread
    | created admitted' =>
      cases admitted.symm.trans admitted'
      rfl
    | entered admitted' branch =>
      cases admitted.symm.trans admitted'
      cases leaf.symm.trans branch
  | entered admitted branch =>
    cases move' with
    | refusedCall refused => cases admitted.symm.trans refused
    | unreadCall unread => cases admitted.symm.trans unread
    | created admitted' leaf =>
      cases admitted.symm.trans admitted'
      cases leaf.symm.trans branch
    | entered admitted' branch' =>
      cases admitted.symm.trans admitted'
      cases branch.symm.trans branch'
      rfl
  | refusedBuild refused =>
    cases move' with
    | refusedBuild refused' =>
      cases refused.symm.trans refused'
      rfl
    | unreadBuild unread => cases refused.symm.trans unread
    | began admitted => cases refused.symm.trans admitted
  | unreadBuild unread =>
    cases move' with
    | refusedBuild refused => cases unread.symm.trans refused
    | unreadBuild => rfl
    | began admitted => cases unread.symm.trans admitted
  | began admitted =>
    cases move' with
    | refusedBuild refused => cases admitted.symm.trans refused
    | unreadBuild unread => cases admitted.symm.trans unread
    | began admitted' =>
      cases admitted.symm.trans admitted'
      rfl

/-- All that follows a machine with a step to make follows the next machine. -/
theorem Machine.Steps.of_step {code : Code} {m n m' : Machine} (h : Machine.Steps code m m')
    (hs : Machine.Step code m n) : m' = m ∨ Machine.Steps code n m' := by
  rcases h.cases_head with rfl | ⟨n', hn, rest⟩
  · exact .inl rfl
  · rw [hs.unique hn] at rest
    exact .inr rest

theorem Machine.Steps.of_over {code : Code} {m m' : Machine} (h : Machine.Steps code m m')
    (ended : m.Over) : m' = m := by
  rcases h.cases_head with rfl | ⟨n, hn, -⟩
  · rfl
  · exact absurd ended hn.going

/-- A program's run leads from its beginning to its ending on the machine, step by step. -/
def Runs (code : Code) (p : Program Value) (s : State) (x : Outcome Value) (s' : State) :
    Prop :=
  ∀ stack h, ∃ events, Machine.Steps code ⟨s, stack, p, h⟩ ⟨s', stack, .done x, h ++ events⟩

def Adequate (code : Code) (caller : Caller) : Prop :=
  ∀ c args named s x s', caller c args named s = (x, s') → x ≠ .exhausted →
    Runs code (code c args named) s x s'

section Runs

variable {code : Code} {caller : Caller} {p q : Program Value} {s s' s'' : State}
  {x : Outcome Value}

theorem Runs.done (s : State) (x : Outcome Value) : Runs code (.done x) s x s :=
  fun _ h => ⟨[], by rw [List.append_nil]⟩

theorem Runs.move (hr : Runs code q s' x s'')
    (hm : ∀ stack h, ∃ events,
      Machine.Steps code ⟨s, stack, p, h⟩ ⟨s', stack, q, h ++ events⟩) :
    Runs code p s x s'' := by
  intro stack h
  obtain ⟨first, hfirst⟩ := hm stack h
  obtain ⟨more, hmore⟩ := hr stack (h ++ first)
  refine ⟨first ++ more, hfirst.trans ?_⟩
  rw [← List.append_assoc]
  exact hmore

theorem observe_run {α β : Type} {d : Proc State β} {next : Except Fault β → Program α}
    {x : Outcome α}
    (h : (Proc.observe d >>= fun r => (next r).run caller) s = (x, s')) (hx : x ≠ .exhausted) :
    ∃ y t, d s = (y, t) ∧ y ≠ .exhausted ∧ (Program.resume next y).run caller t = (x, s') := by
  rw [Proc.bind_apply] at h
  unfold Proc.observe at h
  rcases hd : d s with ⟨y, t⟩
  rw [hd] at h
  cases y with
  | value a => exact ⟨_, t, rfl, by simp, h⟩
  | fault f => exact ⟨_, t, rfl, by simp, h⟩
  | exhausted =>
    simp only [Prod.mk.injEq] at h
    exact absurd h.1.symm hx

theorem runs_nested (hc : Adequate code caller) {b : BuilderRef} {e : ElementRef}
    {block : Callable Value} (next : Except Fault ElementRef → Program Value)
    {y : Outcome ElementRef} {t : State} (hrun : runNested caller b e block s = (y, t))
    (hy : y ≠ .exhausted) (stack : List Frame) (h : List Event) :
    ∃ events, Machine.Steps code
      ⟨enterBlock b s, .block b e (s.world.logLength b) next :: stack,
        code block [handleFor b (enterBlock b s)] [], h⟩
      ⟨t, stack, .resume next y, h ++ events⟩ := by
  unfold runNested at hrun
  simp only at hrun
  rcases hcall : caller block [.handle ((enterBlock b s).world.handle b)] [] (enterBlock b s)
    with ⟨ending, after⟩
  rw [hcall] at hrun
  have hending : ending ≠ .exhausted := by
    rintro rfl
    exact hy (congrArg Prod.fst hrun).symm
  obtain ⟨events, hm⟩ := hc _ _ _ _ _ _ hcall hending
    (.block b e (s.world.logLength b) next :: stack) h
  have hleft : Move code
      ⟨after, .block b e (s.world.logLength b) next :: stack, .done ending, h ++ events⟩ _ :=
    .left
  rw [hrun] at hleft
  refine ⟨events ++ [.left b e ending], (hm.tail (.of_ending hleft)).trans ?_⟩
  rw [List.append_assoc]

theorem runs_resume {β : Type} {next : Except Fault β → Program Value} {y : Outcome β}
    (hy : y ≠ .exhausted)
    (h : ∀ r, (next r).run caller s = (x, s') → Runs code (next r) s x s')
    (hrest : (Program.resume next y).run caller s = (x, s')) :
    Runs code (.resume next y) s x s' := by
  cases y with
  | value a => exact h (.ok a) hrest
  | fault f => exact h (.error f) hrest
  | exhausted => exact absurd rfl hy

theorem runs_tag (hc : Adequate code caller) {b : BuilderRef} {name : Value}
    {args : List Value} {named : List (String × Value)}
    {next : Except Fault ElementRef → Program Value} {y : Outcome ElementRef} {t : State}
    (hcall : tagCall caller b name args named s = (y, t)) (hy : y ≠ .exhausted)
    (stack : List Frame) (h : List Event) :
    ∃ events, Machine.Steps code ⟨s, stack, .tag b name args named next, h⟩
      ⟨t, stack, .resume next y, h ++ events⟩ := by
  unfold tagCall at hcall
  cases hadmission : s.world.admitCall b name args named with
  | fault f =>
    simp only [hadmission, Prod.mk.injEq] at hcall
    obtain ⟨rfl, rfl⟩ := hcall
    exact ⟨[], by rw [List.append_nil]; exact .single (.of_deed (.refusedCall hadmission) rfl rfl)⟩
  | exhausted =>
    simp only [hadmission, Prod.mk.injEq] at hcall
    exact absurd hcall.1.symm hy
  | value c =>
    simp only [hadmission] at hcall
    cases hblock : c.block with
    | none =>
      simp only [hblock, Prod.mk.injEq] at hcall
      obtain ⟨rfl, rfl⟩ := hcall
      exact ⟨_, .single (.of_deed (.created hadmission hblock) rfl rfl)⟩
    | some block =>
      simp only [hblock] at hcall
      obtain ⟨events, hm⟩ := runs_nested hc next hcall hy stack
        (h ++ [.created b (s.world.create b c).1 (running b stack)])
      refine ⟨.created b (s.world.create b c).1 (running b stack) :: events, ?_⟩
      rw [← List.append_cons] at hm
      exact .head (.of_deed (.entered hadmission hblock) rfl rfl) hm

theorem runs_build (hc : Adequate code caller) {b : BuilderRef} {block : Value}
    {next : Except Fault ElementRef → Program Value} {y : Outcome ElementRef} {t : State}
    (hcall : build caller b block s = (y, t)) (hy : y ≠ .exhausted)
    (stack : List Frame) (h : List Event) :
    ∃ events, Machine.Steps code ⟨s, stack, .build b block next, h⟩
      ⟨t, stack, .resume next y, h ++ events⟩ := by
  unfold build at hcall
  cases hadmission : s.world.admitBuild b block with
  | fault f =>
    simp only [hadmission, Prod.mk.injEq] at hcall
    obtain ⟨rfl, rfl⟩ := hcall
    exact ⟨[], by rw [List.append_nil]; exact .single (.of_deed (.refusedBuild hadmission) rfl rfl)⟩
  | exhausted =>
    simp only [hadmission, Prod.mk.injEq] at hcall
    exact absurd hcall.1.symm hy
  | value c =>
    simp only [hadmission] at hcall
    rcases hrun : caller c [handleFor b (s.onWorld (·.startBuild b))] []
      (s.onWorld (·.startBuild b)) with ⟨ending, after⟩
    have hend : endBuild b ending after = (y, t) := by
      rw [← hcall]
      exact congrArg (fun r => endBuild b r.1 r.2) hrun.symm
    have hending : ending ≠ .exhausted := by
      rintro rfl
      exact hy (congrArg Prod.fst hend).symm
    obtain ⟨events, hm⟩ := hc _ _ _ _ _ _ hrun hending (.build b next :: stack) (h ++ [.began b])
    have hended : Move code ⟨after, .build b next :: stack, .done ending,
        h ++ [.began b] ++ events⟩ _ := .ended
    rw [hend] at hended
    refine ⟨[.began b] ++ events ++ [.ended b y], ?_⟩
    rw [← List.append_assoc, ← List.append_assoc]
    exact .head (.of_deed (.began hadmission) rfl rfl) (hm.tail (.of_ending hended))

theorem runs_of_adequate (hc : Adequate code caller) (steady : p.Steady)
    (hrun : p.run caller s = (x, s')) (hx : x ≠ .exhausted) : Runs code p s x s' := by
  induction p generalizing s with
  | done y =>
    simp only [Program.run, Proc.ofOutcome_apply, Prod.mk.injEq] at hrun
    obtain ⟨rfl, rfl⟩ := hrun
    exact .done s y
  | act d next ih =>
    obtain ⟨kept, steady⟩ := steady
    obtain ⟨y, t, hd, hy, hrest⟩ := observe_run hrun hx
    refine (runs_resume hy (fun r => ih r (steady r)) hrest).move ?_
    intro stack h
    have hstep : Machine.Step code ⟨s, stack, .act d next, h⟩ _ := .acted (kept s)
    rw [hd] at hstep
    exact ⟨[], by rw [List.append_nil]; exact .single hstep⟩
  | attach e change next ih =>
    obtain ⟨y, t, hd, hy, hrest⟩ := observe_run hrun hx
    refine (runs_resume hy (fun r => ih r (steady r)) hrest).move ?_
    intro stack h
    have hmove : Move code ⟨s, stack, .attach e change next, h⟩ _ := .attached
    rw [hd] at hmove
    exact ⟨_, .single (.of_deed hmove rfl rfl)⟩
  | tag b name args named next ih =>
    obtain ⟨y, t, hd, hy, hrest⟩ := observe_run hrun hx
    exact (runs_resume hy (fun r => ih r (steady r)) hrest).move (runs_tag hc hd hy)
  | build b block next ih =>
    obtain ⟨y, t, hd, hy, hrest⟩ := observe_run hrun hx
    exact (runs_resume hy (fun r => ih r (steady r)) hrest).move (runs_build hc hd hy)
  | apply c args named next ih =>
    obtain ⟨y, t, hd, hy, hrest⟩ := observe_run hrun hx
    refine (runs_resume hy (fun r => ih r (steady r)) hrest).move ?_
    intro stack h
    obtain ⟨events, hm⟩ := hc _ _ _ _ _ _ hd hy (.plain next :: stack) h
    exact ⟨events, .head (.of_deed .applied rfl rfl) (hm.tail (.of_ending .returned))⟩

theorem adequate_callWithin (steady : code.Steady) (n : Nat) :
    Adequate code (callWithin code n) := by
  induction n with
  | zero =>
    intro c args named s x s' hcall hx
    simp only [callWithin, Prod.mk.injEq] at hcall
    exact absurd hcall.1.symm hx
  | succ n ih =>
    intro c args named s x s' hcall hx
    exact runs_of_adequate ih (steady c args named) hcall hx

end Runs

end TagTree
