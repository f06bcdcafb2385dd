import TagTree.Proofs.Adequacy
import TagTree.Proofs.Blocks

/-!
# The moments of a build

A build is followed from the move that begins it on, and after its end until its builder
begins another one. What happened is read off every two moments that follow each other; what
it does to the record of the builder is said once, for all kinds of moves.
-/

namespace TagTree

/-! ### Moments -/

/-- The machines that a build of a builder leads through, the latest first. -/
inductive Moments (code : Code) (b : BuilderRef) : List Machine → Prop
  | began {m m' : Machine} (reached : Reachable code m) (advance : Advance code m m')
      (event : m'.history = m.history ++ [.began b]) : Moments code b [m']
  | later {m m' : Machine} {earlier : List Machine} (past : Moments code b (m :: earlier))
      (advance : Advance code m m') (same : m'.history ≠ m.history ++ [.began b]) :
      Moments code b (m' :: m :: earlier)

/-- What is read off every two moments that follow each other, in order of time. -/
def along {α : Type*} (f : Machine → Machine → List α) : List Machine → List α
  | m' :: m :: earlier => along f (m :: earlier) ++ f m m'
  | _ => []

/-- A block that was left: its element, its ending, and the machines around its end. -/
structure Leaving : Type 1 where
  element : ElementRef
  ending : Outcome Value
  before : Machine
  after : Machine

def leavingAt (b : BuilderRef) (m m' : Machine) : List Leaving :=
  match m.stack, m.program with
  | .block c e _ _ :: _, .done x => if c = b then [⟨e, x, m, m'⟩] else []
  | _, _ => []

/-- The blocks of a builder that were left, in order of their ends. -/
def leavings (b : BuilderRef) : List Machine → List Leaving := along (leavingAt b)

/-- The machine after the end of a builder's build whose block returned. -/
def endingAt (b : BuilderRef) (m m' : Machine) : List Machine :=
  match m.stack, m.program with
  | .build c _ :: _, .done (.value _) => if c = b then [m'] else []
  | _, _ => []

def endings (b : BuilderRef) : List Machine → List Machine := along (endingAt b)

def enteringAt (b : BuilderRef) (m m' : Machine) : List Machine :=
  if (running b m'.stack).length = (running b m.stack).length + 1 then [m'] else []

/-- The machines at which a block of a builder had just begun. -/
def enterings (b : BuilderRef) : List Machine → List Machine := along (enteringAt b)

/-- The largest number of blocks of a builder that ran at one of the moments. -/
def deepest (b : BuilderRef) : List Machine → Nat
  | [] => 0
  | m :: earlier => max (deepest b earlier) (running b m.stack).length

section Moments

variable {code : Code} {b : BuilderRef} {m m' : Machine} {path earlier : List Machine}

theorem leavings_cons : leavings b (m' :: m :: earlier) =
    leavings b (m :: earlier) ++ leavingAt b m m' := rfl

theorem endings_cons : endings b (m' :: m :: earlier) =
    endings b (m :: earlier) ++ endingAt b m m' := rfl

theorem enterings_cons : enterings b (m' :: m :: earlier) =
    enterings b (m :: earlier) ++ enteringAt b m m' := rfl

theorem Advance.reachable (hm : Reachable code m) (ha : Advance code m m') :
    Reachable code m' := hm.move ha.move

theorem Moments.reachable (h : Moments code b (m :: earlier)) : Reachable code m := by
  generalize hp : m :: earlier = path at h
  induction h generalizing m earlier with
  | began reached advance =>
    cases hp
    exact advance.reachable reached
  | later past advance same ih =>
    cases hp
    exact advance.reachable (ih rfl)

theorem leavingAt_of_deed (deed : m.program.isDone = false) : leavingAt b m m' = [] := by
  unfold leavingAt
  split
  · rename_i hp
    rw [hp] at deed
    cases deed
  · rfl

theorem endingAt_of_deed (deed : m.program.isDone = false) : endingAt b m m' = [] := by
  unfold endingAt
  split
  · rename_i hp
    rw [hp] at deed
    cases deed
  · rfl

theorem enteringAt_of_running (h : (running b m'.stack).length ≤ (running b m.stack).length) :
    enteringAt b m m' = [] := by
  rw [enteringAt, if_neg]
  omega

theorem enteringAt_of_cons {e : ElementRef}
    (h : running b m'.stack = e :: running b m.stack) : enteringAt b m m' = [m'] := by
  rw [enteringAt, if_pos (by rw [h, List.length_cons])]

end Moments

/-! ### Events -/

section Events

variable {code : Code} {b : BuilderRef} {m m' : Machine}

theorem Move.of_began (hm : Move code m m') (event : m'.history = m.history ++ [.began b]) :
    ∃ block next c x, m.program = .build b block next ∧
      m.state.world.admitBuild b block = .value c ∧ m.state.world.builder? b = some x ∧
      m' = ⟨m.state.onWorld (·.startBuild b), .build b next :: m.stack,
        code c [handleFor b (m.state.onWorld (·.startBuild b))] [], m.history ++ [.began b]⟩ := by
  cases hm with
  | began admitted =>
    simp only [List.append_cancel_left_eq, List.cons.injEq, Event.began.injEq, and_true] at event
    subst event
    obtain ⟨⟨x, hx⟩, -⟩ := idle_of_admitBuild admitted
    exact ⟨_, _, _, x, rfl, admitted, hx, rfl⟩
  | _ => simp at event

theorem Move.of_ended {y : Outcome ElementRef} (hm : Move code m m')
    (event : m'.history = m.history ++ [.ended b y]) :
    ∃ next rest x, m.stack = .build b next :: rest ∧ m.program = .done x ∧
      y = (endBuild b x m.state).1 ∧ m'.state = (endBuild b x m.state).2 := by
  cases hm with
  | ended =>
    simp only [List.append_cancel_left_eq, List.cons.injEq, Event.ended.injEq, and_true] at event
    obtain ⟨rfl, rfl⟩ := event
    exact ⟨_, _, _, rfl, rfl, rfl, rfl⟩
  | _ => simp at event

end Events

/-! ### What happens to a builder -/

/-- What an advance does to the record of a builder. -/
inductive Turn (b : BuilderRef) (m m' : Machine) (x : Builder) : Builder → Prop
  | still (around : running b m'.stack = running b m.stack)
      (made : createdBy b m'.history = createdBy b m.history)
      (course : course? b m'.history = course? b m.history)
      (leaving : leavingAt b m m' = []) (ending : endingAt b m m' = []) : Turn b m m' x x
  | created {name args named next c s} (program : m.program = .tag b name args named next)
      (admitted : m.state.world.admitCall b name args named = .value c)
      (leaf : c.block = none) (session : x.session = some s)
      (depth : s.depth = (running b m.stack).length)
      (around : running b m'.stack = running b m.stack)
      (event : m'.history =
        m.history ++ [.created b (m.state.world.create b c).1 (running b m.stack)]) :
      Turn b m m' x (x.logElement (m.state.world.create b c).1)
  | entered {name args named next c block s} (program : m.program = .tag b name args named next)
      (admitted : m.state.world.admitCall b name args named = .value c)
      (branch : c.block = some block) (session : x.session = some s)
      (depth : s.depth = (running b m.stack).length)
      (around : running b m'.stack = (m.state.world.create b c).1 :: running b m.stack)
      (event : m'.history =
        m.history ++ [.created b (m.state.world.create b c).1 (running b m.stack)]) :
      Turn b m m' x (x.logElement (m.state.world.create b c).1).enterBlock
  | left {e start next rest ending x'} (stack : m.stack = .block b e start next :: rest)
      (program : m.program = .done ending)
      (after : m' = ⟨(endBlock b e start ending m.state).2, rest,
        .resume next (endBlock b e start ending m.state).1, m.history ++ [.left b e ending]⟩)
      (record : m'.state.world.builder? b = some x') : Turn b m m' x x'
  | ended {next rest ending x'} (stack : m.stack = .build b next :: rest)
      (program : m.program = .done ending)
      (after : m' = ⟨(endBuild b ending m.state).2, rest,
        .resume next (endBuild b ending m.state).1,
        m.history ++ [.ended b (endBuild b ending m.state).1]⟩)
      (record : m'.state.world.builder? b = some x') : Turn b m m' x x'
  | began {block next} (program : m.program = .build b block next)
      (around : running b m'.stack = []) (event : m'.history = m.history ++ [.began b]) :
      Turn b m m' x x.start

section Turn

variable {code : Code} {b d : BuilderRef} {m m' : Machine} {x x' : Builder}

theorem builder_of_builders {w w' : World} (h : w'.builders = w.builders)
    (hx : w.builder? b = some x) : w'.builder? b = some x := by
  rw [World.builder?, h]
  exact hx

theorem session_of_builder {w : World} {s : Session} (hx : w.builder? b = some x)
    (hs : w.session? b = some s) : x.session = some s := by
  simpa [World.session?, hx] using hs

theorem session_none_of_builder {w : World} (hx : w.builder? b = some x)
    (hs : w.session? b = none) : x.session = none := by
  simpa [World.session?, hx] using hs

theorem builder_of_alters {w w' : World} {f : Builder → Builder} (h : w.Alters b f w')
    (hx : w.builder? b = some x) : w'.builder? b = some (f x) := by
  rw [h.self, hx]
  rfl

theorem Turn.of_deed (deed : m.program.isDone = false)
    (around : running b m'.stack = running b m.stack) (same : m'.history = m.history) :
    Turn b m m' x x :=
  .still around (by rw [same]) (by rw [same]) (leavingAt_of_deed deed) (endingAt_of_deed deed)

/-- An event of another builder does nothing to a builder. -/
theorem Turn.of_event {ev : Event} (deed : m.program.isDone = false)
    (around : running b m'.stack = running b m.stack) (event : m'.history = m.history ++ [ev])
    (made : createdBy b [ev] = []) (course : ∀ c, Course.after b c ev = c) :
    Turn b m m' x x := by
  refine .still around ?_ ?_ (leavingAt_of_deed deed) (endingAt_of_deed deed)
  · rw [event, createdBy_snoc made]
  · rw [event, course?_append, course]

theorem turn_of_advance (hm : Reachable code m) (ha : Advance code m m')
    (hx : m.state.world.builder? b = some x) :
    ∃ x', m'.state.world.builder? b = some x' ∧ Turn b m m' x x' := by
  have standing := (orderly_of_reachable hm b).2
  obtain ⟨move, leaves⟩ := ha
  cases move with
  | returned => exact ⟨x, hx, .still rfl rfl rfl rfl rfl⟩
  | @left s d e start next stack y h =>
    obtain ⟨rs, n, halters⟩ := endBlock_alters d e start y s
    by_cases hd : d = b
    · subst hd
      have hx' := builder_of_alters halters hx
      exact ⟨_, hx', .left rfl rfl rfl hx'⟩
    · refine ⟨x, (halters.other hd).trans hx, .still (running_block_other hd).symm
        (createdBy_snoc rfl) ?_ ?_ rfl⟩
      · rw [course?_append]
        rfl
      · simp [leavingAt, hd]
  | @ended s d next stack y h =>
    obtain ⟨session, created, building⟩ := (orderly_of_reachable hm d).2.building_of_build
    obtain ⟨rs, halters⟩ := endBuild_alters building.stands.session y
    by_cases hd : d = b
    · subst hd
      have hx' := builder_of_alters halters hx
      exact ⟨_, hx', .ended rfl rfl rfl hx'⟩
    · refine ⟨x, (halters.other hd).trans hx, .still rfl (createdBy_snoc rfl) ?_ rfl ?_⟩
      · rw [course?_append]
        simp [Course.after, hd]
      · cases y <;> simp [endingAt, hd]
  | acted kept =>
    exact ⟨x, (leaves _ _ rfl).builder b x hx, .of_deed rfl rfl rfl⟩
  | @attached s stack e change next h =>
    exact ⟨x, builder_of_builders (attachContent_builders e change s) hx,
      .of_event rfl rfl rfl rfl fun _ => rfl⟩
  | refusedCall => exact ⟨x, hx, .of_deed rfl rfl rfl⟩
  | unreadCall => exact ⟨x, hx, .of_deed rfl rfl rfl⟩
  | @created s stack d name args named next h c admitted leaf =>
    have halters := World.create_alters s.world d c
    by_cases hd : d = b
    · subst hd
      obtain ⟨session, hs⟩ := session_of_admitCall admitted
      obtain ⟨created, building⟩ := standing.building_of_session hs
      exact ⟨_, builder_of_alters halters hx,
        .created rfl admitted leaf (session_of_builder hx hs) building.depth rfl rfl⟩
    · exact ⟨x, (halters.other hd).trans hx, .of_event rfl rfl rfl (createdBy_other hd)
        fun c => by simp [Course.after, hd]⟩
  | @entered s stack d name args named next h c block admitted branch =>
    have halters := (World.create_alters s.world d c).trans
      (.updateBuilder (s.world.create d c).2 d Builder.enterBlock)
    by_cases hd : d = b
    · subst hd
      obtain ⟨session, hs⟩ := session_of_admitCall admitted
      obtain ⟨created, building⟩ := standing.building_of_session hs
      exact ⟨_, builder_of_alters halters hx, .entered rfl admitted branch
        (session_of_builder hx hs) building.depth running_block_self rfl⟩
    · exact ⟨x, (halters.other hd).trans hx, .of_event rfl (running_block_other hd) rfl
        (createdBy_other hd) fun c => by simp [Course.after, hd]⟩
  | refusedBuild => exact ⟨x, hx, .of_deed rfl rfl rfl⟩
  | unreadBuild => exact ⟨x, hx, .of_deed rfl rfl rfl⟩
  | @began s stack d block next h c admitted =>
    have halters := World.startBuild_alters s.world d
    by_cases hd : d = b
    · subst hd
      have hidle := standing.idle_of_none (idle_of_admitBuild admitted).2
      exact ⟨_, builder_of_alters halters hx, .began rfl hidle.outside rfl⟩
    · exact ⟨x, (halters.other hd).trans hx, .of_event rfl rfl rfl rfl
        fun c => by simp [Course.after, hd]⟩
  | applied => exact ⟨x, hx, .of_deed rfl rfl rfl⟩
  | loaded => exact ⟨x, hx, .still rfl rfl rfl rfl rfl⟩

theorem Moments.builder {earlier : List Machine} (h : Moments code b (m :: earlier)) :
    ∃ x, m.state.world.builder? b = some x := by
  generalize hp : m :: earlier = path at h
  induction h generalizing m earlier with
  | began reached advance event =>
    cases hp
    obtain ⟨block, next, c, y, -, -, hy, rfl⟩ := advance.move.of_began event
    exact ⟨_, builder_of_alters (World.startBuild_alters _ b) hy⟩
  | later past advance same ih =>
    cases hp
    obtain ⟨y, hy⟩ := ih rfl
    obtain ⟨y', hy', -⟩ := turn_of_advance past.reachable advance hy
    exact ⟨y', hy'⟩

/-- What holds of the record of a builder when its build begins, and goes on holding at every
turn, holds at every moment of the build and after it. -/
theorem Moments.of_turns {P : Builder → Machine → List Machine → Prop} {earlier : List Machine}
    (h : Moments code b (m :: earlier)) (hx : m.state.world.builder? b = some x)
    (began : ∀ {n n' y}, Reachable code n → Advance code n n' →
      n'.history = n.history ++ [.began b] → n.state.world.builder? b = some y → P y.start n' [])
    (turn : ∀ {n n' before y y'}, Moments code b (n :: before) → Advance code n n' →
      n'.history ≠ n.history ++ [.began b] → n.state.world.builder? b = some y →
      n'.state.world.builder? b = some y' → Turn b n n' y y' → P y n before →
      P y' n' (n :: before)) :
    P x m earlier := by
  generalize hp : m :: earlier = path at h
  induction h generalizing m earlier x with
  | began reached advance event =>
    cases hp
    obtain ⟨block, next, c, y, -, -, hy, hafter⟩ := advance.move.of_began event
    have hstart := builder_of_alters (World.startBuild_alters _ b) hy
    rw [hafter] at hx
    cases hx.symm.trans hstart
    exact began reached advance event hy
  | later past advance same ih =>
    cases hp
    obtain ⟨y, hy⟩ := past.builder
    obtain ⟨y', hy', t⟩ := turn_of_advance past.reachable advance hy
    cases hx.symm.trans hy'
    exact turn past advance same hy hy' t (ih hy rfl)

end Turn

/-! ### The end of a block -/

section Leave

variable {code : Code} {b : BuilderRef} {e : ElementRef} {start : Nat} {m : Machine}
  {next : Except Fault ElementRef → Program Value} {rest : List Frame}

theorem Reachable.opened (hm : Reachable code m)
    (stack : m.stack = .block b e start next :: rest) :
    ∃ s earlier prior inner, Opened m.state.world m.history [] ⟨b, e, start⟩
      (openBlocks rest) s earlier prior inner := by
  have ha := accounted_of_reachable hm
  rw [Machine.Accounted, stack] at ha
  exact ha.opened [] ⟨b, e, start⟩ (openBlocks rest) rfl

/-- The entries since a block began are those of the elements created while it ran. -/
theorem Reachable.map_loggedSince (hm : Reachable code m)
    (stack : m.stack = .block b e start next :: rest) :
    (m.state.world.loggedSince b start).map Prod.snd =
      anywhereIn e (createdBy b m.history) := by
  obtain ⟨s, earlier, prior, inner, op⟩ := hm.opened stack
  have hlogged : m.state.world.loggedSince b start = Course.log inner := op.loggedSince
  have hany : anywhereIn e (createdBy b m.history) = inner.map Prod.fst := op.anywhere
  rw [hlogged, hany, Course.log, List.map_map]
  rfl

theorem Reachable.loggedSince_eq_nil (hm : Reachable code m)
    (stack : m.stack = .block b e start next :: rest) :
    m.state.world.loggedSince b start = [] ↔ anywhereIn e (createdBy b m.history) = [] := by
  rw [← hm.map_loggedSince stack, List.map_eq_nil_iff]

/-- The element of a block that returned is filled unless it was given content by hand. -/
theorem Reachable.fill (hm : Reachable code m)
    (stack : m.stack = .block b e start next :: rest) (ha : .attached e ∉ m.history)
    (v : Value) : ∃ w, m.state.world.fill b e start v = (.value (), w) := by
  obtain ⟨s, earlier, prior, inner, op⟩ := hm.opened stack
  obtain ⟨y, hy, hs, -⟩ := op.bare ha
  exact World.fill_of_unsealed b start v hy hs

end Leave

end TagTree
