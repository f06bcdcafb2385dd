import Mathlib.Logic.Relation
import TagTree.Script.Exec
import TagTree.Proofs.Effects

/-!
# Programs step by step

A program runs on a machine that keeps open callables, blocks and builds on a stack, the
innermost first, and the history of what happened. Its states are all the states in which
code can find the builders.
-/

namespace TagTree

/-! ### The machine -/

/-- What is open below a program, and the program that goes on with its ending. -/
inductive Frame : Type 1 where
  | plain (next : Except Fault Value → Program Value)
  | block (b : BuilderRef) (e : ElementRef) (start : Nat)
      (next : Except Fault ElementRef → Program Value)
  | build (b : BuilderRef) (next : Except Fault ElementRef → Program Value)

/-- What happened: a build began, a tag call created an element inside of the blocks around
it, a block was left, a build ended, or content was attached by hand. -/
inductive Event where
  | began (b : BuilderRef)
  | created (b : BuilderRef) (e : ElementRef) (around : List ElementRef)
  | left (b : BuilderRef) (e : ElementRef) (ending : Outcome Value)
  | ended (b : BuilderRef) (ending : Outcome ElementRef)
  | attached (e : ElementRef)

/-- A program on the way, with all that is open and all that happened. -/
structure Machine : Type 1 where
  state : State
  stack : List Frame
  program : Program Value
  history : List Event

/-- A running block: its builder, the element that it fills, and the length of the log when it
began. -/
structure OpenBlock where
  builder : BuilderRef
  element : ElementRef
  start : Nat

def openBlocks : List Frame → List OpenBlock
  | [] => []
  | .block b e start _ :: rest => ⟨b, e, start⟩ :: openBlocks rest
  | .build .. :: rest | .plain _ :: rest => openBlocks rest

def elementsOf (b : BuilderRef) (blocks : List OpenBlock) : List ElementRef :=
  (blocks.filter fun x => x.builder = b).map OpenBlock.element

def running (b : BuilderRef) (stack : List Frame) : List ElementRef :=
  elementsOf b (openBlocks stack)

/-- The number of builds of a builder that are open. -/
def openBuilds (b : BuilderRef) : List Frame → Nat
  | [] => 0
  | .build c _ :: rest => if c = b then openBuilds b rest + 1 else openBuilds b rest
  | .block .. :: rest | .plain _ :: rest => openBuilds b rest

/-- What code may do by itself: builders stay on their course, and elements that exist stay
as they are. -/
structure World.Keeps (w w' : World) : Prop where
  session : ∀ b, w'.session? b = w.session? b
  root : ∀ b, w'.root? b = w.root? b
  count : ∀ b, w'.elementCount b = w.elementCount b
  element : ∀ e : ElementRef, e.index < w.store.elements.size →
    w'.store.element? e = w.store.element? e
  size : w.store.elements.size ≤ w'.store.elements.size

/-- What follows an ending; a program that ran out of fuel stays so. -/
def Program.resume {α β : Type} (next : Except Fault β → Program α) : Outcome β → Program α
  | .value a => next (.ok a)
  | .fault f => next (.error f)
  | .exhausted => .done .exhausted

def createElement (b : BuilderRef) (c : TagCall) (s : State) : State :=
  { s with world := (s.world.create b c).2 }

def handleFor (b : BuilderRef) (s : State) : Value := .handle (s.world.handle b)

/-- A move of the machine. When everything ended, any program may come next. -/
inductive Move (code : Code) : Machine → Machine → Prop
  | returned {s next stack x h} :
      Move code ⟨s, .plain next :: stack, .done x, h⟩ ⟨s, stack, .resume next x, h⟩
  | left {s b e start next stack x h} :
      Move code ⟨s, .block b e start next :: stack, .done x, h⟩
        ⟨(endBlock b e start x s).2, stack, .resume next (endBlock b e start x s).1,
          h ++ [.left b e x]⟩
  | ended {s b next stack x h} :
      Move code ⟨s, .build b next :: stack, .done x, h⟩
        ⟨(endBuild b x s).2, stack, .resume next (endBuild b x s).1,
          h ++ [.ended b (endBuild b x s).1]⟩
  | acted {s stack h} {β : Type} {p : Proc State β} {next} (kept : s.world.Keeps (p s).2.world) :
      Move code ⟨s, stack, .act p next, h⟩ ⟨(p s).2, stack, .resume next (p s).1, h⟩
  | attached {s stack e change next h} :
      Move code ⟨s, stack, .attach e change next, h⟩
        ⟨(Program.attachContent e change s).2, stack,
          .resume next (Program.attachContent e change s).1, h ++ [.attached e]⟩
  | refusedCall {s stack b name args named next h f}
      (refused : s.world.admitCall b name args named = .fault f) :
      Move code ⟨s, stack, .tag b name args named next, h⟩ ⟨s, stack, next (.error f), h⟩
  | unreadCall {s stack b name args named next h}
      (unread : s.world.admitCall b name args named = .exhausted) :
      Move code ⟨s, stack, .tag b name args named next, h⟩ ⟨s, stack, .done .exhausted, h⟩
  | created {s stack b name args named next h c}
      (admitted : s.world.admitCall b name args named = .value c) (leaf : c.block = none) :
      Move code ⟨s, stack, .tag b name args named next, h⟩
        ⟨createElement b c s, stack, next (.ok (s.world.create b c).1),
          h ++ [.created b (s.world.create b c).1 (running b stack)]⟩
  | entered {s stack b name args named next h c block}
      (admitted : s.world.admitCall b name args named = .value c)
      (branch : c.block = some block) :
      Move code ⟨s, stack, .tag b name args named next, h⟩
        ⟨enterBlock b (createElement b c s),
          .block b (s.world.create b c).1 ((createElement b c s).world.logLength b) next ::
            stack,
          code block [handleFor b (enterBlock b (createElement b c s))] [],
          h ++ [.created b (s.world.create b c).1 (running b stack)]⟩
  | refusedBuild {s stack b block next h f}
      (refused : s.world.admitBuild b block = .fault f) :
      Move code ⟨s, stack, .build b block next, h⟩ ⟨s, stack, next (.error f), h⟩
  | unreadBuild {s stack b block next h}
      (unread : s.world.admitBuild b block = .exhausted) :
      Move code ⟨s, stack, .build b block next, h⟩ ⟨s, stack, .done .exhausted, h⟩
  | began {s stack b block next h c} (admitted : s.world.admitBuild b block = .value c) :
      Move code ⟨s, stack, .build b block next, h⟩
        ⟨s.onWorld (·.startBuild b), .build b next :: stack,
          code c [handleFor b (s.onWorld (·.startBuild b))] [], h ++ [.began b]⟩
  | applied {s stack c args named next h} :
      Move code ⟨s, stack, .apply c args named next, h⟩
        ⟨s, .plain next :: stack, code c args named, h⟩
  | loaded {s x h} (p : Program Value) :
      Move code ⟨s, [], .done x, h⟩ ⟨s, [], p, h⟩

abbrev Moves (code : Code) : Machine → Machine → Prop := Relation.ReflTransGen (Move code)

/-- A state in which no builder has built. -/
def State.Fresh (s : State) : Prop :=
  ∀ b, s.world.session? b = none ∧ s.world.root? b = none

def Machine.initial (s : State) (p : Program Value) : Machine := ⟨s, [], p, []⟩

/-- What programs lead to when no builder has built before. -/
inductive Reachable (code : Code) : Machine → Prop
  | initial {s : State} (fresh : s.Fresh) (p : Program Value) :
      Reachable code (Machine.initial s p)
  | move {m m' : Machine} (reached : Reachable code m) (move : Move code m m') :
      Reachable code m'

theorem Reachable.moves {code : Code} {m m' : Machine} (hm : Reachable code m)
    (h : Moves code m m') : Reachable code m' := by
  induction h with
  | refl => exact hm
  | tail _ hs ih => exact .move ih hs

namespace World.Keeps

theorem refl (w : World) : w.Keeps w :=
  ⟨fun _ => rfl, fun _ => rfl, fun _ => rfl, fun _ _ => rfl, Nat.le_refl _⟩

theorem trans {w w' w'' : World} (h : w.Keeps w') (h' : w'.Keeps w'') : w.Keeps w'' where
  session b := (h'.session b).trans (h.session b)
  root b := (h'.root b).trans (h.root b)
  count b := (h'.count b).trans (h.count b)
  element e he := (h'.element e (Nat.lt_of_lt_of_le he h.size)).trans (h.element e he)
  size := Nat.le_trans h.size h'.size

end World.Keeps

/-! ### The stack -/

section Stack

variable {b c : BuilderRef} {e : ElementRef} {start : Nat}
  {next : Except Fault ElementRef → Program Value} {stack : List Frame}

@[simp] theorem running_plain (next : Except Fault Value → Program Value) :
    running b (.plain next :: stack) = running b stack := rfl

@[simp] theorem running_build : running b (.build c next :: stack) = running b stack := rfl

theorem elementsOf_self (blocks : List OpenBlock) :
    elementsOf b (⟨b, e, start⟩ :: blocks) = e :: elementsOf b blocks := by
  simp [elementsOf]

theorem elementsOf_other (blocks : List OpenBlock) (h : c ≠ b) :
    elementsOf b (⟨c, e, start⟩ :: blocks) = elementsOf b blocks := by
  simp [elementsOf, h]

theorem elementsOf_append (b : BuilderRef) (xs ys : List OpenBlock) :
    elementsOf b (xs ++ ys) = elementsOf b xs ++ elementsOf b ys := by
  simp [elementsOf]

theorem running_block_self :
    running b (.block b e start next :: stack) = e :: running b stack := elementsOf_self _

theorem running_block_other (h : c ≠ b) :
    running b (.block c e start next :: stack) = running b stack := elementsOf_other _ h

@[simp] theorem openBuilds_plain (next : Except Fault Value → Program Value) :
    openBuilds b (.plain next :: stack) = openBuilds b stack := rfl

@[simp] theorem openBuilds_block :
    openBuilds b (.block c e start next :: stack) = openBuilds b stack := rfl

theorem openBuilds_build_self :
    openBuilds b (.build b next :: stack) = openBuilds b stack + 1 := by
  simp [openBuilds]

theorem openBuilds_build_other (h : c ≠ b) :
    openBuilds b (.build c next :: stack) = openBuilds b stack := by
  simp [openBuilds, h]

end Stack

/-! ### A small build -/

def smallState : State :=
  ⟨⟨.empty .small, #[.idle (.settings .standard) .none 0], []⟩, [], [], []⟩

def smallBlock : Callable Value := .chain 0 "a" ["b"] (.text "x")

def ignoring (_ : Except Fault ElementRef) : Program Value := .done (.value .none)

theorem small_fresh : smallState.Fresh := by
  intro b
  obtain ⟨i⟩ := b
  cases i with
  | zero => exact ⟨rfl, rfl⟩
  | succ i => simp [smallState, World.session?, World.root?, World.builder?]

theorem small_left : ∃ s next session,
    Reachable Script.code ⟨s, [.build ⟨0⟩ next], .done (.value (.element ⟨0⟩)),
      [.began ⟨0⟩, .created ⟨0⟩ ⟨0⟩ [], .created ⟨0⟩ ⟨1⟩ [⟨0⟩],
        .left ⟨0⟩ ⟨0⟩ (.value (.element ⟨1⟩))]⟩ ∧
    s.world.session? ⟨0⟩ = some session ∧ session.root = some ⟨0⟩ ∧
    session.log = [(0, ⟨0⟩), (1, ⟨1⟩)] := by
  have h0 : Reachable Script.code _ :=
    .initial small_fresh (.build ⟨0⟩ (.callable smallBlock) ignoring)
  have h1 := h0.move (.began (c := smallBlock) rfl)
  have h2 := h1.move (.entered (b := ⟨0⟩) rfl rfl)
  have h3 := h2.move (.created rfl rfl)
  have h4 := h3.move .left
  exact ⟨_, _, _, h4, rfl, rfl, rfl⟩

end TagTree
