import Mathlib.Data.List.Chain
import TagTree.Proofs.Calls
import TagTree.Proofs.Scripts

/-!
# Calls in the log

Calls leave brackets in the log of a session: each its own element at the depth of the call, and
below that all that was created in its block, every entry at most one deeper than the entry before
it. However a call ends, the session is back at its depth, and nothing that was logged is lost.
-/

namespace TagTree

/-! ### The entries of calls -/

/-- Entries that follow an element logged at a depth: all are deeper, and none by more than one
than the entry before it. -/
structure Beneath (depth : Nat) (e : ElementRef) (entries : List (Nat × ElementRef)) : Prop where
  deeper : ∀ x ∈ entries, depth + 1 ≤ x.1
  stepwise : ((depth, e) :: entries).IsChain fun x y => y.1 ≤ x.1 + 1

namespace Calls

/-- The entries that calls made one after another at a depth leave in a log. -/
def logged (depth : Nat) (c : Calls) : List (Nat × ElementRef) := c.document (fun _ => true) depth

variable {depth : Nat} {e : ElementRef} {x : Nat × ElementRef}

@[simp] theorem logged_nil (depth : Nat) : nil.logged depth = [] := rfl

@[simp] theorem logged_call (depth : Nat) (e : ElementRef) (inner rest : Calls) :
    (call e inner rest).logged depth =
      (depth, e) :: (inner.logged (depth + 1) ++ rest.logged depth) := rfl

theorem logged_bracket (depth : Nat) (e : ElementRef) (inner : Calls) :
    (call e inner nil).logged depth = (depth, e) :: inner.logged (depth + 1) := by
  rw [logged_call, logged_nil, List.append_nil]

@[simp] theorem logged_append (depth : Nat) (c d : Calls) :
    (c.append d).logged depth = c.logged depth ++ d.logged depth := by
  induction c with
  | nil => rfl
  | call e inner rest _ ih => simp [append, ih]

theorem le_of_mem_logged {c : Calls} (hx : x ∈ c.logged depth) : depth ≤ x.1 := by
  induction c generalizing depth with
  | nil => cases hx
  | call e inner rest ihi ihr =>
    simp only [logged_call, List.mem_cons, List.mem_append] at hx
    rcases hx with rfl | hx | hx
    · exact Nat.le_refl depth
    · exact Nat.le_of_succ_le (ihi hx)
    · exact ihr hx

theorem head_logged {c : Calls} (hx : x ∈ (c.logged depth).head?) : x.1 = depth := by
  cases c with
  | nil => cases hx
  | call e inner rest =>
    cases hx
    rfl

theorem stepwise_logged (c : Calls) (depth : Nat) :
    (c.logged depth).IsChain fun x y => y.1 ≤ x.1 + 1 := by
  induction c generalizing depth with
  | nil => exact .nil
  | call e inner rest ihi ihr =>
    rw [logged_call, List.isChain_cons, List.isChain_append]
    refine ⟨?_, ihi (depth + 1), ihr depth, ?_⟩
    · intro y hy
      rw [List.head?_append, Option.mem_def, Option.or_eq_some_iff] at hy
      rcases hy with hy | ⟨-, hy⟩
      · exact Nat.le_of_eq (head_logged hy)
      · exact Nat.le_succ_of_le (Nat.le_of_eq (head_logged hy))
    · -- what follows a block is not deeper than what is in it
      intro y hy z hz
      have hin : depth + 1 ≤ y.1 := le_of_mem_logged (List.mem_of_getLast? hy)
      have hout : z.1 = depth := head_logged hz
      omega

theorem beneath_logged (c : Calls) (depth : Nat) (e : ElementRef) :
    Beneath depth e (c.logged (depth + 1)) where
  deeper _ hx := le_of_mem_logged hx
  stepwise := by
    rw [List.isChain_cons]
    exact ⟨fun y hy => Nat.le_of_eq (head_logged hy), stepwise_logged c (depth + 1)⟩

end Calls

/-! ### Sessions and calls -/

/-- The session after calls made one after another at its depth. -/
structure Session.Logs (s : Session) (c : Calls) (t : Session) : Prop where
  depth : t.depth = s.depth
  log : t.log = s.log ++ c.logged s.depth

namespace Session.Logs

variable {s t u : Session} {c d : Calls}

theorem refl (s : Session) : s.Logs .nil s := ⟨rfl, (List.append_nil s.log).symm⟩

theorem trans (h : s.Logs c t) (h' : t.Logs d u) : s.Logs (c.append d) u where
  depth := h'.depth.trans h.depth
  log := by rw [h'.log, h.log, h.depth, Calls.logged_append, List.append_assoc]

end Session.Logs

/-- A builder is in the session that it was in. -/
def SameSession (b : BuilderRef) (s t : State) : Prop :=
  t.world.session? b = s.world.session? b

/-- A builder that builds still does so, in a session with calls logged. -/
def Bracketed (b : BuilderRef) (s t : State) : Prop :=
  ∀ session, s.world.session? b = some session →
    ∃ calls after, t.world.session? b = some after ∧ session.Logs calls after

namespace Bracketed

variable {b : BuilderRef} {s t u : State}

theorem of_same (h : SameSession b s t) : Bracketed b s t := by
  intro session hs
  exact ⟨.nil, session, h.trans hs, .refl session⟩

theorem refl (b : BuilderRef) (s : State) : Bracketed b s s := of_same rfl

theorem trans (h : Bracketed b s t) (h' : Bracketed b t u) : Bracketed b s u := by
  intro session hs
  obtain ⟨calls, middle, ht, logs⟩ := h session hs
  obtain ⟨more, after, hu, logs'⟩ := h' middle ht
  exact ⟨_, after, hu, logs.trans logs'⟩

instance : IsPreorder State (Bracketed b) where
  refl := refl b
  trans _ _ _ := trans

end Bracketed

section SameSession

variable {b d : BuilderRef} {s t : State}

theorem sameSession_of_alters {f : Builder → Builder} (hd : d ≠ b)
    (h : s.world.Alters d f t.world) : SameSession b s t := h.session_other hd

theorem sameSession_attachContent (b : BuilderRef) (e : ElementRef)
    (change : Element → Except Fault Element) (s : State) :
    SameSession b s (Program.attachContent e change s).2 := by
  simp only [SameSession, World.session?, World.builder?, attachContent_builders]

theorem sameSession_endBlock (hd : d ≠ b) (e : ElementRef) (start : Nat) (x : Outcome Value)
    (s : State) : SameSession b s (endBlock d e start x s).2 := by
  obtain ⟨rs, n, alters⟩ := endBlock_alters d e start x s
  exact sameSession_of_alters hd alters

theorem sameSession_endBuild (hd : d ≠ b) (x : Outcome Value) (s : State) :
    SameSession b s (endBuild d x s).2 := by
  cases x with
  | value v =>
    cases hs : s.world.session? d with
    | none => simp only [SameSession, endBuild, World.concludeBuild, hs]
    | some session =>
      obtain ⟨rs, alters⟩ := endBuild_alters hs (.value v)
      exact sameSession_of_alters hd alters
  | fault f => exact sameSession_of_alters hd (World.failBuild_alters s.world d f)
  | exhausted => exact sameSession_of_alters hd (.updateBuilder s.world d _)

theorem bracketed_around (hd : d ≠ b) : d.Respects (Bracketed b) where
  created c s := .of_same (sameSession_of_alters hd (World.create_alters s.world d c))
  entered s := .of_same (sameSession_of_alters hd (.updateBuilder s.world d _))
  left e start x s := .of_same (sameSession_endBlock hd e start x s)
  began s := .of_same (sameSession_of_alters hd (World.startBuild_alters s.world d))
  ended x s := .of_same (sameSession_endBuild hd x s)

/-- Steady code by itself leaves every builder in its session. -/
theorem sameSession_of_steady {code : Code} (steady : code.Steady) (b : BuilderRef) :
    code.DeedsRespect (SameSession b) :=
  steady.deeds.mono fun _ _ leaves => leaves.keeps.session b

end SameSession

/-! ### Calls and builds -/

section Operations

variable {b d : BuilderRef} {s : State} {caller : Caller} {session : Session} {name : Value}
  {args : List Value} {named : List (String × Value)} {c : TagCall}

/-- A block leaves the session at the depth at which it was entered, whatever it does there. -/
theorem runNested_logs (called : caller.Respects (Bracketed b)) (e : ElementRef)
    (block : Callable Value) (hs : s.world.session? b = some session) :
    ∃ inner after, (runNested caller b e block s).2.world.session? b = some after ∧
      after.depth = session.depth ∧
      after.log = session.log ++ Calls.logged (session.depth + 1) inner := by
  have entered := (enterBlock_stands (b := b) (s := s) ⟨hs, rfl, rfl⟩).session
  obtain ⟨inner, ran, hran, logs⟩ :=
    called block [handleFor b (enterBlock b s)] [] (enterBlock b s) _ entered
  refine ⟨inner, _, (endBlock_stands e _ _ ⟨hran, rfl, rfl⟩).session, ?_, logs.log⟩
  show ran.depth - 1 = session.depth
  rw [logs.depth]
  exact Nat.add_sub_cancel session.depth 1

/-- An admitted call leaves one bracket, whose element is its own. -/
theorem tagCall_logs (called : caller.Respects (Bracketed b))
    (hs : s.world.session? b = some session)
    (admitted : s.world.admitCall b name args named = .value c) :
    ∃ inner after, (tagCall caller b name args named s).2.world.session? b = some after ∧
      session.Logs (.call (s.world.create b c).1 inner .nil) after := by
  have created := (World.create_stands (b := b) c ⟨hs, rfl, rfl⟩).session
  simp only [tagCall, admitted]
  cases c.block with
  | none => exact ⟨.nil, _, created, rfl, rfl⟩
  | some block =>
    obtain ⟨inner, after, hafter, depth, log⟩ :=
      runNested_logs (s := createElement b c s) called (s.world.create b c).1 block created
    refine ⟨inner, after, hafter, depth, ?_⟩
    rw [log, List.append_assoc, Calls.logged_bracket, List.singleton_append]

theorem tagCall_refused (caller : Caller)
    (refused : ∀ c, s.world.admitCall b name args named ≠ .value c) :
    (tagCall caller b name args named s).2 = s ∧
      ∀ e, (tagCall caller b name args named s).1 ≠ .value e := by
  unfold tagCall
  cases hadmission : s.world.admitCall b name args named with
  | value c => exact absurd hadmission (refused c)
  | fault f => exact ⟨rfl, nofun⟩
  | exhausted => exact ⟨rfl, nofun⟩

theorem build_of_session (caller : Caller) (block : Value)
    (hs : s.world.session? b = some session) : (build caller b block s).2 = s := by
  unfold build
  cases hadmission : s.world.admitBuild b block with
  | value c =>
    -- a builder that builds is admitted to no other build
    rw [(idle_of_admitBuild hadmission).2] at hs
    cases hs
  | fault f => rfl
  | exhausted => rfl

theorem eq_of_endBlock {e e' : ElementRef} {start : Nat} {x : Outcome Value}
    (h : (endBlock b e start x s).1 = .value e') : e' = e := by
  cases x with
  | value v =>
    simp only [endBlock] at h
    cases hsettled : (s.world.settle b e start v).1 with
    | value u =>
      rw [hsettled] at h
      exact (Outcome.value.inj h).symm
    | fault f =>
      rw [hsettled] at h
      cases h
    | exhausted =>
      rw [hsettled] at h
      cases h
  | fault f => cases h
  | exhausted => cases h

theorem eq_of_tagCall {e : ElementRef}
    (admitted : s.world.admitCall b name args named = .value c)
    (h : (tagCall caller b name args named s).1 = .value e) : e = (s.world.create b c).1 := by
  simp only [tagCall, admitted] at h
  cases hblock : c.block with
  | none =>
    rw [hblock] at h
    exact (Outcome.value.inj h).symm
  | some block =>
    rw [hblock] at h
    exact eq_of_endBlock h

theorem bracketed_tagCall (called : caller.Respects (Bracketed b)) (d : BuilderRef) (name : Value)
    (args : List Value) (named : List (String × Value)) :
    (tagCall caller d name args named).Respects (Bracketed b) := by
  by_cases hd : d = b
  · subst hd
    intro s session hs
    by_cases hadmission : ∃ c, s.world.admitCall d name args named = .value c
    · obtain ⟨c, admitted⟩ := hadmission
      obtain ⟨inner, after, hafter, logs⟩ := tagCall_logs called hs admitted
      exact ⟨_, after, hafter, logs⟩
    · rw [(tagCall_refused caller (not_exists.mp hadmission)).1]
      exact Bracketed.refl d s session hs
  · exact respects_tagCall (bracketed_around hd) called name args named

theorem bracketed_build (called : caller.Respects (Bracketed b)) (d : BuilderRef)
    (block : Value) : (build caller d block).Respects (Bracketed b) := by
  by_cases hd : d = b
  · subst hd
    intro s session hs
    rw [build_of_session caller block hs]
    exact Bracketed.refl d s session hs
  · exact respects_build (bracketed_around hd) called block

theorem bracketed_upheld (b : BuilderRef) : Upheld (Bracketed b) where
  attach e change s := .of_same (sameSession_attachContent b e change s)
  tag := bracketed_tagCall
  build := bracketed_build

/-- What callables do in a session is to leave calls in its log, one after another. -/
theorem bracketed_callWithin {code : Code} (own : code.DeedsRespect (SameSession b)) (n : Nat) :
    (callWithin code n).Respects (Bracketed b) :=
  respects_callWithin (bracketed_upheld b) (own.mono fun _ _ => .of_same) n

end Operations

/-! ### The discipline of calls -/

/-- A tag call in a session leaves the session at its depth, whatever its block does and however
the call ends, and loses nothing that was logged. Only a call that is refused logs nothing, and it
changes nothing at all. Any other logs its own element at the depth of the session, and beneath
that what was created while its block ran. Code by itself leaves the session as it is; tag calls,
builds and other callables may be nested and swallowed in the block in any way. -/
theorem call_leaves_bracket {code : Code} {b : BuilderRef} {s s' : State} {session : Session}
    {name : Value} {args : List Value} {named : List (String × Value)} {x : Outcome ElementRef}
    {n : Nat} (own : code.DeedsRespect (SameSession b))
    (hs : s.world.session? b = some session)
    (hcall : tagCall (callWithin code n) b name args named s = (x, s')) :
    ∃ session' added, s'.world.session? b = some session' ∧
      session'.depth = session.depth ∧ session'.log = session.log ++ added ∧
      ((added = [] ∧ (∀ c, s.world.admitCall b name args named ≠ .value c) ∧ s' = s ∧
          ∀ e, x ≠ .value e) ∨
        ∃ c e rest, s.world.admitCall b name args named = .value c ∧
          e = (s.world.create b c).1 ∧ added = (session.depth, e) :: rest ∧
          Beneath session.depth e rest ∧ ∀ e', x = .value e' → e' = e) := by
  have called := bracketed_callWithin own n
  by_cases hadmission : ∃ c, s.world.admitCall b name args named = .value c
  · obtain ⟨c, admitted⟩ := hadmission
    obtain ⟨inner, session', hs', depth, log⟩ := tagCall_logs called hs admitted
    rw [hcall] at hs'
    rw [Calls.logged_bracket] at log
    refine ⟨session', _, hs', depth, log, .inr ⟨c, _, _, admitted, rfl, rfl,
      Calls.beneath_logged inner session.depth _, ?_⟩⟩
    rintro e' rfl
    exact eq_of_tagCall admitted (congrArg Prod.fst hcall)
  · rw [not_exists] at hadmission
    obtain ⟨same, failed⟩ := tagCall_refused (callWithin code n) hadmission
    rw [hcall] at same failed
    subst same
    exact ⟨session, [], hs, rfl, (List.append_nil _).symm, .inl ⟨rfl, hadmission, rfl, failed⟩⟩

def Outcome.faultKind? {α : Type} : Outcome α → Option FaultKind
  | fault f => some f.kind
  | _ => none

/-- A block that swallows the interruption of a block inside of it, and is then interrupted. -/
def interruptedBlock : Callable Value :=
  .block 0
    [.attempt
      [.run (.call none "b"
        [.block [.run (.call none "c" [] []) none, .act (.raise .interrupt "") none]
          (.atom .none)] []) none]
      [.interrupt] none,
      .run (.call none "d" [] []) none,
      .act (.raise .interrupt "") none]
    (.atom .none)

/-- A state in the midst of a build, inside of a block. -/
def nestedState : State :=
  enterBlock ⟨0⟩ (createElement ⟨0⟩ ⟨"r", none, .none, some smallBlock⟩
    (smallState.onWorld (·.startBuild ⟨0⟩)))

def interruptedCall : Outcome ElementRef × State :=
  tagCall (callWithin Script.code 4) ⟨0⟩ (.text "a") [.callable interruptedBlock] [] nestedState

theorem interruptedCall_leaves_bracket :
    nestedState.world.session? ⟨0⟩ = some ⟨some ⟨0⟩, [(0, ⟨0⟩)], 1⟩ ∧
    interruptedCall.1.faultKind? = some .interrupt ∧
    ∃ session', interruptedCall.2.world.session? ⟨0⟩ = some session' ∧ session'.depth = 1 ∧
      session'.log = [(0, ⟨0⟩), (1, ⟨1⟩), (2, ⟨2⟩), (3, ⟨3⟩), (2, ⟨4⟩)] ∧
      Beneath 1 ⟨1⟩ [(2, ⟨2⟩), (3, ⟨3⟩), (2, ⟨4⟩)] := by
  have inside : nestedState.world.session? ⟨0⟩ = some ⟨some ⟨0⟩, [(0, ⟨0⟩)], 1⟩ := rfl
  have logged : (interruptedCall.2.world.session? ⟨0⟩).map Session.log =
      some [(0, ⟨0⟩), (1, ⟨1⟩), (2, ⟨2⟩), (3, ⟨3⟩), (2, ⟨4⟩)] := by decide +kernel
  obtain ⟨session', added, hs', depth, log, ends⟩ :=
    call_leaves_bracket (sameSession_of_steady Script.steady_code ⟨0⟩) inside
      (Prod.eta interruptedCall).symm
  rw [hs', Option.map_some, Option.some.injEq] at logged
  have hadded : added = [(1, ⟨1⟩), (2, ⟨2⟩), (3, ⟨3⟩), (2, ⟨4⟩)] :=
    List.append_cancel_left (log.symm.trans logged)
  refine ⟨inside, by decide +kernel, session', hs', depth, logged, ?_⟩
  rcases ends with ⟨rfl, -⟩ | ⟨c, e, rest, -, -, rfl, beneath, -⟩
  · cases hadded
  · cases hadded
    exact beneath

end TagTree
