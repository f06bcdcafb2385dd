import TagTree.Proofs.Configured
import TagTree.Proofs.Parallel
import TagTree.Proofs.Remarks

/-!
# Limits on nesting

A limit on nesting refuses the tag calls with blocks that are made while as many blocks run. It
decides about nothing else: up to such a call a run is the same with the limit and without.
-/

namespace TagTree

variable {code : Code} {b : BuilderRef} {M : Int}

/-! ### Admission under a limit -/

/-- Tag calls with a block inside of as many blocks as a limit allows. -/
def Machine.Critical (b : BuilderRef) (M : Int) (m : Machine) : Prop :=
  ∃ name args named next shape, m.program = .tag b name args named next ∧
    Shape.ofArguments args = .ok shape ∧ shape.block.isSome = true ∧
    ((running b m.stack).length : Int) = M

/-- No limit, or one of a number of blocks. -/
def Lax (M : Int) (v : Value) : Prop := v = .none ∨ v = .int M

section Admission

variable {w w' : World} {name : Value} {depth : Nat} {hasBlock : Bool}

theorem limitReached_int (depth : Nat) (M : Int) :
    limitReached depth (.int M) = .ok (decide (M ≤ depth)) := rfl

theorem checkLimit_lax {v : Value} (lax : Lax M v) (below : hasBlock = true → (depth : Int) < M) :
    w.checkLimit name v depth hasBlock = .value () := by
  cases hasBlock with
  | false => rfl
  | true =>
    have hlt := below rfl
    rcases lax with rfl | rfl
    · rfl
    · have hnot : decide (M ≤ depth) = false := by simpa using hlt
      simp only [World.checkLimit, if_true, limitReached_int, hnot]

theorem checkLimit_reached (reached : M ≤ (depth : Int)) :
    w.checkLimit name (.int M) depth true =
      (do
        let text ← w.write name
        .fault (.nestingLimit name (.int M) text (toString M))) := by
  have hyes : decide (M ≤ depth) = true := by simpa using reached
  simp only [World.checkLimit, if_true, limitReached_int, hyes]
  rfl

/-- A call without a block is admitted or refused whatever the depth and the limit. -/
theorem admitInSession_leaf (c : Settings Value) (v v' : Value) (depth depth' : Nat) (name : Value)
    {args : List Value} (named : List (String × Value))
    (leaf : ∀ shape, Shape.ofArguments args = .ok shape → shape.block = none) :
    w.admitInSession (.settings { c with maxDepth := v }) depth name args named =
      w.admitInSession (.settings { c with maxDepth := v' }) depth' name args named := by
  have resolved (u : Value) : w.resolveNamed (.settings { c with maxDepth := u }) named =
      w.resolveNamed (.settings c) named := by
    simp only [World.resolveNamed, World.resolveName, World.unreserves_settings]
  unfold World.admitInSession
  rw [resolved v, resolved v']
  cases hshape : Shape.ofArguments args with
  | error p => rfl
  | ok shape => simp only [leaf shape hshape]; rfl

end Admission

/-! ### No more blocks than the limit -/

section Bound

variable {m m' : Machine} {earlier path : List Machine} {x x' : Builder} {c : Settings Value}

/-- A block begins below the limit. -/
theorem below_of_admitCall {w : World} {name : Value} {args : List Value}
    {named : List (String × Value)} {call : TagCall} {block : Callable Value} {s : Session}
    (admitted : w.admitCall b name args named = .value call) (branch : call.block = some block)
    (hx : w.builder? b = some x) (hs : x.session = some s) (hc : x.configuration = .settings c)
    (limit : c.maxDepth = .int M) : (s.depth : Int) < M := by
  obtain ⟨y, t, resolved, shape, v, tag, hy, ht, -, -, hv, check, -, rfl⟩ :=
    admitCall_eq_value admitted
  rw [hx, Option.some.injEq] at hy
  subst hy
  rw [hs, Option.some.injEq] at ht
  subst ht
  rw [hc, World.settingOf_settings, Except.ok.injEq] at hv
  subst hv
  by_contra reached
  rw [show shape.block = some block from branch, Settings.get, limit, Option.isSome_some,
    checkLimit_reached (by omega)] at check
  obtain ⟨text, -, refused⟩ := bind_eq_value check
  cases refused

theorem Turn.running_le (t : Turn b m m' x x') (hc : x.configuration = .settings c)
    (limit : c.maxDepth = .int M) (positive : 0 ≤ M) (hx : m.state.world.builder? b = some x)
    (le : ((running b m.stack).length : Int) ≤ M) : ((running b m'.stack).length : Int) ≤ M := by
  cases t with
  | still around | created _ _ _ _ _ around =>
    rw [around]
    exact le
  | entered _ admitted branch session depth around =>
    have below := below_of_admitCall admitted branch hx session hc limit
    rw [around, List.length_cons]
    omega
  | @left e start next rest ending _ stack _ after =>
    rw [stack, running_block_self, List.length_cons] at le
    rw [after]
    show ((running b rest).length : Int) ≤ M
    omega
  | @ended next rest ending _ stack _ after =>
    rw [stack, running_build] at le
    rw [after]
    exact le
  | began _ around =>
    rw [around]
    exact positive

/-- At no moment of a build more blocks run than its limit allows. -/
theorem running_le_limit (h : Moments code b (m :: earlier))
    (hx : m.state.world.builder? b = some x) (hc : x.configuration = .settings c)
    (limit : c.maxDepth = .int M) (positive : 0 ≤ M) :
    ∀ n ∈ m :: earlier, ((running b n.stack).length : Int) ≤ M := by
  revert hc
  refine h.of_turns (P := fun x m earlier => x.configuration = .settings c →
    ∀ n ∈ m :: earlier, ((running b n.stack).length : Int) ≤ M) hx ?_ ?_
  · intro n n' y reached advance event hy hc k hk
    obtain ⟨block, next, call, -, -, admitted, -, rfl⟩ := advance.move.of_began event
    have idle := (orderly_of_reachable reached b).2.idle_of_none (idle_of_admitBuild admitted).2
    rw [List.mem_singleton.mp hk, running_build, idle.outside]
    exact positive
  · intro n n' before y y' past advance same hy hy' t le hc k hk
    have configured := (t.configuration past.reachable hy).symm.trans hc
    rcases List.mem_cons.mp hk with rfl | hk
    · exact t.running_le configured limit positive hy (le configured n (List.mem_cons_self ..))
    · exact le configured k hk

theorem deepest_le {d : Int} (h : ∀ n ∈ path, ((running b n.stack).length : Int) ≤ d)
    (positive : 0 ≤ d) : (deepest b path : Int) ≤ d := by
  induction path with
  | nil => exact positive
  | cons m earlier ih =>
    have here := h m (List.mem_cons_self ..)
    have rest := ih fun n hn => h n (List.mem_cons_of_mem _ hn)
    rw [deepest]
    omega

end Bound

/-! ### Runs with a limit and without -/

/-- The limit on nesting is not seen. -/
def limitVeil (b : BuilderRef) : Veil where
  builder := b
  hidden n := n = .maxDepth
  inner _ hn := .inr (.inl hn)
  reports := True

/-- The first run has one limit, the second run another one. -/
def limitBond (b : BuilderRef) (c : Settings Value) (v v' : Value) : Bond (limitVeil b) where
  left := { c with maxDepth := v }
  right := { c with maxDepth := v' }
  keeps _ := true
  journals := True
  same n hn := by
    cases n with
    | maxDepth => exact absurd rfl hn
    | indentWidth | policy | unreserve | diagnostics | correlation => rfl
  orphans w root tags := by
    unfold Settings.due
    split <;> rfl
  reports _ := ⟨trivial, fun _ => rfl⟩

theorem limitBond_even (b : BuilderRef) (c : Settings Value) (v v' : Value) :
    (limitBond b c v v').Even where
  strict := .rfl
  discards _ _ _ := (List.filter_eq_self.mpr fun _ _ => rfl).symm
  noted _ := .rfl

/-- A machine in the course of its builders with no more blocks running than a limit allows. -/
structure Machine.Within (b : BuilderRef) (M : Int) (m : Machine) : Prop where
  orderly : m.Orderly
  running : ((running b m.stack).length : Int) ≤ M

section Runs

variable {m m' n : Machine} {c : Settings Value} {v v' : Value}

/-- More blocks run only after a tag call with a block. -/
theorem Move.running_cases (hm : Move code m m') (b : BuilderRef) :
    (running b m'.stack).length ≤ (running b m.stack).length ∨
      (running b m'.stack).length = (running b m.stack).length + 1 ∧
        ∃ name args named next call block, m.program = .tag b name args named next ∧
          m.state.world.admitCall b name args named = .value call ∧ call.block = some block := by
  cases hm with
  | @left s d e start next stack x h =>
    refine .inl ?_
    by_cases hd : d = b
    · subst hd
      rw [running_block_self]
      exact Nat.le_succ _
    · rw [running_block_other hd]
  | @entered s stack d name args named next h call block admitted branch =>
    by_cases hd : d = b
    · subst hd
      refine .inr ⟨?_, _, _, _, _, _, _, rfl, admitted, branch⟩
      rw [running_block_self]
      rfl
    · refine .inl ?_
      rw [running_block_other hd]
  | _ => exact .inl (Nat.le_refl _)

theorem Machine.Within.step (h : m.Within b M) (calm : ¬ m.Critical b M) (hm : Move code m m') :
    m'.Within b M where
  orderly := orderly_move h.orderly hm
  running := by
    have le := h.running
    rcases hm.running_cases b with hle | ⟨hone, name, args, named, next, call, block, program,
      admitted, branch⟩
    · omega
    · obtain ⟨_, _, _, shape, _, _, -, -, -, arguments, -, -, -, rfl⟩ := admitCall_eq_value admitted
      have isSome : shape.block.isSome = true := by
        rw [show shape.block = some block from branch]
        rfl
      have apart : ((TagTree.running b m.stack).length : Int) ≠ M := fun hM =>
        calm ⟨_, _, _, _, shape, program, arguments, isSome, hM⟩
      omega

/-- Up to a critical call two limits that allow it admit the same tag calls. -/
theorem Machine.Within.fair (h : m.Within b M) (calm : ¬ m.Critical b M) (lax : Lax M v)
    (lax' : Lax M v') : m.Fair (limitBond b c v v') where
  calls {d name args named next} program t ht := by
    by_cases hd : d = b
    · subst hd
      refine ht.world.admitCall_self name args named fun shape session arguments hs => ?_
      obtain ⟨created, building⟩ := (h.orderly d).2.building_of_session hs
      have below : shape.block.isSome = true → (session.depth : Int) < M := fun isSome => by
        have le := h.running
        have apart : ((TagTree.running d m.stack).length : Int) ≠ M := fun hM =>
          calm ⟨name, args, named, next, shape, program, arguments, isSome, hM⟩
        rw [building.depth]
        omega
      exact (checkLimit_lax lax' below).trans (checkLimit_lax lax below).symm
    · exact ht.world.veiled.admitCall (fun hb => absurd hb hd) name args named
  blocks _ _ := .inl (limitBond_even b c v v')

theorem orderly_building {s : State} {p : Program Value} {h : List Event}
    (reached : Reachable code ⟨s, [], p, h⟩) (k : Callable Value) :
    (Machine.building b k (s.configure b c) h).Orderly := by
  intro d
  obtain ⟨nested, standing⟩ := orderly_of_reachable reached d
  exact ⟨nested, standing.frame (configure_stands s b d c) rfl rfl⟩

theorem within_building (hM : 1 ≤ M) {s : State} {p : Program Value} {h : List Event}
    (reached : Reachable code ⟨s, [], p, h⟩) (k : Callable Value) :
    (Machine.building b k (s.configure b c) h).Within b M where
  orderly := orderly_building reached k
  running := by
    show ((0 : Nat) : Int) ≤ M
    omega

/-- As long as no call is critical, no more blocks run than the limit allows. -/
theorem Machine.Within.steps (h : m.Within b M)
    (hs : Machine.StepsWhile code (fun n => ¬ n.Critical b M) m m') : m'.Within b M := by
  induction hs with
  | refl => exact h
  | tail _ step ih => exact ih.step step.1 step.2.move

theorem Machine.Within.fair_steps (h : m.Within b M) (lax : Lax M v) (lax' : Lax M v')
    (hs : Machine.StepsWhile code (fun n => ¬ n.Critical b M) m m') :
    Machine.StepsWhile code (Machine.Fair (limitBond b c v v')) m m' := by
  induction hs with
  | refl => exact .refl
  | tail before step ih => exact ih.tail ⟨(h.steps before).fair step.1 lax lax', step.2⟩

theorem Machine.Orderly.steps (h : m.Orderly) (hs : Machine.Steps code m m') : m'.Orderly := by
  induction hs with
  | refl => exact h
  | tail _ step ih => exact orderly_move ih step.move

theorem Machine.Paired.critical {V : Veil} {B : Bond V} (h : m.Paired B n)
    (critical : m.Critical b M) : n.Critical b M := by
  obtain ⟨name, args, named, next, shape, program, arguments, isSome, blocks⟩ := critical
  have paired := h.program
  rw [program] at paired
  generalize hp : n.program = q at paired
  cases paired with
  | tag rest =>
    refine ⟨name, args, named, _, shape, hp, arguments, isSome, ?_⟩
    rw [running_congr h.stack]
    exact blocks

end Runs

/-! ### Critical calls -/

/-- The tag call that a machine is about to make is refused for the limit, as soon as its name
is written, and nothing else happens. -/
def Machine.RefusesNesting (b : BuilderRef) (M : Int) (m : Machine) : Prop :=
  ∀ name args named next, m.program = .tag b name args named next →
    ∀ caller, tagCall caller b name args named m.state =
      ((do
        let text ← m.state.world.write name
        .fault (.nestingLimit name (.int M) text (toString M))), m.state)

theorem World.resolveNamed_settings (w : World) (c : Settings Value)
    (named : List (String × Value)) : ∃ r, w.resolveNamed (.settings c) named = .ok r := by
  have resolved (name : String) : w.resolveName (.settings c) name =
      pure (if w.truthy c.unreserve then Text.unreserve name else name) := by
    rw [World.resolveName, World.unreserves_settings]
    rfl
  simp only [World.resolveNamed, resolved, pure_bind, List.mapM_pure]
  exact ⟨_, rfl⟩

theorem refuses_of_critical {m : Machine} {x : Builder} {c : Settings Value} (hM : 1 ≤ M)
    (ordered : m.Orderly) (hx : m.state.world.builder? b = some x)
    (hc : x.configuration = .settings c) (limit : c.maxDepth = .int M)
    (critical : m.Critical b M) : m.RefusesNesting b M := by
  intro name args named next program caller
  obtain ⟨_, _, _, _, shape, program', arguments, isSome, blocks⟩ := critical
  rw [program, Program.tag.injEq] at program'
  obtain ⟨-, rfl, rfl, rfl, -⟩ := program'
  rcases (ordered b).2 with idle | ⟨session, created, building⟩
  · rw [idle.outside, List.length_nil] at blocks
    omega
  · have hs := session_of_builder hx building.stands.session
    obtain ⟨resolved, hr⟩ := m.state.world.resolveNamed_settings c named
    have reached : M ≤ (session.depth : Int) := by
      rw [building.depth]
      omega
    have refused : m.state.world.admitCall b name args named =
        (do
          let text ← m.state.world.write name
          .fault (.nestingLimit name (.int M) text (toString M))) := by
      simp only [World.admitCall, hx, hs, World.admitInSession, hc, hr, arguments,
        World.settingOf_settings, Settings.get, limit, isSome, Outcome.ofExcept_ok,
        Outcome.value_bind, checkLimit_reached reached]
      cases m.state.world.write name <;> rfl
    rw [tagCall, refused]
    cases m.state.world.write name <;> rfl

/-! ### What a limit does -/

/-- A build with a limit is the build without one up to the first critical call, which the limit
refuses. -/
structure LimitOnly (code : Code) (b : BuilderRef) (k : Callable Value) (c : Settings Value)
    (M : Int) (s : State) (h : List Event) : Prop where
  onward : ∀ m, Machine.StepsWhile code (fun m => ¬ m.Critical b M)
      (.building b k (s.configure b { c with maxDepth := .none }) h) m →
    ∃ n, Machine.Steps code (.building b k (s.configure b { c with maxDepth := .int M }) h) n ∧
      m.Paired (limitBond b c .none (.int M)) n ∧ (m.Critical b M → n.RefusesNesting b M)
  back : ∀ n, Machine.StepsWhile code (fun n => ¬ n.Critical b M)
      (.building b k (s.configure b { c with maxDepth := .int M }) h) n →
    ∃ m, Machine.Steps code (.building b k (s.configure b { c with maxDepth := .none }) h) m ∧
      n.Paired (limitBond b c (.int M) .none) m
  same : (∀ m, Machine.Steps code
      (.building b k (s.configure b { c with maxDepth := .none }) h) m → ¬ m.Critical b M) →
    ∀ fuel,
      let run (v : Value) := build (callWithin code fuel) b (.callable k)
        (s.configure b { c with maxDepth := v })
      BuiltSame b Eq (run .none) (run (.int M)) ∧
        (run (.int M)).2.world.journal = (run .none).2.world.journal

section Runs

variable {s : State} {p : Program Value} {h : List Event} {x : Builder} {k : Callable Value}
  {c : Settings Value} {v v' : Value}

/-- Up to a critical call a run under one limit is a run under the other. -/
theorem paired_of_calm (blind : code.Blind (limitVeil b)) (hM : 1 ≤ M)
    (reached : Reachable code ⟨s, [], p, h⟩) (hx : s.world.builder? b = some x)
    (lax : Lax M v) (lax' : Lax M v') {m : Machine}
    (hs : Machine.StepsWhile code (fun m => ¬ m.Critical b M)
      (.building b k (s.configure b { c with maxDepth := v }) h) m) :
    ∃ n, Machine.Steps code (.building b k (s.configure b { c with maxDepth := v' }) h) n ∧
      m.Paired (limitBond b c v v') n := by
  have start : (Machine.building b k (s.configure b { c with maxDepth := v }) h).Paired
      (limitBond b c v v') (.building b k (s.configure b { c with maxDepth := v' }) h) :=
    ⟨configured_bonded hx (limitBond b c v v') fun _ => rfl, .nil,
      .build fun _ => .done (.refl _), rfl⟩
  exact lockstep_steps blind start ((within_building hM reached k).fair_steps lax lax' hs)

theorem limit_only (blind : code.Blind (limitVeil b)) (steady : code.Steady) (hM : 1 ≤ M)
    (reached : Reachable code ⟨s, [], p, h⟩) (hx : s.world.builder? b = some x)
    (idle : x.session = none) : LimitOnly code b k c M s h where
  onward m hm := by
    obtain ⟨n, hn, paired⟩ := paired_of_calm blind hM reached hx (.inl rfl) (.inr rfl) hm
    refine ⟨n, hn, paired, fun critical => ?_⟩
    obtain ⟨x, y, -, hy, twins⟩ := paired.state.world.self
    exact refuses_of_critical hM ((orderly_building reached k).steps hn) hy twins.right rfl
      (paired.critical critical)
  back n hn := paired_of_calm blind hM reached hx (.inr rfl) (.inl rfl) hn
  same uncritical fuel := by
    have calm {m : Machine} (hm : Machine.Steps code
        (.building b k (s.configure b { c with maxDepth := .none }) h) m) :
        Machine.StepsWhile code (fun m => ¬ m.Critical b M)
          (.building b k (s.configure b { c with maxDepth := .none }) h) m := by
      induction hm with
      | refl => exact .refl
      | tail before step ih => exact ih.tail ⟨uncritical _ before, step⟩
    have within := within_building (b := b) (c := { c with maxDepth := .none }) hM reached k
    have ends := configured_builds (B := limitBond b c .none (.int M)) blind steady hx idle k
      (fun m hm => (within.steps (calm hm)).fair (uncritical m hm) (.inl rfl) (.inr rfl)) fuel
    exact ⟨ends.builtSame fun rs => List.filter_eq_self.mpr fun _ _ => rfl,
      ends.state.world.journal trivial⟩

end Runs

/-- A limit on nesting is kept at every moment of a build, it does no more than to refuse the
calls with blocks that are made while as many blocks run, and calls without a block are admitted
whatever the depth and the limit. -/
theorem nesting_limit_exact {code : Code} {b : BuilderRef} {M : Int} (hM : 1 ≤ M) :
    (∀ {m earlier x c}, Moments code b (m :: earlier) → m.state.world.builder? b = some x →
      x.configuration = .settings c → c.maxDepth = .int M →
      (∀ n ∈ m :: earlier, ((running b n.stack).length : Int) ≤ M) ∧
        (x.counters.maxDepthReached : Int) ≤ M) ∧
    (code.Blind (limitVeil b) → code.Steady → ∀ {s p h x}, Reachable code ⟨s, [], p, h⟩ →
      s.world.builder? b = some x → x.session = none → ∀ k c, LimitOnly code b k c M s h) ∧
    ∀ (w : World) (c : Settings Value) v v' depth depth' name args named,
      (∀ shape, Shape.ofArguments args = .ok shape → shape.block = none) →
      w.admitInSession (.settings { c with maxDepth := v }) depth name args named =
        w.admitInSession (.settings { c with maxDepth := v' }) depth' name args named := by
  refine ⟨fun {m earlier x c} hm hx hc limit => ?_, fun blind steady _ _ _ _ reached hx idle k c =>
    limit_only blind steady hM reached hx idle, fun w c v v' depth depth' name args named leaf =>
    admitInSession_leaf c v v' depth depth' name named leaf⟩
  have le := running_le_limit hm hx hc limit (by omega)
  obtain ⟨y, d, hy, -, counted⟩ := counted_of_moments hm
  rw [hx, Option.some.injEq] at hy
  subst hy
  refine ⟨le, ?_⟩
  rw [counted.most]
  exact deepest_le le (by omega)

theorem tagCode_blind (V : Veil) : tagCode.Blind V := by
  intro c args named
  unfold tagCode
  split
  · exact .bind (.call ..) fun e => .pure _
  · exact .bind (.call ..) fun e => .pure _
  · exact .fail _

def deepBlock : Callable Value := .chain 0 "a" ["b", "c"] (.text "x")

/-- One block may run: the second one is refused, and an element without a block is not. -/
theorem small_nesting_limit :
    let run (k : Callable Value) (v : Value) := build (callWithin tagCode 4) ⟨0⟩ (.callable k)
      (smallState.configure ⟨0⟩ { Settings.standard with maxDepth := v })
    (run deepBlock .none).1.value? = some ⟨0⟩ ∧
    (run deepBlock (.int 1)).1 = .fault (.nestingLimit (.text "b") (.int 1) "b" "1") ∧
    LimitOnly tagCode ⟨0⟩ deepBlock .standard 1 smallState [] ∧
    BuiltSame ⟨0⟩ Eq (run smallBlock .none) (run smallBlock (.int 1)) := by
  have limited (k : Callable Value) : LimitOnly tagCode ⟨0⟩ k .standard 1 smallState [] :=
    (nesting_limit_exact (by decide)).2.1 (tagCode_blind _) tagCode_steady
      (.initial small_fresh (.done .exhausted)) rfl rfl k .standard
  refine ⟨by decide +kernel, rfl, limited _, ((limited _).same ?_ 4).1⟩
  -- The machines of the unlimited run, one after the other.
  rintro m hm ⟨name, args, named, next, shape, program, arguments, isSome, blocks⟩
  rcases hm.of_step (.of_deed (.began rfl) rfl rfl) with rfl | hm
  · cases program
  rcases hm.of_step (.of_deed (.entered rfl rfl) rfl rfl) with rfl | hm
  · exact absurd blocks (by decide)
  rcases hm.of_step (.of_deed (.created rfl rfl) rfl rfl) with rfl | hm
  · cases program
    cases arguments
    cases isSome
  rcases hm.of_step (.of_ending .left) with rfl | hm
  · cases program
  rcases hm.of_step (.of_ending .ended) with rfl | hm
  · cases program
  cases hm.of_over ⟨rfl, _, rfl⟩
  cases program

end TagTree
