import TagTree.Proofs.Course

/-!
# Refusals

A tag call or a build that is refused leaves everything as it was. So code may try what will be
refused, anywhere and as often as it likes, and ends as it does without.
-/

namespace TagTree

/-! ### Attempts -/

/-- A tag call or a build that is tried. -/
inductive Attempt where
  | call (b : BuilderRef) (name : Value) (args : List Value) (named : List (String × Value))
  | build (b : BuilderRef) (block : Value)

namespace Attempt

def run (caller : Caller) : Attempt → Proc State ElementRef
  | call b name args named => tagCall caller b name args named
  | build b block => TagTree.build caller b block

def fault? (w : World) : Attempt → Option Fault
  | call b name args named =>
    match w.admitCall b name args named with
    | .fault f => some f
    | _ => none
  | build b block =>
    match w.admitBuild b block with
    | .fault f => some f
    | _ => none

/-- What is refused up front: a build while one runs or without a function to run, and a tag
call outside of a build, of no shape, with a block at the limit, or without a tag. -/
inductive Refused (w : World) : Attempt → Prop
  | building {b s block} (session : w.session? b = some s) : Refused w (build b block)
  | notABlock {b block} (value : ∀ c, block ≠ .callable c) : Refused w (build b block)
  | outside {b name args named} (idle : w.session? b = none) :
      Refused w (call b name args named)
  | shape {b name args named p} (shape : Shape.ofArguments args = .error p) :
      Refused w (call b name args named)
  | limit {b name args named x s shape block limit} (builder : w.builder? b = some x)
      (session : x.session = some s) (arguments : Shape.ofArguments args = .ok shape)
      (branch : shape.block = some block)
      (setting : w.settingOf x.configuration .maxDepth = .ok limit)
      (reached : limitReached s.depth limit = .ok true) : Refused w (call b name args named)
  | tag {b name args named} (tag : ∀ t : String, name = .text t → t.isEmpty = true) :
      Refused w (call b name args named)

end Attempt

section Refused

variable {w : World} {b : BuilderRef} {name : Value} {args : List Value}
  {named : List (String × Value)} {c : TagCall}

theorem Attempt.Refused.not_value {a : Attempt} (h : a.Refused w) :
    match a with
    | .call b name args named => ∀ c, w.admitCall b name args named ≠ .value c
    | .build b block => ∀ c, w.admitBuild b block ≠ .value c := by
  cases h with
  | building session =>
    intro c hc
    have hs := (idle_of_admitBuild hc).2
    rw [session] at hs
    cases hs
  | notABlock hblock =>
    intro c hc
    unfold World.admitBuild at hc
    split at hc
    · cases hc
    · split at hc
      · cases hc
      · split at hc
        · exact hblock _ rfl
        · cases hc
  | outside idle =>
    intro c hc
    obtain ⟨s, hs⟩ := session_of_admitCall hc
    rw [idle] at hs
    cases hs
  | shape hshape =>
    intro c hc
    obtain ⟨x, s, resolved, shape, limit, tag, -, -, -, hok, -⟩ := admitCall_eq_value hc
    rw [hshape] at hok
    cases hok
  | limit hbuilder hsession harguments hbranch hsetting hreached =>
    intro c hc
    obtain ⟨x, s, resolved, shape, limit, tag, hx, hs, -, hok, hl, hcheck, -⟩ :=
      admitCall_eq_value hc
    rw [hbuilder, Option.some.injEq] at hx
    subst hx
    rw [hsession, Option.some.injEq] at hs
    subst hs
    rw [harguments, Except.ok.injEq] at hok
    subst hok
    rw [hsetting, Except.ok.injEq] at hl
    subst hl
    simp only [World.checkLimit, hbranch, Option.isSome_some, if_true, hreached] at hcheck
    obtain ⟨text, -, hcheck⟩ := bind_eq_value hcheck
    obtain ⟨shown, -, hcheck⟩ := bind_eq_value hcheck
    cases hcheck
  | tag htag =>
    intro c hc
    obtain ⟨x, s, resolved, shape, limit, tag, -, -, -, -, -, -, hok, -⟩ := admitCall_eq_value hc
    unfold Element.tagOf at hok
    split at hok
    · rename_i t
      rw [if_pos (htag t rfl)] at hok
      cases hok
    · cases hok

end Refused

/-! ### Programs with attempts -/

/-- A program before which an attempt is made, if there is one for the state, and its fault is
swallowed. -/
def attempting {α : Type} (choose : State → Option Attempt) (p : Program α) : Program α :=
  .act Proc.get fun
    | .ok s =>
      match choose s with
      | some (.call b name args named) => .tag b name args named fun _ => p
      | some (.build b block) => .build b block fun _ => p
      | none => p
    | .error _ => p

/-- A program and the same one with refused attempts inserted: at any points, each by any
choice of attempts that are refused where it is made. -/
inductive Inserted {α : Type} : Program α → Program α → Prop
  | done (x : Outcome α) : Inserted (.done x) (.done x)
  | act {β : Type} (d : Proc State β) {next next' : Except Fault β → Program α}
      (rest : ∀ r, Inserted (next r) (next' r)) : Inserted (.act d next) (.act d next')
  | attach (e : ElementRef) (change : Element → Except Fault Element)
      {next next' : Except Fault Unit → Program α}
      (rest : ∀ r, Inserted (next r) (next' r)) :
      Inserted (.attach e change next) (.attach e change next')
  | tag (b : BuilderRef) (name : Value) (args : List Value) (named : List (String × Value))
      {next next' : Except Fault ElementRef → Program α}
      (rest : ∀ r, Inserted (next r) (next' r)) :
      Inserted (.tag b name args named next) (.tag b name args named next')
  | build (b : BuilderRef) (block : Value) {next next' : Except Fault ElementRef → Program α}
      (rest : ∀ r, Inserted (next r) (next' r)) :
      Inserted (.build b block next) (.build b block next')
  | apply (c : Callable Value) (args : List Value) (named : List (String × Value))
      {next next' : Except Fault Value → Program α}
      (rest : ∀ r, Inserted (next r) (next' r)) :
      Inserted (.apply c args named next) (.apply c args named next')
  | attempt (choose : State → Option Attempt) {p q : Program α}
      (refused : ∀ s a, choose s = some a → ∃ f, a.fault? s.world = some f)
      (rest : Inserted p q) : Inserted p (attempting choose q)

section Inserted

theorem Inserted.refl {α : Type} (p : Program α) : Inserted p p := by
  induction p with
  | done x => exact .done x
  | act d next ih => exact .act d ih
  | attach e change next ih => exact .attach e change ih
  | tag b name args named next ih => exact .tag b name args named ih
  | build b block next ih => exact .build b block ih
  | apply c args named next ih => exact .apply c args named ih

variable {α : Type} {p q : Program α} {caller : Caller} {s : State} {a : Attempt}

theorem Attempt.run_of_fault {f : Fault} (h : a.fault? s.world = some f) :
    a.run caller s = (.fault f, s) := by
  cases a with
  | call b name args named =>
    unfold Attempt.fault? at h
    unfold Attempt.run tagCall
    simp only at h ⊢
    cases hadmission : s.world.admitCall b name args named with
    | fault g =>
      rw [hadmission] at h
      cases h
      rfl
    | _ =>
      rw [hadmission] at h
      cases h
  | build b block =>
    unfold Attempt.fault? at h
    unfold Attempt.run TagTree.build
    simp only at h ⊢
    cases hadmission : s.world.admitBuild b block with
    | fault g =>
      rw [hadmission] at h
      cases h
      rfl
    | _ =>
      rw [hadmission] at h
      cases h

theorem observe_of_fault {β : Type} {d : Proc State β} {f : Fault} (h : d s = (.fault f, s)) :
    (Proc.observe d >>= fun _ => p.run caller) s = p.run caller s := by
  rw [Proc.bind_apply]
  unfold Proc.observe
  rw [h]

theorem run_attempting {choose : State → Option Attempt}
    (refused : ∀ s a, choose s = some a → ∃ f, a.fault? s.world = some f) :
    (attempting choose p).run caller = p.run caller := by
  funext s
  have hstep : (attempting choose p).run caller s =
      (match choose s with
        | some (.call b name args named) => (.tag b name args named fun _ => p : Program α)
        | some (.build b block) => .build b block fun _ => p
        | none => p).run caller s := rfl
  rw [hstep]
  cases hchoice : choose s with
  | none => rfl
  | some a =>
    obtain ⟨f, hf⟩ := refused s a hchoice
    have hrun : a.run caller s = (.fault f, s) := Attempt.run_of_fault hf
    cases a with
    | call b name args named => exact observe_of_fault hrun
    | build b block => exact observe_of_fault hrun

theorem run_inserted (h : Inserted p q) : q.run caller = p.run caller := by
  induction h with
  | done x => rfl
  | act d rest ih => simp only [Program.run, ih]
  | attach e change rest ih => simp only [Program.run, ih]
  | tag b name args named rest ih => simp only [Program.run, ih]
  | build b block rest ih => simp only [Program.run, ih]
  | apply c args named rest ih => simp only [Program.run, ih]
  | attempt choose refused rest ih => rw [run_attempting refused, ih]

end Inserted

theorem callWithin_inserted {code code' : Code}
    (h : ∀ c args named, Inserted (code c args named) (code' c args named)) (n : Nat) :
    callWithin code' n = callWithin code n := by
  induction n with
  | zero => rfl
  | succ n ih =>
    funext c args named
    simp only [callWithin]
    rw [run_inserted (h c args named), ih]

/-- What is refused up front raises its fault, unless that cannot be told, and changes
nothing. -/
theorem Attempt.Refused.run {a : Attempt} {s : State} (h : a.Refused s.world)
    (caller : Caller) : ∃ x, a.run caller s = (x, s) ∧
      (x = .exhausted ∨ ∃ f, x = .fault f ∧ a.fault? s.world = some f) := by
  have hno := h.not_value
  cases a with
  | call b name args named =>
    unfold Attempt.run Attempt.fault? tagCall
    simp only at hno ⊢
    cases hadmission : s.world.admitCall b name args named with
    | value c => exact absurd hadmission (hno c)
    | fault f => exact ⟨_, rfl, .inr ⟨f, rfl, rfl⟩⟩
    | exhausted => exact ⟨_, rfl, .inl rfl⟩
  | build b block =>
    unfold Attempt.run Attempt.fault? TagTree.build
    simp only at hno ⊢
    cases hadmission : s.world.admitBuild b block with
    | value c => exact absurd hadmission (hno c)
    | fault f => exact ⟨_, rfl, .inr ⟨f, rfl, rfl⟩⟩
    | exhausted => exact ⟨_, rfl, .inl rfl⟩

/-- Refusals leave no trace: what is refused up front changes nothing, and builds end the same,
with the same state, when refused attempts are inserted anywhere in their blocks. -/
theorem refusals_leave_no_trace :
    (∀ (a : Attempt) (s : State), a.Refused s.world → ∀ caller,
      ∃ x, a.run caller s = (x, s) ∧
        (x = .exhausted ∨ ∃ f, x = .fault f ∧ a.fault? s.world = some f)) ∧
    ∀ code code' : Code,
      (∀ c args named, Inserted (code c args named) (code' c args named)) →
      ∀ n b block s,
        build (callWithin code' n) b block s = build (callWithin code n) b block s := by
  refine ⟨fun a s h caller => h.run caller, ?_⟩
  intro code code' h n b block s
  rw [callWithin_inserted h n]

def reentering (s : State) : Option Attempt :=
  if s.world.isBuilding ⟨0⟩ then some (.build ⟨0⟩ .none) else none

theorem small_refusals_leave_no_trace :
    (∃ f, tagCall (callWithin Script.code 3) ⟨0⟩ (.text "a") [] [] smallState =
      (.fault f, smallState)) ∧
    build (callWithin (fun c args named => attempting reentering (Script.code c args named)) 3)
        ⟨0⟩ (.callable smallBlock) smallState =
      build (callWithin Script.code 3) ⟨0⟩ (.callable smallBlock) smallState := by
  constructor
  · obtain ⟨x, hrun, hx⟩ := refusals_leave_no_trace.1 (.call ⟨0⟩ (.text "a") [] []) smallState
      (.outside rfl) (callWithin Script.code 3)
    rcases hx with rfl | ⟨f, rfl, -⟩
    · cases hrun
    · exact ⟨f, hrun⟩
  · refine refusals_leave_no_trace.2 Script.code _ ?_ 3 _ _ _
    intro c args named
    refine .attempt reentering ?_ (.refl _)
    intro s a ha
    unfold reentering at ha
    split at ha
    · rename_i hb
      cases ha
      refine ⟨.buildInProgress, ?_⟩
      unfold World.isBuilding at hb
      unfold Attempt.fault? World.admitBuild
      cases hx : s.world.builder? ⟨0⟩ with
      | none => simp [hx] at hb
      | some x =>
        rw [hx, Option.map_some, Option.getD_some] at hb
        simp [hx, hb]
    · cases ha

end TagTree
