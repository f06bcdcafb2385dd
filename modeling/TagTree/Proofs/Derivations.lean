import TagTree.Proofs.Drafts
import TagTree.Proofs.Keeping

/-!
# Derived settings

Settings are derived from others in two ways: some fields are replaced, or entries are written to
the table of all fields, which is read back. Both ways make one draft, but for the flags: a table
holds copies of these.
-/

namespace TagTree

/-! ### Equal settings -/

theorem Atom.same_refl (a : Atom) : a.same a = true := by
  cases a with
  | float x => cases x with
    | finite s m e => cases m <;> simp [Atom.same, Atom.equal, Double.sameNumber]
    | infinite s => simp [Atom.same, Atom.equal, Double.sameNumber]
  | _ => simp [Atom.same, Atom.equal, Atom.int?]

/-- A value is the same object as itself. -/
theorem Store.sameWithin_refl (s : Store) (n : Nat) (v : Value) :
    s.sameWithin (n + 1) v v = true := by
  cases v with
  | atom a => exact a.same_refl
  | _ => simp [sameWithin, Value.mapping?, Value.sameKey]

namespace World

/-- Two settings of one field pass for the same: they are the same object or equal. -/
def SameField (w : World) (v x : Value) : Prop :=
  w.store.sameWithin (readingDepth - 1) v x = true

/-- Both give equal settings, or both fail with one fault. -/
def Concur (w : World) : Except Fault (Settings Value) → Except Fault (Settings Value) → Prop
  | .ok r, .ok q => ∀ i j, w.equal (.settings i r) (.settings j q) = true
  | .error f, .error g => f = g
  | _, _ => False

theorem SameField.refl (w : World) (v : Value) : w.SameField v v := w.store.sameWithin_refl _ v

theorem equal_settings {w : World} {r : Settings Value} {u g : Value}
    (hu : w.SameField r.unreserve u) (hg : w.SameField r.diagnostics g) (i j : Nat) :
    w.equal (.settings i r) (.settings j (r.withFlags u g)) = true := by
  have same (v : Value) := SameField.refl w v
  have policy : (r.policy == r.policy) = true := beq_self_eq_true _
  unfold SameField at hu hg same
  show (i == j || _) = true
  rw [Bool.or_eq_true]
  refine .inr ?_
  simp only [Bool.and_eq_true]
  exact ⟨⟨⟨⟨⟨same _, policy⟩, hu⟩, same _⟩, hg⟩, same _⟩

/-- A field that is not given stays, and one that is given is the same in both. -/
theorem SameField.given {w : World} {kw : List (String × Value)} {f : String} {v x : Value}
    (h : f ∉ kw.map Prod.fst → w.SameField v x) :
    w.SameField (Draft.given kw f v) (Draft.given kw f x) := by
  unfold Draft.given
  cases found : Table.find? (· == ·) f kw.reverse with
  | none =>
    have absent := (Table.find?_eq_none_iff (Table.exact_beq f)).mp found
    rw [List.map_reverse, List.mem_reverse] at absent
    exact h absent
  | some y => exact .refl w y

/-- Settings that differ in their flags give settings that differ in them at most. -/
theorem concur_override {w : World} {s : Settings Value} {u g : Value}
    {kw : List (String × Value)} (noSelf : "self" ∉ kw.map Prod.fst)
    (hu : "strip_keyword_underscore" ∉ kw.map Prod.fst → w.SameField s.unreserve u)
    (hg : "enable_diagnostics" ∉ kw.map Prod.fst → w.SameField s.diagnostics g) :
    w.Concur (s.override w kw) ((s.withFlags u g).override w kw) := by
  have unreserved : "strip_keyword_underscore" ∈ Draft.fieldNames := by decide
  have diagnosed : "enable_diagnostics" ∈ Draft.fieldNames := by decide
  have unreserve : ((Draft.ofSettings s).setAll kw).unreserve =
      Draft.given kw "strip_keyword_underscore" s.unreserve :=
    Draft.get_setAll (.ofSettings s) unreserved kw
  have diagnostics : ((Draft.ofSettings s).setAll kw).diagnostics =
      Draft.given kw "enable_diagnostics" s.diagnostics :=
    Draft.get_setAll (.ofSettings s) diagnosed kw
  have changed : ((Draft.ofSettings (s.withFlags u g)).setAll kw).check =
      ((Draft.ofSettings s).setAll kw).check.map fun r =>
        r.withFlags (Draft.given kw "strip_keyword_underscore" u)
          (Draft.given kw "enable_diagnostics" g) := by
    rw [← Draft.check_withFlags, ← Draft.setAll_withFlags]
    rfl
  rw [Settings.override_eq noSelf, Settings.override_eq noSelf]
  cases Settings.refuseUnknown w (kw.map fun field => .text field.1) with
  | error f => exact rfl
  | ok known =>
    show w.Concur (Draft.check _) (Draft.check _)
    rw [changed]
    cases made : ((Draft.ofSettings s).setAll kw).check with
    | error f => exact rfl
    | ok r =>
      obtain ⟨draft, -⟩ := Draft.check_eq_ok_iff.mp made
      rw [draft] at unreserve diagnostics
      have same := SameField.given hu
      have same' := SameField.given hg
      rw [← unreserve] at same
      rw [← diagnostics] at same'
      exact equal_settings same same'

end World

/-! ### Making settings -/

/-- The worlds differ at most in the identities handed out. -/
def World.Untouched (w w' : World) : Prop := ∃ n, w' = { w with store.nextId := n }

instance : IsPreorder World World.Untouched where
  refl w := ⟨w.store.nextId, rfl⟩
  trans _ _ _ := fun ⟨_, h⟩ ⟨n, h'⟩ => ⟨n, by rw [h', h]⟩

/-- The second world has all objects of the first as they were, and its builders and journal. -/
structure World.Adds (w w' : World) : Prop where
  store : w.store.Extends w'.store
  builders : w'.builders = w.builders
  journal : w'.journal = w.journal

instance : IsPreorder World World.Adds where
  refl _ := ⟨.refl _, rfl, rfl⟩
  trans _ _ _ h h' := ⟨h.store.trans h'.store, h'.builders.trans h.builders,
    h'.journal.trans h.journal⟩

theorem World.adds_inStore {α : Type} {p : Proc Store α} (h : p.Respects Store.Extends) :
    (World.inStore p).Respects World.Adds := fun w => ⟨h w.store, rfl, rfl⟩

def World.setDict (w : World) (d : DictRef) (table : Dict) : World :=
  { w with store := w.store.setDict d table }

/-- A dictionary that is no object of a world is written without a change to these. -/
theorem World.Adds.setDict {w w' : World} (adds : w.Adds w') {d : DictRef}
    (fresh : w.store.dicts.size ≤ d.index) (table : Dict) : w.Adds (w'.setDict d table) := by
  refine ⟨⟨adds.store.elements, adds.store.list, fun {i old} h => ?_⟩, adds.builders,
    adds.journal⟩
  have hi : i < w.store.dicts.size := (Array.getElem?_eq_some_iff.mp h).1
  show (w'.store.dicts.setIfInBounds d.index table)[i]? = some old
  rw [Array.getElem?_setIfInBounds_ne (by omega)]
  exact adds.store.dict h

theorem untouched_settingsResult (s : Settings Value) :
    (World.settingsResult s).Respects World.Untouched := by
  refine Proc.respects_bind Proc.respects_get fun w => ?_
  refine Proc.respects_bind (Proc.respects_ofExcept _) fun table => ?_
  refine Proc.respects_bind (fun w => ?_) fun id => Proc.respects_pure _
  exact ⟨w.store.nextId + 1, rfl⟩

namespace Action

/-- However the action ends, a relation holds between the worlds before and after it, and all
variables stay as they are. -/
def Respects (R : World → World → Prop) (a : Action Value) : Prop := ∀ env caller s,
  ∃ w, R s.world w ∧ ((a.perform env).run caller s).2 = { s with world := w }

theorem respects_inWorld {R : World → World → Prop} {a : Action Value}
    {p : Surroundings → Proc World Result} (h : ∀ env, a.perform env = Program.inWorld (p env))
    (hp : ∀ env, (p env).Respects R) : a.Respects R := by
  intro env caller s
  refine ⟨_, hp env s.world, ?_⟩
  rw [h env, Program.inWorld, Program.run_inState]
  rfl

theorem toTable_adds (id : Nat) (s : Settings Value) :
    (toTable (.settings id s)).Respects World.Adds := by
  refine respects_inWorld (fun _ => rfl) fun _ => ?_
  refine Proc.respects_bind Proc.respects_get fun w => ?_
  refine Proc.respects_bind (Proc.respects_ofExcept _) fun fields => ?_
  refine Proc.respects_bind ?_ fun v => Proc.respects_pure _
  exact World.adds_inStore (Plain.keep_respects Store.extends_making fields)

theorem override_untouched (base : Value) (kw : List (String × Value)) :
    (override base kw).Respects World.Untouched := by
  refine respects_inWorld (fun _ => rfl) fun _ => ?_
  refine Proc.respects_bind Proc.respects_get fun w => ?_
  refine Proc.respects_bind (Proc.respects_ofExcept _) fun s => ?_
  exact Proc.respects_bind (Proc.respects_ofExcept _) fun s => untouched_settingsResult s

theorem settingsOfTable_untouched (data : Value) :
    (settingsOfTable data).Respects World.Untouched := by
  refine respects_inWorld (fun _ => rfl) fun _ => ?_
  refine Proc.respects_bind Proc.respects_get fun w => ?_
  exact Proc.respects_bind (Proc.respects_ofExcept _) fun s => untouched_settingsResult s

/-! ### Settings by way of their table -/

/-- Fields written to a table, one after another. -/
def writeFields (env : Surroundings) (table : Value) : List (String × Value) → Program Unit
  | [] => pure ()
  | (name, v) :: rest => do
    let _ ← (putEntry table v (.text name)).perform env
    writeFields env table rest

/-- Settings derived by way of their table: it is made, the fields to replace are written to it,
and it is read back. -/
def rederive (env : Surroundings) (id : Nat) (s : Settings Value) (kw : List (String × Value)) :
    Program (Settings Value) := do
  let table ← (toTable (.settings id s)).perform env
  writeFields env table.value kw
  Program.inWorld (Proc.reads fun w => .ofExcept (Settings.ofTable w table.value))

variable (env : Surroundings) (caller : Caller) {t : State}

theorem putEntry_run {d : DictRef} {table : Dict}
    (hd : t.world.store.dicts[d.index]? = some table) (name : String) (v : Value) :
    ((putEntry (.dict d) v (.text name)).perform env).run caller t =
      let w := t.world.setDict d (Table.insert Value.sameKey (.text name) v table)
      (.value (.ofValue w (.dict d)), { t with world := w }) := by
  have entries : t.world.store.entries d = table := by
    rw [Store.entries, hd]
    rfl
  rw [← entries, perform, Program.inWorld, Program.run_inState]
  rfl

/-- What is written to a new table stands in it, and changes no object that was there before. -/
theorem writeFields_run {w : World} {d : DictRef} (fresh : w.store.dicts.size ≤ d.index)
    (kw : List (String × Value)) {table : Dict} (adds : w.Adds t.world)
    (hd : t.world.store.dicts[d.index]? = some table) :
    ∃ w', w.Adds w' ∧
      w'.store.entries d = Table.insertAll Value.sameKey table (Settings.spelled kw) ∧
      (writeFields env (.dict d) kw).run caller t = (.value (), { t with world := w' }) := by
  induction kw generalizing t table with
  | nil =>
    refine ⟨t.world, adds, ?_, rfl⟩
    rw [Store.entries, hd]
    rfl
  | cons field rest ih =>
    obtain ⟨name, v⟩ := field
    have hlt : d.index < t.world.store.dicts.size := (Array.getElem?_eq_some_iff.mp hd).1
    let next := t.world.setDict d (Table.insert Value.sameKey (.text name) v table)
    have held : next.store.dicts[d.index]? = _ := Array.getElem?_setIfInBounds_self_of_lt hlt
    obtain ⟨w', adds', all, wrote⟩ :=
      @ih { t with world := next } _ (adds.setDict fresh _) held
    refine ⟨w', adds', all, ?_⟩
    rw [writeFields, Program.run_bind, Proc.bind_apply, putEntry_run env caller hd]
    exact wrote

end Action

namespace Settings

/-- The table of settings is made around the copies of the flags. -/
theorem keep_flags (s : Settings Value) {p q : TagTree.Plain} (hp : p.isMade = true)
    (hq : q.isMade = true) {before between made : Store} {u g : Value}
    (unreserve : p.store before = (.value u, between))
    (diagnostics : q.store between = (.value g, made)) :
    Plain.keep (fieldEntries (.value s.indentWidth) (.value (.text s.policy.name)) p
        (.value s.maxDepth) q (.value s.correlation)) before =
      (.value (.dict ⟨made.dicts.size⟩),
        (Store.newDict (spelled (s.withFlags u g).fields) made).2) := by
  have fields : Plain.fieldsMade (fieldEntries (.value s.indentWidth)
      (.value (.text s.policy.name)) p (.value s.maxDepth) q (.value s.correlation)) = true := by
    simp [fieldEntries, Plain.fieldsMade, Plain.isMade, hp, hq]
  rw [Plain.keep, if_pos fields]
  simp only [fieldEntries, Plain.store, Plain.storeFields, Proc.bind_apply, unreserve,
    diagnostics, Proc.pure_apply]
  rfl

end Settings

namespace Action

variable (env : Surroundings) (caller : Caller) {t : State} {s : Settings Value}

theorem toTable_run (id : Nat) {fields : List (String × Plain)} {v : Value} {made : Store}
    (copied : s.copies t.world = .ok fields)
    (kept : Plain.keep fields t.world.store = (.value v, made)) :
    ((toTable (.settings id s)).perform env).run caller t =
      (.value ⟨v, .datum (.dict (Plain.readFields t.world fields))⟩,
        { t with world := { t.world with store := made } }) := by
  rw [perform, Program.inWorld, Program.run_inState]
  simp only [World.inState, Proc.onPart, Proc.bind_apply, Proc.get, Proc.ofExcept_apply, copied,
    Outcome.ofExcept_ok, World.inStore, kept, Proc.pure_apply]

/-- Where a flag cannot be copied there is no table, and nothing happens. -/
theorem rederive_refused (id : Nat) (kw : List (String × Value)) {f : Fault}
    (refused : s.copies t.world = .error f) :
    (rederive env id s kw).run caller t = (.fault f, t) := by
  rw [rederive, Program.run_bind, perform, Program.inWorld, Program.run_inState]
  simp only [World.inState, Proc.onPart, Proc.bind_apply, Proc.get, Proc.ofExcept_apply, refused,
    Outcome.ofExcept_error]

/-- Settings whose flags can be copied are derived by way of their table as settings around these
copies are by replacing. -/
theorem rederive_run (sound : s.Sound)
    (correlation : s.correlation = .none ∨ ∃ c, s.correlation = .text c)
    {kw : List (String × Value)} (once : (kw.map Prod.fst).Nodup)
    (noSelf : "self" ∉ kw.map Prod.fst)
    (noName : ∀ name, ("ambiguous_block_policy", .text name) ∉ kw) (id : Nat) {p q : Plain}
    (copiedP : Settings.copiedWithin t.world World.readingDepth s.unreserve = .ok p)
    (copiedQ : Settings.copiedWithin t.world World.readingDepth s.diagnostics = .ok q)
    (hp : p.isMade = true) (hq : q.isMade = true) :
    ∃ u g made w, Plain.storeAll [p, q] t.world.store = (.value [u, g], made) ∧
      t.world.Adds w ∧ made.Extends w.store ∧ (rederive env id s kw).run caller t =
        (.ofExcept ((s.withFlags u g).override t.world kw), { t with world := w }) := by
  obtain ⟨u, between, unreserve⟩ := Plain.store_made p hp t.world.store
  obtain ⟨g, made, diagnostics⟩ := Plain.store_made q hq between
  have stored : Plain.storeAll [p, q] t.world.store = (.value [u, g], made) := by
    simp only [Plain.storeAll, Proc.bind_apply, unreserve, diagnostics, Proc.pure_apply]
  have storing := Plain.storeAll_respects Store.extends_making [p, q] t.world.store
  rw [stored] at storing
  have copied := sound.copies correlation t.world
  rw [copiedP, copiedQ] at copied
  have tabled := toTable_run env caller id copied
    (Settings.keep_flags s hp hq unreserve diagnostics)
  -- the copies are made before the table, so its place is that of no object of this world
  let base : World := { t.world with store := made }
  let next : World := { t.world with
    store := (Store.newDict (Settings.spelled (s.withFlags u g).fields) made).2 }
  have first : t.world.Adds base := ⟨storing, rfl, rfl⟩
  have second : base.Adds next := ⟨made.extends_newDict _, rfl, rfl⟩
  have held : next.store.dicts[made.dicts.size]? = _ := Array.getElem?_push_size
  obtain ⟨w, adds, all, wrote⟩ := writeFields_run env caller
    (d := ⟨made.dicts.size⟩) (t := { t with world := next }) (Nat.le_refl _) kw second held
  have read := Settings.ofTable_insertAll once noSelf noName all
  refine ⟨u, g, made, w, stored, trans_of World.Adds first adds, adds.store, ?_⟩
  rw [rederive, Program.run_bind, Proc.bind_apply, tabled]
  show (Program.run caller (writeFields env (.dict ⟨made.dicts.size⟩) kw >>= fun _ => _))
    { t with world := next } = _
  rw [Program.run_bind, Proc.bind_apply, wrote]
  show Program.run caller (Program.inWorld _) { t with world := w } = _
  rw [Program.inWorld, Program.run_inState]
  show (Outcome.ofExcept (Settings.ofTable w _), _) = _
  rw [read, Settings.override_world _ kw w t.world]

end Action

/-- The two ways to derive settings concur. The table of settings has the fields as they are, the
policy by name, and copies of the flags. Settings with some fields replaced are what is read back
when these fields are written to the table, whatever the names and the values are, but for a policy
given by name: there are the same settings where the table holds the flags themselves, equal
settings where it holds equal flags for those that are not replaced, or the same fault. No way
changes any object. -/
structure Settings.Derivations (s : Settings Value) (kw : List (String × Value)) : Prop where
  copies : ∀ w, s.copies w = (copiedWithin w World.readingDepth s.unreserve).bind fun u =>
    (copiedWithin w World.readingDepth s.diagnostics).map fun g =>
      fieldEntries (.value s.indentWidth) (.value (.text s.policy.name)) u (.value s.maxDepth) g
        (.value s.correlation)
  plain : s.unreserve.isOwnCopy = true → s.diagnostics.isOwnCopy = true →
    ∀ w, s.copies w = .ok (s.fields.map fun field => (field.1, .value field.2))
  /-- In one run: the table is made, the fields are written to it, and it is read back. -/
  rederived : ∀ env caller id t {p q},
    copiedWithin t.world World.readingDepth s.unreserve = .ok p →
    copiedWithin t.world World.readingDepth s.diagnostics = .ok q →
    p.isMade = true → q.isMade = true →
    ∃ u g made w, Plain.storeAll [p, q] t.world.store = (.value [u, g], made) ∧
      t.world.Adds w ∧ made.Extends w.store ∧
      (Action.rederive env id s kw).run caller t =
        (.ofExcept ((s.withFlags u g).override t.world kw), { t with world := w }) ∧
      (("strip_keyword_underscore" ∉ kw.map Prod.fst → w.SameField s.unreserve u) →
        ("enable_diagnostics" ∉ kw.map Prod.fst → w.SameField s.diagnostics g) →
        w.Concur (s.override t.world kw) ((s.withFlags u g).override t.world kw))
  same : s.unreserve.isOwnCopy = true → s.diagnostics.isOwnCopy = true →
    ∀ env caller id t, ∃ w, t.world.Adds w ∧ (Action.rederive env id s kw).run caller t =
      (.ofExcept (s.override t.world kw), { t with world := w })
  refused : ∀ env caller id t {f}, s.copies t.world = .error f →
    (Action.rederive env id s kw).run caller t = (.fault f, t)
  /-- In any world: a table of the fields, around any flags, to which the fields were written. -/
  read : ∀ w d u g, w.store.entries d =
      Table.insertAll Value.sameKey (spelled (s.withFlags u g).fields) (spelled kw) →
    ofTable w (.dict d) = (s.withFlags u g).override w kw ∧
    (u = s.unreserve → g = s.diagnostics → ofTable w (.dict d) = s.override w kw) ∧
    (("strip_keyword_underscore" ∉ kw.map Prod.fst → w.SameField s.unreserve u) →
      ("enable_diagnostics" ∉ kw.map Prod.fst → w.SameField s.diagnostics g) →
      w.Concur (s.override w kw) (ofTable w (.dict d)))
  unchanged : ∀ id data, (Action.toTable (.settings id s)).Respects World.Adds ∧
    (Action.override (.settings id s) kw).Respects World.Untouched ∧
    (Action.settingsOfTable data).Respects World.Untouched

theorem derivations_concur {s : Settings Value} (sound : s.Sound)
    (correlation : s.correlation = .none ∨ ∃ c, s.correlation = .text c)
    {kw : List (String × Value)} (once : (kw.map Prod.fst).Nodup)
    (noSelf : "self" ∉ kw.map Prod.fst)
    (noName : ∀ name, ("ambiguous_block_policy", .text name) ∉ kw) : s.Derivations kw where
  copies := sound.copies correlation
  plain hu hg w := by
    rw [sound.copies correlation, copied_own w hu, copied_own w hg]
    rfl
  rederived env caller id t p q copiedP copiedQ hp hq := by
    obtain ⟨u, g, made, w, stored, adds, kept, ran⟩ := Action.rederive_run env caller sound
      correlation once noSelf noName id copiedP copiedQ hp hq
    refine ⟨u, g, made, w, stored, adds, kept, ran, fun hu hg => ?_⟩
    rw [s.override_world kw t.world w, (s.withFlags u g).override_world kw t.world w]
    exact World.concur_override noSelf hu hg
  same hu hg env caller id t := by
    obtain ⟨u, g, made, w, stored, adds, -, ran⟩ := Action.rederive_run env caller sound
      correlation once noSelf noName id (copied_own t.world hu) (copied_own t.world hg) rfl rfl
    cases stored
    exact ⟨w, adds, ran⟩
  refused env caller id t f refused := Action.rederive_refused env caller id kw refused
  read w d u g hd := by
    have read := Settings.ofTable_insertAll once noSelf noName hd
    refine ⟨read, ?_, fun hu hg => ?_⟩
    · rintro rfl rfl
      exact read
    · rw [read]
      exact World.concur_override noSelf hu hg
  unchanged id data := ⟨Action.toTable_adds id s, Action.override_untouched _ kw,
    Action.settingsOfTable_untouched data⟩

/-- Fields to replace, two of which hold other kinds of values than settings start with. -/
def replacements : List (String × Value) :=
  [("max_depth", .none), ("ambiguous_block_policy", .policy .silent),
    ("enable_diagnostics", .tuple 7 [.int 1])]

theorem quoted_derivations_concur : quotedSettings.Sound ∧
    (quotedSettings.correlation = .none ∨ ∃ c, quotedSettings.correlation = .text c) ∧
    (replacements.map Prod.fst).Nodup ∧ "self" ∉ replacements.map Prod.fst ∧
    (∀ name, ("ambiguous_block_policy", .text name) ∉ replacements) ∧
    ∃ w, (World.empty .small).Adds w ∧
      (Action.rederive ⟨.initial .small, .none⟩ 1 quotedSettings replacements).run
          (fun _ _ _ => .ofOutcome .exhausted) (.initial .small) =
        (.value ⟨.int 0, .silent, .bool false, .none, .tuple 7 [.int 1],
          quotedSettings.correlation⟩, { State.initial .small with world := w }) := by
  have sound : quotedSettings.Sound :=
    ⟨⟨0, rfl, by decide⟩, .inr (.whole rfl (by decide))⟩
  have correlation : quotedSettings.correlation = .none ∨
      ∃ c, quotedSettings.correlation = .text c := .inr ⟨_, rfl⟩
  have once : (replacements.map Prod.fst).Nodup := by decide
  have noSelf : "self" ∉ replacements.map Prod.fst := by decide
  have noName : ∀ name, ("ambiguous_block_policy", .text name) ∉ replacements := by
    simp [replacements]
  obtain ⟨w, adds, ran⟩ := (derivations_concur sound correlation once noSelf noName).same rfl rfl
    ⟨.initial .small, .none⟩ (fun _ _ _ => .ofOutcome .exhausted) 1 (.initial .small)
  exact ⟨sound, correlation, once, noSelf, noName, w, adds, ran⟩

/-- Settings in the place of a flag. -/
def nestedSettings : Settings Value :=
  { Settings.standard with unreserve := .settings 1 .standard }

/-- Without a condition on the flags the two ways need not concur: in a table, settings become a
table. -/
theorem nested_derivations_differ : ¬ ∀ s : Settings Value, s.Sound →
    (s.correlation = .none ∨ ∃ c, s.correlation = .text c) → ∀ kw : List (String × Value),
    (kw.map Prod.fst).Nodup → "self" ∉ kw.map Prod.fst →
    (∀ name, ("ambiguous_block_policy", .text name) ∉ kw) →
    ∀ env caller id (t : State), ∃ r w, (Action.rederive env id s kw).run caller t =
        (.ofExcept r, { t with world := w }) ∧
      w.Concur (s.override t.world kw) r := by
  intro every
  have sound : nestedSettings.Sound := ⟨⟨2, rfl, by decide⟩, .inr (.whole rfl (by decide))⟩
  obtain ⟨r, w, ran, concur⟩ := every nestedSettings sound (.inl rfl) [("max_depth", .none)]
    (by decide) (by decide) (by simp) ⟨.initial .small, .none⟩
    (fun _ _ _ => .ofOutcome .exhausted) 1 (.initial .small)
  have derived : (Outcome.ofExcept r : Outcome (Settings Value)) = .value
      ({ nestedSettings with maxDepth := .none }.withFlags (.dict ⟨0⟩) (.bool true)) :=
    (congrArg Prod.fst ran).symm
  cases r with
  | error f => cases derived
  | ok q =>
    cases derived
    have differ : w.equal (.settings 1 { nestedSettings with maxDepth := .none })
        (.settings 2 ({ nestedSettings with maxDepth := .none }.withFlags (.dict ⟨0⟩)
          (.bool true))) = false := rfl
    exact Bool.false_ne_true (differ.symm.trans (concur 1 2))

end TagTree
