import TagTree.Proofs.Indentation
import TagTree.Proofs.Json.RoundTrip
import TagTree.Settings.Table

/-!
# Settings spelled and read back

Settings are spelled as a table, whose policy stands by name, and as the JSON text of that
table. Either spelling is read back as the same settings.
-/

namespace TagTree

open Json

/-! ### Fields by name -/

namespace Settings

def spelled (fields : List (String × Value)) : List (Value × Value) :=
  fields.map fun field => (.text field.1, field.2)

theorem foldl_spelled (fields : List (String × Value)) (d : Draft) :
    (spelled fields).foldl (fun d entry =>
      match entry.1 with
      | .text name => d.set name entry.2
      | _ => d) d = d.setAll fields := by
  induction fields generalizing d with
  | nil => rfl
  | cons field rest ih => exact ih (d.set field.1 field.2)

theorem ofEntries_spelled (w : World) (fields : List (String × Value)) :
    ofEntries w (spelled fields) =
      (refuseUnknown w ((spelled fields).map Prod.fst)).bind fun _ =>
        (policyOf (Draft.standard.setAll fields).policy).bind fun policy =>
          Draft.check { Draft.standard.setAll fields with policy := policy } := by
  rw [← foldl_spelled]
  rfl

/-- Of a dictionary whose keys form a table these are checked first. -/
theorem ofTable_dict {w : World} {d : DictRef} {table : Dict}
    (h : Store.tableOf (((w.store.entries d).map Prod.fst).map fun v => (v, .none)) = .ok table) :
    ofTable w (.dict d) = (refuseUnknown w (table.map Prod.fst)).bind fun _ =>
      ofEntries w (w.store.entries d) := by
  show (Store.tableOf (((w.store.entries d).map Prod.fst).map fun v => (v, .none))).bind _ = _
  rw [h]
  rfl

end Settings

/-! ### Plain settings -/

/-- Settings that spell out: whole numbers within the limit of digits, truth values, and a
correlation that is absent or a text. -/
structure Settings.Plain (s : Settings Value) : Prop where
  width : ∃ n, s.indentWidth.int? = some n ∧ 0 ≤ n ∧ InLimit n
  unreserve : ∃ b, s.unreserve = .bool b
  maxDepth : s.maxDepth = .none ∨ ∃ n, s.maxDepth.int? = some n ∧ 0 < n ∧ InLimit n
  diagnostics : ∃ b, s.diagnostics = .bool b
  correlation : s.correlation = .none ∨ ∃ t, s.correlation = .text t

theorem Settings.standard_plain : Settings.standard.Plain where
  width := ⟨2, rfl, by decide, by decide⟩
  unreserve := ⟨true, rfl⟩
  maxDepth := .inr ⟨200, rfl, by decide, by decide⟩
  diagnostics := ⟨true, rfl⟩
  correlation := .inl rfl

/-- The atoms of plain settings, beside their policy. -/
structure Spelling where
  width : Atom
  policy : Policy
  unreserve : Atom
  maxDepth : Atom
  diagnostics : Atom
  correlation : Atom

namespace Spelling

def settings (x : Spelling) : Settings Value :=
  ⟨.atom x.width, x.policy, .atom x.unreserve, .atom x.maxDepth, .atom x.diagnostics,
    .atom x.correlation⟩

def entries (x : Spelling) : List (String × Atom) :=
  [("indent_width", x.width), ("ambiguous_block_policy", .text x.policy.name),
    ("strip_keyword_underscore", x.unreserve), ("max_depth", x.maxDepth),
    ("enable_diagnostics", x.diagnostics), ("correlation_id", x.correlation)]

/-- The entries as answers show them. -/
def table (x : Spelling) : List (Datum × Datum) :=
  x.entries.map fun entry => (.text entry.1, .atom entry.2)

/-- The entries as a dictionary holds them. -/
def dict (x : Spelling) : Dict := x.entries.map fun entry => (.text entry.1, .atom entry.2)

/-- A spelling of settings that pass their checks, of atoms that are read back. -/
structure Sound (x : Spelling) : Prop where
  readable : ∀ entry ∈ x.entries, ReadableAtom entry.2
  width : Draft.isIndentWidth (.atom x.width) = true
  maxDepth : x.maxDepth = .none ∨ Draft.atMostZero (.atom x.maxDepth) = .ok false

end Spelling

theorem atom_of_int {v : Value} {n : Int} (h : v.int? = some n) (hn : InLimit n) :
    ∃ a, v = .atom a ∧ ReadableAtom a := by
  cases v with
  | atom a =>
    refine ⟨a, rfl, ?_⟩
    cases a with
    | bool b => trivial
    | int m =>
      cases h
      exact hn
    | _ => cases h
  | _ => cases h

theorem atMostZero_of_int {v : Value} {n : Int} (h : v.int? = some n) (hn : 0 < n) :
    Draft.atMostZero v = .ok false := by
  have hle : ¬ n ≤ 0 := Int.not_le.mpr hn
  unfold Draft.atMostZero
  split
  · cases h
  · rfl
  · simp only [h, decide_eq_false hle]

/-- Plain settings have a sound spelling. -/
theorem Settings.Plain.spelling {s : Settings Value} (h : s.Plain) :
    ∃ x : Spelling, x.settings = s ∧ x.Sound := by
  obtain ⟨width, policy, unreserve, maxDepth, diagnostics, correlation⟩ := s
  obtain ⟨⟨n, hn, hle, hlimit⟩, ⟨b, rfl⟩, hdepth, ⟨d, rfl⟩, hcorrelation⟩ := h
  obtain ⟨w, rfl, hw⟩ := atom_of_int hn hlimit
  obtain ⟨m, rfl, hm, hmax⟩ : ∃ m, maxDepth = .atom m ∧ ReadableAtom m ∧
      (m = .none ∨ Draft.atMostZero (.atom m) = .ok false) := by
    rcases hdepth with rfl | ⟨k, hk, hpos, hlimit⟩
    · exact ⟨.none, rfl, trivial, .inl rfl⟩
    · obtain ⟨m, rfl, hm⟩ := atom_of_int hk hlimit
      refine ⟨m, rfl, hm, .inr (atMostZero_of_int hk hpos)⟩
  obtain ⟨c, rfl, hc⟩ : ∃ c, correlation = .atom c ∧ ReadableAtom c := by
    rcases hcorrelation with rfl | ⟨t, rfl⟩
    · exact ⟨.none, rfl, trivial⟩
    · exact ⟨.text t, rfl, trivial⟩
  refine ⟨⟨w, policy, .bool b, m, .bool d, c⟩, rfl, ?_, ?_, hmax⟩
  · simp [Spelling.entries, hw, hm, hc]
  · simpa [Draft.isIndentWidth, hn] using hle

/-! ### Spelling -/

theorem copied_own (w : World) {v : Value} (own : v.isOwnCopy = true) :
    Settings.copiedWithin w World.readingDepth v = .ok (.value v) := by
  cases v with
  | atom a => rfl
  | callable c => exact if_pos own
  | _ => cases own

theorem copied_atom (w : World) (a : Atom) :
    Settings.copiedWithin w World.readingDepth (.atom a) = .ok (.value (.atom a)) :=
  copied_own w rfl

/-- A whole number repeats one character unless it is beyond the size of an index or of
memory. -/
theorem length_one {memory : Nat} {v : Value} {i : Int} (hi : v.int? = some i) :
    Repetition.length memory 1 v = if isIndexSized i then
      if i.toNat ≤ memory then .ok i.toNat else .error .outOfMemory
    else .error (.notIndexSized .overflow) := by
  rw [Repetition.length_int hi, Nat.one_mul]
  by_cases hsize : isIndexSized i = true
  · have hindex : i.toNat ≤ Repetition.greatestLength := by
      have hlt : i < Int.pow 2 63 := by
        simp only [isIndexSized, Bool.and_eq_true, decide_eq_true_eq] at hsize
        exact hsize.2
      have hpow : Int.pow 2 63 = 9223372036854775808 := rfl
      have hgreatest : Repetition.greatestLength = 9223372036854775807 := rfl
      omega
    rw [if_pos hsize, if_pos hsize, if_pos hindex]
  · rw [if_neg hsize, if_neg hsize]

theorem indentUnit_int {memory : Nat} {v : Value} {i : Int} (hi : v.int? = some i) :
    Settings.indentUnit memory v = (Repetition.length memory 1 v).map fun n =>
      some (String.ofList (List.replicate n ' ')) := by
  unfold Settings.indentUnit
  split
  · cases hi
  · cases hi
  · cases Repetition.length memory 1 v <;> rfl

theorem layout_spaces (n : Nat) : Layout (some (String.ofList (List.replicate n ' '))) := by
  intro unit hunit c hc
  cases hunit
  rw [String.toList_ofList] at hc
  rw [List.eq_of_mem_replicate hc]
  rfl

/-! ### Records in JSON text -/

theorem storeEntries_record (entries : List (String × Atom)) (s : Store) :
    storeEntries (entries.map fun entry => (entry.1, .atom entry.2)) s =
      (.value (entries.map fun entry => (.text entry.1, .atom entry.2)), s) := by
  induction entries with
  | nil => rfl
  | cons entry rest ih =>
    simp only [List.map_cons, storeEntries, store, Proc.bind_apply, Proc.pure_apply, ih]

/-- A text that is an object of atoms gives the settings of its entries. -/
theorem Settings.ofJson_record {entries : List (String × Atom)} {text : String}
    (hparse : parse (.text text) = .ok (record entries)) (w : World) :
    Settings.ofJson (.text text) w = (.ofExcept (Settings.ofEntries w
      (entries.map fun entry => (.text entry.1, .atom entry.2))), w) := by
  rw [Settings.ofJson, hparse]
  simp only [record, Proc.bind_apply, Proc.ofExcept_apply, Outcome.ofExcept_ok, World.inStore,
    Proc.onPart, storeEntries_record, Proc.get]

namespace Spelling

variable {x : Spelling}

theorem settings_table (x : Spelling) (w : World) :
    x.settings.table w = .ok (.dict x.table) := by
  simp only [Settings.table, Settings.copies, Settings.copiesWith, settings, copied_atom]
  rfl

/-! ### Reading back -/

theorem Sound.check (hx : x.Sound) : Draft.check ⟨.atom x.width, .policy x.policy,
    .atom x.unreserve, .atom x.maxDepth, .atom x.diagnostics, .atom x.correlation⟩ =
      .ok x.settings := by
  obtain ⟨w, p, u, m, d, c⟩ := x
  obtain ⟨-, hw, hm⟩ := hx
  simp only [Draft.check, hw, Bool.not_true, Bool.false_eq_true, if_false]
  rcases hm with rfl | hm
  · rfl
  · rw [hm]
    cases Value.isNone (.atom m) <;> rfl

theorem draft_dict (x : Spelling) : Draft.standard.setAll
    (x.entries.map fun entry => (entry.1, .atom entry.2)) = ⟨.atom x.width, .text x.policy.name,
      .atom x.unreserve, .atom x.maxDepth, .atom x.diagnostics, .atom x.correlation⟩ := by
  simp [Draft.setAll, entries, Draft.set]

theorem known_dict (x : Spelling) (w : World) :
    Settings.refuseUnknown w (x.dict.map Prod.fst) = .ok () := rfl

theorem Sound.ofEntries_dict (hx : x.Sound) (w : World) :
    Settings.ofEntries w x.dict = .ok x.settings := by
  have hdict : x.dict =
      Settings.spelled (x.entries.map fun entry => (entry.1, .atom entry.2)) := by
    rw [Settings.spelled, List.map_map]
    rfl
  have hpolicy : Settings.policyOf (.text x.policy.name) = .ok (.policy x.policy) := by
    cases x.policy <;> rfl
  rw [hdict, Settings.ofEntries_spelled, ← hdict, x.known_dict, x.draft_dict]
  simp only [Except.bind, hpolicy]
  exact hx.check

theorem Sound.ofTable_dict (hx : x.Sound) {w : World} {d : DictRef}
    (hd : w.store.entries d = x.dict) : Settings.ofTable w (.dict d) = .ok x.settings := by
  have hkeys : Store.tableOf ((x.dict.map Prod.fst).map fun v => (v, .none)) =
      .ok ((x.dict.map Prod.fst).map fun v => (v, .none)) := rfl
  have hnames : ((x.dict.map Prod.fst).map fun v => (v, Value.none)).map Prod.fst =
      x.dict.map Prod.fst := by
    simp [List.map_map, Function.comp_def]
  rw [← hd] at hkeys
  rw [Settings.ofTable_dict hkeys, hd, hnames, x.known_dict, hx.ofEntries_dict w]
  rfl

/-- A text that spells settings is read as these. -/
theorem Sound.ofJson (hx : x.Sound) {text : String}
    (hparse : parse (.text text) = .ok (record x.entries)) (w : World) :
    Settings.ofJson (.text text) w = (.value x.settings, w) := by
  have hentries := hx.ofEntries_dict w
  rw [Settings.ofJson_record hparse w]
  unfold dict at hentries
  rw [hentries]
  rfl

theorem Sound.readable_record (hx : x.Sound) : Readable (record x.entries) :=
  Json.readable_record (by simp [entries]) hx.readable

end Spelling

/-- Plain settings are read back from their table, and from their JSON text in every layout
that an indent gives. A whole number gives a layout unless a run of so many spaces is beyond the
size of an index or of memory; then no text is written. -/
theorem settings_read_back {s : Settings Value} (plain : s.Plain) (w : World) :
    (∀ indent i, indent.int? = some i → isIndexSized i = true →
      i.toNat ≤ w.store.host.memory → ∃ text, s.toJson w indent = .ok text ∧
        ∀ w', Settings.ofJson (.text text) w' = (.value s, w')) ∧
    (∀ indent i, indent.int? = some i → isIndexSized i = false →
      s.toJson w indent = .error (.notIndexSized .overflow)) ∧
    (∀ indent i, indent.int? = some i → isIndexSized i = true →
      w.store.host.memory < i.toNat → s.toJson w indent = .error .outOfMemory) ∧
    ∃ entries : List (String × Atom),
      s.table w = .ok (.dict (entries.map fun entry => (.text entry.1, .atom entry.2))) ∧
      ∀ w' d, w'.store.entries d = entries.map (fun entry => (.text entry.1, .atom entry.2)) →
        Settings.ofTable w' (.dict d) = .ok s := by
  obtain ⟨x, rfl, sound⟩ := plain.spelling
  have hwrite : ∀ indent i, indent.int? = some i → x.settings.toJson w indent =
      (Repetition.length w.store.host.memory 1 indent).bind fun n =>
        write (some (String.ofList (List.replicate n ' '))) 0 (datum (record x.entries)) := by
    intro indent i hi
    rw [Settings.toJson, x.settings_table w, indentUnit_int hi, datum_record]
    cases Repetition.length w.store.host.memory 1 indent <;> rfl
  refine ⟨?_, ?_, ?_, x.entries, x.settings_table w, fun w' d hd => sound.ofTable_dict hd⟩
  · intro indent i hi hsize hmemory
    obtain ⟨text, htext, hparse⟩ := document_write (layout_spaces i.toNat) sound.readable_record
    refine ⟨text, ?_, sound.ofJson hparse⟩
    rw [hwrite indent i hi, length_one hi, if_pos hsize, if_pos hmemory]
    exact htext
  · intro indent i hi hsize
    rw [hwrite indent i hi, length_one hi, if_neg (by simp [hsize])]
    rfl
  · intro indent i hi hsize hmemory
    rw [hwrite indent i hi, length_one hi, if_pos hsize, if_neg (Nat.not_le.mpr hmemory)]
    rfl

def quotedSettings : Settings Value :=
  ⟨.int 0, .strict, .bool false, .int 10000000000000000000000000000000000000000, .bool true,
    .text "a\"\\\n\u00e9😀"⟩

theorem quoted_settings_read_back : quotedSettings.Plain ∧
    ∃ text, quotedSettings.toJson (.empty .small) (.int (-1)) = .ok text ∧
      Settings.ofJson (.text text) (.empty .small) = (.value quotedSettings, .empty .small) := by
  have plain : quotedSettings.Plain :=
    { width := ⟨0, rfl, by decide, by decide⟩
      unreserve := ⟨false, rfl⟩
      maxDepth := .inr ⟨_, rfl, by decide, by decide⟩
      diagnostics := ⟨true, rfl⟩
      correlation := .inr ⟨_, rfl⟩ }
  obtain ⟨hread, -⟩ := settings_read_back plain (.empty .small)
  obtain ⟨text, htext, hback⟩ := hread (.int (-1)) (-1) rfl rfl (by decide)
  exact ⟨plain, text, htext, hback (.empty .small)⟩

/-- Without a bound on the indent settings need not come back: there is no text to read. -/
theorem endless_indent_not_written : ¬ ∀ s : Settings Value, s.Plain → ∀ (w : World) (i : Int),
    ∃ text, s.toJson w (.int i) = .ok text ∧ Settings.ofJson (.text text) w = (.value s, w) := by
  intro every
  obtain ⟨text, htext, -⟩ := every .standard Settings.standard_plain (.empty .small) (10 ^ 30)
  have hfault : Settings.standard.toJson (.empty .small) (.int (10 ^ 30)) =
      .error (.notIndexSized .overflow) := rfl
  rw [hfault] at htext
  cases htext

end TagTree
