import TagTree.Proofs.Faults
import TagTree.Proofs.Tables

/-!
# The arguments of tag calls

Positional arguments are read in six shapes and in no other. Named arguments are spelled, gathered
and written after the entries of a mapping; the attributes that come of it are those entries and
names written one after another.
-/

namespace TagTree

/-! ### Positional arguments -/

/-- A value that is neither called nor a mapping. -/
def Value.IsScalar (v : Value) : Prop := (∀ c, v ≠ .callable c) ∧ v.mapping? = Option.none

/-- Positional arguments in one of their shapes: nothing, a block, a mapping with or without a
block after it, or a scalar with or without a mapping after it. -/
inductive Shape.Reads : List Value → Shape → Prop
  | nothing : Reads [] ⟨none, .none, none⟩
  | block (c : Callable Value) : Reads [.callable c] ⟨none, .none, some c⟩
  | mapping {v d} (hv : v.mapping? = some d) : Reads [v] ⟨some d, .none, none⟩
  | mappingBlock {v d} (hv : v.mapping? = some d) (c : Callable Value) :
      Reads [v, .callable c] ⟨some d, .none, some c⟩
  | scalar {v} (hv : v.IsScalar) : Reads [v] ⟨none, v, none⟩
  | scalarMapping {v x d} (hv : v.IsScalar) (hx : x.mapping? = some d) :
      Reads [v, x] ⟨some d, v, none⟩

theorem Value.kinds (v : Value) :
    (∃ c, v = .callable c) ∨ (∃ d, v.mapping? = some d) ∨ v.IsScalar := by
  cases v with
  | callable c => exact .inl ⟨c, rfl⟩
  | dict d => exact .inr (.inl ⟨d, rfl⟩)
  | view d => exact .inr (.inl ⟨d, rfl⟩)
  | _ => exact .inr (.inr ⟨fun c => by simp, rfl⟩)

namespace Shape

section Kinds

variable {v x : Value} {d : DictRef}

theorem ofOne_mapping (hv : v.mapping? = some d) : ofOne v = ⟨some d, .none, none⟩ := by
  cases v with
  | dict | view =>
    cases hv
    rfl
  | _ => cases hv

theorem ofOne_scalar (hv : v.IsScalar) : ofOne v = ⟨none, v, none⟩ := by
  obtain ⟨free, plain⟩ := hv
  cases v with
  | callable c => exact absurd rfl (free c)
  | dict | view => cases plain
  | _ => rfl

theorem ofTwo_block (hv : v.mapping? = some d) (c : Callable Value) :
    ofArguments [v, .callable c] = .ok ⟨some d, .none, some c⟩ := by
  cases v with
  | dict | view =>
    cases hv
    rfl
  | _ => cases hv

theorem ofTwo_mapping (hv : v.mapping? = some d) (hx : ∀ c, x ≠ .callable c) :
    ofArguments [v, x] = .error .mappingBeforeOther := by
  cases x with
  | callable c => exact absurd rfl (hx c)
  | _ =>
    cases v with
    | dict | view => rfl
    | _ => cases hv

theorem ofTwo_scalar (hv : v.IsScalar) : ofArguments [v, x] =
    match x.mapping? with
    | some d => .ok ⟨some d, v, none⟩
    | none => .error .textBeforeOther := by
  obtain ⟨free, plain⟩ := hv
  cases v with
  | callable c => exact absurd rfl (free c)
  | dict | view => cases plain
  | _ => rfl

end Kinds

theorem ofArguments_of_reads {args : List Value} {s : Shape} (h : Reads args s) :
    ofArguments args = .ok s := by
  cases h with
  | nothing => rfl
  | block c => rfl
  | mapping hv => exact congrArg Except.ok (ofOne_mapping hv)
  | mappingBlock hv c => exact ofTwo_block hv c
  | scalar hv => exact congrArg Except.ok (ofOne_scalar hv)
  | scalarMapping hv hx => rw [ofTwo_scalar hv, hx]

theorem reads_of_one (v : Value) : Reads [v] (ofOne v) := by
  rcases v.kinds with ⟨c, rfl⟩ | ⟨d, hv⟩ | hv
  · exact .block c
  · rw [ofOne_mapping hv]
    exact .mapping hv
  · rw [ofOne_scalar hv]
    exact .scalar hv

theorem reads_of_two {v x : Value} {s : Shape} (h : ofArguments [v, x] = .ok s) :
    Reads [v, x] s := by
  rcases v.kinds with ⟨c, rfl⟩ | ⟨d, hv⟩ | hv
  · cases h
  · by_cases hx : ∃ c, x = .callable c
    · obtain ⟨c, rfl⟩ := hx
      rw [ofTwo_block hv] at h
      cases h
      exact .mappingBlock hv c
    · rw [ofTwo_mapping hv fun c hc => hx ⟨c, hc⟩] at h
      cases h
  · rw [ofTwo_scalar hv] at h
    cases hx : x.mapping? with
    | none =>
      rw [hx] at h
      cases h
    | some d =>
      rw [hx] at h
      cases h
      exact .scalarMapping hv hx

/-- Positional arguments are read in a shape exactly if it is the one that they have. -/
theorem reads_iff {args : List Value} {s : Shape} :
    Reads args s ↔ ofArguments args = .ok s := by
  refine ⟨ofArguments_of_reads, fun h => ?_⟩
  match args, h with
  | [], h =>
    cases h
    exact .nothing
  | [v], h =>
    cases h
    exact reads_of_one v
  | [v, x], h => exact reads_of_two h
  | _ :: _ :: _ :: _, h => cases h

theorem not_reads_iff {args : List Value} :
    (¬ ∃ s, Reads args s) ↔ ∃ p, ofArguments args = .error p := by
  cases h : ofArguments args with
  | ok s => simp [reads_iff, h]
  | error p => simp [reads_iff, h]

end Shape

/-! ### Names -/

/-- A name as it is given stands for a name: where names lose the underscore that sets them apart,
a reserved word with an underscore stands for the word, and any other name for itself. -/
inductive Text.Stands (unreserves : Bool) : String → String → Prop
  | word {word : String} (on : unreserves = true) (reserved : word ∈ Text.reservedWords) :
      Stands unreserves (word ++ "_") word
  | other {name : String}
      (plain : unreserves = true → ∀ word ∈ Text.reservedWords, name ≠ word ++ "_") :
      Stands unreserves name name

theorem Text.unreserve_cases (name : String) :
    (∃ word ∈ reservedWords, name = word ++ "_" ∧ unreserve name = word) ∨
      ((∀ word ∈ reservedWords, name ≠ word ++ "_") ∧ unreserve name = name) := by
  unfold unreserve
  cases h : reservedWords.find? fun word => word ++ "_" == name with
  | some word =>
    have hname : word ++ "_" = name := by simpa using List.find?_some h
    exact .inl ⟨word, List.mem_of_find?_eq_some h, hname.symm, rfl⟩
  | none =>
    refine .inr ⟨fun word hw he => ?_, rfl⟩
    have hne := List.find?_eq_none.mp h word hw
    exact hne (by simp [he])

/-- The name that a given name stands for. -/
def Text.spelled (unreserves : Bool) (name : String) : String :=
  if unreserves then unreserve name else name

theorem Text.stands_spelled (unreserves : Bool) (name : String) :
    Stands unreserves name (spelled unreserves name) := by
  cases unreserves with
  | false => exact .other fun h => by cases h
  | true =>
    rcases unreserve_cases name with ⟨word, hw, rfl, hu⟩ | ⟨plain, hu⟩
    · have hs : spelled true (word ++ "_") = word := hu
      rw [hs]
      exact .word rfl hw
    · have hs : spelled true name = name := hu
      rw [hs]
      exact .other fun _ => plain

/-! ### Attributes -/

theorem exact_text (s : String) : Table.Exact Value.sameKey (.text s) := by
  intro k
  constructor
  · intro h
    cases k with
    | atom a =>
      cases a with
      | text t => simpa [Value.sameKey, Atom.same, Atom.equal] using h
      | _ => simp [Value.sameKey, Atom.same, Atom.equal, Atom.int?] at h
    | _ => simp [Value.sameKey] at h
  · rintro rfl
    simp [Value.sameKey, Atom.same, Atom.equal]

theorem sameKey_text_of_ne {s : String} {k : Value} (h : k ≠ .text s) :
    Value.sameKey (.text s) k = false := by
  cases k with
  | atom a =>
    cases a with
    | text t =>
      have hne : s ≠ t := fun he => h (by rw [he])
      simp [Value.sameKey, Atom.same, Atom.equal, hne]
    | _ => simp [Value.sameKey, Atom.same, Atom.equal, Atom.int?]
  | _ => simp [Value.sameKey]

/-- Attributes are a mapping's entries with names written after them, one after another: a key
keeps its first place and has the last value, and keys that are no texts are as in the mapping. -/
structure Attributes.Written (entries : Dict) (named : List (String × Value))
    (attributes : Attributes) : Prop where
  sequence : attributes = Table.insertAll Value.sameKey entries (Shape.namedAttributes named)
  places : attributes.map Prod.fst = entries.map Prod.fst ++
    ((named.map Prod.fst).filter fun name =>
      (Table.find? Value.sameKey (.text name) entries).isNone).eraseDups.map Value.text
  values : ∀ name, Table.find? Value.sameKey (.text name) attributes =
    (Table.find? (· == ·) name named.reverse <|>
      Table.find? Value.sameKey (.text name) entries)
  others : ∀ k, (∀ name, k ≠ .text name) →
    Table.find? Value.sameKey k attributes = Table.find? Value.sameKey k entries

namespace Shape

variable {named : List (String × Value)}

theorem exact_named (named : List (String × Value)) :
    ∀ e ∈ namedAttributes named, Table.Exact Value.sameKey e.1 := by
  intro e he
  obtain ⟨a, -, rfl⟩ := List.mem_map.mp he
  exact exact_text a.1

theorem namedAttributes_insert (name : String) (v : Value) (named : List (String × Value)) :
    namedAttributes (Table.insert (· == ·) name v named) =
      Table.insert Value.sameKey (.text name) v (namedAttributes named) := by
  induction named with
  | nil => rfl
  | cons a rest ih =>
    obtain ⟨m, u⟩ := a
    have hcons : namedAttributes ((m, u) :: rest) = (.text m, u) :: namedAttributes rest := rfl
    rw [hcons]
    by_cases hm : m = name
    · subst hm
      rw [Table.insert_self (exact_text m)]
      simp [Table.insert, namedAttributes]
    · have hne : Value.text m ≠ .text name := fun h => hm (by simpa using h)
      rw [Table.insert_other (exact_text name) hne, ← ih]
      simp [Table.insert, hm, namedAttributes]

theorem namedAttributes_insertAll (t named : List (String × Value)) :
    namedAttributes (Table.insertAll (· == ·) t named) =
      Table.insertAll Value.sameKey (namedAttributes t) (namedAttributes named) := by
  induction named generalizing t with
  | nil => rfl
  | cons a rest ih =>
    rw [Table.insertAll_cons, ih, namedAttributes_insert]
    rfl

/-- It does not matter to attributes that names which became equal fell together before. -/
theorem insertAll_gathered (entries : Dict) (named : List (String × Value)) :
    Table.insertAll Value.sameKey entries
        (namedAttributes (Table.ofEntries (· == ·) named)) =
      Table.insertAll Value.sameKey entries (namedAttributes named) := by
  have gathered : namedAttributes (Table.ofEntries (· == ·) named) =
      Table.ofEntries Value.sameKey (namedAttributes named) := namedAttributes_insertAll [] named
  rw [gathered]
  exact Table.insertAll_ofEntries entries (exact_named named)

theorem keys_insertAll_named (entries : Dict) (named : List (String × Value)) :
    (Table.insertAll Value.sameKey entries (namedAttributes named)).map Prod.fst =
      entries.map Prod.fst ++
        ((named.map Prod.fst).filter fun name =>
          (Table.find? Value.sameKey (.text name) entries).isNone).eraseDups.map Value.text := by
  induction named generalizing entries with
  | nil => simp [namedAttributes]
  | cons a rest ih =>
    obtain ⟨n, v⟩ := a
    have hexact := exact_text n
    -- what is new to the table once the name is written: what was new, less the name
    have fresh (m : String) : (Table.find? Value.sameKey (.text m)
          (Table.insert Value.sameKey (.text n) v entries)).isNone =
        (!(m == n) && (Table.find? Value.sameKey (.text m) entries).isNone) := by
      by_cases hm : m = n
      · rw [hm, Table.find?_insert_self hexact]
        simp
      · have hne : Value.sameKey (.text n) (.text m) = false :=
          sameKey_text_of_ne fun h => hm (by simpa using h)
        rw [Table.find?_insert_other hexact hne]
        simp [hm]
    have step : Table.insertAll Value.sameKey entries (namedAttributes ((n, v) :: rest)) =
        Table.insertAll Value.sameKey (Table.insert Value.sameKey (.text n) v entries)
          (namedAttributes rest) := rfl
    rw [step, ih, List.map_cons, List.filter_cons]
    simp only [fresh]
    by_cases hold : Value.text n ∈ entries.map Prod.fst
    · have hfound : (Table.find? Value.sameKey (.text n) entries).isNone = false := by
        cases hf : Table.find? Value.sameKey (.text n) entries with
        | none => exact absurd hold ((Table.find?_eq_none_iff hexact).mp hf)
        | some u => rfl
      have same (m : String) :
          (!(m == n) && (Table.find? Value.sameKey (.text m) entries).isNone) =
            (Table.find? Value.sameKey (.text m) entries).isNone := by
        by_cases hm : m = n
        · rw [hm, hfound]
          simp
        · simp [hm]
      rw [Table.keys_insert_old hexact hold, hfound, if_neg Bool.false_ne_true]
      simp only [same]
    · have hnone : (Table.find? Value.sameKey (.text n) entries).isNone = true := by
        rw [(Table.find?_eq_none_iff hexact).mpr hold]
        rfl
      rw [Table.keys_insert_fresh hexact hold, hnone, if_pos rfl, List.eraseDups_cons,
        List.filter_filter, List.append_assoc, List.map_cons]
      rfl

theorem find?_namedAttributes (name : String) (named : List (String × Value)) :
    Table.find? Value.sameKey (.text name) (namedAttributes named) =
      Table.find? (· == ·) name named := by
  induction named with
  | nil => rfl
  | cons a rest ih =>
    obtain ⟨m, u⟩ := a
    have hcons : namedAttributes ((m, u) :: rest) = (.text m, u) :: namedAttributes rest := rfl
    rw [hcons, Table.find?_cons, Table.find?_cons, ih]
    simp [Value.sameKey, Atom.same, Atom.equal]

theorem written_insertAll (entries : Dict) (named : List (String × Value)) :
    Attributes.Written entries named
      (Table.insertAll Value.sameKey entries (namedAttributes named)) where
  sequence := rfl
  places := keys_insertAll_named entries named
  values name := by
    have reversed : (namedAttributes named).reverse = namedAttributes named.reverse := by
      simp [namedAttributes]
    rw [Table.find?_insertAll (exact_text name) entries (exact_named named), reversed,
      find?_namedAttributes]
  others k hk := by
    refine Table.find?_insertAll_other entries (exact_named named) fun e he => ?_
    obtain ⟨a, -, rfl⟩ := List.mem_map.mp he
    exact sameKey_text_of_ne (hk a.1)

end Shape

/-- The attributes of a call: none without a mapping and names, and else the entries of the
mapping with the names, as they are spelled, written after them. -/
structure Attributes.Collected (unreserves : Bool) (mapping : Option Dict)
    (named : List (String × Value)) (attributes : Option Attributes) : Prop where
  absent : attributes = none ↔ mapping = none ∧ named = []
  written : ∀ t, attributes = some t → ∃ spelled,
    List.Forall₂ (fun a r => Text.Stands unreserves a.1 r.1 ∧ r.2 = a.2) named spelled ∧
      Attributes.Written (mapping.getD []) spelled t

theorem Shape.mergeAttributes_eq_none_iff {mapping : Option Dict}
    {named : List (String × Value)} :
    mergeAttributes mapping named = none ↔ mapping = none ∧ named = [] := by
  cases mapping with
  | some d => simp [mergeAttributes]
  | none => cases named <;> simp [mergeAttributes]

theorem Shape.eq_of_mergeAttributes {mapping : Option Dict} {named : List (String × Value)}
    {t : Attributes} (h : mergeAttributes mapping named = some t) :
    t = Table.insertAll Value.sameKey (mapping.getD []) (namedAttributes named) := by
  cases mapping with
  | some d => simpa [mergeAttributes] using h.symm
  | none =>
    cases named with
    | nil => cases h
    | cons a rest => simpa [mergeAttributes] using h.symm

theorem Attributes.Collected.merged (unreserves : Bool) (mapping : Option Dict)
    (named : List (String × Value)) :
    Collected unreserves mapping named (Shape.mergeAttributes mapping
      (Table.ofEntries (· == ·)
        (named.map fun a => (Text.spelled unreserves a.1, a.2)))) where
  absent := by
    rw [Shape.mergeAttributes_eq_none_iff, Table.ofEntries_eq_nil_iff, List.map_eq_nil_iff]
  written t ht := by
    have stands : List.Forall₂ (fun a r => Text.Stands unreserves a.1 r.1 ∧ r.2 = a.2) named
        (named.map fun a => (Text.spelled unreserves a.1, a.2)) := by
      rw [List.forall₂_map_right_iff, List.forall₂_same]
      exact fun a _ => ⟨Text.stands_spelled unreserves a.1, rfl⟩
    have ht' := Shape.eq_of_mergeAttributes ht
    rw [Shape.insertAll_gathered] at ht'
    rw [ht']
    exact ⟨_, stands, Shape.written_insertAll _ _⟩

/-! ### Calls -/

theorem TagCall.element_attributes (c : TagCall) : c.element.attributes = c.attributes := by
  unfold element
  split <;> rfl

theorem TagCall.element_content (c : TagCall) :
    c.element.content = Element.textContent c.text := by
  unfold element
  rcases World.textContent_cases c.text with ⟨hnone, hc⟩ | ⟨hsome, hc⟩
  · rw [hc, hnone]
    rfl
  · rw [hc, hsome]
    rfl

theorem World.resolveName_of_flag {w : World} {c : Configuration} {unreserves : Bool}
    (flag : w.unreserves c = .ok unreserves) (name : String) :
    w.resolveName c name = .ok (Text.spelled unreserves name) := by
  rw [resolveName, flag]
  rfl

theorem World.resolveNamed_of_flag {w : World} {c : Configuration} {unreserves : Bool}
    {named : List (String × Value)} (flag : named = [] ∨ w.unreserves c = .ok unreserves) :
    w.resolveNamed c named = .ok (Table.ofEntries (· == ·)
      (named.map fun a => (Text.spelled unreserves a.1, a.2))) := by
  rcases flag with rfl | flag
  · rfl
  · have spelled (xs : List (String × Value)) :
        (xs.mapM fun a => do
          let name ← w.resolveName c a.1
          pure (name, a.2)) =
        (.ok (xs.map fun a => (Text.spelled unreserves a.1, a.2)) :
          Except Fault (List (String × Value))) := by
      induction xs with
      | nil => rfl
      | cons a rest ih =>
        rw [List.mapM_cons, resolveName_of_flag flag, ih]
        rfl
    rw [resolveNamed, spelled]
    rfl

theorem Fault.Textual.kind_ne {f : Fault} (h : f.Textual) : f.kind ≠ .argumentShape := by
  cases f with
  | notIndexSized kind =>
    have hk : kind = .overflow := h
    simp [Fault.kind, hk]
  | privateName | noAttribute | noAttributeOfKind | noRoot | notRepeatable => simp [Fault.kind]
  | textTooLong | outOfMemory | unwrittenInteger => simp [Fault.kind]
  | _ => exact h.elim

/-- A call whose arguments have been read: the limit on nesting and the tag are still to be
checked. -/
def World.admitRead (w : World) (c : Configuration) (depth : Nat) (name : Value)
    (attributes : Option Attributes) (s : Shape) : Outcome TagCall := do
  let limit ← Outcome.ofExcept (w.settingOf c .maxDepth)
  w.checkLimit name limit depth s.block.isSome
  let tag ← Outcome.ofExcept (Element.tagOf name)
  pure ⟨tag, attributes, s.text, s.block⟩

namespace World

variable {w : World}

theorem checkLimit_unshaped (name limit : Value) (depth : Nat) (hasBlock : Bool) :
    (w.checkLimit name limit depth hasBlock).FailsOnly (fun f => f.kind ≠ .argumentShape)
      True := by
  have named : (w.write name).FailsOnly (fun f => f.kind ≠ .argumentShape) True :=
    (write_textual name).imp fun _ => Fault.Textual.kind_ne
  have limited : (w.limitText limit).FailsOnly (fun f => f.kind ≠ .argumentShape) True :=
    (limitText_textual limit).imp fun _ => Fault.Textual.kind_ne
  unfold checkLimit
  split
  · split
    · rename_i f hl
      have hf : ∃ v : Value, f = .notComparable ">=" "int" v.typeName := by
        unfold limitReached at hl
        split at hl
        · cases hl
        · cases hl
        · cases hl
        · split at hl
          · cases hl
          · cases hl
            exact ⟨_, rfl⟩
      obtain ⟨v, rfl⟩ := hf
      simp [Outcome.FailsOnly, Fault.kind]
    · trivial
    · refine named.bind fun text _ => limited.bind fun shown _ => ?_
      simp [Outcome.FailsOnly, Fault.kind]
  · trivial

theorem admitRead_unshaped (c : Configuration) (depth : Nat) (name : Value)
    (attributes : Option Attributes) (s : Shape) :
    (w.admitRead c depth name attributes s).FailsOnly (fun f => f.kind ≠ .argumentShape)
      True := by
  have settings : (Outcome.ofExcept (w.settingOf c .maxDepth)).FailsOnly
      (fun f => f.kind ≠ .argumentShape) True :=
    Outcome.failsOnly_ofExcept fun f hf => (settingOf_textual hf).kind_ne
  have tags : (Outcome.ofExcept (Element.tagOf name)).FailsOnly
      (fun f => f.kind ≠ .argumentShape) True := by
    refine Outcome.failsOnly_ofExcept fun f hf => ?_
    have he : f = .emptyTag := by
      unfold Element.tagOf at hf
      split at hf
      · split at hf
        · cases hf
          rfl
        · cases hf
      · cases hf
        rfl
    rw [he]
    simp [Fault.kind]
  exact settings.bind fun limit _ => (checkLimit_unshaped name limit depth _).bind
    fun _ _ => tags.bind fun tag _ => trivial

section Running

variable {b : BuilderRef} {x : Builder} {session : Session} {unreserves : Bool} {name : Value}
  {args : List Value} {named : List (String × Value)}

theorem admitCall_of_read (hx : w.builder? b = some x) (hs : x.session = some session)
    (flag : named = [] ∨ w.unreserves x.configuration = .ok unreserves) {s : Shape}
    (h : Shape.ofArguments args = .ok s) :
    w.admitCall b name args named = w.admitRead x.configuration session.depth name
      (Shape.mergeAttributes (s.mapping.map w.store.entries) (Table.ofEntries (· == ·)
        (named.map fun a => (Text.spelled unreserves a.1, a.2)))) s := by
  simp only [admitCall, hx, hs, admitInSession, resolveNamed_of_flag flag, h,
    Outcome.ofExcept_ok, Outcome.value_bind]
  rfl

theorem admitCall_of_problem (hx : w.builder? b = some x) (hs : x.session = some session)
    (flag : named = [] ∨ w.unreserves x.configuration = .ok unreserves) {p : ShapeProblem}
    (h : Shape.ofArguments args = .error p) {text : String} (hn : w.write name = .value text) :
    w.admitCall b name args named = .fault (.argumentShape name text args p) := by
  simp only [admitCall, hx, hs, admitInSession, resolveNamed_of_flag flag, h, hn,
    Outcome.ofExcept_ok, Outcome.value_bind]

end Running

end World

/-- In a running build a tag call is refused for its shape exactly if its positional arguments are
read in none. In a shape, the call has its text and block and the collected attributes, and so has
the element that it creates; what can still refuse it is the limit on nesting, and the tag. -/
theorem arguments_resolved {w : World} {b : BuilderRef} {x : Builder} {session : Session}
    {unreserves : Bool} {name : Value} {text : String} {named : List (String × Value)}
    (hx : w.builder? b = some x) (hs : x.session = some session)
    (flag : named = [] ∨ w.unreserves x.configuration = .ok unreserves)
    (hn : w.write name = .value text) (args : List Value) :
    ((∃ f, w.admitCall b name args named = .fault f ∧ f.kind = .argumentShape) ↔
      ¬ ∃ s, Shape.Reads args s) ∧
    ((¬ ∃ s, Shape.Reads args s) →
      ∃ p, w.admitCall b name args named = .fault (.argumentShape name text args p)) ∧
    ∀ s, Shape.Reads args s → ∃ attributes,
      Attributes.Collected unreserves (s.mapping.map w.store.entries) named attributes ∧
      w.admitCall b name args named =
        w.admitRead x.configuration session.depth name attributes s ∧
      ∀ c, w.admitCall b name args named = .value c →
        c.block = s.block ∧ c.element.attributes = attributes ∧
          c.element.content = Element.textContent s.text := by
  have refused : (¬ ∃ s, Shape.Reads args s) →
      ∃ p, w.admitCall b name args named = .fault (.argumentShape name text args p) := by
    intro none
    obtain ⟨p, hp⟩ := Shape.not_reads_iff.mp none
    exact ⟨p, World.admitCall_of_problem hx hs flag hp hn⟩
  refine ⟨⟨?_, ?_⟩, refused, ?_⟩
  · rintro ⟨f, hf, hkind⟩ ⟨s, hs'⟩
    rw [World.admitCall_of_read hx hs flag (Shape.reads_iff.mp hs')] at hf
    have unshaped := World.admitRead_unshaped (w := w) x.configuration session.depth name
      (Shape.mergeAttributes (s.mapping.map w.store.entries) (Table.ofEntries (· == ·)
        (named.map fun a => (Text.spelled unreserves a.1, a.2)))) s
    rw [hf] at unshaped
    exact unshaped hkind
  · intro none
    obtain ⟨p, hp⟩ := refused none
    exact ⟨_, hp, rfl⟩
  · intro s hs'
    have admitted : w.admitCall b name args named = _ :=
      World.admitCall_of_read hx hs flag (Shape.reads_iff.mp hs')
    refine ⟨_, .merged unreserves _ named, admitted, fun c hc => ?_⟩
    rw [admitted] at hc
    obtain ⟨limit, -, hc⟩ := bind_eq_value hc
    obtain ⟨-, -, hc⟩ := bind_eq_value hc
    obtain ⟨tag, -, hc⟩ := bind_eq_value hc
    cases hc
    exact ⟨rfl, TagCall.element_attributes _, TagCall.element_content _⟩

/-- A builder in the middle of a build, and a mapping whose keys meet those of named arguments. -/
def busy : World where
  store :=
    { Store.empty .small with
      dicts := #[[(.text "x", .int 1), (.text "class_", .int 0), (.text "class", .int 2)]] }
  builders := #[(Builder.idle (.settings .standard) .none 0).start]
  journal := []

/-- Named arguments that fall together with one another and with a key of the mapping; and two
texts, which are no shape. -/
theorem busy_arguments :
    (∃ c, busy.admitCall ⟨0⟩ (.text "a") [.dict ⟨0⟩]
        [("class_", .int 3), ("for_", .int 5), ("class", .int 4)] = .value c ∧
      c.element.attributes = some [(.text "x", .int 1), (.text "class_", .int 0),
        (.text "class", .int 4), (.text "for", .int 5)] ∧
      Attributes.Collected true
        (some [(.text "x", .int 1), (.text "class_", .int 0), (.text "class", .int 2)])
        [("class_", .int 3), ("for_", .int 5), ("class", .int 4)] c.element.attributes) ∧
    ∃ p, busy.admitCall ⟨0⟩ (.text "a") [.text "s", .text "t"] [] =
      .fault (.argumentShape (.text "a") "a" [.text "s", .text "t"] p) := by
  have hx : busy.builder? ⟨0⟩ = some (Builder.idle (.settings .standard) .none 0).start := rfl
  have flag : busy.unreserves (.settings .standard) = .ok true := rfl
  have hn : busy.write (.text "a") = .value "a" := rfl
  refine ⟨?_, ?_⟩
  · have keyed : [("class_", Value.int 3), ("for_", .int 5), ("class", .int 4)] = [] ∨
        busy.unreserves (.settings .standard) = .ok true := .inr flag
    obtain ⟨-, -, shapes⟩ := arguments_resolved hx rfl keyed hn [.dict ⟨0⟩]
    obtain ⟨attributes, collected, -, made⟩ := shapes _ (.mapping rfl)
    have admitted : busy.admitCall ⟨0⟩ (.text "a") [.dict ⟨0⟩]
        [("class_", .int 3), ("for_", .int 5), ("class", .int 4)] =
      .value ⟨"a", some [(.text "x", .int 1), (.text "class_", .int 0), (.text "class", .int 4),
        (.text "for", .int 5)], .none, none⟩ := by rfl
    obtain ⟨-, hattributes, -⟩ := made _ admitted
    refine ⟨_, admitted, rfl, ?_⟩
    rw [hattributes]
    exact collected
  · have unkeyed : ([] : List (String × Value)) = [] ∨
        busy.unreserves (.settings .standard) = .ok true := .inl rfl
    obtain ⟨-, refused, -⟩ := arguments_resolved hx rfl unkeyed hn [.text "s", .text "t"]
    exact refused fun ⟨s, hs⟩ => by cases Shape.ofArguments_of_reads hs

end TagTree
