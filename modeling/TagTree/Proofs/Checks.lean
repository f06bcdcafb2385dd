import TagTree.Proofs.Keeping
import TagTree.Proofs.Spellings

/-!
# What settings are accepted

Settings are made exactly from drafts whose fields pass the checks. What is not accepted is
refused as invalid settings, except for one slip: a greatest depth that is no number cannot be
compared, and not-a-number passes the comparison.
-/

namespace TagTree

/-! ### Sound settings -/

/-- A number as the comparison with zero takes it. -/
def Value.isNumber : Value → Bool
  | .atom (.float _) | .atom (.nan _) => true
  | v => v.int?.isSome

/-- A number above zero, or not-a-number. -/
inductive Value.PassesDepth : Value → Prop
  | whole {v : Value} {n : Int} (h : v.int? = some n) (hn : 0 < n) : PassesDepth v
  | float {x : Double} (h : x.compareInt 0 = .gt) : PassesDepth (.atom (.float x))
  | nan (id : Nat) : PassesDepth (.atom (.nan id))

/-- Settings whose fields pass the checks. -/
structure Settings.Sound (s : Settings Value) : Prop where
  width : ∃ n, s.indentWidth.int? = some n ∧ 0 ≤ n
  depth : s.maxDepth = .none ∨ s.maxDepth.PassesDepth

theorem Value.passesDepth_iff {v : Value} {n : Int} (h : v.int? = some n) :
    v.PassesDepth ↔ 0 < n := by
  refine ⟨fun hv => ?_, .whole h⟩
  cases hv with
  | whole h' hn =>
    cases h.symm.trans h'
    exact hn
  | float | nan => cases h

theorem Value.passesDepth_float {x : Double} :
    (Value.atom (.float x)).PassesDepth ↔ x.compareInt 0 = .gt := by
  refine ⟨fun hv => ?_, .float⟩
  cases hv with
  | whole h => cases h
  | float h => exact h

theorem Value.PassesDepth.isNumber {v : Value} (h : v.PassesDepth) : v.isNumber = true := by
  cases h with
  | @whole v n h =>
    unfold Value.isNumber
    split
    · rfl
    · rfl
    · rw [h]
      rfl
  | float | nan => rfl

/-- The comparison with zero tells, of numbers, those that pass. -/
theorem atMostZero_ends (v : Value) :
    (Draft.atMostZero v = .ok false ∧ v.PassesDepth) ∨
    (Draft.atMostZero v = .ok true ∧ ¬ v.PassesDepth) ∨
    (Draft.atMostZero v = .error (.notComparable "<=" v.comparedName "int") ∧
      v.isNumber = false) := by
  unfold Draft.atMostZero
  split
  · rename_i x
    rw [Value.passesDepth_float]
    cases x.compareInt 0 <;> simp
  · exact .inl ⟨rfl, .nan _⟩
  · rename_i hfloat hnan
    cases hv : v.int? with
    | some n =>
      rw [Value.passesDepth_iff hv]
      by_cases hn : n ≤ 0
      · exact .inr (.inl ⟨congrArg _ (decide_eq_true hn), Int.not_lt.mpr hn⟩)
      · exact .inl ⟨congrArg _ (decide_eq_false hn), Int.not_le.mp hn⟩
    | none =>
      refine .inr (.inr ⟨rfl, ?_⟩)
      unfold Value.isNumber
      split
      · exact (hfloat _ rfl).elim
      · exact (hnan _ rfl).elim
      · rw [hv]
        rfl

theorem isIndentWidth_iff (v : Value) :
    Draft.isIndentWidth v = true ↔ ∃ n, v.int? = some n ∧ 0 ≤ n := by
  simp [Draft.isIndentWidth, Option.any_eq_true]

/-- How making settings ends: with sound settings, refused as invalid, or by the comparison of
a given depth that is no number. -/
inductive Settings.Ends (given : Value → Prop) : Except Fault (Settings Value) → Prop
  | made {s : Settings Value} (sound : s.Sound) : Ends given (.ok s)
  | refused {f : Fault} (h : f.kind.isA .settings = true) : Ends given (.error f)
  | uncompared {v : Value} (hv : given v) (h : v.isNumber = false) (hn : v ≠ .none) :
      Ends given (.error (.notComparable "<=" v.comparedName "int"))

namespace Draft

theorem check_of_width {d : Draft} (h : isIndentWidth d.indentWidth = false) :
    d.check = .error (.settings .indentWidth) := by
  simp only [check, h, Bool.not_false, if_true]
  rfl

theorem check_of_policy {d : Draft} (hw : isIndentWidth d.indentWidth = true)
    (h : ∀ p, d.policy ≠ .policy p) : d.check = .error (.settings .policy) := by
  simp only [check, hw, Bool.not_true, Bool.false_eq_true, if_false]
  rfl

/-- What is left to check when the other fields pass. -/
theorem check_of_depth {d : Draft} (hw : isIndentWidth d.indentWidth = true) {p : Policy}
    (hp : d.policy = .policy p) : d.check =
      let made : Settings Value :=
        ⟨d.indentWidth, p, d.unreserve, d.maxDepth, d.diagnostics, d.correlation⟩
      if d.maxDepth.isNone then .ok made
      else (atMostZero d.maxDepth).bind fun low =>
        if low then .error (.settings .maxDepth) else .ok made := by
  simp only [check, hw, hp, Bool.not_true, Bool.false_eq_true, if_false]
  cases d.maxDepth.isNone with
  | true => rfl
  | false =>
    cases atMostZero d.maxDepth with
    | error f => rfl
    | ok low => cases low <;> rfl

theorem isNone_iff (v : Value) : v.isNone = true ↔ v = .none := by
  constructor
  · intro h
    unfold Value.isNone at h
    split at h
    · rfl
    · cases h
  · rintro rfl
    rfl

theorem check_cases (d : Draft) :
    (∃ s, d.check = .ok s ∧ d = ofSettings s ∧ s.Sound) ∨
    (∃ p, d.check = .error (.settings p)) ∨
    (d.check = .error (.notComparable "<=" d.maxDepth.comparedName "int") ∧
      d.maxDepth.isNumber = false ∧ d.maxDepth ≠ .none) := by
  cases hw : isIndentWidth d.indentWidth with
  | false => exact .inr (.inl ⟨_, check_of_width hw⟩)
  | true =>
    by_cases hp : ∃ p, d.policy = .policy p
    · obtain ⟨p, hp⟩ := hp
      have width := (isIndentWidth_iff _).mp hw
      have hd : d = ofSettings
          ⟨d.indentWidth, p, d.unreserve, d.maxDepth, d.diagnostics, d.correlation⟩ := by
        rw [ofSettings, ← hp]
      rw [check_of_depth hw hp]
      by_cases hn : d.maxDepth = .none
      · exact .inl ⟨_, if_pos ((isNone_iff _).mpr hn), hd, width, .inl hn⟩
      · rw [if_neg (fun h => hn ((isNone_iff _).mp h))]
        rcases atMostZero_ends d.maxDepth with ⟨h, hpasses⟩ | ⟨h, -⟩ | ⟨h, hnumber⟩
        · exact .inl ⟨_, congrArg (Except.bind · _) h, hd, width, .inr hpasses⟩
        · exact .inr (.inl ⟨_, congrArg (Except.bind · _) h⟩)
        · exact .inr (.inr ⟨congrArg (Except.bind · _) h, hnumber, hn⟩)
    · exact .inr (.inl ⟨_, check_of_policy hw fun p h => hp ⟨p, h⟩⟩)

/-- A draft gives settings exactly if it is the draft of sound settings. -/
theorem check_eq_ok_iff {d : Draft} {s : Settings Value} :
    d.check = .ok s ↔ d = ofSettings s ∧ s.Sound := by
  constructor
  · intro h
    rcases check_cases d with ⟨s', hs, hd⟩ | ⟨p, hp⟩ | ⟨hc, -⟩
    · cases h.symm.trans hs
      exact hd
    · cases h.symm.trans hp
    · cases h.symm.trans hc
  · rintro ⟨rfl, width, hdepth⟩
    rw [check_of_depth ((isIndentWidth_iff _).mpr width) rfl]
    rcases hdepth with hn | hpasses
    · exact if_pos ((isNone_iff _).mpr hn)
    · have hn : ¬ s.maxDepth.isNone = true := by
        intro h
        rw [(isNone_iff _).mp h] at hpasses
        exact Bool.noConfusion hpasses.isNumber
      refine (if_neg hn).trans ?_
      rcases atMostZero_ends s.maxDepth with ⟨hlow, -⟩ | ⟨-, hno⟩ | ⟨-, hno⟩
      · exact congrArg (Except.bind · _) hlow
      · exact absurd hpasses hno
      · exact Bool.noConfusion (hno.symm.trans hpasses.isNumber)

theorem check_ends (d : Draft) : Settings.Ends (· = d.maxDepth) d.check := by
  rcases check_cases d with ⟨s, h, -, sound⟩ | ⟨p, h⟩ | ⟨h, hnumber, hn⟩
  · rw [h]
    exact .made sound
  · rw [h]
    exact .refused rfl
  · rw [h]
    exact .uncompared rfl hnumber hn

theorem set_maxDepth (d : Draft) (field : String) (v : Value) :
    (d.set field v).maxDepth = if field = "max_depth" then v else d.maxDepth := by
  unfold set
  split <;> simp_all

/-- The greatest depth is the one that was there or one that a field gives. -/
theorem setAll_maxDepth (d : Draft) (fields : List (String × Value)) :
    (d.setAll fields).maxDepth = d.maxDepth ∨
      ("max_depth", (d.setAll fields).maxDepth) ∈ fields := by
  induction fields generalizing d with
  | nil => exact .inl rfl
  | cons field rest ih =>
    have hset := d.set_maxDepth field.1 field.2
    rcases ih (d.set field.1 field.2) with h | h
    · by_cases hf : field.1 = "max_depth"
      · rw [if_pos hf] at hset
        refine .inr (List.mem_cons.mpr (.inl ?_))
        rw [← hf]
        exact Prod.ext rfl (h.trans hset)
      · rw [if_neg hf] at hset
        exact .inl (h.trans hset)
    · exact .inr (List.mem_cons_of_mem _ h)

end Draft

namespace Settings

theorem Ends.imp {given given' : Value → Prop} {r : Except Fault (Settings Value)}
    (h : Ends given r)
    (hg : ∀ v, given v → v.isNumber = false → v ≠ .none → given' v) : Ends given' r := by
  cases h with
  | made sound => exact .made sound
  | refused h => exact .refused h
  | uncompared hv h hn => exact .uncompared (hg _ hv h hn) h hn

/-! ### Names of fields -/

/-- Keys that are texts. -/
def Texts (keys : List Value) : Prop := ∀ k ∈ keys, ∃ name, k = .text name

theorem insertKey_texts {k : Value} (hk : ∃ name, k = .text name) {keys : List Value}
    (h : Texts keys) : ∃ sorted, insertKey k keys = .ok sorted ∧ Texts sorted := by
  obtain ⟨name, rfl⟩ := hk
  induction keys with
  | nil => exact ⟨_, rfl, fun k hk => ⟨name, List.mem_singleton.mp hk⟩⟩
  | cons l rest ih =>
    obtain ⟨other, rfl⟩ := h l (List.mem_cons_self ..)
    obtain ⟨sorted, hsorted, htexts⟩ := ih fun k hk => h k (List.mem_cons_of_mem _ hk)
    by_cases hless : name < other
    · refine ⟨.text name :: .text other :: rest, ?_, ?_⟩
      · simp only [insertKey, Value.less, hless, decide_true]
        rfl
      · intro k hk
        rcases List.mem_cons.mp hk with rfl | hk
        · exact ⟨name, rfl⟩
        · exact h k hk
    · refine ⟨.text other :: sorted, ?_, ?_⟩
      · simp only [insertKey, Value.less, hless, decide_false, hsorted]
        rfl
      · intro k hk
        rcases List.mem_cons.mp hk with rfl | hk
        · exact ⟨other, rfl⟩
        · exact htexts k hk

/-- A fold ends with what its steps keep, if none of them fails. -/
theorem foldlM_ok {ε α β : Type} {f : β → α → Except ε β} {P : β → Prop} {xs : List α}
    (step : ∀ b, P b → ∀ a ∈ xs, ∃ c, f b a = .ok c ∧ P c) {b : β} (hb : P b) :
    ∃ c, xs.foldlM f b = .ok c ∧ P c := by
  induction xs generalizing b with
  | nil => exact ⟨b, rfl, hb⟩
  | cons a rest ih =>
    obtain ⟨c, hc, hkept⟩ := step b hb a (List.mem_cons_self ..)
    obtain ⟨d, hd, hend⟩ := ih (fun b hb a ha => step b hb a (List.mem_cons_of_mem _ ha)) hkept
    refine ⟨d, ?_, hend⟩
    rw [List.foldlM_cons, hc]
    exact hd

theorem sortKeys_texts {keys : List Value} (h : Texts keys) :
    ∃ sorted, sortKeys keys = .ok sorted ∧ Texts sorted := by
  have start : Texts [] := fun k hk => nomatch hk
  exact foldlM_ok (fun sorted hs k hk => insertKey_texts (h k hk) hs) start

theorem refuseUnknown_sorted (w : World) {keys sorted : List Value}
    (h : sortKeys (keys.filter fun k => !isField k) = .ok sorted) :
    refuseUnknown w keys = if (keys.filter fun k => !isField k).isEmpty then .ok ()
      else .error (.settings (.unknownFields (sorted.map w.shown))) := by
  simp only [refuseUnknown, h]
  rfl

/-- Of names that are texts the unknown ones are refused as invalid. -/
theorem refuseUnknown_texts (w : World) {keys : List Value} (h : Texts keys) :
    refuseUnknown w keys = .ok () ∨ ∃ p, refuseUnknown w keys = .error (.settings p) := by
  have hunknown : Texts (keys.filter fun k => !isField k) :=
    fun k hk => h k (List.mem_of_mem_filter hk)
  obtain ⟨sorted, hsorted, -⟩ := sortKeys_texts hunknown
  rw [refuseUnknown_sorted w hsorted]
  split
  · exact .inl rfl
  · exact .inr ⟨_, rfl⟩

/-- How they are refused is the same in every world. -/
theorem refuseUnknown_world {keys : List Value} (h : Texts keys) (w w' : World) :
    refuseUnknown w keys = refuseUnknown w' keys := by
  have hunknown : Texts (keys.filter fun k => !isField k) :=
    fun k hk => h k (List.mem_of_mem_filter hk)
  obtain ⟨sorted, hsorted, texts⟩ := sortKeys_texts hunknown
  have shown : sorted.map w.shown = sorted.map w'.shown := by
    refine List.map_congr_left fun k hk => ?_
    obtain ⟨name, rfl⟩ := texts k hk
    rfl
  rw [refuseUnknown_sorted w hsorted, refuseUnknown_sorted w' hsorted, shown]

/-! ### Ways to settings -/

theorem texts_spelled (fields : List (String × Value)) :
    Texts ((spelled fields).map Prod.fst) := by
  intro k hk
  obtain ⟨entry, he, rfl⟩ := List.mem_map.mp hk
  obtain ⟨field, -, rfl⟩ := List.mem_map.mp he
  exact ⟨field.1, rfl⟩

theorem spelled_of_texts {entries : List (Value × Value)} (h : Texts (entries.map Prod.fst)) :
    ∃ fields, entries = spelled fields := by
  induction entries with
  | nil => exact ⟨[], rfl⟩
  | cons entry rest ih =>
    obtain ⟨k, v⟩ := entry
    obtain ⟨name, rfl⟩ := h k (List.mem_cons_self ..)
    obtain ⟨fields, rfl⟩ := ih fun k hk => h k (List.mem_cons_of_mem _ hk)
    exact ⟨(name, v) :: fields, rfl⟩

/-- The greatest depth of a draft with some fields replaced is compared as one of these. -/
theorem setAll_ends {d e : Draft} (hd : d.maxDepth = .none ∨ d.maxDepth.isNumber = true)
    (fields : List (String × Value)) (he : e.maxDepth = (d.setAll fields).maxDepth) :
    Ends (fun v => ("max_depth", v) ∈ fields) e.check := by
  refine e.check_ends.imp ?_
  rintro v rfl hnumber hn
  rw [he] at hnumber hn ⊢
  rcases d.setAll_maxDepth fields with h | h
  · rw [h] at hnumber hn
    rcases hd with hd | hd
    · exact absurd hd hn
    · exact Bool.noConfusion (hnumber.symm.trans hd)
  · exact h

theorem override_ends (w : World) {s : Settings Value} (sound : s.Sound)
    {fields : List (String × Value)} (hself : ∀ field ∈ fields, field.1 ≠ "self") :
    Ends (fun v => ("max_depth", v) ∈ fields) (s.override w fields) := by
  have hany : (fields.any fun field => field.1 == "self") = false := by
    simpa [List.any_eq_false] using hself
  have htexts : Texts (fields.map fun field => .text field.1) := by
    have h := texts_spelled fields
    rwa [spelled, List.map_map] at h
  have hchecked := setAll_ends (d := Draft.ofSettings s)
    (sound.depth.imp id Value.PassesDepth.isNumber) fields rfl
  simp only [override, hany, Bool.false_eq_true, if_false]
  rcases refuseUnknown_texts w htexts with h | ⟨p, h⟩
  · rw [h]
    exact hchecked
  · rw [h]
    exact .refused rfl

theorem policyOf_error {v : Value} {f : Fault} (h : policyOf v = .error f) :
    ∃ p, f = .settings p := by
  unfold policyOf at h
  split at h
  · split at h
    · cases h
    · cases h
      exact ⟨_, rfl⟩
  · cases h

theorem ofEntries_ends (w : World) (fields : List (String × Value)) :
    Ends (fun v => ("max_depth", v) ∈ fields) (ofEntries w (spelled fields)) := by
  rw [ofEntries_spelled]
  rcases refuseUnknown_texts w (texts_spelled fields) with h | ⟨p, h⟩
  · rw [h]
    cases hpolicy : policyOf (Draft.standard.setAll fields).policy with
    | error f =>
      obtain ⟨p, rfl⟩ := policyOf_error hpolicy
      exact .refused rfl
    | ok policy => exact setAll_ends (d := Draft.standard) (.inr rfl) fields rfl
  · rw [h]
    exact .refused rfl

theorem insert_texts {k v : Value} (hk : ∃ name, k = .text name) {table : Dict}
    (h : Texts (table.map Prod.fst)) :
    Texts ((Table.insert Value.sameKey k v table).map Prod.fst) := by
  induction table with
  | nil =>
    intro l hl
    rw [List.mem_singleton.mp hl]
    exact hk
  | cons entry rest ih =>
    obtain ⟨k', v'⟩ := entry
    have hrest : Texts (rest.map Prod.fst) := fun l hl => h l (List.mem_cons_of_mem _ hl)
    have hk' := h k' (List.mem_cons_self ..)
    unfold Table.insert
    split
    · intro l hl
      rcases List.mem_cons.mp hl with rfl | hl
      · exact hk'
      · exact hrest l hl
    · intro l hl
      rcases List.mem_cons.mp hl with rfl | hl
      · exact hk'
      · exact ih hrest l hl

/-- Texts are the keys of a table. -/
theorem tableOf_texts {keys : List Value} (h : Texts keys) :
    ∃ table, Store.tableOf (keys.map fun v => (v, .none)) = .ok table ∧
      Texts (table.map Prod.fst) := by
  have start : Texts (([] : Dict).map Prod.fst) := fun k hk => nomatch hk
  refine foldlM_ok (P := fun table : Dict => Texts (table.map Prod.fst)) ?_ start
  intro table ht entry he
  obtain ⟨k, hk, rfl⟩ := List.mem_map.mp he
  obtain ⟨name, hname⟩ := h k hk
  refine ⟨Table.insert Value.sameKey k .none table, ?_, insert_texts ⟨name, hname⟩ ht⟩
  rw [hname]
  rfl

theorem ofTable_ends (w : World) {d : DictRef}
    (hkeys : Texts ((w.store.entries d).map Prod.fst)) :
    Ends (fun v => (.text "max_depth", v) ∈ w.store.entries d) (ofTable w (.dict d)) := by
  obtain ⟨fields, hfields⟩ := spelled_of_texts hkeys
  obtain ⟨table, htable, htexts⟩ := tableOf_texts hkeys
  rw [ofTable_dict htable]
  rcases refuseUnknown_texts w htexts with h | ⟨p, h⟩
  · rw [h, hfields]
    refine (ofEntries_ends w fields).imp ?_
    intro v hv _ _
    exact List.mem_map.mpr ⟨_, hv, rfl⟩
  · rw [h]
    exact .refused rfl

end Settings

/-! ### JSON text -/

mutual

theorem Json.store_value (j : Json) (s : Store) :
    ∃ v s', Json.store j s = (.value v, s') := by
  cases j with
  | atom a => exact ⟨.atom a, s, rfl⟩
  | array items =>
    obtain ⟨vs, s', h⟩ := Json.storeAll_value items s
    refine ⟨.list ⟨s'.lists.size⟩, (Store.newList vs s').2, ?_⟩
    rw [Json.store, Proc.bind_apply, h]
    rfl
  | object entries =>
    obtain ⟨fields, s', h, -⟩ := Json.storeEntries_value entries s
    refine ⟨.dict ⟨s'.dicts.size⟩, (Store.newDict (Settings.spelled fields) s').2, ?_⟩
    rw [Json.store, Proc.bind_apply, h]
    rfl

theorem Json.storeAll_value (items : List Json) (s : Store) :
    ∃ vs s', Json.storeAll items s = (.value vs, s') := by
  cases items with
  | nil => exact ⟨[], s, rfl⟩
  | cons j rest =>
    obtain ⟨v, s', h⟩ := Json.store_value j s
    obtain ⟨vs, s'', hrest⟩ := Json.storeAll_value rest s'
    refine ⟨v :: vs, s'', ?_⟩
    rw [Json.storeAll, Proc.bind_apply, h]
    simp only [Proc.bind_apply, hrest, Proc.pure_apply]

/-- The entries of an object are stored under their names. -/
theorem Json.storeEntries_value (entries : List (String × Json)) (s : Store) :
    ∃ fields s', Json.storeEntries entries s = (.value (Settings.spelled fields), s') ∧
      fields.map Prod.fst = entries.map Prod.fst := by
  cases entries with
  | nil => exact ⟨[], s, rfl, rfl⟩
  | cons entry rest =>
    obtain ⟨name, j⟩ := entry
    obtain ⟨v, s', h⟩ := Json.store_value j s
    obtain ⟨fields, s'', hrest, hnames⟩ := Json.storeEntries_value rest s'
    refine ⟨(name, v) :: fields, s'', ?_, congrArg (name :: ·) hnames⟩
    rw [Json.storeEntries, Proc.bind_apply, h]
    simp only [Proc.bind_apply, hrest, Proc.pure_apply]
    rfl

end

theorem Json.parse_text_error {text : String} {f : Fault}
    (h : Json.parse (.text text) = .error f) :
    f.kind = .settings ∨ ∃ n, f = .longInteger n := by
  have h : Json.located text.toList (Json.unmarkedDocument text.toList) = .error f := h
  unfold Json.located at h
  split at h
  · cases h
  · cases h
    exact .inl rfl
  · cases h
    exact .inr ⟨_, rfl⟩

/-- Text gives sound settings or is refused, if its numbers are within the limit of digits and
a greatest depth is one that can be compared. -/
theorem Settings.ofJson_ends (text : String) (w : World) :
    ∃ r w', Settings.ofJson (.text text) w = (Outcome.ofExcept r, w') ∧
      ((∃ n, r = .error (.longInteger n)) ∨
        Settings.Ends (fun _ => ∃ entries, Json.parse (.text text) = .ok (.object entries) ∧
          "max_depth" ∈ entries.map Prod.fst) r) := by
  cases hparse : Json.parse (.text text) with
  | error f =>
    refine ⟨.error f, w, ?_, ?_⟩
    · rw [Settings.ofJson, hparse]
      rfl
    · rcases Json.parse_text_error hparse with h | h
      · exact .inr (.refused (by rw [h]; rfl))
      · exact .inl (by simpa using h)
  | ok j =>
    cases j with
    | atom a =>
      refine ⟨.error (.settings .notAnObject), w, ?_, .inr (.refused rfl)⟩
      rw [Settings.ofJson, hparse]
      rfl
    | array items =>
      refine ⟨.error (.settings .notAnObject), w, ?_, .inr (.refused rfl)⟩
      rw [Settings.ofJson, hparse]
      rfl
    | object entries =>
      obtain ⟨fields, store, hstore, hnames⟩ := Json.storeEntries_value entries w.store
      refine ⟨Settings.ofEntries { w with store } (Settings.spelled fields), { w with store },
        ?_, .inr ((Settings.ofEntries_ends _ fields).imp ?_)⟩
      · rw [Settings.ofJson, hparse]
        simp only [Proc.bind_apply, Proc.ofExcept_apply, Outcome.ofExcept_ok, World.inStore,
          Proc.onPart, hstore, Proc.get]
      · intro v hv _ _
        refine ⟨entries, rfl, ?_⟩
        rw [← hnames]
        exact List.mem_map_of_mem hv

/-- Every way to settings gives sound ones or refuses what is given as invalid; the exceptions
are a greatest depth that is no number, which cannot be compared, and in text a number beyond
the limit of digits. -/
theorem settings_ends (w : World) :
    (∀ text, ∃ r w', Settings.ofJson (.text text) w = (Outcome.ofExcept r, w') ∧
      ((∃ n, r = .error (.longInteger n)) ∨
        Settings.Ends (fun _ => ∃ entries, Json.parse (.text text) = .ok (.object entries) ∧
          "max_depth" ∈ entries.map Prod.fst) r)) ∧
    (∀ d, (∀ entry ∈ w.store.entries d, ∃ name, entry.1 = .text name) →
      Settings.Ends (fun v => (.text "max_depth", v) ∈ w.store.entries d)
        (Settings.ofTable w (.dict d))) ∧
    ∀ (s : Settings Value) (fields : List (String × Value)), s.Sound →
      (∀ field ∈ fields, field.1 ≠ "self") →
      Settings.Ends (fun v => ("max_depth", v) ∈ fields) (s.override w fields) := by
  refine ⟨fun text => Settings.ofJson_ends text w, ?_, ?_⟩
  · intro d hkeys
    refine Settings.ofTable_ends w ?_
    intro k hk
    obtain ⟨entry, he, rfl⟩ := List.mem_map.mp hk
    exact hkeys entry he
  · exact fun s fields sound hself => Settings.override_ends w sound hself

theorem Settings.standard_sound : Settings.standard.Sound :=
  (Draft.check_eq_ok_iff.mp Draft.check_standard).2

def listedDepth : World :=
  { World.empty .small with store := { Store.empty .small with
      lists := #[[.int 1]]
      dicts := #[[(.text "max_depth", .list ⟨0⟩)]] } }

theorem listed_depth_ends :
    Settings.ofTable listedDepth (.dict ⟨0⟩) = .error (.notComparable "<=" "list" "int") ∧
    Settings.Ends (fun v => (.text "max_depth", v) ∈ listedDepth.store.entries ⟨0⟩)
      (Settings.ofTable listedDepth (.dict ⟨0⟩)) ∧
    Settings.Ends (fun v => ("max_depth", v) ∈ [("indent_width", .int 4)])
      (Settings.standard.override listedDepth [("indent_width", .int 4)]) := by
  obtain ⟨-, htable, hoverride⟩ := settings_ends listedDepth
  refine ⟨rfl, htable ⟨0⟩ ?_, hoverride .standard _ Settings.standard_sound ?_⟩
  · intro entry he
    rw [List.mem_singleton.mp he]
    exact ⟨_, rfl⟩
  · intro field hf
    rw [List.mem_singleton.mp hf]
    decide

/-- A depth that is no number escapes as a fault of types, and not-a-number passes. -/
theorem unchecked_depths :
    (Settings.ofJson (.text "\x7b\"max_depth\": \"abc\"\x7d") (.empty .small)).1 =
      .fault (.notComparable "<=" "str" "int") ∧
    (Fault.notComparable "<=" "str" "int").kind.isA .settings = false ∧
    (Settings.ofJson (.text "\x7b\"max_depth\": NaN\x7d") (.empty .small)).1 =
      .value { Settings.standard with maxDepth := .atom (.nan 0) } := by
  have hparse : ∀ a text, Json.ReadableAtom a →
      Json.write none 0 (Json.datum (Json.record [("max_depth", a)])) = .ok text →
        Json.parse (.text text) = .ok (Json.record [("max_depth", a)]) := by
    intro a text ha htext
    have hreadable : Json.Readable (Json.record [("max_depth", a)]) :=
      Json.readable_record (by simp) (by simpa)
    have hlayout : Json.Layout none := fun _ h => nomatch h
    obtain ⟨text', htext', hparse⟩ := Json.document_write hlayout hreadable
    cases htext.symm.trans htext'
    exact hparse
  refine ⟨?_, by decide, ?_⟩
  · have htext := hparse (.text "abc") "\x7b\"max_depth\": \"abc\"\x7d" trivial
      (congrArg Except.ok (by decide +kernel))
    rw [Settings.ofJson_record htext]
    rfl
  · have htext := hparse (.nan 0) "\x7b\"max_depth\": NaN\x7d" rfl
      (congrArg Except.ok (by decide +kernel))
    rw [Settings.ofJson_record htext]
    rfl

end TagTree
