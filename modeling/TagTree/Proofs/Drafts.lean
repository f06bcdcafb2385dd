import TagTree.Proofs.Arguments
import TagTree.Proofs.Checks

/-!
# Drafts from tables

Entries written to the table of settings make, when it is read back, the draft that they make of the
settings themselves. Unknown names are refused in the same way, and no check looks at the flags.
-/

namespace TagTree

/-! ### Fields of drafts -/

/-- The settings with other flags. -/
def Settings.withFlags (s : Settings Value) (u g : Value) : Settings Value :=
  { s with unreserve := u, diagnostics := g }

namespace Draft

def get (d : Draft) (field : String) : Value :=
  match field with
  | "indent_width" => d.indentWidth
  | "ambiguous_block_policy" => d.policy
  | "strip_keyword_underscore" => d.unreserve
  | "max_depth" => d.maxDepth
  | "enable_diagnostics" => d.diagnostics
  | "correlation_id" => d.correlation
  | _ => .none

theorem forall_fieldNames {P : String → Prop} : (∀ f ∈ fieldNames, P f) ↔
    P "indent_width" ∧ P "ambiguous_block_policy" ∧ P "strip_keyword_underscore" ∧
      P "max_depth" ∧ P "enable_diagnostics" ∧ P "correlation_id" := by
  simp [fieldNames]

theorem ext_get {d e : Draft} (h : ∀ f ∈ fieldNames, d.get f = e.get f) : d = e := by
  obtain ⟨hw, hp, hu, hm, hg, hc⟩ := forall_fieldNames.mp h
  cases d
  cases e
  exact mk.injEq .. ▸ ⟨hw, hp, hu, hm, hg, hc⟩

theorem get_set (d : Draft) {f : String} (hf : f ∈ fieldNames) (g : String) (v : Value) :
    (d.set g v).get f = if g = f then v else d.get f := by
  revert f
  rw [forall_fieldNames]
  unfold set
  split <;> simp_all [get]

/-- The last value that is given for a field, or else the one it has. -/
def given (fields : List (String × Value)) (f : String) (v : Value) : Value :=
  (Table.find? (· == ·) f fields.reverse).getD v

theorem get_setAll (d : Draft) {f : String} (hf : f ∈ fieldNames)
    (fields : List (String × Value)) : (d.setAll fields).get f = given fields f (d.get f) := by
  unfold given
  induction fields generalizing d with
  | nil => rfl
  | cons field rest ih =>
    have hstep : d.setAll (field :: rest) = (d.set field.1 field.2).setAll rest := rfl
    rw [hstep, ih, get_set d hf, List.reverse_cons, Table.find?_append, Table.find?_cons]
    by_cases hg : field.1 = f
    · rw [if_pos hg, if_pos (beq_iff_eq.mpr hg)]
      cases Table.find? (· == ·) f rest.reverse <;> rfl
    · rw [if_neg hg, if_neg (by simpa using hg)]
      cases Table.find? (· == ·) f rest.reverse <;> rfl

/-- The draft with other flags. -/
def withFlags (d : Draft) (u g : Value) : Draft := { d with unreserve := u, diagnostics := g }

theorem get_withFlags (d : Draft) (u g : Value) {f : String} (hf : f ∈ fieldNames) :
    (d.withFlags u g).get f = if f = "strip_keyword_underscore" then u
      else if f = "enable_diagnostics" then g else d.get f := by
  revert f
  rw [forall_fieldNames]
  exact ⟨rfl, rfl, rfl, rfl, rfl, rfl⟩

theorem setAll_withFlags (d : Draft) (u g : Value) (fields : List (String × Value)) :
    (d.withFlags u g).setAll fields = (d.setAll fields).withFlags
      (given fields "strip_keyword_underscore" u) (given fields "enable_diagnostics" g) := by
  refine ext_get fun f hf => ?_
  rw [get_setAll _ hf, get_withFlags _ _ _ hf, get_withFlags _ _ _ hf, get_setAll _ hf]
  split
  · rename_i h
    rw [h]
  · split
    · rename_i h
      rw [h]
    · rfl

/-- The checks do not look at the flags. -/
theorem check_withFlags (d : Draft) (u g : Value) :
    (d.withFlags u g).check = d.check.map fun s => s.withFlags u g := by
  cases hw : isIndentWidth d.indentWidth with
  | false => rw [check_of_width (d := d.withFlags u g) hw, check_of_width hw]; rfl
  | true =>
    by_cases hp : ∃ q, d.policy = .policy q
    · obtain ⟨q, hp⟩ := hp
      rw [check_of_depth (d := d.withFlags u g) hw hp, check_of_depth hw hp]
      by_cases hn : d.maxDepth.isNone = true
      · refine (if_pos hn).trans (.trans ?_ (congrArg (Except.map _) (if_pos hn)).symm)
        rfl
      · refine (if_neg hn).trans (.trans ?_ (congrArg (Except.map _) (if_neg hn)).symm)
        show (atMostZero d.maxDepth).bind _ = _
        cases atMostZero d.maxDepth with
        | error f => rfl
        | ok low => cases low <;> rfl
    · have noPolicy : ∀ q, d.policy ≠ .policy q := fun q h => hp ⟨q, h⟩
      rw [check_of_policy (d := d.withFlags u g) hw noPolicy, check_of_policy hw noPolicy]
      rfl

end Draft

/-! ### Tables of settings -/

namespace Settings

/-- The fields of settings by name, as their table has them. -/
def fields (s : Settings Value) : List (String × Value) :=
  [("indent_width", s.indentWidth), ("ambiguous_block_policy", .text s.policy.name),
    ("strip_keyword_underscore", s.unreserve), ("max_depth", s.maxDepth),
    ("enable_diagnostics", s.diagnostics), ("correlation_id", s.correlation)]

variable {s : Settings Value}

theorem Sound.width_atom (sound : s.Sound) : ∃ a, s.indentWidth = .atom a := by
  obtain ⟨n, hn, -⟩ := sound.width
  cases hw : s.indentWidth with
  | atom a => exact ⟨a, rfl⟩
  | _ => simp [hw, Value.int?] at hn

theorem Sound.depth_atom (sound : s.Sound) : ∃ a, s.maxDepth = .atom a := by
  rcases sound.depth with h | h
  · exact ⟨.none, h⟩
  · generalize s.maxDepth = v at h
    cases h with
    | whole h =>
      cases v with
      | atom a => exact ⟨a, rfl⟩
      | _ => simp [Value.int?] at h
    | @float x => exact ⟨.float x, rfl⟩
    | nan id => exact ⟨.nan id, rfl⟩

/-- A table has copies of the flags, and the other fields as they are. -/
theorem Sound.copies (sound : s.Sound)
    (correlation : s.correlation = .none ∨ ∃ c, s.correlation = .text c) (w : World) :
    s.copies w = (copiedWithin w World.readingDepth s.unreserve).bind fun u =>
      (copiedWithin w World.readingDepth s.diagnostics).map fun g =>
        fieldEntries (.value s.indentWidth) (.value (.text s.policy.name)) u (.value s.maxDepth) g
          (.value s.correlation) := by
  obtain ⟨a, ha⟩ := sound.width_atom
  obtain ⟨m, hm⟩ := sound.depth_atom
  obtain ⟨c, hc⟩ : ∃ c, s.correlation = .atom c := by
    rcases correlation with h | ⟨c, h⟩
    · exact ⟨_, h⟩
    · exact ⟨_, h⟩
  rw [Settings.copies, copiesWith, ha, hm, hc, copied_atom, copied_atom, copied_atom]
  rfl

/-! ### The draft of a table -/

/-- The draft of a table before its policy is looked up by name. -/
def spelledDraft (s : Settings Value) : Draft :=
  { Draft.ofSettings s with policy := .text s.policy.name }

theorem exact_name (fields : List (String × Value)) :
    ∀ e ∈ fields, Table.Exact (· == ·) e.1 := fun e _ => Table.exact_beq e.1

theorem nodup_fields (s : Settings Value) : (s.fields.map Prod.fst).Nodup :=
  (by decide : Draft.fieldNames.Nodup)

/-- Entries written to a table give the draft that they give one after another. -/
theorem setAll_insertAll (s : Settings Value) (kw : List (String × Value)) :
    Draft.standard.setAll (Table.insertAll (· == ·) s.fields kw) = s.spelledDraft.setAll kw := by
  refine Draft.ext_get fun f hf => ?_
  have once := Table.nodup_insertAll (exact_name kw) s.nodup_fields
  have field : (Table.find? (· == ·) f s.fields).getD (Draft.standard.get f) =
      s.spelledDraft.get f := by
    revert f
    rw [Draft.forall_fieldNames]
    exact ⟨rfl, rfl, rfl, rfl, rfl, rfl⟩
  rw [Draft.get_setAll _ hf, Draft.get_setAll _ hf, Draft.given, Draft.given,
    Table.find?_reverse (Table.exact_beq f) once,
    Table.find?_insertAll (Table.exact_beq f) _ (exact_name kw), ← field]
  cases Table.find? (· == ·) f kw.reverse <;> rfl

/-- The name of a policy is looked up to the policy, and any other value that is no name stands. -/
theorem policyOf_setAll (s : Settings Value) {kw : List (String × Value)}
    (noName : ∀ name, ("ambiguous_block_policy", .text name) ∉ kw) :
    policyOf (s.spelledDraft.setAll kw).policy =
      .ok ((Draft.ofSettings s).setAll kw).policy := by
  have policy (d : Draft) : d.policy = d.get "ambiguous_block_policy" := rfl
  have named : "ambiguous_block_policy" ∈ Draft.fieldNames := by decide
  rw [policy, policy, Draft.get_setAll _ named, Draft.get_setAll _ named, Draft.given, Draft.given]
  cases given : Table.find? (· == ·) "ambiguous_block_policy" kw.reverse with
  | none =>
    show policyOf (.text s.policy.name) = .ok (.policy s.policy)
    cases s.policy <;> rfl
  | some v =>
    have member := Table.mem_of_find? (Table.exact_beq _) given
    show policyOf v = .ok v
    unfold policyOf
    split
    · exact absurd (List.mem_reverse.mp member) (noName _)
    · rfl

theorem draft_setAll (s : Settings Value) (kw : List (String × Value)) :
    { s.spelledDraft.setAll kw with policy := ((Draft.ofSettings s).setAll kw).policy } =
      (Draft.ofSettings s).setAll kw := by
  have field (d : Draft) (v : Value) {f : String} (hf : f ∈ Draft.fieldNames) :
      ({ d with policy := v } : Draft).get f =
        if f = "ambiguous_block_policy" then v else d.get f := by
    revert f
    rw [Draft.forall_fieldNames]
    exact ⟨rfl, rfl, rfl, rfl, rfl, rfl⟩
  refine Draft.ext_get fun f hf => ?_
  rw [field _ _ hf]
  by_cases hp : f = "ambiguous_block_policy"
  · rw [if_pos hp, hp]
    rfl
  · rw [if_neg hp, Draft.get_setAll _ hf, Draft.get_setAll _ hf, spelledDraft, field _ _ hf,
      if_neg hp]

/-! ### Unknown names -/

/-- What a table does not know are the unknown names that were written to it. -/
theorem refuseUnknown_insertAll (w : World) (s : Settings Value) {kw : List (String × Value)}
    (once : (kw.map Prod.fst).Nodup) :
    refuseUnknown w ((spelled (Table.insertAll (· == ·) s.fields kw)).map Prod.fst) =
      refuseUnknown w (kw.map fun field => .text field.1) := by
  have names (es : List (String × Value)) :
      ((spelled es).map Prod.fst).filter (fun k => !isField k) =
        ((es.map Prod.fst).filter fun f => !Draft.fieldNames.contains f).map Value.text := by
    rw [spelled, List.map_map, List.filter_map, List.filter_map, List.map_map]
    rfl
  have unknown := Table.filter_keys_insertAll (t := s.fields)
    (p := fun f => !Draft.fieldNames.contains f) (exact_name kw) once
    (by
      intro f _ unknown known
      have hfield : f ∈ Draft.fieldNames := known
      simp [hfield] at unknown)
  have none : (s.fields.map Prod.fst).filter (fun f => !Draft.fieldNames.contains f) = [] := rfl
  have same : ((spelled (Table.insertAll (· == ·) s.fields kw)).map Prod.fst).filter
      (fun k => !isField k) = ((spelled kw).map Prod.fst).filter (fun k => !isField k) := by
    rw [names, names, unknown, none, List.nil_append]
  have keys : (kw.map fun field => Value.text field.1) = (spelled kw).map Prod.fst := by
    rw [spelled, List.map_map]
    rfl
  rw [keys]
  unfold refuseUnknown
  rw [same]

/-! ### The table read back -/

theorem tableOf_named (es : List (String × Value)) (t : Dict) :
    (spelled es).foldlM (fun table entry => Store.putKey table entry.1 entry.2) t =
      .ok (Table.insertAll Value.sameKey t (spelled es)) := by
  induction es generalizing t with
  | nil => rfl
  | cons e es ih => exact ih _

/-- Settings are read back from a dictionary whose names stand once as from its entries. -/
theorem ofTable_spelled {w : World} {d : DictRef} {es : List (String × Value)}
    (once : (es.map Prod.fst).Nodup) (hd : w.store.entries d = spelled es) :
    ofTable w (.dict d) = (refuseUnknown w ((spelled es).map Prod.fst)).bind fun _ =>
      ofEntries w (spelled es) := by
  let bare : List (String × Value) := es.map fun e => (e.1, .none)
  have hbare : ((w.store.entries d).map Prod.fst).map (fun v => (v, Value.none)) =
      spelled bare := by
    rw [hd, spelled, spelled, List.map_map, List.map_map, List.map_map]
    rfl
  have keys : (spelled bare).map Prod.fst = (spelled es).map Prod.fst := by
    rw [spelled, spelled, List.map_map, List.map_map, List.map_map]
    rfl
  have keysOnce : ((spelled bare).map Prod.fst).Nodup := by
    rw [keys, spelled, List.map_map]
    refine (List.pairwise_map.mp once).map _ fun a b hne h => hne ?_
    simpa using h
  have table : Store.tableOf (((w.store.entries d).map Prod.fst).map fun v => (v, .none)) =
      .ok (spelled bare) := by
    rw [hbare]
    refine (tableOf_named bare []).trans (congrArg Except.ok ?_)
    exact Table.ofEntries_of_nodup (Shape.exact_named bare) keysOnce
  rw [ofTable_dict table, keys, hd]

theorem override_eq {kw : List (String × Value)} (noSelf : "self" ∉ kw.map Prod.fst) (w : World)
    (s : Settings Value) : s.override w kw =
      (refuseUnknown w (kw.map fun field => .text field.1)).bind fun _ =>
        ((Draft.ofSettings s).setAll kw).check := by
  have hself : (kw.any fun field => field.1 == "self") = false := by
    rw [List.any_eq_false]
    intro field hfield h
    exact noSelf (List.mem_map.mpr ⟨field, hfield, by simpa using h⟩)
  simp only [override, hself, Bool.false_eq_true, if_false]
  rfl

theorem override_world (s : Settings Value) (kw : List (String × Value)) (w w' : World) :
    s.override w kw = s.override w' kw := by
  have names : Texts (kw.map fun field => .text field.1) := by
    intro k hk
    obtain ⟨field, -, rfl⟩ := List.mem_map.mp hk
    exact ⟨_, rfl⟩
  unfold override
  rw [refuseUnknown_world names w w']

theorem ofTable_insertAll {w : World} {d : DictRef} {kw : List (String × Value)}
    (once : (kw.map Prod.fst).Nodup) (noSelf : "self" ∉ kw.map Prod.fst)
    (noName : ∀ name, ("ambiguous_block_policy", .text name) ∉ kw)
    (hd : w.store.entries d = Table.insertAll Value.sameKey (spelled s.fields) (spelled kw)) :
    ofTable w (.dict d) = s.override w kw := by
  have gathered : w.store.entries d = spelled (Table.insertAll (· == ·) s.fields kw) :=
    hd.trans (Shape.namedAttributes_insertAll s.fields kw).symm
  rw [ofTable_spelled (Table.nodup_insertAll (exact_name kw) s.nodup_fields) gathered,
    ofEntries_spelled, refuseUnknown_insertAll w s once, setAll_insertAll, policyOf_setAll s noName,
    override_eq noSelf]
  cases refuseUnknown w (kw.map fun field => .text field.1) with
  | error f => rfl
  | ok known => exact congrArg Draft.check (draft_setAll s kw)

end Settings

end TagTree
