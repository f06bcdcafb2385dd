/-!
# Ordered tables

Entries in order of first insertion. Writing to a key that is present keeps the
entry's position and its first key, and replaces the value.
-/

namespace TagTree

namespace Table

variable {κ ν : Type}

def insert (same : κ → κ → Bool) (k : κ) (v : ν) : List (κ × ν) → List (κ × ν)
  | [] => [(k, v)]
  | (k', v') :: rest =>
    if same k' k then (k', v) :: rest else (k', v') :: insert same k v rest

def insertAll (same : κ → κ → Bool) (t entries : List (κ × ν)) : List (κ × ν) :=
  entries.foldl (fun t entry => insert same entry.1 entry.2 t) t

def ofEntries (same : κ → κ → Bool) (entries : List (κ × ν)) : List (κ × ν) :=
  insertAll same [] entries

def find? (same : κ → κ → Bool) (k : κ) (t : List (κ × ν)) : Option ν :=
  (t.find? fun entry => same entry.1 k).map Prod.snd

@[simp] theorem insert_nil (same : κ → κ → Bool) (k : κ) (v : ν) :
    insert same k v [] = [(k, v)] := rfl

@[simp] theorem ofEntries_nil (same : κ → κ → Bool) :
    ofEntries same ([] : List (κ × ν)) = [] := rfl

theorem insert_new [BEq κ] [LawfulBEq κ] {k : κ} {t : List (κ × ν)}
    (h : ∀ entry ∈ t, entry.1 ≠ k) (v : ν) : insert (· == ·) k v t = t ++ [(k, v)] := by
  induction t with
  | nil => rfl
  | cons entry rest ih =>
    obtain ⟨k', v'⟩ := entry
    have hne : (k' == k) = false := by simpa using h (k', v') (List.mem_cons_self ..)
    rw [insert, hne, ih fun x hx => h x (List.mem_cons_of_mem _ hx)]
    rfl

end Table

end TagTree
