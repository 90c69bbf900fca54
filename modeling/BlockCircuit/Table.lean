/-!
# Tables

A table is a list of entries, each a key and a value, in an order that counts. `insertEntry` keeps
one entry for each key: an existing entry keeps its place and takes the new value
(`exists_insertEntry_of_mem`), and a new one goes to the end (`insertEntry_of_notMem`). So a table
that is made by insertions has no key twice (`nodup_keys_insertEntry`), and looking up a key finds
what was inserted last (`lookup_insertEntry`).
-/

namespace BlockCircuit

variable {κ α : Type} [DecidableEq κ]

/-- Gives a key a value. -/
def insertEntry : List (κ × α) → κ → α → List (κ × α)
  | [], key, value => [(key, value)]
  | (k, v) :: entries, key, value =>
      if k = key then (k, value) :: entries else (k, v) :: insertEntry entries key value

/-- The keys after an insertion: a new key goes to the end. -/
theorem keys_insertEntry (entries : List (κ × α)) (key : κ) (value : α) :
    (insertEntry entries key value).map Prod.fst =
      if key ∈ entries.map Prod.fst then entries.map Prod.fst
      else entries.map Prod.fst ++ [key] := by
  induction entries with
  | nil => simp [insertEntry]
  | cons entry entries ih =>
    obtain ⟨k, v⟩ := entry
    unfold insertEntry
    split
    · rename_i h
      simp [h]
    · rename_i h
      have h' : ¬key = k := fun e => h e.symm
      simp only [List.map_cons, ih, List.mem_cons, h', false_or]
      split <;> simp

/-- Insertion makes no key occur twice. -/
theorem nodup_keys_insertEntry {entries : List (κ × α)} (key : κ) (value : α)
    (h : (entries.map Prod.fst).Nodup) : ((insertEntry entries key value).map Prod.fst).Nodup := by
  rw [keys_insertEntry]
  split
  · exact h
  · rename_i hkey
    rw [List.nodup_append]
    refine ⟨h, by simp, ?_⟩
    intro a ha b hb hab
    rw [List.mem_singleton] at hb
    subst hab hb
    exact hkey ha

/-- A new key goes to the end. -/
theorem insertEntry_of_notMem {entries : List (κ × α)} {key : κ} (value : α)
    (h : key ∉ entries.map Prod.fst) :
    insertEntry entries key value = entries ++ [(key, value)] := by
  induction entries with
  | nil => rfl
  | cons entry entries ih =>
    obtain ⟨k, v⟩ := entry
    rw [List.map_cons, List.mem_cons, not_or] at h
    rw [insertEntry, if_neg (Ne.symm h.1), ih h.2, List.cons_append]

/-- A key that is there keeps its place and takes the new value, and no other entry changes. -/
theorem exists_insertEntry_of_mem {entries : List (κ × α)} {key : κ} (value : α)
    (h : key ∈ entries.map Prod.fst) :
    ∃ front old back, entries = front ++ (key, old) :: back ∧ key ∉ front.map Prod.fst ∧
      insertEntry entries key value = front ++ (key, value) :: back := by
  induction entries with
  | nil => exact absurd h List.not_mem_nil
  | cons entry entries ih =>
    obtain ⟨k, v⟩ := entry
    by_cases hk : k = key
    · subst hk
      exact ⟨[], v, entries, rfl, List.not_mem_nil, if_pos rfl⟩
    · have hrest : key ∈ entries.map Prod.fst := (List.mem_cons.1 h).resolve_left (Ne.symm hk)
      obtain ⟨front, old, back, hentries, hfront, hinsert⟩ := ih hrest
      refine ⟨(k, v) :: front, old, back, ?_, ?_, ?_⟩
      · rw [hentries, List.cons_append]
      · simp [Ne.symm hk, hfront]
      · rw [insertEntry, if_neg hk, hinsert, List.cons_append]

/-- The entries after an insertion are the new one and others that were there. -/
theorem mem_of_mem_insertEntry {entries : List (κ × α)} {key : κ} {value : α} {entry : κ × α}
    (h : entry ∈ insertEntry entries key value) : entry = (key, value) ∨ entry ∈ entries := by
  induction entries with
  | nil => exact .inl (List.mem_singleton.1 h)
  | cons first entries ih =>
    obtain ⟨k, v⟩ := first
    unfold insertEntry at h
    split at h
    · rename_i hk
      rcases List.mem_cons.1 h with rfl | h
      · exact .inl (hk ▸ rfl)
      · exact .inr (List.mem_cons_of_mem _ h)
    · rcases List.mem_cons.1 h with rfl | h
      · exact .inr List.mem_cons_self
      · exact (ih h).imp_right (List.mem_cons_of_mem _)

theorem lookup_cons_eq [BEq κ] [LawfulBEq κ] (k other : κ) (v : α) (entries : List (κ × α)) :
    ((k, v) :: entries).lookup other = if other = k then some v else entries.lookup other := by
  by_cases h : other = k
  · rw [if_pos h, List.lookup_cons, h, beq_self_eq_true]
  · rw [if_neg h, List.lookup_cons, beq_eq_false_iff_ne.mpr h]

/-- Looking up a key after an insertion finds the new value, and every other key as before. -/
theorem lookup_insertEntry [BEq κ] [LawfulBEq κ] (entries : List (κ × α)) (key other : κ) (value : α) :
    (insertEntry entries key value).lookup other =
      if other = key then some value else entries.lookup other := by
  induction entries with
  | nil => rw [insertEntry, lookup_cons_eq]
  | cons entry entries ih =>
    obtain ⟨k, v⟩ := entry
    unfold insertEntry
    split
    · rename_i hk
      rw [lookup_cons_eq, lookup_cons_eq, hk]
      split <;> simp_all
    · rename_i hk
      rw [lookup_cons_eq, lookup_cons_eq, ih]
      by_cases h : other = k
      · have hne : ¬other = key := fun e => hk (h.symm.trans e)
        rw [if_pos h, if_neg hne, if_pos h]
      · rw [if_neg h, if_neg h]

end BlockCircuit
