import Mathlib.Data.List.Induction
import MiniMl.Proofs.Lookup
/-!
# Tables that are built up entry by entry

The last entry of a key gives its value, wherever the key got its place. So entries can first be
made a table of their own before they are put into another one (`Assoc.update_ofList`).
-/

namespace MiniMl.Assoc

variable {κ β : Type} [BEq κ]

/-- The table with all the entries put into it, one after the other. -/
def update (table entries : List (κ × β)) : List (κ × β) :=
  entries.foldl (fun table entry => put entry.1 entry.2 table) table

@[simp] theorem update_nil (table : List (κ × β)) : update table [] = table := rfl

@[simp] theorem update_cons (table : List (κ × β)) (entry : κ × β) (rest : List (κ × β)) :
    update table (entry :: rest) = update (put entry.1 entry.2 table) rest := rfl

theorem update_append (table entries others : List (κ × β)) :
    update table (entries ++ others) = update (update table entries) others :=
  List.foldl_append

theorem ofList_eq_update (entries : List (κ × β)) : ofList entries = update [] entries := rfl

variable [LawfulBEq κ]

private theorem put_put (key : κ) (value value' : β) (table : List (κ × β)) :
    put key value (put key value' table) = put key value table := by
  induction table with
  | nil => simp [put]
  | cons entry rest ih =>
      obtain ⟨k, v⟩ := entry
      by_cases hk : (k == key) = true
      · simp [put, hk]
      · simp [put, hk, ih]

/-- A key that has its place can be set before or after another key. -/
private theorem put_comm {key key' : κ} (hne : key ≠ key') (value value' : β) {table : List (κ × β)}
    (hmem : key ∈ table.map Prod.fst) :
    put key value (put key' value' table) = put key' value' (put key value table) := by
  induction table with
  | nil => simp at hmem
  | cons entry rest ih =>
      obtain ⟨k, v⟩ := entry
      by_cases hk : k = key
      · subst hk
        simp [put, hne]
      · have hrest : key ∈ rest.map Prod.fst := by
          simpa [Ne.symm hk] using hmem
        by_cases hk' : k = key'
        · subst hk'
          simp [put, hk]
        · simp [put, hk, hk', ih hrest]

private theorem put_update_of_not_mem {key : κ} (value : β) {entries table : List (κ × β)}
    (hentries : key ∉ entries.map Prod.fst) (htable : key ∈ table.map Prod.fst) :
    put key value (update table entries) = update (put key value table) entries := by
  classical
  induction entries generalizing table with
  | nil => rfl
  | cons entry rest ih =>
      rw [List.map_cons, List.mem_cons, not_or] at hentries
      have hmem : key ∈ (put entry.1 entry.2 table).map Prod.fst := by
        rw [map_fst_put]
        split
        · exact htable
        · exact List.mem_append_left _ htable
      rw [update_cons, update_cons, ih hentries.2 hmem, put_comm hentries.1 _ _ htable]

private theorem mem_keys_put (key : κ) (value : β) (table : List (κ × β)) :
    key ∈ (put key value table).map Prod.fst := by
  classical
  rw [map_fst_put]
  split
  · assumption
  · simp

/-- Setting a key in the entries has the effect of setting it after the entries. -/
private theorem update_put (key : κ) (value : β) (table : List (κ × β)) {entries : List (κ × β)}
    (h : (entries.map Prod.fst).Nodup) :
    update table (put key value entries) = put key value (update table entries) := by
  induction entries generalizing table with
  | nil => rfl
  | cons entry rest ih =>
      obtain ⟨k, v⟩ := entry
      rw [List.map_cons, List.nodup_cons] at h
      by_cases hk : k = key
      · subst hk
        rw [put, if_pos (beq_self_eq_true k), update_cons, update_cons,
          put_update_of_not_mem value h.1 (mem_keys_put k v table), put_put]
      · rw [put, if_neg (by simpa using hk), update_cons, update_cons, ih _ h.2]

theorem update_ofList (table entries : List (κ × β)) :
    update table (ofList entries) = update table entries := by
  induction entries using List.reverseRecOn with
  | nil => rfl
  | append_singleton entries entry ih =>
      have hlast : ofList (entries ++ [entry]) = put entry.1 entry.2 (ofList entries) := by
        rw [ofList_eq_update, update_append, ← ofList_eq_update, update_cons, update_nil]
      rw [hlast, update_put _ _ _ (nodup_ofList entries), ih, update_append, update_cons,
        update_nil]

/-! ### Part of a table -/

section Filter

variable {keep : κ → Bool}

theorem filter_put_of_keep {key : κ} (hkeep : keep key = true) (value : β)
    (table : List (κ × β)) :
    (put key value table).filter (fun entry => keep entry.1)
      = put key value (table.filter fun entry => keep entry.1) := by
  induction table with
  | nil => simp [put, hkeep]
  | cons entry rest ih =>
      obtain ⟨k, v⟩ := entry
      by_cases hk : k = key
      · subst hk
        simp [put, hkeep]
      · cases hkept : keep k <;> simp [put, hk, hkept, ih]

theorem filter_put_of_drop {key : κ} (hdrop : keep key = false) (value : β)
    (table : List (κ × β)) :
    (put key value table).filter (fun entry => keep entry.1)
      = table.filter fun entry => keep entry.1 := by
  induction table with
  | nil => simp [put, hdrop]
  | cons entry rest ih =>
      obtain ⟨k, v⟩ := entry
      by_cases hk : k = key
      · subst hk
        simp [put, hdrop]
      · cases hkept : keep k <;> simp [put, hk, hkept, ih]

theorem lookup_filter_of_keep {key : κ} (hkeep : keep key = true) (table : List (κ × β)) :
    (table.filter fun entry => keep entry.1).lookup key = table.lookup key := by
  induction table with
  | nil => rfl
  | cons entry rest ih =>
      obtain ⟨k, v⟩ := entry
      by_cases hk : key = k
      · subst hk
        simp [hkeep]
      · have hne : (key == k) = false := by simpa using hk
        cases hkept : keep k <;> simp [hkept, List.lookup_cons, hne, ih]

end Filter

/-! ### Names as keys -/

/-- An entry of the second table hides the one of the first. -/
theorem lookup_update {table entries : List (String × β)} (h : (entries.map Prod.fst).Nodup)
    (name : String) :
    (update table entries).lookup name = (entries.lookup name).or (table.lookup name) := by
  induction entries generalizing table with
  | nil => rfl
  | cons entry rest ih =>
      obtain ⟨key, value⟩ := entry
      rw [List.map_cons, List.nodup_cons] at h
      rw [update_cons, ih h.2, lookup_put]
      by_cases hname : name = key
      · subst hname
        simp [lookup_eq_none_iff_not_mem.mpr h.1]
      · have hne : (name == key) = false := by simpa using hname
        simp [hne, List.lookup_cons]

theorem mem_keys_ofList {β : Type} {entries : List (String × β)} {name : String} :
    name ∈ (ofList entries).map Prod.fst ↔ name ∈ entries.map Prod.fst := by
  rw [← not_iff_not, ← lookup_eq_none_iff_not_mem, lookup_ofList,
    lookup_eq_none_iff_not_mem, List.map_reverse, List.mem_reverse]

end MiniMl.Assoc
