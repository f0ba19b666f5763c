/-!
# Association lists in order of first arrival

A key keeps the place where it first arrived and the value that arrived last. A key that has a place
is never given a second one.
-/

namespace MiniMl.Assoc

variable {κ β : Type} [BEq κ]

/-- Sets the value of a key, at its place if it is there and at the end if it is new. -/
def put (key : κ) (value : β) : List (κ × β) → List (κ × β)
  | [] => [(key, value)]
  | (k, v) :: rest => if k == key then (k, value) :: rest else (k, v) :: put key value rest

/-- The table that a list of entries builds up, one after the other. -/
def ofList (entries : List (κ × β)) : List (κ × β) :=
  entries.foldl (fun table entry => put entry.1 entry.2 table) []

private theorem lookup_cons_eq (k k' : κ) (v : β) (rest : List (κ × β)) :
    List.lookup k ((k', v) :: rest) = if k == k' then some v else rest.lookup k := by
  rw [List.lookup_cons]
  cases k == k' <;> rfl

variable [LawfulBEq κ]

theorem lookup_put (key k : κ) (value : β) (table : List (κ × β)) :
    (put key value table).lookup k = if k == key then some value else table.lookup k := by
  induction table with
  | nil => exact lookup_cons_eq k key value []
  | cons entry rest ih =>
    obtain ⟨k', v⟩ := entry
    rw [put]
    by_cases hkey : k' = key
    · subst hkey
      rw [if_pos (beq_self_eq_true k'), lookup_cons_eq, lookup_cons_eq]
      split <;> rfl
    · rw [if_neg (by simpa using hkey), lookup_cons_eq, lookup_cons_eq, ih]
      by_cases hk : k = k'
      · subst hk
        rw [if_pos (beq_self_eq_true k), if_pos (beq_self_eq_true k), if_neg (by simpa using hkey)]
      · have hne : ¬ (k == k') = true := by simpa using hk
        rw [if_neg hne, if_neg hne]

/-- A new key goes to the end, and a key that is there moves nothing. -/
theorem map_fst_put [DecidableEq κ] (key : κ) (value : β) (table : List (κ × β)) :
    (put key value table).map Prod.fst
      = if key ∈ table.map Prod.fst then table.map Prod.fst else table.map Prod.fst ++ [key] := by
  induction table with
  | nil => simp [put]
  | cons entry rest ih =>
    obtain ⟨k, v⟩ := entry
    rw [put]
    by_cases hkey : k = key
    · simp [hkey]
    · have hne : ¬ key = k := fun h => hkey h.symm
      simp only [beq_eq_false_iff_ne.mpr hkey, Bool.false_eq_true, if_false, List.map_cons, ih,
        List.mem_cons, hne, false_or]
      split <;> simp

theorem nodup_put {key : κ} {value : β} {table : List (κ × β)} (h : (table.map Prod.fst).Nodup) :
    ((put key value table).map Prod.fst).Nodup := by
  classical
  rw [map_fst_put]
  split
  · exact h
  · rename_i hnew
    refine List.nodup_append.mpr ⟨h, by simp, ?_⟩
    intro a ha b hb hab
    rw [List.mem_singleton.mp hb] at hab
    exact hnew (hab ▸ ha)

private theorem nodup_foldl_put (entries : List (κ × β)) {table : List (κ × β)}
    (h : (table.map Prod.fst).Nodup) :
    ((entries.foldl (fun table entry => put entry.1 entry.2 table) table).map Prod.fst).Nodup := by
  induction entries generalizing table with
  | nil => exact h
  | cons entry rest ih => exact ih (nodup_put h)

/-- No key of a table has two places. -/
theorem nodup_ofList (entries : List (κ × β)) : ((ofList entries).map Prod.fst).Nodup :=
  nodup_foldl_put entries List.nodup_nil

private theorem lookup_foldl_put (entries : List (κ × β)) (k : κ) (table : List (κ × β)) :
    (entries.foldl (fun table entry => put entry.1 entry.2 table) table).lookup k
      = (entries.reverse.lookup k <|> table.lookup k) := by
  induction entries generalizing table with
  | nil => simp
  | cons entry rest ih =>
    rw [List.foldl_cons, ih, lookup_put, List.reverse_cons, List.lookup_append,
      show [entry] = [(entry.1, entry.2)] from rfl, lookup_cons_eq]
    cases rest.reverse.lookup k with
    | some v => rfl
    | none => by_cases hk : (k == entry.1) = true <;> simp [hk]

/-- The last entry of a key gives its value. -/
theorem lookup_ofList (entries : List (κ × β)) (k : κ) :
    (ofList entries).lookup k = entries.reverse.lookup k := by
  rw [ofList, lookup_foldl_put]
  simp

end MiniMl.Assoc
