import MiniMl.Proofs.Tables
import MiniMl.Settings.File
/-!
# What a settings file assigns

The value of a key is the one of its last assignment, with the references in it replaced by what
they stood for at that place (`lookup_tableOf_eq_some_iff`). The keys of the table are in the order
of their first assignments. A part of the assignments that mentions no key outside itself gives its
part of the table on its own (`filter_tableOf`), so that what is assigned to all other keys does not
matter to it. This needs of a reader that the names which a value mentions are all that matters to
the replacement of its references.
-/

namespace MiniMl.SettingsFile

/-! ### References -/

/-- The name stands in the text in braces after a dollar sign, alone or before a fallback. -/
def Mentions (text : List Char) (name : String) : Prop :=
  ('$' :: '\x7b' :: name.toList ++ ['\x7d']) <:+: text
    ∨ ('$' :: '\x7b' :: name.toList ++ [':', '-']) <:+: text

theorem Mentions.mono {text part : List Char} {name : String} (h : Mentions part name)
    (hpart : part <:+: text) : Mentions text name :=
  h.imp (fun hinfix => hinfix.trans hpart) (fun hinfix => hinfix.trans hpart)

theorem Mentions.dollar_mem {text : List Char} {name : String} (h : Mentions text name) :
    '$' ∈ text := by
  rcases h with hinfix | hinfix
  · exact hinfix.subset List.mem_cons_self
  · exact hinfix.subset List.mem_cons_self

private theorem reference?_eq_some {inside name fallback after : List Char}
    (h : reference? inside = some ((name, fallback), after)) :
    inside = name ++ '\x7d' :: after
      ∨ inside = name ++ ':' :: '-' :: (fallback ++ '\x7d' :: after) := by
  simp only [reference?] at h
  rw [← @List.takeWhile_append_dropWhile Char (fun c => c != '\x7d' && c != ':') inside]
  split at h
  · rename_i rest hrest
    cases h
    rw [hrest]
    exact .inl rfl
  · rename_i rest hrest
    obtain ⟨⟨inner, outer⟩, hcut, heq⟩ := Option.map_eq_some_iff.mp h
    cases heq
    rw [hrest, (Text.cut_eq_some_iff.mp hcut).1]
    exact .inr rfl
  · cases h

private theorem mentions_of_reference {inside name fallback after : List Char}
    (h : reference? inside = some ((name, fallback), after)) :
    Mentions ('$' :: '\x7b' :: inside) (String.ofList name)
      ∧ after <:+: '$' :: '\x7b' :: inside := by
  rcases reference?_eq_some h with rfl | rfl
  · exact ⟨.inl ⟨[], after, by simp⟩, '$' :: '\x7b' :: name ++ ['\x7d'], [], by simp⟩
  · exact ⟨.inr ⟨[], fallback ++ '\x7d' :: after, by simp⟩,
      '$' :: '\x7b' :: name ++ ':' :: '-' :: fallback ++ ['\x7d'], [], by simp⟩

private theorem expand_reference (value : String → String → String) (bound : Nat)
    {inside name fallback after : List Char}
    (h : reference? inside = some ((name, fallback), after)) :
    expand value (bound + 1) ('$' :: '\x7b' :: inside)
      = (value (String.ofList name) (String.ofList fallback)).toList
        ++ expand value bound after := by
  rw [expand]
  simp only [h]

/-- A character at which no reference starts is copied. -/
private theorem expand_copy (value : String → String → String) (bound : Nat) {c : Char}
    {rest : List Char}
    (h : ∀ inside, c = '$' → rest = '\x7b' :: inside → reference? inside = none) :
    expand value (bound + 1) (c :: rest) = c :: expand value bound rest := by
  by_cases hstart : ∃ inside, c = '$' ∧ rest = '\x7b' :: inside
  · obtain ⟨inside, rfl, rfl⟩ := hstart
    rw [expand]
    simp only [h inside rfl rfl]
  · rw [expand]
    exact fun inside hc hrest => hstart ⟨inside, hc, hrest⟩

/-- Only the names that a text mentions matter to it. -/
theorem expand_congr {value value' : String → String → String} (bound : Nat) {text : List Char}
    (h : ∀ name, Mentions text name → ∀ fallback, value name fallback = value' name fallback) :
    expand value bound text = expand value' bound text := by
  induction bound generalizing text with
  | zero => rfl
  | succ bound ih =>
      cases text with
      | nil => rfl
      | cons c rest =>
          by_cases hreference : ∃ inside found, c = '$' ∧ rest = '\x7b' :: inside
              ∧ reference? inside = some found
          · obtain ⟨inside, ⟨⟨name, fallback⟩, after⟩, rfl, rfl, hfound⟩ := hreference
            obtain ⟨hmentions, hafter⟩ := mentions_of_reference hfound
            rw [expand_reference value bound hfound, expand_reference value' bound hfound,
              h _ hmentions, ih fun other hother => h other (hother.mono hafter)]
          · have hcopy : ∀ inside, c = '$' → rest = '\x7b' :: inside →
                reference? inside = none := by
              intro inside hc hrest
              by_contra hsome
              obtain ⟨found, hfound⟩ := Option.ne_none_iff_exists'.mp hsome
              exact hreference ⟨inside, found, hc, hrest, hfound⟩
            rw [expand_copy value bound hcopy, expand_copy value' bound hcopy,
              ih fun other hother => h other (hother.mono (List.infix_cons List.infix_rfl))]

theorem expand_of_not_mem (value : String → String → String) (bound : Nat) {text : List Char}
    (h : '$' ∉ text) : expand value bound text = text := by
  induction bound generalizing text with
  | zero => rfl
  | succ bound ih =>
      cases text with
      | nil => rfl
      | cons c rest =>
          rw [List.mem_cons, not_or] at h
          rw [expand_copy value bound fun _ hc => absurd hc.symm h.1, ih h.2]

theorem substitute_congr {value value' : String → String → String} {text : String}
    (h : ∀ name, Mentions text.toList name → ∀ fallback,
      value name fallback = value' name fallback) :
    substitute value text = substitute value' text := by
  rw [substitute, substitute, expand_congr text.length h]

theorem substitute_of_not_mem (value : String → String → String) {text : String}
    (h : '$' ∉ text.toList) : substitute value text = text := by
  rw [substitute, expand_of_not_mem value text.length h, String.ofList_toList]

end MiniMl.SettingsFile

/-! ### The table of a row of assignments -/

namespace MiniMl.SettingsReader

open SettingsFile

variable {reader : SettingsReader} {vars : List (String × String)}

/-- A value after some assignments: its references are replaced. -/
def replaced (reader : SettingsReader) (vars : List (String × String)) (before : List Assignment)
    (value : String) : String :=
  reader.substitute (resolve vars (reader.tableOf vars before)) value

theorem tableOf_concat (reader : SettingsReader) (vars : List (String × String))
    (before : List Assignment) (assignment : Assignment) :
    reader.tableOf vars (before ++ [assignment])
      = Assoc.put assignment.1 (assignment.2.map (reader.replaced vars before))
        (reader.tableOf vars before) := by
  rw [tableOf, List.foldl_append]
  rfl

/-- The keys stand in the order of their first assignments. -/
theorem keys_tableOf (reader : SettingsReader) (vars : List (String × String))
    (assignments : List Assignment) :
    (reader.tableOf vars assignments).map Prod.fst = (assignments.map Prod.fst).eraseDups := by
  induction assignments using List.reverseRecOn with
  | nil => rfl
  | append_singleton before assignment ih =>
      rw [tableOf_concat, Assoc.map_fst_put, ih, List.map_append, List.eraseDups_append]
      simp only [List.mem_eraseDups, List.map_cons, List.map_nil]
      split
      · rename_i hmem
        simp [List.removeAll, hmem]
      · rename_i hnew
        simp [List.removeAll, hnew, List.eraseDups_cons]

theorem nodup_keys_tableOf (reader : SettingsReader) (vars : List (String × String))
    (assignments : List Assignment) :
    ((reader.tableOf vars assignments).map Prod.fst).Nodup := by
  induction assignments using List.reverseRecOn with
  | nil => exact List.nodup_nil
  | append_singleton before assignment ih =>
      rw [tableOf_concat]
      exact Assoc.nodup_put ih

/-- The key has the value of its last assignment, where the references are replaced by what they
stand for after the assignments before it. -/
def Assigned (reader : SettingsReader) (vars : List (String × String))
    (assignments : List Assignment) (key : String) (value? : Option String) : Prop :=
  ∃ before raw? after, assignments = before ++ (key, raw?) :: after ∧ key ∉ after.map Prod.fst
    ∧ value? = raw?.map (reader.replaced vars before)

private theorem lookup_tableOf_append (before : List Assignment) {after : List Assignment}
    {key : String} (h : key ∉ after.map Prod.fst) :
    (reader.tableOf vars (before ++ after)).lookup key
      = (reader.tableOf vars before).lookup key := by
  induction after using List.reverseRecOn with
  | nil => rw [List.append_nil]
  | append_singleton after last ih =>
      rw [List.map_append, List.mem_append, not_or] at h
      have hne : (key == last.1) = false := by simpa using h.2
      rw [← List.append_assoc, tableOf_concat, Assoc.lookup_put, hne]
      exact ih h.1

theorem lookup_tableOf_eq_some_iff {assignments : List Assignment} {key : String}
    {value? : Option String} :
    (reader.tableOf vars assignments).lookup key = some value?
      ↔ reader.Assigned vars assignments key value? := by
  constructor
  · intro h
    induction assignments using List.reverseRecOn with
    | nil => cases h
    | append_singleton before last ih =>
        rw [tableOf_concat, Assoc.lookup_put] at h
        by_cases hkey : key = last.1
        · rw [if_pos (by simpa using hkey)] at h
          subst hkey
          exact ⟨before, last.2, [], rfl, by simp, (Option.some.inj h).symm⟩
        · rw [if_neg (by simpa using hkey)] at h
          obtain ⟨start, raw?, after, rfl, hafter, hvalue⟩ := ih h
          exact ⟨start, raw?, after ++ [last], by simp, by simpa [hkey] using hafter, hvalue⟩
  · rintro ⟨before, raw?, after, rfl, hafter, rfl⟩
    rw [List.append_cons, lookup_tableOf_append _ hafter, tableOf_concat, Assoc.lookup_put]
    simp

/-! ### Part of a table -/

/-- Only the names that a value mentions matter to its references. -/
def OnlyMentioned (reader : SettingsReader) : Prop :=
  ∀ {value value' : String → String → String} {text : String},
    (∀ name, Mentions text.toList name → ∀ fallback,
      value name fallback = value' name fallback) →
    reader.substitute value text = reader.substitute value' text

/-- What is kept of some assignments mentions only names that are kept. -/
def Closed (keep : String → Bool) (assignments : List Assignment) : Prop :=
  ∀ assignment ∈ assignments, keep assignment.1 = true → ∀ raw, assignment.2 = some raw →
    ∀ name, Mentions raw.toList name → keep name = true

theorem filter_tableOf {keep : String → Bool} {vars vars' : List (String × String)}
    {assignments : List Assignment} (hreader : reader.OnlyMentioned)
    (hclosed : Closed keep assignments)
    (hvars : ∀ name, keep name = true → vars.lookup name = vars'.lookup name) :
    (reader.tableOf vars assignments).filter (fun entry => keep entry.1)
      = reader.tableOf vars' (assignments.filter fun assignment => keep assignment.1) := by
  induction assignments using List.reverseRecOn with
  | nil => rfl
  | append_singleton before assignment ih =>
      have ih := ih fun earlier hearlier => hclosed earlier (List.mem_append_left _ hearlier)
      rw [tableOf_concat, List.filter_append]
      cases hkeep : keep assignment.1 with
      | false =>
          rw [Assoc.filter_put_of_drop hkeep, ih]
          simp [hkeep]
      | true =>
          have hvalue : assignment.2.map (reader.replaced vars before)
              = assignment.2.map
                (reader.replaced vars' (before.filter fun earlier => keep earlier.1)) := by
            refine Option.map_congr fun raw hraw => ?_
            refine hreader fun name hmentions fallback => ?_
            have hname := hclosed assignment (by simp) hkeep raw hraw name hmentions
            rw [resolve, resolve, ← ih, Assoc.lookup_filter_of_keep hname, hvars name hname]
          have hlast : [assignment].filter (fun last => keep last.1) = [assignment] := by
            simp [hkeep]
          rw [Assoc.filter_put_of_keep hkeep, ih, hvalue, hlast, tableOf_concat]

end MiniMl.SettingsReader
