import Mathlib.Data.List.DropRight
import MiniMl.Settings.File
/-!
# Files of plain lines

A file of plain lines has on each line an assignment of an unquoted value to an unquoted key, a
comment or nothing but blanks. Reading such a file gives the assignments of its lines, in order
(`assignments_textOf`).
-/

namespace MiniMl.SettingsFile

/-- Can be written as a key without quotes. -/
structure IsWord (key : List Char) : Prop where
  ne_nil : key ≠ []
  not_blank : ∀ c ∈ key, Text.isBlank c = false
  chars : ∀ c ∈ key, c ∉ ['=', '#', '\'', '\uFEFF']

/-- Can be written as a value without quotes. -/
structure IsBare (value : List Char) : Prop where
  chars : ∀ c ∈ value, c ∉ ['\n', '\r', '#']
  first : ∀ c ∈ value.head?, Text.isBlank c = false ∧ c ∉ ['\'', '"']
  last : ∀ c ∈ value.getLast?, Text.isBlank c = false

-- The instances name the list that they go through, so as not to go through all characters.

instance (key : List Char) : Decidable (IsWord key) :=
  letI := List.decidableBAll (fun c => Text.isBlank c = false) key
  letI := List.decidableBAll (· ∉ ['=', '#', '\'', '\uFEFF']) key
  decidable_of_iff (key ≠ [] ∧ (∀ c ∈ key, Text.isBlank c = false)
      ∧ ∀ c ∈ key, c ∉ ['=', '#', '\'', '\uFEFF'])
    ⟨fun ⟨hne, hblank, hchars⟩ => ⟨hne, hblank, hchars⟩,
      fun h => ⟨h.ne_nil, h.not_blank, h.chars⟩⟩

instance (value : List Char) : Decidable (IsBare value) :=
  letI := List.decidableBAll (· ∉ ['\n', '\r', '#']) value
  letI : Decidable (∀ c ∈ value.head?, Text.isBlank c = false ∧ c ∉ ['\'', '"']) :=
    Option.decidableForallMem value.head?
  letI : Decidable (∀ c ∈ value.getLast?, Text.isBlank c = false) :=
    Option.decidableForallMem value.getLast?
  decidable_of_iff ((∀ c ∈ value, c ∉ ['\n', '\r', '#'])
      ∧ (∀ c ∈ value.head?, Text.isBlank c = false ∧ c ∉ ['\'', '"'])
      ∧ ∀ c ∈ value.getLast?, Text.isBlank c = false)
    ⟨fun ⟨hchars, hfirst, hlast⟩ => ⟨hchars, hfirst, hlast⟩,
      fun h => ⟨h.chars, h.first, h.last⟩⟩

/-- A line of a file without quotes. -/
inductive Line where
  | assignment (key value : String)
  | comment (text : String)
  | blank (text : String)

namespace Line

/-- The text of a line without its end. -/
def text : Line → List Char
  | .assignment key value => key.toList ++ '=' :: value.toList
  | .comment text => '#' :: text.toList
  | .blank text => text.toList

def assignment? : Line → Option Assignment
  | .assignment key value => some (key, some value)
  | .comment _ => none
  | .blank _ => none

/-- The parts of the line can be told apart in its text, and it has no line break inside. -/
def Plain : Line → Prop
  | .assignment key value => IsWord key.toList ∧ IsBare value.toList
  | .comment text => ∀ c ∈ text.toList, c ∉ ['\n', '\r']
  | .blank text => ∀ c ∈ text.toList, Text.isBlank c = true ∧ c ∉ ['\n', '\r']

instance : DecidablePred Plain
  | .assignment key value => inferInstanceAs (Decidable (IsWord key.toList ∧ IsBare value.toList))
  | .comment text => List.decidableBAll (· ∉ ['\n', '\r']) text.toList
  | .blank text =>
    List.decidableBAll (fun c => Text.isBlank c = true ∧ c ∉ ['\n', '\r']) text.toList

end Line

/-- The text of a file of lines. -/
def textOf (lines : List Line) : String :=
  String.ofList (lines.flatMap fun line => line.text ++ ['\n'])

/-! ### Parts of a line -/

private theorem isSpace_eq_false {c : Char} (h : Text.isBlank c = false) : isSpace c = false := by
  rw [isSpace, h, Bool.false_and]

section Stop

variable {p : Char → Bool} {inside : List Char} {stop : Char}

private theorem takeWhile_append_stop (h : ∀ c ∈ inside, p c = true) (hstop : p stop = false)
    (rest : List Char) : (inside ++ stop :: rest).takeWhile p = inside := by
  rw [List.takeWhile_append_of_pos h, List.takeWhile_cons_of_neg (by simp [hstop]),
    List.append_nil]

private theorem dropWhile_append_stop (h : ∀ c ∈ inside, p c = true) (hstop : p stop = false)
    (rest : List Char) : (inside ++ stop :: rest).dropWhile p = stop :: rest := by
  rw [List.dropWhile_append_of_pos h, List.dropWhile_cons_of_neg (by simp [hstop])]

end Stop

private theorem ne_break {text : List Char} (h : '\n' ∉ text) : ∀ c ∈ text, (c != '\n') = true := by
  intro c hc
  rw [bne_iff_ne]
  exact fun heq => h (heq ▸ hc)

/-- A key before an equals sign is not taken for the word `export`. -/
private theorem dropExport_key {key : List Char} (h : ∀ c ∈ key, Text.isBlank c = false)
    (rest : List Char) : dropExport (key ++ '=' :: rest) = key ++ '=' :: rest := by
  rw [dropExport, if_neg]
  intro hexport
  obtain ⟨htake, hspace⟩ := Bool.and_eq_true_iff.mp hexport
  have hlength : 6 ≤ key.length := by
    by_contra hshort
    have hmem : '=' ∈ (key ++ '=' :: rest).take 6 := by
      rw [List.take_append, show 6 - key.length = (5 - key.length) + 1 by omega,
        List.take_succ_cons]
      simp
    rw [of_decide_eq_true htake] at hmem
    exact absurd hmem (by decide)
  -- after six characters comes another one of the key or the equals sign, and neither is a space
  rw [List.drop_append_of_le_length hlength] at hspace
  cases hdrop : key.drop 6 with
  | nil =>
      rw [hdrop] at hspace
      have hblank : isSpace '=' = true := hspace
      exact absurd hblank (by decide)
  | cons c more =>
      rw [hdrop] at hspace
      have hblank : isSpace c = true := hspace
      have hmem : c ∈ key := List.mem_of_mem_drop (hdrop ▸ List.mem_cons_self)
      rw [isSpace_eq_false (h c hmem)] at hblank
      cases hblank

theorem IsWord.readKey {key : List Char} (h : IsWord key) (rest : List Char) :
    readKey (key ++ '=' :: rest) = .ok (some key, '=' :: rest) := by
  have hchars : ∀ c ∈ key, (!Text.isBlank c && c != '=' && c != '#') = true := by
    intro c hc
    have hne := h.chars c hc
    simp only [List.mem_cons, not_or] at hne
    simp [h.not_blank c hc, hne.1, hne.2.1]
  obtain ⟨c, more, rfl⟩ := List.exists_cons_of_ne_nil h.ne_nil
  have hc := h.chars c List.mem_cons_self
  rw [List.cons_append, SettingsFile.readKey]
  · rw [← List.cons_append, takeWhile_append_stop hchars (by decide),
      dropWhile_append_stop hchars (by decide)]
    rfl
  · intro tail heq
    exact hc (by simp [(List.cons.inj heq).1])
  · intro tail heq
    exact hc (by simp [(List.cons.inj heq).1])

private theorem dropComment_of_not_mem {value : List Char} (h : '#' ∉ value) :
    dropComment value = value := by
  induction value with
  | nil => rfl
  | cons c rest ih =>
      rw [List.mem_cons, not_or] at h
      have hhead : (rest.head? == some '#') = false := by
        rw [beq_eq_false_iff_ne]
        exact fun hhead => h.2 (List.mem_of_head? hhead)
      rw [dropComment, hhead, Bool.and_false, ih h.2]
      rfl

namespace IsBare

variable {value : List Char}

theorem not_mem (h : IsBare value) {c : Char} (hc : c ∈ ['\n', '\r', '#']) : c ∉ value :=
  fun hmem => h.chars c hmem hc

theorem bareValue (h : IsBare value) : bareValue value = value := by
  rw [SettingsFile.bareValue, dropComment_of_not_mem (h.not_mem (by decide))]
  refine List.rdropWhile_eq_self_iff.mpr fun hne => ?_
  simp [h.last _ (List.getLast?_eq_some_getLast hne)]

theorem readValue (h : IsBare value) (rest : List Char) :
    readValue (value ++ '\n' :: rest) = .ok (value, '\n' :: rest) := by
  have hchars := ne_break (h.not_mem (by decide))
  have hquote : ∀ c ∈ (value ++ '\n' :: rest).head?, c ∉ ['\'', '"'] := by
    cases value with
    | nil =>
        rintro c ⟨⟩
        decide
    | cons d more => exact fun c hc => (h.first c hc).2
  rw [SettingsFile.readValue, takeWhile_append_stop hchars (by decide),
    dropWhile_append_stop hchars (by decide), h.bareValue]
  · intro tail heq
    exact hquote '\'' (by rw [heq]; rfl) (by decide)
  · intro tail heq
    exact hquote '"' (by rw [heq]; rfl) (by decide)

theorem readAssigned (h : IsBare value) (rest : List Char) :
    readAssigned ('=' :: (value ++ '\n' :: rest)) = .ok (some value, '\n' :: rest) := by
  have hstart : (value ++ '\n' :: rest).dropWhile isSpace = value ++ '\n' :: rest := by
    cases value with
    | nil => exact List.dropWhile_cons_of_neg (by decide)
    | cons c more =>
        exact List.dropWhile_cons_of_neg (by simp [isSpace_eq_false (h.first c rfl).1])
  rw [SettingsFile.readAssigned, List.dropWhile_cons_of_neg (by decide)]
  simp only [hstart, h.readValue]
  rfl

end IsBare

/-! ### Lines -/

private theorem readAssignment_plain {key value : List Char} (hkey : IsWord key)
    (hvalue : IsBare value) (rest : List Char) :
    readAssignment (key ++ '=' :: (value ++ '\n' :: rest))
      = .ok (some (String.ofList key, some (String.ofList value)), rest) := by
  rw [readAssignment, dropExport_key hkey.not_blank, hkey.readKey]
  simp only [bind, Except.bind, hvalue.readAssigned]
  rfl

private theorem readLineEnd_comment {text : List Char} (h : '\n' ∉ text) (rest : List Char) :
    readLineEnd ('#' :: (text ++ '\n' :: rest)) = .ok rest := by
  have hspaced : ('#' :: (text ++ '\n' :: rest)).dropWhile isSpace
      = '#' :: (text ++ '\n' :: rest) := List.dropWhile_cons_of_neg (by decide)
  have hline : ('#' :: (text ++ '\n' :: rest)).dropWhile (· != '\n') = '\n' :: rest := by
    rw [← List.cons_append]
    exact dropWhile_append_stop (ne_break (by simpa using h)) (by decide) rest
  simp only [readLineEnd, hspaced, hline, List.head?_cons, beq_self_eq_true, if_true]

private theorem readAssignment_comment {text : List Char} (h : '\n' ∉ text) (rest : List Char) :
    readAssignment ('#' :: (text ++ '\n' :: rest)) = .ok (none, rest) := by
  have hexport : dropExport ('#' :: (text ++ '\n' :: rest)) = '#' :: (text ++ '\n' :: rest) := by
    rw [dropExport, if_neg]
    intro hexport
    have htake := of_decide_eq_true (Bool.and_eq_true_iff.mp hexport).1
    exact absurd (List.cons.inj htake).1 (by decide)
  have hassigned : readAssigned ('#' :: (text ++ '\n' :: rest))
      = .ok (none, '#' :: (text ++ '\n' :: rest)) := by
    rw [readAssigned, List.dropWhile_cons_of_neg (by decide)]
    rfl
  rw [readAssignment, hexport, readKey]
  simp only [bind, Except.bind, hassigned, readLineEnd_comment h]
  rfl

private theorem readAll_of_readAssignment (bound : Nat) {c : Char} {rest after : List Char}
    {found : Option Assignment} (hc : Text.isBlank c = false)
    (h : readAssignment (c :: rest) = .ok (found, after)) :
    readAll (bound + 1) (c :: rest) = found.toList ++ readAll bound after := by
  rw [readAll, List.dropWhile_cons_of_neg (by simp [hc])]
  simp only [h]

private theorem readAll_append_blank (bound : Nat) {blank : List Char}
    (h : ∀ c ∈ blank, Text.isBlank c = true) (rest : List Char) :
    readAll bound (blank ++ rest) = readAll bound rest := by
  cases bound with
  | zero => rfl
  | succ bound => rw [readAll, readAll, List.dropWhile_append_of_pos h]

/-- One line: its assignment is read, and the bound that is left suffices for the lines after it. -/
theorem Line.Plain.readAll {line : Line} (h : line.Plain) {bound : Nat} {rest : List Char}
    (hbound : (line.text ++ '\n' :: rest).length ≤ bound) :
    ∃ left, rest.length ≤ left ∧
      readAll bound (line.text ++ '\n' :: rest) = line.assignment?.toList ++ readAll left rest := by
  rw [List.length_append, List.length_cons] at hbound
  cases line with
  | assignment key value =>
      obtain ⟨hkey, hvalue⟩ := h
      obtain ⟨left, rfl⟩ : ∃ left, bound = left + 1 := ⟨bound - 1, by omega⟩
      refine ⟨left, by omega, ?_⟩
      have hread := readAssignment_plain hkey hvalue rest
      obtain ⟨c, more, hcons⟩ := List.exists_cons_of_ne_nil hkey.ne_nil
      rw [String.ofList_toList, String.ofList_toList, hcons] at hread
      have htext : (assignment key value).text ++ '\n' :: rest
          = c :: more ++ '=' :: (value.toList ++ '\n' :: rest) := by
        rw [text, hcons, List.append_assoc]
        rfl
      rw [htext]
      exact readAll_of_readAssignment left (hkey.not_blank c (hcons ▸ List.mem_cons_self)) hread
  | comment text =>
      obtain ⟨left, rfl⟩ : ∃ left, bound = left + 1 := ⟨bound - 1, by omega⟩
      have hbreak : '\n' ∉ text.toList := fun hmem => h '\n' hmem (by decide)
      exact ⟨left, by omega,
        readAll_of_readAssignment left (by decide) (readAssignment_comment hbreak rest)⟩
  | blank text =>
      refine ⟨bound, by omega, ?_⟩
      have hblank : ∀ c ∈ text.toList ++ ['\n'], Text.isBlank c = true := by
        intro c hc
        rcases List.mem_append.mp hc with hc | hc
        · exact (h c hc).1
        · rw [List.mem_singleton.mp hc]
          decide
      have hread := readAll_append_blank bound hblank rest
      rw [List.append_assoc] at hread
      exact hread

/-! ### Files -/

private theorem readAll_lines {lines : List Line} (h : ∀ line ∈ lines, line.Plain) {bound : Nat}
    (hbound : (lines.flatMap fun line => line.text ++ ['\n']).length ≤ bound) :
    readAll bound (lines.flatMap fun line => line.text ++ ['\n'])
      = lines.filterMap Line.assignment? := by
  induction lines generalizing bound with
  | nil => cases bound <;> rfl
  | cons line lines ih =>
      rw [List.flatMap_cons, List.append_assoc, List.singleton_append] at hbound ⊢
      obtain ⟨left, hleft, hread⟩ := (h line List.mem_cons_self).readAll hbound
      rw [hread, ih (fun other hother => h other (List.mem_cons_of_mem line hother)) hleft]
      cases hline : line.assignment? with
      | none => rw [List.filterMap_cons_none hline]; rfl
      | some assignment => rw [List.filterMap_cons_some hline]; rfl

private theorem unifyBreaks_of_not_mem {text : List Char} (h : '\r' ∉ text) :
    Text.unifyBreaks text = text := by
  fun_induction Text.unifyBreaks text with
  | case1 => rfl
  | case2 rest ih => exact absurd List.mem_cons_self h
  | case3 c rest hrest ih =>
      rw [List.mem_cons, not_or] at h
      rw [if_neg (Ne.symm h.1), ih h.2]

private theorem dropByteOrderMark_of_head {text : List Char} (h : text.head? ≠ some '\uFEFF') :
    dropByteOrderMark text = text := by
  rw [dropByteOrderMark]
  intro rest heq
  exact h (by rw [heq]; rfl)

private theorem Line.Plain.no_return {line : Line} (h : line.Plain) : '\r' ∉ line.text := by
  cases line with
  | assignment key value =>
      obtain ⟨hkey, hvalue⟩ := h
      have hreturn : '\r' ∉ key.toList := fun hmem => by
        have hblank := hkey.not_blank '\r' hmem
        exact absurd hblank (by decide)
      simp [text, hreturn, hvalue.not_mem]
  | comment text => simpa [Line.text] using fun hmem => h '\r' hmem (by decide)
  | blank text => exact fun hmem => (h '\r' hmem).2 (by decide)

private theorem Line.Plain.head_ne {line : Line} (h : line.Plain) (rest : List Char) :
    (line.text ++ '\n' :: rest).head? ≠ some '\uFEFF' := by
  cases line with
  | assignment key value =>
      obtain ⟨c, more, hcons⟩ := List.exists_cons_of_ne_nil h.1.ne_nil
      have hc := h.1.chars c (hcons ▸ List.mem_cons_self)
      rw [text, hcons]
      rintro ⟨⟩
      exact hc (by decide)
  | comment text =>
      rintro ⟨⟩
  | blank text =>
      cases hcons : text.toList with
      | nil =>
          rw [Line.text, hcons]
          rintro ⟨⟩
      | cons c more =>
          have hc := (h c (hcons ▸ List.mem_cons_self)).1
          rw [Line.text, hcons]
          rintro ⟨⟩
          exact absurd hc (by decide)

/-- A file of plain lines assigns what its lines assign, in order. -/
theorem assignments_textOf {lines : List Line} (h : ∀ line ∈ lines, line.Plain) :
    assignments (textOf lines) = lines.filterMap Line.assignment? := by
  have hmark : dropByteOrderMark (textOf lines).toList = (textOf lines).toList := by
    rw [textOf, String.toList_ofList]
    refine dropByteOrderMark_of_head ?_
    cases lines with
    | nil => rintro ⟨⟩
    | cons line lines =>
        rw [List.flatMap_cons, List.append_assoc]
        exact (h line List.mem_cons_self).head_ne _
  have hreturn : '\r' ∉ (textOf lines).toList := by
    rw [textOf, String.toList_ofList]
    intro hmem
    obtain ⟨line, hline, hmem⟩ := List.mem_flatMap.mp hmem
    rcases List.mem_append.mp hmem with hmem | hmem
    · exact (h line hline).no_return hmem
    · exact absurd hmem (by decide)
  rw [assignments, hmark, unifyBreaks_of_not_mem hreturn]
  rw [textOf, String.toList_ofList]
  exact readAll_lines h le_rfl

end MiniMl.SettingsFile
