import MiniMl.Log.Filter
/-!
# Letter case of filters

A filter is read in lower case. What is proved about filters needs of the letter case that it leaves
the marks and the blanks of a filter where they are, and that in ASCII it is the one of ASCII
(`LetterCase.Lawful`).
-/

namespace MiniMl

namespace Text

/-! ### Lower case -/

private theorem toNat_toLower (c : Char) :
    c.toLower.toNat = if 65 ≤ c.toNat ∧ c.toNat ≤ 90 then c.toNat + 32 else c.toNat := by
  by_cases h : 65 ≤ c.toNat ∧ c.toNat ≤ 90
  · have hupper : c.val ≥ 'A'.val ∧ c.val ≤ 'Z'.val := h
    have hlower : c.toLower.toNat = (c.val + ('a'.val - 'A'.val)).toNat :=
      congrArg Char.toNat (dif_pos hupper)
    have hval : c.val.toNat = c.toNat := rfl
    have hshift : ('a'.val - 'A'.val).toNat = 32 := by decide
    rw [if_pos h, hlower, UInt32.toNat_add]
    omega
  · have hother : ¬ (c.val ≥ 'A'.val ∧ c.val ≤ 'Z'.val) := h
    rw [if_neg h]
    exact congrArg Char.toNat (dif_neg hother)

/-- Only the letters change, and no letter becomes a mark. -/
private theorem toLower_eq_iff {c mark : Char} (hmark : mark.toNat < 65) :
    c.toLower = mark ↔ c = mark := by
  rw [← Char.toNat_inj, ← Char.toNat_inj, toNat_toLower]
  split <;> omega

private theorem isBlank_toLower (c : Char) : isBlank c.toLower = isBlank c := by
  rw [isBlank, isBlank, isWhite, isWhite, toNat_toLower]
  by_cases h : 65 ≤ c.toNat ∧ c.toNat ≤ 90
  · rw [if_pos h, Bool.eq_iff_iff]
    simp
    omega
  · rw [if_neg h]

end Text

/-! ### The laws -/

/-- The text is in ASCII. -/
def IsAscii (text : List Char) : Prop :=
  ∀ c ∈ text, c.toNat < 128

/-- The marks of a filter. -/
def Filter.marks : List Char :=
  [',', '=']

/-- Letters change, and neither marks nor blanks. In ASCII there are no letters but its own. -/
structure LetterCase.Lawful (letters : LetterCase) : Prop where
  lower_append : ∀ {mark : Char}, mark ∈ Filter.marks → ∀ before after : List Char,
    letters.lower (before ++ mark :: after) = letters.lower before ++ mark :: letters.lower after
  mem_lower_iff : ∀ {mark : Char}, mark ∈ Filter.marks → ∀ {text : List Char},
    mark ∈ letters.lower text ↔ mark ∈ text
  all_isBlank_lower : ∀ text, (letters.lower text).all Text.isBlank = text.all Text.isBlank
  lower_ascii : ∀ {text}, IsAscii text → letters.lower text = LetterCase.ascii.lower text
  upper_ascii : ∀ {text}, IsAscii text → letters.upper text = LetterCase.ascii.upper text

private theorem Filter.toNat_of_mem_marks {mark : Char} (h : mark ∈ marks) : mark.toNat < 65 := by
  simp only [marks, List.mem_cons, List.not_mem_nil, or_false] at h
  rcases h with rfl | rfl <;> decide

theorem LetterCase.ascii_lawful : LetterCase.ascii.Lawful where
  lower_append hmark before after := by
    have hsame := (Text.toLower_eq_iff (Filter.toNat_of_mem_marks hmark)).mpr rfl
    simp only [ascii, List.map_append, List.map_cons, hsame]
  mem_lower_iff hmark := by
    simp [ascii, Text.toLower_eq_iff (Filter.toNat_of_mem_marks hmark)]
  all_isBlank_lower text := by
    simp [ascii, List.all_map, Function.comp_def, Text.isBlank_toLower]
  lower_ascii _ := rfl
  upper_ascii _ := rfl

theorem IsAscii.lower {text : List Char} (h : IsAscii text) :
    IsAscii (LetterCase.ascii.lower text) := by
  intro c hc
  obtain ⟨own, hown, rfl⟩ := List.mem_map.mp hc
  have hsmall := h own hown
  rw [Text.toNat_toLower]
  split <;> omega

end MiniMl
