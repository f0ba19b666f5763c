import Mathlib.Data.List.DropRight
import MiniMl.Proofs.LetterCase
import MiniMl.Proofs.Tables
/-!
# Filters of joined texts

A filter follows the parts of its text one after the other (`Filter.parse_eq_foldl`). A part can be
read as it stands, before letters are put in lower case and blanks are dropped: it sets the level
for everything, or the level of a module, or nothing if it is blank. So the filter of two texts with
a comma between them is the filter of the first one, updated by the filter of the second one.

This needs of the letter case that the marks of a filter stay where they are (`LetterCase.Lawful`).
For a text in ASCII the filter does not depend on the letter case of other letters.
-/

namespace MiniMl

namespace Text

/-! ### Trimming and cutting -/

section Trim

variable {drop : Char → Bool}

private theorem trim_eq_rdropWhile (text : List Char) :
    trim drop text = (text.dropWhile drop).rdropWhile drop := rfl

private theorem dropWhile_append_cons {c : Char} (hc : drop c = false) (before after : List Char) :
    (before ++ c :: after).dropWhile drop = before.dropWhile drop ++ c :: after := by
  rw [List.dropWhile_append, List.dropWhile_cons_of_neg (by simp [hc])]
  split
  · rename_i hempty
    rw [List.isEmpty_iff.mp hempty, List.nil_append]
  · rfl

private theorem rdropWhile_append_cons {c : Char} (hc : drop c = false) (before after : List Char) :
    (before ++ c :: after).rdropWhile drop = before ++ c :: after.rdropWhile drop := by
  simp [List.rdropWhile, dropWhile_append_cons hc]

/-- A character that stays keeps the two ends apart. -/
private theorem trim_append_cons {c : Char} (hc : drop c = false) (before after : List Char) :
    trim drop (before ++ c :: after) = before.dropWhile drop ++ c :: after.rdropWhile drop := by
  rw [trim_eq_rdropWhile, dropWhile_append_cons hc, rdropWhile_append_cons hc]

private theorem trim_dropWhile (text : List Char) :
    trim drop (text.dropWhile drop) = trim drop text := by
  rw [trim, List.dropWhile_idempotent, trim]

private theorem trim_concat {c : Char} (hc : drop c = true) (text : List Char) :
    trim drop (text ++ [c]) = trim drop text := by
  rw [trim_eq_rdropWhile, trim_eq_rdropWhile, List.dropWhile_append]
  split
  · rename_i hempty
    rw [List.isEmpty_iff.mp hempty, List.dropWhile_cons_of_pos hc, List.dropWhile_nil]
  · rw [List.rdropWhile_concat_pos _ _ _ hc]

private theorem trim_rdropWhile (text : List Char) :
    trim drop (text.rdropWhile drop) = trim drop text := by
  induction text using List.reverseRecOn with
  | nil => rfl
  | append_singleton text c ih =>
      by_cases hc : drop c = true
      · rw [List.rdropWhile_concat_pos _ _ _ hc, trim_concat hc, ih]
      · rw [List.rdropWhile_concat_neg _ _ _ hc]

private theorem trim_eq_nil_iff {text : List Char} :
    trim drop text = [] ↔ ∀ c ∈ text, drop c = true := by
  rw [trim_eq_rdropWhile, List.rdropWhile_eq_nil_iff]
  induction text with
  | nil => simp
  | cons c rest ih =>
      by_cases hc : drop c = true
      · rw [List.dropWhile_cons_of_pos hc, ih]
        simp [hc]
      · rw [List.dropWhile_cons_of_neg hc]

private theorem mem_of_mem_trim {text : List Char} {c : Char} (h : c ∈ trim drop text) :
    c ∈ text := by
  rw [trim, List.mem_reverse] at h
  have hdropped := (List.dropWhile_sublist drop).subset h
  exact (List.dropWhile_sublist drop).subset (List.mem_reverse.mp hdropped)

private theorem cut_eq_none_iff {separator : Char} {text : List Char} :
    cut separator text = none ↔ separator ∉ text := by
  induction text with
  | nil => simp [cut]
  | cons c rest ih =>
      rw [cut]
      by_cases hc : c = separator
      · simp [hc]
      · simp [hc, ih, Ne.symm hc]

private theorem split_of_not_mem {separator : Char} {text : List Char} (h : separator ∉ text) :
    split separator text = [text] := by
  induction text with
  | nil => rfl
  | cons c rest ih =>
      rw [List.mem_cons, not_or] at h
      rw [split, if_neg (Ne.symm h.1), ih h.2]
      rfl

private theorem mem_of_mem_split {separator : Char} {text piece : List Char}
    (hpiece : piece ∈ split separator text) {c : Char} (hc : c ∈ piece) : c ∈ text := by
  induction text generalizing piece with
  | nil =>
      rw [List.mem_singleton.mp hpiece] at hc
      exact hc
  | cons first rest ih =>
      rw [split] at hpiece
      split at hpiece
      · rcases List.mem_cons.mp hpiece with rfl | hpiece
        · cases hc
        · exact List.mem_cons_of_mem _ (ih hpiece hc)
      · cases hsplit : split separator rest with
        | nil => exact absurd hsplit (split_ne_nil separator rest)
        | cons head tail =>
            rw [hsplit] at hpiece ih
            rcases List.mem_cons.mp hpiece with rfl | hpiece
            · rcases List.mem_cons.mp hc with rfl | hc
              · exact List.mem_cons_self
              · exact List.mem_cons_of_mem _ (ih List.mem_cons_self hc)
            · exact List.mem_cons_of_mem _ (ih (List.mem_cons_of_mem _ hpiece) hc)

end Trim

end Text

/-! ### Parts in lower case -/

namespace LetterCase

variable (letters : LetterCase)

/-- A text in lower case, without blanks at its ends. -/
def normal (text : List Char) : List Char :=
  Text.trim Text.isBlank (letters.lower text)

variable {letters} (hletters : letters.Lawful)

include hletters

private theorem Lawful.split_lower (text : List Char) :
    Text.split ',' (letters.lower text) = (Text.split ',' text).map letters.lower := by
  -- The induction is on the length: what comes after the first comma is shorter.
  induction hlength : text.length using Nat.strong_induction_on generalizing text with
  | _ length ih =>
      cases hcut : Text.cut ',' text with
      | none =>
          have hnone := Text.cut_eq_none_iff.mp hcut
          have hnone' := mt (hletters.mem_lower_iff (by decide)).mp hnone
          rw [Text.split_of_not_mem hnone, Text.split_of_not_mem hnone']
          rfl
      | some halves =>
          obtain ⟨rfl, hbefore⟩ := Text.cut_eq_some_iff.mp hcut
          have hbefore' := mt (hletters.mem_lower_iff (by decide)).mp hbefore
          have hrest := ih halves.2.length (by rw [← hlength]; simp; omega) halves.2 rfl
          rw [hletters.lower_append (by decide), Text.split_append, Text.split_append, hrest,
            Text.split_of_not_mem hbefore, Text.split_of_not_mem hbefore', List.map_append]
          rfl

private theorem Lawful.normal_eq_nil_iff {text : List Char} :
    letters.normal text = [] ↔ text.all Text.isBlank = true := by
  rw [normal, Text.trim_eq_nil_iff, ← hletters.all_isBlank_lower, List.all_eq_true]

private theorem Lawful.cut_normal_of_not_mem {text : List Char} (h : '=' ∉ text) :
    Text.cut '=' (letters.normal text) = none := by
  rw [Text.cut_eq_none_iff]
  intro hmem
  exact h ((hletters.mem_lower_iff (by decide)).mp (Text.mem_of_mem_trim hmem))

/-- The two halves of a text lose their inner blanks only when they are looked at on their own. -/
private theorem Lawful.cut_normal_of_cut {text before after : List Char}
    (h : Text.cut '=' text = some (before, after)) :
    Text.cut '=' (letters.normal text) = some ((letters.lower before).dropWhile Text.isBlank,
      (letters.lower after).rdropWhile Text.isBlank) := by
  obtain ⟨rfl, hbefore⟩ := Text.cut_eq_some_iff.mp h
  rw [Text.cut_eq_some_iff]
  constructor
  · rw [normal, hletters.lower_append (by decide)]
    exact Text.trim_append_cons (by decide) _ _
  · intro hmem
    have hlower := (List.dropWhile_sublist Text.isBlank).subset hmem
    exact hbefore ((hletters.mem_lower_iff (by decide)).mp hlower)

end LetterCase

namespace Filter

/-! ### Parts -/

/-- The parts of a text as they stand between its commas. -/
def parts (text : String) : List (List Char) :=
  Text.split ',' text.toList

theorem parts_comma (a b : String) : parts (a ++ "," ++ b) = parts a ++ parts b := by
  have htext : (a ++ "," ++ b).toList = a.toList ++ ',' :: b.toList := by simp
  rw [parts, htext, Text.split_append]
  rfl

/-- A part that is not blank and has no equals sign sets the level for everything. -/
def setsLevel (part : List Char) : Bool :=
  !part.all Text.isBlank && !part.contains '='

section Parts

variable (letters : LetterCase)

/-- The level in a part that sets the level for everything. -/
def levelOf (part : List Char) : String :=
  String.ofList (letters.normal part)

/-- The module of a part with an equals sign and the level that it sets, or none to hide the
module. -/
def moduleOf? (part : List Char) : Option (String × Option String) :=
  (Text.cut '=' part).map fun (name, level) =>
    (levelOf letters name, if letters.normal level = "false".toList then none
      else some (String.ofList (letters.upper (letters.normal level))))

/-- Follows one part of a text. -/
def followPart (filter : Filter) (part : List Char) : Filter :=
  if part.all Text.isBlank then filter
  else filter.follow (Directive.ofPart letters (letters.normal part))

theorem moduleOf?_eq_none_iff {part : List Char} : moduleOf? letters part = none ↔ '=' ∉ part := by
  rw [moduleOf?, Option.map_eq_none_iff, Text.cut_eq_none_iff]

/-- A part with an equals sign is not blank. -/
private theorem moduleOf?_of_blank {part : List Char} (h : part.all Text.isBlank = true) :
    moduleOf? letters part = none := by
  rw [moduleOf?_eq_none_iff]
  intro hmem
  exact absurd (List.all_eq_true.mp h '=' hmem) (by decide)

theorem followPart_of_blank (filter : Filter) {part : List Char}
    (h : part.all Text.isBlank = true) : followPart letters filter part = filter :=
  if_pos h

private theorem foldl_followPart_of_blank (filter : Filter) {blank : String}
    (h : blank.toList.all Text.isBlank = true) :
    (parts blank).foldl (followPart letters) filter = filter := by
  have hcomma : ',' ∉ blank.toList := by
    intro hmem
    exact absurd (List.all_eq_true.mp h ',' hmem) (by decide)
  rw [parts, Text.split_of_not_mem hcomma]
  exact followPart_of_blank letters filter h

end Parts

section Lawful

variable {letters : LetterCase} (hletters : letters.Lawful)

include hletters

/-- A filter follows the parts of its text. -/
theorem parse_eq_foldl (text : String) :
    parse letters text = (parts text).foldl (followPart letters) {} := by
  have hparts : (Text.split ',' (letters.lower text.toList)).map (Text.trim Text.isBlank)
      = (parts text).map letters.normal := by
    rw [hletters.split_lower, List.map_map]
    rfl
  rw [parse, Directive.parse, hparts, List.foldl_map, List.foldl_filter, List.foldl_map]
  congr 1
  funext filter part
  rw [followPart]
  by_cases hblank : part.all Text.isBlank = true
  · simp [hblank, hletters.normal_eq_nil_iff.mpr hblank]
  · have hne : letters.normal part ≠ [] := fun h => hblank (hletters.normal_eq_nil_iff.mp h)
    simp [hblank, hne]

theorem ofPart_normal (part : List Char) :
    Directive.ofPart letters (letters.normal part) = match moduleOf? letters part with
      | none => .general (levelOf letters part)
      | some (name, level) => .forModule name level := by
  rw [Directive.ofPart, moduleOf?]
  cases hcut : Text.cut '=' part with
  | none =>
      rw [hletters.cut_normal_of_not_mem (Text.cut_eq_none_iff.mp hcut)]
      rfl
  | some halves =>
      obtain ⟨before, after⟩ := halves
      rw [hletters.cut_normal_of_cut hcut]
      simp only [Text.trim_dropWhile, Text.trim_rdropWhile]
      rfl

private theorem level_followPart (filter : Filter) (part : List Char) :
    (followPart letters filter part).level
      = if setsLevel part then levelOf letters part else filter.level := by
  by_cases hblank : part.all Text.isBlank = true
  · rw [followPart_of_blank letters filter hblank, if_neg (by simp [setsLevel, hblank])]
  · rw [followPart, if_neg hblank, ofPart_normal hletters]
    cases hmodule : moduleOf? letters part with
    | none =>
        have hnone := (moduleOf?_eq_none_iff letters).mp hmodule
        have hsets : setsLevel part = true := by
          rw [setsLevel, Bool.and_eq_true, Bool.not_eq_true', Bool.not_eq_true']
          exact ⟨by simpa using hblank, by simpa using hnone⟩
        rw [if_pos hsets]
        rfl
    | some assignment =>
        have hmem : '=' ∈ part := by
          by_contra hnot
          rw [(moduleOf?_eq_none_iff letters).mpr hnot] at hmodule
          cases hmodule
        rw [if_neg (by simp [setsLevel, hmem])]
        rfl

private theorem modules_followPart (filter : Filter) (part : List Char) :
    (followPart letters filter part).modules
      = Assoc.update filter.modules (moduleOf? letters part).toList := by
  by_cases hblank : part.all Text.isBlank = true
  · rw [followPart_of_blank letters filter hblank, moduleOf?_of_blank letters hblank]
    rfl
  · rw [followPart, if_neg hblank, ofPart_normal hletters]
    cases moduleOf? letters part with
    | none => rfl
    | some assignment => rfl

/-! ### All parts of a text -/

/-- The last part that sets the level for everything decides it. -/
private theorem level_foldl (filter : Filter) (parts : List (List Char)) :
    (parts.foldl (followPart letters) filter).level
      = ((parts.reverse.find? setsLevel).map (levelOf letters)).getD filter.level := by
  induction parts generalizing filter with
  | nil => rfl
  | cons part rest ih =>
      rw [List.foldl_cons, ih, level_followPart hletters, List.reverse_cons, List.find?_append]
      cases rest.reverse.find? setsLevel with
      | some last => rfl
      | none =>
          rw [Option.none_or, List.find?_singleton]
          split <;> rfl

private theorem modules_foldl (filter : Filter) (parts : List (List Char)) :
    (parts.foldl (followPart letters) filter).modules
      = Assoc.update filter.modules (parts.filterMap (moduleOf? letters)) := by
  induction parts generalizing filter with
  | nil => rfl
  | cons part rest ih =>
      rw [List.foldl_cons, ih, modules_followPart hletters, ← Assoc.update_append,
        List.filterMap_cons]
      cases moduleOf? letters part <;> rfl

theorem modules_parse (text : String) :
    (parse letters text).modules
      = Assoc.ofList ((parts text).filterMap (moduleOf? letters)) := by
  rw [parse_eq_foldl hletters, modules_foldl hletters]
  rfl

theorem level_parse (text : String) :
    (parse letters text).level
      = (((parts text).reverse.find? setsLevel).map (levelOf letters)).getD "info" := by
  rw [parse_eq_foldl hletters, level_foldl hletters]

/-! ### Joined texts -/

/-- The filter of a joined text follows the parts of the second half from where the first half has
led. -/
theorem parse_comma (a b : String) :
    parse letters (a ++ "," ++ b) = (parts b).foldl (followPart letters) (parse letters a) := by
  rw [parse_eq_foldl hletters, parts_comma, List.foldl_append, ← parse_eq_foldl hletters]

/-- In ASCII there is no other letter case than its own. -/
theorem parse_ascii {text : String} (h : IsAscii text.toList) :
    parse letters text = parse .ascii text := by
  have hlower : IsAscii (LetterCase.ascii.lower text.toList) := h.lower
  rw [parse, parse, Directive.parse, Directive.parse, hletters.lower_ascii h]
  congr 1
  refine List.map_congr_left fun part hpart => ?_
  obtain ⟨piece, hpiece, rfl⟩ := List.mem_map.mp (List.mem_filter.mp hpart).1
  rw [Directive.ofPart, Directive.ofPart]
  cases hcut : Text.cut '=' (Text.trim Text.isBlank piece) with
  | none => rfl
  | some halves =>
      have hlevel : IsAscii (Text.trim Text.isBlank halves.2) := by
        intro c hc
        have hpart : c ∈ Text.trim Text.isBlank piece := by
          rw [(Text.cut_eq_some_iff.mp hcut).1]
          exact List.mem_append_right _ (List.mem_cons_of_mem _ (Text.mem_of_mem_trim hc))
        exact hlower c (Text.mem_of_mem_split hpiece (Text.mem_of_mem_trim hpart))
      simp only [hletters.upper_ascii hlevel]

end Lawful

/-- The filter of two texts with a comma between them has the modules of the first one updated by
those of the second one, and the level of the second one if a part of it sets the level. So the
last part that sets the level of a module or the level for everything wins, and blank parts do not
matter. All this holds for any letter case that leaves marks and blanks alone, and for texts in
ASCII the filter is the same for all of them. -/
theorem filters_compose {letters : LetterCase} (hletters : letters.Lawful) (a b : String) :
    (parse letters (a ++ "," ++ b)).modules
        = Assoc.update (parse letters a).modules (parse letters b).modules
      ∧ (∀ name, (parse letters (a ++ "," ++ b)).modules.lookup name
        = ((parse letters b).modules.lookup name).or ((parse letters a).modules.lookup name))
      ∧ (parse letters (a ++ "," ++ b)).level
        = (if (parts b).any setsLevel then (parse letters b).level else (parse letters a).level)
      ∧ (∀ text name, (parse letters text).modules.lookup name
        = ((parts text).filterMap (moduleOf? letters)).reverse.lookup name)
      ∧ (∀ text, (parse letters text).level
        = (((parts text).reverse.find? setsLevel).map (levelOf letters)).getD "info")
      ∧ (∀ blank : String, blank.toList.all Text.isBlank = true →
        parse letters (a ++ "," ++ blank ++ "," ++ b) = parse letters (a ++ "," ++ b)
          ∧ parse letters (blank ++ "," ++ b) = parse letters b
          ∧ parse letters (a ++ "," ++ blank) = parse letters a)
      ∧ ∀ text : String, IsAscii text.toList → parse letters text = parse .ascii text := by
  have hmodules : (parse letters (a ++ "," ++ b)).modules
      = Assoc.update (parse letters a).modules (parse letters b).modules := by
    rw [parse_comma hletters, modules_foldl hletters, modules_parse hletters b,
      Assoc.update_ofList]
  refine ⟨hmodules, ?_, ?_, ?_, level_parse hletters, ?_, fun text => parse_ascii hletters⟩
  · intro name
    rw [hmodules, Assoc.lookup_update (modules_parse hletters b ▸ Assoc.nodup_ofList _)]
  · rw [parse_comma hletters, level_foldl hletters, level_parse hletters b, ← List.any_reverse,
      ← List.isSome_find?]
    cases (parts b).reverse.find? setsLevel <;> rfl
  · intro text name
    rw [modules_parse hletters, Assoc.lookup_ofList]
  · intro blank hblank
    refine ⟨?_, ?_, ?_⟩
    · rw [parse_comma hletters, parse_comma hletters, foldl_followPart_of_blank letters _ hblank,
        parse_comma hletters]
    · rw [parse_comma hletters, parse_eq_foldl hletters blank,
        foldl_followPart_of_blank letters _ hblank, parse_eq_foldl hletters]
    · rw [parse_comma hletters, foldl_followPart_of_blank letters _ hblank]

/-- A second half that hides a module of the first one and sets no level, and a blank part between
the two. -/
theorem filters_compose_hidden :
    let first := "Debug,m=info"
    let second := " M = False,n=a=b"
    LetterCase.ascii.Lawful ∧ " \t".toList.all Text.isBlank = true
      ∧ parse .ascii (first ++ "," ++ " \t" ++ "," ++ second)
        = parse .ascii (first ++ "," ++ second)
      ∧ (parse .ascii (first ++ "," ++ second)).level = "debug"
      ∧ (parse .ascii (first ++ "," ++ second)).modules.lookup "m" = some none
      ∧ (parse .ascii (first ++ "," ++ second)).modules.lookup "n" = some (some "A=B") := by
  intro first second
  have hblank : " \t".toList.all Text.isBlank = true := by decide +kernel
  obtain ⟨-, hlookup, hlevel, -, -, hskip, -⟩ :=
    filters_compose LetterCase.ascii_lawful first second
  refine ⟨LetterCase.ascii_lawful, hblank, (hskip " \t" hblank).1, ?_, ?_, ?_⟩
  · rw [hlevel]
    decide +kernel
  · rw [hlookup]
    decide +kernel
  · rw [hlookup]
    decide +kernel

end Filter

end MiniMl
