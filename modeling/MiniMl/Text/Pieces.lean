/-!
# Pieces of a text

Texts are trimmed, split at a separator, and cut at the first one. Splitting a joined text gives the
pieces of both halves.
-/

namespace MiniMl.Text

/-- Drops the characters of a class at both ends. -/
def trim (drop : Char → Bool) (text : List Char) : List Char :=
  ((text.dropWhile drop).reverse.dropWhile drop).reverse

/-- Puts a character in front of the first piece. -/
def consFirst (c : Char) : List (List Char) → List (List Char)
  | [] => [[c]]
  | piece :: pieces => (c :: piece) :: pieces

/-- The pieces between the separators: one more than there are separators. -/
def split (separator : Char) : List Char → List (List Char)
  | [] => [[]]
  | c :: rest =>
    if c = separator then [] :: split separator rest else consFirst c (split separator rest)

/-- The text with a line feed for every carriage return. A carriage return and a line feed after it
become one. -/
def unifyBreaks : List Char → List Char
  | [] => []
  | '\r' :: '\n' :: rest => '\n' :: unifyBreaks rest
  | c :: rest => (if c = '\r' then '\n' else c) :: unifyBreaks rest

/-- The text before and after the first separator, if there is one. -/
def cut (separator : Char) : List Char → Option (List Char × List Char)
  | [] => none
  | c :: rest =>
    if c = separator then some ([], rest)
    else (cut separator rest).map fun (before, after) => (c :: before, after)

theorem split_ne_nil (separator : Char) (text : List Char) : split separator text ≠ [] := by
  cases text with
  | nil => simp [split]
  | cons c rest =>
    rw [split]
    split
    · simp
    · cases split separator rest <;> simp [consFirst]

/-- A separator between two texts divides their pieces. -/
theorem split_append (separator : Char) (left right : List Char) :
    split separator (left ++ separator :: right)
      = split separator left ++ split separator right := by
  induction left with
  | nil => simp [split]
  | cons c rest ih =>
    rw [List.cons_append, split, split, ih]
    by_cases hc : c = separator
    · simp [hc]
    · rw [if_neg hc, if_neg hc]
      cases h : split separator rest with
      | nil => exact absurd h (split_ne_nil separator rest)
      | cons piece pieces => rfl

/-- The two halves of a cut with the separator between them are the text, and the first half is the
longest one without a separator. -/
theorem cut_eq_some_iff {separator : Char} {text before after : List Char} :
    cut separator text = some (before, after)
      ↔ text = before ++ separator :: after ∧ separator ∉ before := by
  induction text generalizing before with
  | nil => simp [cut]
  | cons c rest ih =>
    rw [cut]
    by_cases hc : c = separator
    · subst hc
      rw [if_pos rfl]
      cases before with
      | nil => simp [eq_comm]
      | cons b bs =>
        constructor
        · intro h
          simp at h
        · rintro ⟨h, hnot⟩
          rw [List.cons_append, List.cons.injEq] at h
          exact absurd (h.1 ▸ List.mem_cons_self) hnot
    · rw [if_neg hc]
      cases before with
      | nil => simp [hc]
      | cons b bs =>
        have hstep := @ih bs
        simp only [Option.map_eq_some_iff, Prod.exists, Prod.mk.injEq, List.cons.injEq,
          List.cons_append, List.mem_cons, not_or]
        constructor
        · rintro ⟨x, y, hcut, ⟨hb, rfl⟩, rfl⟩
          obtain ⟨htext, hnot⟩ := hstep.mp hcut
          exact ⟨⟨hb, htext⟩, fun h => hc (hb.trans h.symm), hnot⟩
        · rintro ⟨⟨hb, htext⟩, -, hnot⟩
          exact ⟨bs, after, hstep.mpr ⟨htext, hnot⟩, ⟨hb, rfl⟩, rfl⟩

end MiniMl.Text
