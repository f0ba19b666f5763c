import MiniMl.Value.Basic
/-!
# Texts that can be read back

Numbers, truth values, the unit, lists, tuples and options show all there is to them: two values
built of these alone with the same text are the same value. Nothing is put in parentheses for it, so
this takes an argument.

The first character of a text tells what form the value has (`Lead`), but for the unit, which reads
as a tuple without items. A text inside a list or a tuple is always followed by a mark that closes
it or separates it from the next, and no text goes on with such a mark: so where one item ends and
the next begins is never in doubt (`display_append_inj`).
-/

namespace MiniMl

/-! ### Integers -/

private theorem toDigits_injective {m n : Nat} (h : Nat.toDigits 10 m = Nat.toDigits 10 n) :
    m = n := by
  have hread := congrArg (fun digits => Nat.ofDigitChars 10 digits 0) h
  simpa only [Nat.ofDigitChars_ten_toDigits] using hread

/-- The text of an integer: its digits, after a sign if it is negative. -/
private theorem toList_toString_int (n : Int) :
    (toString n).toList
      = if 0 ≤ n then Nat.toDigits 10 n.toNat else '-' :: Nat.toDigits 10 (-n).toNat := by
  rw [Int.toString_eq_repr, Int.repr_eq_if]
  split
  · exact Nat.toList_repr
  · rw [String.toList_append, Nat.toList_repr]
    rfl

/-- The characters in texts of integers. -/
def isNumeral (c : Char) : Bool :=
  c.isDigit || c == '-'

private theorem isNumeral_of_mem_toString {n : Int} {c : Char} (h : c ∈ (toString n).toList) :
    isNumeral c = true := by
  have hdigit : ∀ {m : Nat}, c ∈ Nat.toDigits 10 m → isNumeral c = true := by
    intro m hc
    rw [isNumeral, Nat.isDigit_of_mem_toDigits (by decide) (by decide) hc, Bool.true_or]
  rw [toList_toString_int] at h
  split at h
  · exact hdigit h
  · rcases List.mem_cons.mp h with rfl | h
    · rfl
    · exact hdigit h

private theorem minus_not_mem_toDigits {n : Nat} : '-' ∉ Nat.toDigits 10 n := by
  intro h
  exact absurd (Nat.isDigit_of_mem_toDigits (by decide) (by decide) h) (by decide)

theorem toString_int_injective {m n : Int} (h : (toString m).toList = (toString n).toList) :
    m = n := by
  rw [toList_toString_int, toList_toString_int] at h
  split at h <;> split at h
  · have := toDigits_injective h
    omega
  · exact absurd (h ▸ List.mem_cons_self) minus_not_mem_toDigits
  · exact absurd (h ▸ List.mem_cons_self) minus_not_mem_toDigits
  · have := toDigits_injective (List.cons.inj h).2
    omega

namespace Value

/-! ### First-order values -/

mutual

/-- The value is built of integers, truth values, the unit, lists, options, and tuples of two items
or more. -/
def isFirstOrder : Value → Bool
  | .int _ | .bool _ | .unit | .optNone => true
  | .list items => areFirstOrder items
  | .tuple items => decide (2 ≤ items.length) && areFirstOrder items
  | .optSome inner => inner.isFirstOrder
  | .float _ | .char _ | .string _ | .closure _ _ _ _ | .function _ _ | .openFunction _
  | .host _ => false

def areFirstOrder : List Value → Bool
  | [] => true
  | v :: vs => v.isFirstOrder && areFirstOrder vs

end

private theorem areFirstOrder_cons {v : Value} {vs : List Value} :
    areFirstOrder (v :: vs) = true ↔ v.isFirstOrder = true ∧ areFirstOrder vs = true := by
  rw [areFirstOrder, Bool.and_eq_true]

private theorem isFirstOrder_tuple {items : List Value} :
    (tuple items).isFirstOrder = true ↔ 2 ≤ items.length ∧ areFirstOrder items = true := by
  rw [isFirstOrder, Bool.and_eq_true, decide_eq_true_iff]

/-! ### The first character -/

/-- What the first character of a text tells. -/
inductive Lead where
  | numeral
  | yes
  | no
  | round
  | square
  | absent
  | present
  /-- No text begins so. -/
  | mark
  deriving DecidableEq

def Lead.ofChar (c : Char) : Lead :=
  if isNumeral c then .numeral
  else if c = 't' then .yes
  else if c = 'f' then .no
  else if c = '(' then .round
  else if c = '[' then .square
  else if c = 'N' then .absent
  else if c = 'S' then .present
  else .mark

/-- How the text of a value begins. The unit and the tuples begin alike. -/
def lead : Value → Lead
  | .int _ => .numeral
  | .bool true => .yes
  | .bool false => .no
  | .unit | .tuple _ => .round
  | .list _ => .square
  | .optNone => .absent
  | .optSome _ => .present
  | .float _ | .char _ | .string _ | .closure _ _ _ _ | .function _ _ | .openFunction _
  | .host _ => .mark

private theorem lead_ne_mark {v : Value} (hv : v.isFirstOrder = true) : v.lead ≠ .mark := by
  cases v with
  | bool b => cases b <;> decide
  | int | unit | list | tuple | optNone | optSome => exact fun h => by cases h
  | _ => cases hv

/-! ### Items between brackets -/

/-- The items after the first one, each after a separator. -/
def restText (separator : Char) : List Value → List Char
  | [] => []
  | v :: vs => separator :: ' ' :: (v.display.toList ++ restText separator vs)

/-- All items, with separators between them. -/
def itemsText (separator : Char) : List Value → List Char
  | [] => []
  | v :: vs => v.display.toList ++ restText separator vs

private theorem toList_intercalate_displayAll (separator : Char) (items : List Value) :
    ((String.ofList [separator, ' ']).intercalate (displayAll items)).toList
      = itemsText separator items := by
  cases items with
  | nil => rfl
  | cons v vs =>
      rw [displayAll, itemsText]
      induction vs generalizing v with
      | nil => rw [displayAll, restText, String.intercalate_singleton, List.append_nil]
      | cons w ws ih =>
          rw [displayAll, String.intercalate_cons_cons, String.toList_append, String.toList_append,
            ih, restText, String.toList_ofList, List.append_assoc]
          rfl

private theorem toList_display_list (items : List Value) :
    (list items).display.toList = '[' :: (itemsText ';' items ++ [']']) := by
  rw [display, String.toList_append, String.toList_append, List.append_assoc,
    ← toList_intercalate_displayAll]
  rfl

private theorem toList_display_tuple (items : List Value) :
    (tuple items).display.toList = '(' :: (itemsText ',' items ++ [')']) := by
  rw [display, String.toList_append, String.toList_append, List.append_assoc,
    ← toList_intercalate_displayAll]
  rfl

private theorem toList_display_optSome (inner : Value) :
    (optSome inner).display.toList = "Some ".toList ++ inner.display.toList := by
  rw [display, String.toList_append]

private theorem exists_display_eq_cons {v : Value} (hv : v.isFirstOrder = true) :
    ∃ c text, v.display.toList = c :: text ∧ Lead.ofChar c = v.lead := by
  cases v with
  | int n =>
      cases htext : (toString n).toList with
      | nil =>
          rw [toList_toString_int] at htext
          split at htext
          · exact absurd htext Nat.toDigits_ne_nil
          · cases htext
      | cons c text =>
          refine ⟨c, text, htext, ?_⟩
          exact if_pos (isNumeral_of_mem_toString (htext ▸ List.mem_cons_self))
  | bool b => cases b <;> exact ⟨_, _, rfl, rfl⟩
  | unit => exact ⟨_, _, rfl, rfl⟩
  | list items => exact ⟨_, _, toList_display_list items, rfl⟩
  | tuple items => exact ⟨_, _, toList_display_tuple items, rfl⟩
  | optNone => exact ⟨_, _, rfl, rfl⟩
  | optSome inner => exact ⟨_, _, toList_display_optSome inner, rfl⟩
  | _ => cases hv

/-! ### Where a text ends -/

/-- Nothing follows, or something with which no text begins or goes on. -/
def Stops (rest : List Char) : Prop :=
  ∀ c ∈ rest.head?, Lead.ofChar c = .mark

private theorem stops_nil : Stops [] := by
  simp [Stops]

private theorem stops_cons {c : Char} (hc : Lead.ofChar c = .mark) (rest : List Char) :
    Stops (c :: rest) := by
  simpa [Stops] using hc

private theorem stops_restText {separator close : Char} (hseparator : Lead.ofChar separator = .mark)
    (hclose : Lead.ofChar close = .mark) (items : List Value) (rest : List Char) :
    Stops (restText separator items ++ close :: rest) := by
  cases items with
  | nil => exact stops_cons hclose rest
  | cons v vs => exact stops_cons hseparator _

private theorem takeWhile_isNumeral_of_stops {rest : List Char} (h : Stops rest) :
    rest.takeWhile isNumeral = [] := by
  cases rest with
  | nil => rfl
  | cons c rest =>
      refine List.takeWhile_cons_of_neg fun hc => ?_
      have hlead : Lead.ofChar c = .numeral := if_pos hc
      cases hlead.symm.trans (h c rfl)

private theorem toString_append_inj {m n : Int} {s t : List Char} (hs : Stops s) (ht : Stops t)
    (h : (toString m).toList ++ s = (toString n).toList ++ t) : m = n ∧ s = t := by
  have hnumeral : (toString m).toList = (toString n).toList := by
    have htake := congrArg (List.takeWhile isNumeral) h
    rwa [List.takeWhile_append_of_pos fun _ => isNumeral_of_mem_toString,
      List.takeWhile_append_of_pos fun _ => isNumeral_of_mem_toString,
      takeWhile_isNumeral_of_stops hs, takeWhile_isNumeral_of_stops ht, List.append_nil,
      List.append_nil] at htake
  rw [hnumeral] at h
  exact ⟨toString_int_injective hnumeral, List.append_cancel_left h⟩

private theorem lead_eq_of_display_append {v w : Value} (hv : v.isFirstOrder = true)
    (hw : w.isFirstOrder = true) {s t : List Char}
    (h : v.display.toList ++ s = w.display.toList ++ t) : v.lead = w.lead := by
  obtain ⟨c, text, htext, hlead⟩ := exists_display_eq_cons hv
  obtain ⟨c', text', htext', hlead'⟩ := exists_display_eq_cons hw
  rw [htext, htext', List.cons_append, List.cons_append] at h
  rw [← hlead, ← hlead', (List.cons.inj h).1]

/-- Items do not begin like what closes them. -/
private theorem close_append_ne {items : List Value} (hitems : areFirstOrder items = true)
    (hne : items ≠ []) {separator close : Char} (hclose : Lead.ofChar close = .mark)
    {s t : List Char} : close :: s ≠ itemsText separator items ++ t := by
  cases items with
  | nil => exact absurd rfl hne
  | cons v vs =>
      intro h
      have hv := (areFirstOrder_cons.mp hitems).1
      obtain ⟨c, text, htext, hlead⟩ := exists_display_eq_cons hv
      rw [itemsText, htext, List.cons_append, List.cons_append] at h
      rw [← (List.cons.inj h).1, hclose] at hlead
      exact lead_ne_mark hv hlead.symm

/-- A tuple is not written like the unit, which would be a tuple without items. -/
private theorem display_tuple_append_ne_unit {items : List Value}
    (h : (tuple items).isFirstOrder = true) {s t : List Char} :
    unit.display.toList ++ s ≠ (tuple items).display.toList ++ t := by
  intro heq
  obtain ⟨hsize, hitems⟩ := isFirstOrder_tuple.mp h
  rw [toList_display_tuple, List.cons_append, List.append_assoc] at heq
  have hclose : Lead.ofChar ')' = .mark := rfl
  refine close_append_ne hitems ?_ hclose (List.cons.inj heq).2
  rintro rfl
  exact absurd hsize (by decide)

/-! ### Unique reading -/

mutual

/-- Texts of values with something after them that stops them: where the whole is the same, so are
the values. -/
theorem display_append_inj (v w : Value) (hv : v.isFirstOrder = true)
    (hw : w.isFirstOrder = true) {s t : List Char} (hs : Stops s) (ht : Stops t)
    (h : v.display.toList ++ s = w.display.toList ++ t) : v = w ∧ s = t := by
  have hlead := lead_eq_of_display_append hv hw h
  cases v with
  | int m =>
      cases w with
      | int n =>
          obtain ⟨rfl, hrest⟩ := toString_append_inj hs ht h
          exact ⟨rfl, hrest⟩
      | bool b => cases b <;> cases hlead
      | _ => cases hlead
  | bool b =>
      cases w with
      | bool b' =>
          obtain rfl : b = b' := by
            cases b <;> cases b'
            · rfl
            · cases hlead
            · cases hlead
            · rfl
          exact ⟨rfl, List.append_cancel_left h⟩
      | _ => cases b <;> cases hlead
  | unit =>
      cases w with
      | unit => exact ⟨rfl, List.append_cancel_left h⟩
      | tuple items' => exact absurd h (display_tuple_append_ne_unit hw)
      | bool b => cases b <;> cases hlead
      | _ => cases hlead
  | list items =>
      cases w with
      | list items' =>
          rw [toList_display_list, toList_display_list, List.cons_append, List.cons_append,
            List.append_assoc, List.append_assoc] at h
          obtain ⟨rfl, hrest⟩ := itemsText_append_inj items items' hv hw rfl rfl (by decide)
            (List.cons.inj h).2
          exact ⟨rfl, hrest⟩
      | bool b => cases b <;> cases hlead
      | _ => cases hlead
  | tuple items =>
      cases w with
      | unit => exact absurd h.symm (display_tuple_append_ne_unit hv)
      | tuple items' =>
          rw [toList_display_tuple, toList_display_tuple, List.cons_append, List.cons_append,
            List.append_assoc, List.append_assoc] at h
          obtain ⟨rfl, hrest⟩ := itemsText_append_inj items items' (isFirstOrder_tuple.mp hv).2
            (isFirstOrder_tuple.mp hw).2 rfl rfl (by decide) (List.cons.inj h).2
          exact ⟨rfl, hrest⟩
      | bool b => cases b <;> cases hlead
      | _ => cases hlead
  | optNone =>
      cases w with
      | optNone => exact ⟨rfl, List.append_cancel_left h⟩
      | bool b => cases b <;> cases hlead
      | _ => cases hlead
  | optSome inner =>
      cases w with
      | optSome inner' =>
          rw [toList_display_optSome, toList_display_optSome, List.append_assoc,
            List.append_assoc] at h
          obtain ⟨rfl, hrest⟩ := display_append_inj inner inner' hv hw hs ht
            (List.append_cancel_left h)
          exact ⟨rfl, hrest⟩
      | bool b => cases b <;> cases hlead
      | _ => cases hlead
  | _ => cases hv

private theorem itemsText_append_inj (items items' : List Value)
    (hitems : areFirstOrder items = true) (hitems' : areFirstOrder items' = true)
    {separator close : Char} (hseparator : Lead.ofChar separator = .mark)
    (hclose : Lead.ofChar close = .mark) (hne : separator ≠ close) {s t : List Char}
    (h : itemsText separator items ++ close :: s = itemsText separator items' ++ close :: t) :
    items = items' ∧ s = t := by
  cases items with
  | nil =>
      cases items' with
      | nil => exact ⟨rfl, (List.cons.inj h).2⟩
      | cons w ws => exact absurd h (close_append_ne hitems' (by simp) hclose)
  | cons v vs =>
      cases items' with
      | nil => exact absurd h.symm (close_append_ne hitems (by simp) hclose)
      | cons w ws =>
          obtain ⟨hv, hvs⟩ := areFirstOrder_cons.mp hitems
          obtain ⟨hw, hws⟩ := areFirstOrder_cons.mp hitems'
          rw [itemsText, itemsText, List.append_assoc, List.append_assoc] at h
          obtain ⟨rfl, htail⟩ := display_append_inj v w hv hw
            (stops_restText hseparator hclose vs s) (stops_restText hseparator hclose ws t) h
          cases vs with
          | nil =>
              cases ws with
              | nil => exact ⟨rfl, (List.cons.inj htail).2⟩
              | cons w' ws' => exact absurd (List.cons.inj htail).1 hne.symm
          | cons v' vs' =>
              cases ws with
              | nil => exact absurd (List.cons.inj htail).1 hne
              | cons w' ws' =>
                  -- After the separator the rest is once more a text of items.
                  obtain ⟨heq, hrest⟩ := itemsText_append_inj (v' :: vs') (w' :: ws') hvs hws
                    hseparator hclose hne (List.cons.inj (List.cons.inj htail).2).2
                  rw [heq]
                  exact ⟨rfl, hrest⟩

end

/-- First-order values with the same text are the same value. -/
theorem display_unambiguous (v w : Value) (hv : v.isFirstOrder = true)
    (hw : w.isFirstOrder = true) (h : v.display = w.display) : v = w := by
  refine (display_append_inj v w hv hw stops_nil stops_nil ?_).1
  rw [h]

/-- Options of options, a list of a list and the unit in a pair, put together in two ways. -/
theorem display_unambiguous_nested :
    let v : Value :=
      .tuple [.optSome (.optSome .unit), .list [.list [.int (-12), .int 3], .list []]]
    let w : Value := .tuple ([.optSome .unit].map .optSome
      ++ [.list [.list ([-12, 3].map .int), .list []]])
    v.isFirstOrder = true ∧ w.isFirstOrder = true ∧ v.display = w.display ∧ v = w := by
  intro v w
  exact ⟨rfl, rfl, rfl, display_unambiguous v w rfl rfl rfl⟩

-- A tuple without items would be taken for the unit.
example : (Value.tuple []).display = Value.unit.display := rfl

end Value

end MiniMl
