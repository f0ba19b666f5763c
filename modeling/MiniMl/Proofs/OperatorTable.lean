import MiniMl.Proofs.Literals
/-!
# The table of operators

`Operator.Gives` is the table as one would write it down: which operators there are for which kinds
of operands, and what they give. Two of its entries are divisions and have no value for a zero
divisor (`Operator.DividesByZero`). Applying an operator gives what the table says, fails for the
zero divisors, and refuses everything else: there is no conversion between integers and floats, and
nothing is done with functions or with objects of the host but to put them in front of a list.
-/

namespace MiniMl

/-! ### Numbers -/

theorem truncatedQuotient_eq_tdiv (x y : Int) : truncatedQuotient x y = x.tdiv y := by
  rw [truncatedQuotient]
  cases x with
  | ofNat m =>
      cases y with
      | ofNat n =>
          rw [if_pos (by simp [Int.not_lt.mpr (Int.natCast_nonneg _)])]
          rfl
      | negSucc n =>
          rw [if_neg (by simp)]
          rfl
  | negSucc m =>
      cases y with
      | ofNat n =>
          rw [if_neg (by simp)]
          rfl
      | negSucc n =>
          rw [if_pos (by simp)]
          rfl

section Zero

open Float.Model Float.Model.UnpackedFloat

private theorem unpacked_fields_of_zero {bits : BitVec 64} {s : Sign}
    (h : UnpackedFloat.unpack .binary64 bits = .zero s) :
    @unpackMantissa .binary64 bits = 0#52 ∧ @unpackExponent .binary64 bits = 0#11 := by
  by_cases hones : @unpackExponent .binary64 bits = -1#11
  · by_cases hmantissa : @unpackMantissa .binary64 bits = 0#52
    · cases ((if_pos hones).trans (if_pos hmantissa)).symm.trans h
    · cases ((if_pos hones).trans (if_neg hmantissa)).symm.trans h
  · by_cases hexponent : @unpackExponent .binary64 bits = 0#11
    · by_cases hmantissa : @unpackMantissa .binary64 bits = 0#52
      · exact ⟨hmantissa, hexponent⟩
      · cases ((if_neg hones).trans ((if_pos hexponent).trans (dif_neg hmantissa))).symm.trans h
    · cases ((if_neg hones).trans (if_neg hexponent)).symm.trans h

/-- A float that unpacks to a zero has no bit set but the one of the sign. -/
private theorem toBits_of_unpack_zero {x : Float} {s : Sign} (h : x.toModel.unpack = .zero s) :
    x.toBits = (0.0 : Float).toBits ∨ x.toBits = (-0.0 : Float).toBits := by
  obtain ⟨hmantissa, hexponent⟩ := unpacked_fields_of_zero h
  have hlow : x.toBits.toNat % 2 ^ 52 = 0 := congrArg BitVec.toNat hmantissa
  have hmiddle : x.toBits.toNat >>> 52 % 2 ^ 11 = 0 := congrArg BitVec.toNat hexponent
  rw [Nat.shiftRight_eq_div_pow] at hmiddle
  have hbound := x.toBits.toNat_lt
  have hbits : x.toBits.toNat = 0 ∨ x.toBits.toNat = 2 ^ 63 := by omega
  exact hbits.imp UInt64.toNat_inj.mp UInt64.toNat_inj.mp

private theorem float_eq_of_toBits {x y : Float} (h : x.toBits = y.toBits) : x = y := by
  obtain ⟨⟨bits, hvalid⟩⟩ := x
  obtain ⟨⟨bits', hvalid'⟩⟩ := y
  cases h
  rfl

/-- The floats that are equal to zero are the two zeros. -/
theorem float_beq_zero_iff {x : Float} : (x == 0.0) = true ↔ x = 0.0 ∨ x = -0.0 := by
  constructor
  · intro h
    have hcompare : x.toModel.unpack.compare (.zero .positive) = some .eq := eq_of_beq h
    obtain ⟨s, hzero⟩ : ∃ s, x.toModel.unpack = .zero s := by
      obtain hzero | ⟨s, -, hzero, -⟩ := eq_or_zero_of_compare hcompare
      · exact ⟨_, hzero⟩
      · exact ⟨s, hzero⟩
    exact (toBits_of_unpack_zero hzero).imp float_eq_of_toBits float_eq_of_toBits
  · rintro (rfl | rfl)
    · decide
    · decide

end Zero

/-! ### Symbols -/

def Comparison.symbol : Comparison → String
  | .le => "<="
  | .lt => "<"
  | .ge => ">="
  | .gt => ">"
  | .eq => "="
  | .ne => "<>"

namespace Operator

/-- The symbol of an operator. -/
def symbol : Operator → String
  | .int .add => "+"
  | .int .sub => "-"
  | .int .mul => "*"
  | .int .div => "/"
  | .float .add => "+."
  | .float .sub => "-."
  | .float .mul => "*."
  | .float .div => "/."
  | .compare op => op.symbol
  | .connect .and => "&&"
  | .connect .or => "||"
  | .cons => "::"

theorem ofSymbol?_symbol (op : Operator) : ofSymbol? op.symbol = some op := by
  rcases op with op | op | op | op | _
  · cases op <;> decide
  · cases op <;> decide
  · cases op <;> decide
  · cases op <;> decide
  · decide

theorem ofSymbol?_eq_some_iff {text : String} {op : Operator} :
    ofSymbol? text = some op ↔ op.symbol = text := by
  constructor
  · intro h
    have htable : ∀ entry ∈ table, entry.2.symbol = entry.1 := by decide
    exact htable _ (mem_of_lookup_eq_some h)
  · rintro rfl
    exact ofSymbol?_symbol op

end Operator

/-! ### The table -/

/-- What a comparison says of two numbers, where it is told when they are equal. -/
def Comparison.Holds {α : Type} [LE α] [LT α] (equal : α → α → Prop) :
    Comparison → α → α → Prop
  | .le, x, y => x ≤ y
  | .lt, x, y => x < y
  | .ge, x, y => x ≥ y
  | .gt, x, y => x > y
  | .eq, x, y => equal x y
  | .ne, x, y => ¬ equal x y

theorem Comparison.onInts_iff_holds (op : Comparison) (x y : Int) :
    op.onInts x y = true ↔ op.Holds Eq x y := by
  cases op <;> simp [onInts, Holds]

theorem Comparison.onFloats_iff_holds (op : Comparison) (x y : Float) :
    op.onFloats x y = true ↔ op.Holds (fun x y => (x == y) = true) x y := by
  cases op <;> simp [onFloats, Holds, bne]

namespace Operator

/-- The entries of the table: a symbol, two operands, and their value. -/
inductive Gives : String → Value → Value → Value → Prop
  | add (x y : Int) : Gives "+" (.int x) (.int y) (.int (x + y))
  | sub (x y : Int) : Gives "-" (.int x) (.int y) (.int (x - y))
  | mul (x y : Int) : Gives "*" (.int x) (.int y) (.int (x * y))
  | div (x : Int) {y : Int} (hy : y ≠ 0) : Gives "/" (.int x) (.int y) (.int (x.tdiv y))
  | addFloats (x y : Float) : Gives "+." (.float x) (.float y) (.float (x + y))
  | subFloats (x y : Float) : Gives "-." (.float x) (.float y) (.float (x - y))
  | mulFloats (x y : Float) : Gives "*." (.float x) (.float y) (.float (x * y))
  | divFloats (x : Float) {y : Float} (hy : y ≠ 0.0) (hy' : y ≠ -0.0) :
      Gives "/." (.float x) (.float y) (.float (x / y))
  | compareInts (op : Comparison) {x y : Int} {answer : Bool}
      (h : answer = true ↔ op.Holds Eq x y) :
      Gives op.symbol (.int x) (.int y) (.bool answer)
  | compareFloats (op : Comparison) {x y : Float} {answer : Bool}
      (h : answer = true ↔ op.Holds (fun x y => (x == y) = true) x y) :
      Gives op.symbol (.float x) (.float y) (.bool answer)
  | and (a b : Bool) : Gives "&&" (.bool a) (.bool b) (.bool (a && b))
  | or (a b : Bool) : Gives "||" (.bool a) (.bool b) (.bool (a || b))
  | cons (head : Value) (items : List Value) :
      Gives "::" head (.list items) (.list (head :: items))

/-- The divisions that fail, with their errors. -/
inductive DividesByZero : String → Value → Value → EvalError → Prop
  | ints (x : Int) : DividesByZero "/" (.int x) (.int 0) .intDivisionByZero
  | floats (x : Float) {y : Float} (hy : y = 0.0 ∨ y = -0.0) :
      DividesByZero "/." (.float x) (.float y) .floatDivisionByZero

/-- An entry of the table has a value or divides by zero. -/
private theorem gives_or_dividesByZero {op : Operator} {left right : Value}
    {result : Except EvalError Value} (h : op.compute? left right = some result) :
    (∃ value, result = .ok value ∧ Gives op.symbol left right value)
      ∨ ∃ e, result = .error e ∧ DividesByZero op.symbol left right e := by
  revert h
  fun_cases Operator.compute? op left right with
  | case1 op x y =>
      rintro ⟨⟩
      cases op with
      | add => exact .inl ⟨_, rfl, .add x y⟩
      | sub => exact .inl ⟨_, rfl, .sub x y⟩
      | mul => exact .inl ⟨_, rfl, .mul x y⟩
      | div =>
          rw [Arithmetic.onInts]
          by_cases hy : y = 0
          · subst hy
            exact .inr ⟨_, rfl, .ints x⟩
          · rw [if_neg hy, truncatedQuotient_eq_tdiv]
            exact .inl ⟨_, rfl, .div x hy⟩
  | case2 op x y =>
      rintro ⟨⟩
      cases op with
      | add => exact .inl ⟨_, rfl, .addFloats x y⟩
      | sub => exact .inl ⟨_, rfl, .subFloats x y⟩
      | mul => exact .inl ⟨_, rfl, .mulFloats x y⟩
      | div =>
          rw [Arithmetic.onFloats]
          by_cases hy : (y == 0.0) = true
          · rw [if_pos hy]
            exact .inr ⟨_, rfl, .floats x (float_beq_zero_iff.mp hy)⟩
          · rw [if_neg hy]
            rw [float_beq_zero_iff, not_or] at hy
            exact .inl ⟨_, rfl, .divFloats x hy.1 hy.2⟩
  | case3 op x y =>
      rintro ⟨⟩
      exact .inl ⟨_, rfl, .compareInts op (op.onInts_iff_holds x y)⟩
  | case4 op x y =>
      rintro ⟨⟩
      exact .inl ⟨_, rfl, .compareFloats op (op.onFloats_iff_holds x y)⟩
  | case5 op a b =>
      rintro ⟨⟩
      cases op with
      | and => exact .inl ⟨_, rfl, .and a b⟩
      | or => exact .inl ⟨_, rfl, .or a b⟩
  | case6 =>
      rintro ⟨⟩
      exact .inl ⟨_, rfl, .cons _ _⟩
  | case7 => rintro ⟨⟩

theorem Gives.entry {text : String} {left right value : Value} (h : Gives text left right value) :
    ∃ op, symbol op = text ∧ op.compute? left right = some (.ok value) := by
  cases h with
  | add x y => exact ⟨.int .add, rfl, rfl⟩
  | sub x y => exact ⟨.int .sub, rfl, rfl⟩
  | mul x y => exact ⟨.int .mul, rfl, rfl⟩
  | div x hy =>
      refine ⟨.int .div, rfl, ?_⟩
      rw [Operator.compute?, Arithmetic.onInts, if_neg hy, truncatedQuotient_eq_tdiv]
      rfl
  | addFloats x y => exact ⟨.float .add, rfl, rfl⟩
  | subFloats x y => exact ⟨.float .sub, rfl, rfl⟩
  | mulFloats x y => exact ⟨.float .mul, rfl, rfl⟩
  | divFloats x hy hy' =>
      refine ⟨.float .div, rfl, ?_⟩
      rw [Operator.compute?, Arithmetic.onFloats,
        if_neg fun hzero => (float_beq_zero_iff.mp hzero).elim hy hy']
      rfl
  | compareInts op h =>
      refine ⟨.compare op, rfl, ?_⟩
      rw [Operator.compute?, Bool.eq_iff_iff.mpr (h.trans (op.onInts_iff_holds _ _).symm)]
  | compareFloats op h =>
      refine ⟨.compare op, rfl, ?_⟩
      rw [Operator.compute?, Bool.eq_iff_iff.mpr (h.trans (op.onFloats_iff_holds _ _).symm)]
  | and a b => exact ⟨.connect .and, rfl, rfl⟩
  | or a b => exact ⟨.connect .or, rfl, rfl⟩
  | cons head items => exact ⟨.cons, rfl, rfl⟩

theorem DividesByZero.entry {text : String} {left right : Value} {e : EvalError}
    (h : DividesByZero text left right e) :
    ∃ op, symbol op = text ∧ op.compute? left right = some (.error e) := by
  cases h with
  | ints x => exact ⟨.int .div, rfl, rfl⟩
  | floats x hy =>
      refine ⟨.float .div, rfl, ?_⟩
      rw [Operator.compute?, Arithmetic.onFloats, if_pos (float_beq_zero_iff.mpr hy)]
      rfl

theorem DividesByZero.kind {text : String} {left right : Value} {e : EvalError}
    (h : DividesByZero text left right e) : e.kind = .divisionByZero := by
  cases h <;> rfl

end Operator

/-! ### Application -/

open Operator

variable {text : String} {left right : Value}

theorem applyOperator_of_entry {op : Operator} {result : Except EvalError Value}
    (hsymbol : op.symbol = text) (h : op.compute? left right = some result) :
    applyOperator text left right = result := by
  rw [applyOperator, ofSymbol?_eq_some_iff.mpr hsymbol, Option.bind_some, h]
  rfl

/-- The three ways in which applying an operator ends. -/
private theorem applyOperator_trichotomy (text : String) (left right : Value) :
    (∃ value, applyOperator text left right = .ok value ∧ Gives text left right value)
      ∨ (∃ e, applyOperator text left right = .error e ∧ DividesByZero text left right e)
      ∨ (applyOperator text left right = .error (.undefinedOperator text left.kind right.kind)
        ∧ (∀ value, ¬ Gives text left right value)
        ∧ ∀ e, ¬ DividesByZero text left right e) := by
  by_cases hentry : ∃ op result, symbol op = text ∧ op.compute? left right = some result
  · obtain ⟨op, result, rfl, happly⟩ := hentry
    rw [applyOperator_of_entry rfl happly]
    obtain ⟨value, rfl, hgives⟩ | ⟨e, rfl, hzero⟩ := gives_or_dividesByZero happly
    · exact .inl ⟨value, rfl, hgives⟩
    · exact .inr (.inl ⟨e, rfl, hzero⟩)
  · have hundefined : applyOperator text left right
        = .error (.undefinedOperator text left.kind right.kind) := by
      have hnone : ((ofSymbol? text).bind fun op => op.compute? left right) = none := by
        rw [Option.bind_eq_none_iff]
        intro op hop
        by_contra hsome
        obtain ⟨result, hresult⟩ := Option.ne_none_iff_exists'.mp hsome
        exact hentry ⟨op, result, ofSymbol?_eq_some_iff.mp hop, hresult⟩
      rw [applyOperator, hnone]
      rfl
    refine .inr (.inr ⟨hundefined, ?_, ?_⟩)
    · intro value hgives
      obtain ⟨op, hsymbol, happly⟩ := hgives.entry
      exact hentry ⟨op, _, hsymbol, happly⟩
    · intro e hzero
      obtain ⟨op, hsymbol, happly⟩ := hzero.entry
      exact hentry ⟨op, _, hsymbol, happly⟩

theorem applyOperator_eq_ok_iff {value : Value} :
    applyOperator text left right = .ok value ↔ Gives text left right value := by
  constructor
  · intro h
    rcases applyOperator_trichotomy text left right with
      ⟨_, happly, hgives⟩ | ⟨e, happly, -⟩ | ⟨happly, -⟩
    · rw [happly] at h
      cases h
      exact hgives
    · rw [happly] at h
      cases h
    · rw [happly] at h
      cases h
  · intro h
    obtain ⟨op, hsymbol, happly⟩ := h.entry
    exact applyOperator_of_entry hsymbol happly

theorem applyOperator_eq_error_iff {e : EvalError} :
    applyOperator text left right = .error e
      ↔ DividesByZero text left right e
        ∨ e = .undefinedOperator text left.kind right.kind
          ∧ (∀ value, ¬ Gives text left right value)
          ∧ ∀ e, ¬ DividesByZero text left right e := by
  constructor
  · intro h
    rcases applyOperator_trichotomy text left right with
      ⟨value, happly, -⟩ | ⟨_, happly, hzero⟩ | ⟨happly, hnone⟩
    · rw [happly] at h
      cases h
    · rw [happly] at h
      cases h
      exact .inl hzero
    · rw [happly] at h
      cases h
      exact .inr ⟨rfl, hnone⟩
  · rintro (hzero | ⟨rfl, hgives, hzero⟩)
    · obtain ⟨op, hsymbol, happly⟩ := hzero.entry
      exact applyOperator_of_entry hsymbol happly
    · rcases applyOperator_trichotomy text left right with
        ⟨value, -, hvalue⟩ | ⟨e, -, he⟩ | ⟨happly, -⟩
      · exact absurd hvalue (hgives value)
      · exact absurd he (hzero e)
      · exact happly

/-- Applying an operator gives a value exactly where the table has one, and this value. It fails
with a division by zero exactly for the zero divisors. Everything else is an unsupported operation,
which names the symbol and the kinds of the operands, and a symbol that is not built in is one
whatever the operands are. -/
theorem applyOperator_decided_by_table (text : String) (left right : Value) :
    (∀ value, applyOperator text left right = .ok value ↔ Gives text left right value)
      ∧ (∀ e, applyOperator text left right = .error e ∧ e.kind = .divisionByZero
        ↔ DividesByZero text left right e)
      ∧ (∀ e, applyOperator text left right = .error e ∧ e.kind = .unsupportedOperation
        ↔ e = .undefinedOperator text left.kind right.kind
          ∧ (∀ value, ¬ Gives text left right value) ∧ ∀ e, ¬ DividesByZero text left right e)
      ∧ (∀ e, applyOperator text left right = .error e →
        e.kind = .divisionByZero ∨ e.kind = .unsupportedOperation)
      ∧ (isSymbol text = false →
        applyOperator text left right
          = .error (.undefinedOperator text left.kind right.kind)) := by
  refine ⟨fun value => applyOperator_eq_ok_iff, ?_, ?_, ?_, ?_⟩
  · intro e
    rw [applyOperator_eq_error_iff]
    constructor
    · rintro ⟨hzero | ⟨rfl, -⟩, hkind⟩
      · exact hzero
      · cases hkind
    · intro hzero
      exact ⟨.inl hzero, hzero.kind⟩
  · intro e
    rw [applyOperator_eq_error_iff]
    constructor
    · rintro ⟨hzero | hnone, hkind⟩
      · rw [hzero.kind] at hkind
        cases hkind
      · exact hnone
    · rintro ⟨rfl, hnone⟩
      exact ⟨.inr ⟨rfl, hnone⟩, rfl⟩
  · intro e h
    rcases applyOperator_eq_error_iff.mp h with hzero | ⟨rfl, -⟩
    · exact .inl hzero.kind
    · exact .inr rfl
  · intro hsymbol
    have hnone : ofSymbol? text = none := by simpa [isSymbol] using hsymbol
    rw [applyOperator, hnone]
    rfl

/-- A divisor of minus zero, and a symbol that is not built in between an integer and an object of
the host. -/
theorem applyOperator_decided_by_table_refused :
    applyOperator "/." (.float 1.5) (.float (-0.0)) = .error .floatDivisionByZero
      ∧ isSymbol "mod" = false
      ∧ applyOperator "mod" (.int 7) (.host ⟨"Matrix", 0⟩)
        = .error (.undefinedOperator "mod" "int" "Matrix") := by
  have hunknown : isSymbol "mod" = false := by decide
  obtain ⟨-, hzero, -⟩ := applyOperator_decided_by_table "/." (.float 1.5) (.float (-0.0))
  obtain ⟨-, -, -, -, hrefused⟩ :=
    applyOperator_decided_by_table "mod" (.int 7) (.host ⟨"Matrix", 0⟩)
  exact ⟨((hzero _).mpr (.floats 1.5 (.inr rfl))).1, hunknown, hrefused hunknown⟩

end MiniMl
