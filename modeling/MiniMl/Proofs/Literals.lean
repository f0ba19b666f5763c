import MiniMl.Proofs.Level
/-!
# Literals

Data without functions can be written down in two ways, as an expression that evaluates to it and as
a pattern that matches it. Evaluating the expression needs no more budget than the data is high
(`Datum.eval_quote`), and the pattern matches the values that are equal to the data and no others
(`Datum.bindings?_literal`). So a match of one literal against another decides whether the two are
equal.

Equality here is the one of numbers: a NaN is not equal to itself, and the two zeros are equal.
-/

namespace MiniMl

/-! ### Floats -/

open Float.Model in
/-- Unpacked floats that compare as equal are the same, or both are zeros. -/
theorem eq_or_zero_of_compare {a b : UnpackedFloat} (h : a.compare b = some .eq) :
    a = b ∨ ∃ s s', a = .zero s ∧ b = .zero s' := by
  cases a with
  | notANumber => cases h
  | zero s =>
      cases b with
      | zero s' => exact .inr ⟨s, s', rfl, rfl⟩
      | notANumber => cases h
      | infinity s' => cases s' <;> cases h
      | finite s' m' e' hm' => cases s' <;> cases h
  | infinity s =>
      cases b with
      | infinity s' =>
          cases s <;> cases s' <;> first | exact .inl rfl | exact absurd h (by decide)
      | _ => cases s <;> cases h
  | finite s m e hm =>
      cases b with
      | notANumber => cases h
      | infinity s' => cases s <;> cases s' <;> cases h
      | zero s' => cases s <;> cases h
      | finite s' m' e' hm' =>
          have hsame : (compare e e').then (compare m m') = .eq → e = e' ∧ m = m' := by
            rw [Ordering.then_eq_eq, Std.compare_eq_iff_eq, Std.compare_eq_iff_eq]
            exact id
          cases s <;> cases s'
          · obtain ⟨rfl, rfl⟩ := hsame (Ordering.swap_eq_eq.mp (Option.some.inj h))
            exact .inl rfl
          · cases h
          · cases h
          · obtain ⟨rfl, rfl⟩ := hsame (Option.some.inj h)
            exact .inl rfl

open Float.Model in
theorem unpacked_compare_comm {a b : UnpackedFloat} (h : a.compare b = some .eq) :
    b.compare a = some .eq := by
  obtain rfl | ⟨s, s', rfl, rfl⟩ := eq_or_zero_of_compare h
  · exact h
  · rfl

private theorem float_beq_comm (x y : Float) : (x == y) = (y == x) := by
  rw [Bool.eq_iff_iff]
  show (x.toModel.unpack.compare y.toModel.unpack == some .eq) = true
    ↔ (y.toModel.unpack.compare x.toModel.unpack == some .eq) = true
  rw [beq_iff_eq, beq_iff_eq]
  exact ⟨unpacked_compare_comm, unpacked_compare_comm⟩

/-! ### Equality of values -/

mutual

/-- The values have the same form and equal contents. Functions and host objects are equal to
nothing. -/
def Value.equals : Value → Value → Bool
  | .int m, .int n => m == n
  | .float x, .float y => x == y
  | .bool b, .bool b' => b == b'
  | .char text, .char text' => text == text'
  | .string s, .string s' => s == s'
  | .unit, .unit => true
  | .list items, .list items' => Value.equalsAll items items'
  | .tuple items, .tuple items' => Value.equalsAll items items'
  | .optNone, .optNone => true
  | .optSome inner, .optSome inner' => inner.equals inner'
  | _, _ => false

def Value.equalsAll : List Value → List Value → Bool
  | [], [] => true
  | v :: vs, v' :: vs' => v.equals v' && Value.equalsAll vs vs'
  | _, _ => false

end

/-! ### Data -/

/-- Data without parts. -/
inductive Scalar where
  | int (n : Int)
  | float (x : Float)
  | bool (b : Bool)
  | char (c : Char)
  | string (s : String)

namespace Scalar

def constant : Scalar → Constant
  | .int n => .int n
  | .float x => .float x
  | .bool b => .bool b
  | .char c => .char c
  | .string s => .string s

def value : Scalar → Value
  | .int n => .int n
  | .float x => .float x
  | .bool b => .bool b
  | .char c => .char c.toString
  | .string s => .string s

theorem value_constant (scalar : Scalar) : scalar.constant.value = .ok scalar.value := by
  cases scalar <;> rfl

private theorem matchesValue_constant (scalar : Scalar) (value : Value) :
    scalar.constant.matchesValue value = value.equals scalar.value := by
  cases scalar with
  | char c => cases value <;> rfl
  | float x =>
      cases value with
      | float y => exact float_beq_comm x y
      | _ => rfl
  | int n =>
      cases value with
      | int m => exact Bool.beq_comm
      | _ => rfl
  | bool b =>
      cases value with
      | bool b' => exact Bool.beq_comm
      | _ => rfl
  | string s =>
      cases value with
      | string s' => exact Bool.beq_comm
      | _ => rfl

end Scalar

/-- Data without functions. A tuple has two items or more. -/
inductive Datum where
  | scalar (s : Scalar)
  | list (items : List Datum)
  | tuple (first second : Datum) (rest : List Datum)
  | optNone
  | optSome (inner : Datum)

namespace Datum

mutual

/-- The value that the data is. -/
def value : Datum → Value
  | .scalar s => s.value
  | .list items => .list (valueAll items)
  | .tuple first second rest => .tuple (first.value :: second.value :: valueAll rest)
  | .optNone => .optNone
  | .optSome inner => .optSome inner.value

def valueAll : List Datum → List Value
  | [] => []
  | d :: ds => d.value :: valueAll ds

end

mutual

/-- The data as an expression. -/
def quote : Datum → Expr
  | .scalar s => .const s.constant
  | .list items => .list (quoteAll items)
  | .tuple first second rest => .tuple (first.quote :: second.quote :: quoteAll rest)
  | .optNone => .optNone
  | .optSome inner => .optSome inner.quote

def quoteAll : List Datum → List Expr
  | [] => []
  | d :: ds => d.quote :: quoteAll ds

end

mutual

/-- The data as a pattern. -/
def literal : Datum → Pattern
  | .scalar s => .const s.constant
  | .list items => .list (literalAll items)
  | .tuple first second rest => .tuple (first.literal :: second.literal :: literalAll rest)
  | .optNone => .optNone
  | .optSome inner => .optSome inner.literal

def literalAll : List Datum → List Pattern
  | [] => []
  | d :: ds => d.literal :: literalAll ds

end

mutual

/-- How deep the data is nested. What has no parts has height one. -/
def height : Datum → Nat
  | .scalar _ => 1
  | .list items => heightAll items + 1
  | .tuple first second rest => max first.height (max second.height (heightAll rest)) + 1
  | .optNone => 1
  | .optSome inner => inner.height + 1

def heightAll : List Datum → Nat
  | [] => 0
  | d :: ds => max d.height (heightAll ds)

end

theorem height_pos (d : Datum) : 0 < d.height := by
  cases d <;> simp [height]

/-! ### Expressions -/

section Eval

variable (settings : Settings) (env : Env)

mutual

/-- A quoted datum evaluates to its value, in any environment, within a budget of its height. -/
theorem eval_quote (d : Datum) {budget : Nat} (h : d.height ≤ budget) :
    (eval settings budget d.quote env).outcome = .ok d.value := by
  obtain ⟨rest, rfl⟩ : ∃ rest, budget = rest + 1 := ⟨budget - 1, by have := d.height_pos; omega⟩
  rw [eval_succ]
  cases d with
  | scalar s =>
      rw [quote, value]
      exact Run.outcome_ofEval_eq_ok_iff.mpr s.value_constant
  | list items =>
      rw [height, Nat.add_le_add_iff_right] at h
      exact Run.outcome_bind_ok (evalAll_quoteAll items h) _
  | tuple first second others =>
      rw [height, Nat.add_le_add_iff_right] at h
      have hitems := evalAll_quoteAll (first :: second :: others) h
      have hsize : 2 ≤ (valueAll (first :: second :: others)).length := by simp [valueAll]
      refine (Run.outcome_bind_ok hitems _).trans ?_
      rw [Value.checkedTuple, if_pos hsize]
      rfl
  | optNone => rfl
  | optSome inner =>
      rw [height, Nat.add_le_add_iff_right] at h
      exact Run.outcome_bind_ok (eval_quote inner h) _

private theorem evalAll_quoteAll (items : List Datum) {budget : Nat}
    (h : heightAll items ≤ budget) :
    (evalAll (eval settings budget) env (quoteAll items)).outcome = .ok (valueAll items) := by
  cases items with
  | nil => rfl
  | cons d ds =>
      rw [heightAll, Nat.max_le] at h
      rw [quoteAll, evalAll, Run.outcome_bind_ok (eval_quote d h.1),
        Run.outcome_bind_ok (evalAll_quoteAll ds h.2)]
      rfl

end

end Eval

/-! ### Patterns -/

mutual

/-- A literal pattern matches the values that are equal to it, and binds nothing. -/
theorem bindings?_literal (d : Datum) (v : Value) :
    d.literal.bindings? v = if v.equals d.value then some [] else none := by
  cases d with
  | scalar s => rw [literal, Pattern.bindings?, s.matchesValue_constant, value]
  | list items =>
      cases v with
      | list values => exact bindingsAll?_literalAll items values
      | _ => rfl
  | tuple first second others =>
      cases v with
      | tuple values => exact bindingsAll?_literalAll (first :: second :: others) values
      | _ => rfl
  | optNone => cases v <;> rfl
  | optSome inner =>
      cases v with
      | optSome content => exact bindings?_literal inner content
      | _ => rfl

private theorem bindingsAll?_literalAll (ds : List Datum) (values : List Value) :
    Pattern.bindingsAll? (literalAll ds) values
      = if Value.equalsAll values (valueAll ds) then some [] else none := by
  cases ds with
  | nil => cases values <;> rfl
  | cons d ds =>
      cases values with
      | nil => rfl
      | cons v vs =>
          rw [literalAll, Pattern.bindingsAll?, bindings?_literal d v,
            bindingsAll?_literalAll ds vs, valueAll, Value.equalsAll]
          cases v.equals d.value <;> cases Value.equalsAll vs (valueAll ds) <;> rfl

end

theorem match?_literal (d : Datum) (env : Env) (v : Value) :
    d.literal.match? env v = if v.equals d.value then some env else none := by
  rw [Pattern.match?_eq, bindings?_literal]
  cases v.equals d.value <;> rfl

/-- Matching data against other data and everything else tells whether the two are equal. It never
fails, if the depth limit leaves a level above the height of the data that is evaluated. -/
theorem literal_match_decides_equality (settings : Settings) (env : Env) (v w : Datum)
    (hdepth : (v.height : Int) + 1 ≤ settings.maxDepth) :
    (evaluate settings (.matchWith v.quote
        [⟨w.literal, .const (.bool true)⟩, ⟨.wild, .const (.bool false)⟩]) env).outcome
      = .ok (.bool (v.value.equals w.value)) := by
  obtain ⟨budget, hbudget⟩ : ∃ budget, settings.budget = budget + 1 :=
    ⟨settings.budget - 1, by rw [Settings.budget]; omega⟩
  have hheight : v.height ≤ budget := by
    rw [Settings.budget] at hbudget
    omega
  have hanswer : ∀ b, (eval settings budget (.const (.bool b)) env).outcome = .ok (.bool b) :=
    fun b => eval_quote settings env (.scalar (.bool b)) (Nat.le_trans v.height_pos hheight)
  rw [evaluate, hbudget, eval_succ]
  refine (Run.outcome_bind_ok (eval_quote settings env v hheight) _).trans ?_
  have hmatch := match?_literal w env v.value
  cases hequal : v.value.equals w.value with
  | true =>
      rw [hequal] at hmatch
      have hfirst : FirstMatch env v.value
          [⟨w.literal, .const (.bool true)⟩, ⟨.wild, .const (.bool false)⟩]
          ⟨w.literal, .const (.bool true)⟩ env := ⟨[], _, rfl, by simp, hmatch⟩
      exact (outcome_dispatchWith hfirst).trans (hanswer true)
  | false =>
      rw [hequal] at hmatch
      have hfirst : FirstMatch env v.value
          [⟨w.literal, .const (.bool true)⟩, ⟨.wild, .const (.bool false)⟩]
          ⟨.wild, .const (.bool false)⟩ env := ⟨[_], [], rfl, by simpa using hmatch, rfl⟩
      exact (outcome_dispatchWith hfirst).trans (hanswer false)

/-- With no level to spare: a NaN is not matched by itself, and a zero is matched by the other
one. -/
theorem literal_match_decides_equality_floats :
    let boxed (x : Float) : Datum := .optSome (.scalar (.float x))
    let test (x y : Float) : Expr := .matchWith (boxed x).quote
      [⟨(boxed y).literal, .const (.bool true)⟩, ⟨.wild, .const (.bool false)⟩]
    let settings : Settings := { maxDepth := 3 }
    (∀ x, ((boxed x).height : Int) + 1 ≤ settings.maxDepth)
      ∧ (evaluate settings (test (0.0 / 0.0) (0.0 / 0.0)) .empty).outcome = .ok (.bool false)
      ∧ (evaluate settings (test 0.0 (-0.0)) .empty).outcome = .ok (.bool true) := by
  intro boxed test settings
  have hdepth : ∀ x, ((boxed x).height : Int) + 1 ≤ settings.maxDepth := by
    intro x
    simp [boxed, settings, height]
  have hnan : (boxed (0.0 / 0.0)).value.equals (boxed (0.0 / 0.0)).value = false := by decide
  have hzero : (boxed 0.0).value.equals (boxed (-0.0)).value = true := by decide
  refine ⟨hdepth, ?_, ?_⟩
  · rw [literal_match_decides_equality settings .empty _ _ (hdepth _), hnan]
  · rw [literal_match_decides_equality settings .empty _ _ (hdepth _), hzero]

end Datum

end MiniMl
