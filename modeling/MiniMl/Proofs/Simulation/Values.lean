import Mathlib.Data.List.Forall2
import MiniMl.Proofs.Level
/-!
# Values that operations cannot tell apart

Matching and the operators look at the shape of values and at the contents of atoms, and never into
functions. A relation on values that keeps this much, and goes on to the items of lists, tuples and
options, is a `Congruence`: matching related values binds related values under the same names, and
operators on related operands give related results or one and the same error.
-/

namespace MiniMl

namespace Value

/-- A value that neither holds other values nor carries code. -/
def IsAtom : Value → Prop
  | .list _ | .tuple _ | .optSome _ | .closure _ _ _ _ | .function _ _ | .openFunction _ => False
  | .int _ | .float _ | .bool _ | .char _ | .string _ | .unit | .optNone | .host _ => True

/-- Equal atoms, functions of one kind, or structures of one shape with related contents. -/
inductive SameShape (R : Value → Value → Prop) : Value → Value → Prop
  | atom {value : Value} (hatom : value.IsAtom) : SameShape R value value
  | list {items items' : List Value} (hitems : List.Forall₂ R items items') :
      SameShape R (.list items) (.list items')
  | tuple {items items' : List Value} (hitems : List.Forall₂ R items items') :
      SameShape R (.tuple items) (.tuple items')
  | optSome {inner inner' : Value} (hinner : R inner inner') :
      SameShape R (.optSome inner) (.optSome inner')
  | closure (param param' : Pattern) (body body' : Expr) (env env' : Env)
      (recursive recursive' : Bool) :
      SameShape R (.closure param body env recursive) (.closure param' body' env' recursive')
  | function (rules rules' : List Rule) (env env' : Env) :
      SameShape R (.function rules env) (.function rules' env')
  | openFunction (rules rules' : List Rule) :
      SameShape R (.openFunction rules) (.openFunction rules')

/-- Related values have one shape, and away from functions the shape decides. -/
structure Congruence (R : Value → Value → Prop) : Prop where
  shape : ∀ {value value'}, R value value' → SameShape R value value'
  atom : ∀ {value}, value.IsAtom → R value value
  list : ∀ {items items'}, List.Forall₂ R items items' → R (.list items) (.list items')
  tuple : ∀ {items items'}, List.Forall₂ R items items' → R (.tuple items) (.tuple items')
  optSome : ∀ {inner inner'}, R inner inner' → R (.optSome inner) (.optSome inner')

variable {R : Value → Value → Prop}

theorem SameShape.kind_eq {value value' : Value} (h : SameShape R value value') :
    value'.kind = value.kind := by
  cases h <;> rfl

end Value

/-! ### Matching -/

/-- Bindings of the same names, in order, to related values. -/
def BindingsRelated (R : Value → Value → Prop) :
    List (String × Value) → List (String × Value) → Prop :=
  List.Forall₂ fun entry entry' => entry.1 = entry'.1 ∧ R entry.2 entry'.2

private theorem rel_or {α β : Type} {R : α → β → Prop} {first second : Option α}
    {first' second' : Option β} (hfirst : Option.Rel R first first')
    (hsecond : Option.Rel R second second') :
    Option.Rel R (first.or second) (first'.or second') := by
  cases hfirst with
  | some h => exact .some h
  | none => exact hsecond

namespace Value.Congruence

variable {R : Value → Value → Prop} (hR : Value.Congruence R)

include hR

private theorem matchesValue_eq (c : Constant) {value value' : Value} (h : R value value') :
    c.matchesValue value' = c.matchesValue value := by
  cases hR.shape h with
  | atom _ => rfl
  | _ => cases c <;> rfl

/-- All that a match binds in an atom is the atom. -/
theorem bindings?_atom (p : Pattern) {value : Value} (hatom : value.IsAtom) :
    Option.Rel (BindingsRelated R) (p.bindings? value) (p.bindings? value) := by
  have hinherited : Value.Inherited (· = value) :=
    { list := by
        rintro items rfl
        exact hatom.elim
      tuple := by
        rintro items rfl
        exact hatom.elim
      optSome := by
        rintro inner rfl
        exact hatom.elim }
  cases hbindings : p.bindings? value with
  | none => exact .none
  | some bindings =>
      have hvalues := p.forall_mem_bindings hinherited hbindings rfl
      refine .some (List.forall₂_same.mpr fun entry hentry => ⟨rfl, ?_⟩)
      rw [hvalues entry hentry]
      exact hR.atom hatom

omit hR

mutual

/-- A pattern matches both of two related values or none, and binds related values. -/
theorem bindings?_rel (hR : Value.Congruence R) (p : Pattern) {value value' : Value}
    (h : R value value') :
    Option.Rel (BindingsRelated R) (p.bindings? value) (p.bindings? value') := by
  cases p with
  | wild => exact .some .nil
  | const c =>
      rw [Pattern.bindings?, Pattern.bindings?, hR.matchesValue_eq c h]
      split
      · exact .some .nil
      · exact .none
  | ident name => exact .some (.cons ⟨rfl, h⟩ .nil)
  | typed inner ty => exact bindings?_rel hR inner h
  | optNone =>
      cases hR.shape h with
      | atom hatom => exact hR.bindings?_atom _ hatom
      | _ => exact .none
  | optSome inner =>
      cases hR.shape h with
      | atom hatom => exact hR.bindings?_atom _ hatom
      | optSome hinner => exact bindings?_rel hR inner hinner
      | _ => exact .none
  | or left right => exact rel_or (bindings?_rel hR left h) (bindings?_rel hR right h)
  | list patterns =>
      cases hR.shape h with
      | atom hatom => exact hR.bindings?_atom _ hatom
      | list hitems => exact bindingsAll?_rel hR patterns hitems
      | _ => exact .none
  | tuple patterns =>
      cases hR.shape h with
      | atom hatom => exact hR.bindings?_atom _ hatom
      | tuple hitems => exact bindingsAll?_rel hR patterns hitems
      | _ => exact .none
  | host obj =>
      cases hR.shape h with
      | atom hatom => exact hR.bindings?_atom _ hatom
      | _ => exact .none

private theorem bindingsAll?_rel (hR : Value.Congruence R) (ps : List Pattern)
    {values values' : List Value} (h : List.Forall₂ R values values') :
    Option.Rel (BindingsRelated R) (Pattern.bindingsAll? ps values)
      (Pattern.bindingsAll? ps values') := by
  cases ps with
  | nil =>
      cases h with
      | nil => exact .some .nil
      | cons _ _ => exact .none
  | cons p ps =>
      cases h with
      | nil => exact .none
      | @cons value value' rest rest' hvalue hrest =>
          have hfirst := bindings?_rel hR p hvalue
          have hothers := bindingsAll?_rel hR ps hrest
          simp only [Pattern.bindingsAll?]
          generalize p.bindings? value = first, p.bindings? value' = first' at hfirst
          generalize Pattern.bindingsAll? ps rest = others,
            Pattern.bindingsAll? ps rest' = others' at hothers
          cases hfirst with
          | none => exact .none
          | some hfirst =>
              cases hothers with
              | none => exact .none
              | some hothers => exact .some (List.rel_append hfirst hothers)

end

end Value.Congruence

/-! ### Operators -/

/-- An operator is defined for atoms, and `::` for a list on the right. -/
theorem Operator.compute?_eq_none {op : Operator} {left right : Value}
    (hatoms : ¬ (left.IsAtom ∧ right.IsAtom)) (hcons : ∀ items, right = .list items → op ≠ .cons) :
    op.compute? left right = none := by
  fun_cases Operator.compute? op left right with
  | case6 => exact absurd rfl (hcons _ rfl)
  | case7 => rfl
  | _ => exact absurd ⟨trivial, trivial⟩ hatoms

theorem applyOperator_eq_undefined {symbol : String} {left right : Value}
    (hatoms : ¬ (left.IsAtom ∧ right.IsAtom))
    (hcons : ∀ items, right = .list items → Operator.ofSymbol? symbol ≠ some .cons) :
    applyOperator symbol left right = .error (.undefinedOperator symbol left.kind right.kind) := by
  rw [applyOperator]
  cases hop : Operator.ofSymbol? symbol with
  | none => rfl
  | some op =>
      have hnone : op.compute? left right = none := by
        refine Operator.compute?_eq_none hatoms fun items hitems heq => hcons items hitems ?_
        rw [hop, heq]
      rw [Option.bind_some, hnone]
      rfl

private theorem applyOperator_cons {symbol : String}
    (hsymbol : Operator.ofSymbol? symbol = some .cons) (left : Value) (items : List Value) :
    applyOperator symbol left (.list items) = .ok (.list (left :: items)) := by
  rw [applyOperator, hsymbol]
  rfl

namespace Value.Congruence

variable {R : Value → Value → Prop} (hR : Value.Congruence R)

include hR

private theorem eq_of_isAtom {value value' : Value} (h : R value value') (hatom : value.IsAtom) :
    value' = value := by
  cases hR.shape h with
  | atom _ => rfl
  | _ => exact hatom.elim

theorem isAtom_iff {value value' : Value} (h : R value value') : value'.IsAtom ↔ value.IsAtom := by
  cases hR.shape h <;> rfl

/-- Operators give related results, or the same error. -/
theorem applyOperator_rel (symbol : String) {left left' right right' : Value}
    (hleft : R left left') (hright : R right right') :
    (∃ value value', applyOperator symbol left right = .ok value
        ∧ applyOperator symbol left' right' = .ok value' ∧ R value value')
      ∨ ∃ e, (e.kind = .divisionByZero ∨ e.kind = .unsupportedOperation)
        ∧ applyOperator symbol left right = .error e
        ∧ applyOperator symbol left' right' = .error e := by
  by_cases hatoms : left.IsAtom ∧ right.IsAtom
  · rw [hR.eq_of_isAtom hleft hatoms.1, hR.eq_of_isAtom hright hatoms.2]
    rcases applyOperator_cases symbol left right with
      ⟨n, h⟩ | ⟨x, h⟩ | ⟨b, h⟩ | ⟨items, rfl, -⟩ | ⟨e, h, hkind⟩
    · exact .inl ⟨.int n, .int n, h, h, hR.atom trivial⟩
    · exact .inl ⟨.float x, .float x, h, h, hR.atom trivial⟩
    · exact .inl ⟨.bool b, .bool b, h, h, hR.atom trivial⟩
    · exact hatoms.2.elim
    · exact .inr ⟨e, hkind, h, h⟩
  · have hatoms' : ¬ (left'.IsAtom ∧ right'.IsAtom) := by
      rw [hR.isAtom_iff hleft, hR.isAtom_iff hright]
      exact hatoms
    by_cases hcons : Operator.ofSymbol? symbol = some .cons ∧ ∃ items, right = .list items
    · obtain ⟨hsymbol, items, rfl⟩ := hcons
      cases hR.shape hright with
      | atom hatom => exact hatom.elim
      | list hitems =>
          exact .inl ⟨_, _, applyOperator_cons hsymbol left _, applyOperator_cons hsymbol left' _,
            hR.list (.cons hleft hitems)⟩
    · have hcons' : ∀ items, right' = .list items → Operator.ofSymbol? symbol ≠ some .cons := by
        rintro items rfl hsymbol
        cases hR.shape hright with
        | atom hatom => exact hatom.elim
        | list _ => exact hcons ⟨hsymbol, _, rfl⟩
      refine .inr ⟨_, .inr rfl, applyOperator_eq_undefined hatoms fun items hitems hsymbol =>
        hcons ⟨hsymbol, items, hitems⟩, ?_⟩
      rw [applyOperator_eq_undefined hatoms' hcons', (hR.shape hleft).kind_eq,
        (hR.shape hright).kind_eq]

end Value.Congruence

end MiniMl
