import MiniMl.Proofs.Level
/-!
# Free names

A name is free in an expression where it is read and not bound. What a pattern binds is what every
match of it binds, so of an alternative only the names of both sides count. The symbol of an
operator with both operands is not read, whatever the environment has under it. A recursive let
binds its names in all its right-hand sides, any other let only in its body.
-/

namespace MiniMl

/-- The names of the first list that the second one does not have. -/
def without (names bound : List String) : List String :=
  names.filter (· ∉ bound)

@[simp] theorem mem_without {names bound : List String} {name : String} :
    name ∈ without names bound ↔ name ∈ names ∧ name ∉ bound := by
  simp [without]

/-- Where all names but the bound ones are in scope, a name is bound or in scope. -/
theorem bound_or_mem_of_without {names bound scope : List String}
    (h : ∀ name ∈ without names bound, name ∈ scope) {name : String} (hname : name ∈ names) :
    name ∈ bound ∨ name ∈ scope := by
  by_cases hbound : name ∈ bound
  · exact .inl hbound
  · exact .inr (h name (mem_without.mpr ⟨hname, hbound⟩))

/-! ### Names that a pattern is sure to bind -/

namespace Pattern

mutual

/-- The names that every match of the pattern binds. -/
def sureNames : Pattern → List String
  | .ident name => [name]
  | .typed inner _ => inner.sureNames
  | .optSome inner => inner.sureNames
  | .or left right => left.sureNames.filter (· ∈ right.sureNames)
  | .list items => sureNamesAll items
  | .tuple items => sureNamesAll items
  | .wild | .const _ | .optNone | .host _ => []

def sureNamesAll : List Pattern → List String
  | [] => []
  | p :: ps => p.sureNames ++ sureNamesAll ps

end

mutual

theorem sureNames_subset (p : Pattern) {name : String} (h : name ∈ p.sureNames) :
    name ∈ p.boundNames := by
  cases p with
  | ident own => exact h
  | typed inner ty => exact sureNames_subset inner h
  | optSome inner => exact sureNames_subset inner h
  | or left right => exact sureNames_subset left (List.mem_filter.mp h).1
  | list items => exact sureNamesAll_subset items h
  | tuple items => exact sureNamesAll_subset items h
  | _ => cases h

theorem sureNamesAll_subset (ps : List Pattern) {name : String} (h : name ∈ sureNamesAll ps) :
    name ∈ boundNamesAll ps := by
  cases ps with
  | nil => cases h
  | cons p ps =>
      rw [boundNamesAll, List.mem_append]
      rcases List.mem_append.mp h with h | h
      · exact .inl (sureNames_subset p h)
      · exact .inr (sureNamesAll_subset ps h)

end

mutual

/-- A match binds the names it is sure to bind, whichever alternatives it takes. -/
theorem mem_bindings_of_mem_sureNames (p : Pattern) {value : Value}
    {bindings : List (String × Value)} (h : p.bindings? value = some bindings) {name : String}
    (hname : name ∈ p.sureNames) : name ∈ bindings.map Prod.fst := by
  cases p with
  | ident own =>
      cases h
      exact hname
  | typed inner ty => exact mem_bindings_of_mem_sureNames inner h hname
  | optSome inner =>
      cases value with
      | optSome content => exact mem_bindings_of_mem_sureNames inner h hname
      | _ => cases h
  | or left right =>
      -- Either side may be the one that matched, and both bind the name.
      have hsides := List.mem_filter.mp hname
      rw [bindings?, Option.or_eq_some_iff] at h
      rcases h with h | ⟨-, h⟩
      · exact mem_bindings_of_mem_sureNames left h hsides.1
      · exact mem_bindings_of_mem_sureNames right h (by simpa using hsides.2)
  | list patterns =>
      cases value with
      | list values => exact mem_bindings_of_mem_sureNamesAll patterns h hname
      | _ => cases h
  | tuple patterns =>
      cases value with
      | tuple values => exact mem_bindings_of_mem_sureNamesAll patterns h hname
      | _ => cases h
  | _ => cases hname

theorem mem_bindings_of_mem_sureNamesAll (ps : List Pattern) {values : List Value}
    {bindings : List (String × Value)} (h : bindingsAll? ps values = some bindings) {name : String}
    (hname : name ∈ sureNamesAll ps) : name ∈ bindings.map Prod.fst := by
  cases ps with
  | nil => cases hname
  | cons p ps =>
      cases values with
      | nil => cases h
      | cons v vs =>
          simp only [bindingsAll?, Option.bind_eq_bind, Option.bind_eq_some_iff] at h
          obtain ⟨first, hfirst, rest, hrest, heq⟩ := h
          cases heq
          rw [List.map_append, List.mem_append]
          rcases List.mem_append.mp hname with hname | hname
          · exact .inl (mem_bindings_of_mem_sureNames p hfirst hname)
          · exact .inr (mem_bindings_of_mem_sureNamesAll ps hrest hname)

end

end Pattern

/-- The names that a let is sure to bind. -/
def sureLetNames (bindings : List Binding) : List String :=
  Pattern.sureNamesAll (bindings.map Clause.pattern)

/-! ### Expressions -/

namespace Expr

mutual

/-- The names that an expression reads from its environment, with repetitions. -/
def freeNames : Expr → List String
  | .ident name => [name]
  | .typed inner _ => inner.freeNames
  | .list items => freeNamesAll items
  | .tuple items => freeNamesAll items
  | .lambda param body => without body.freeNames param.sureNames
  | .ifThen cond yes => cond.freeNames ++ yes.freeNames
  | .ifThenElse cond yes no => cond.freeNames ++ yes.freeNames ++ no.freeNames
  | .optSome inner => inner.freeNames
  | .matchWith scrutinee rules => scrutinee.freeNames ++ freeNamesOfRules rules
  | .function rules => freeNamesOfRules rules
  | .apply (.apply (.ident symbol) left) right =>
    if Operator.isSymbol symbol then left.freeNames ++ right.freeNames
    else symbol :: left.freeNames ++ right.freeNames
  | .apply func arg => func.freeNames ++ arg.freeNames
  | .letIn true bindings body =>
    without (freeNamesOfBodies bindings ++ body.freeNames) (sureLetNames bindings)
  | .letIn false bindings body =>
    freeNamesOfBodies bindings ++ without body.freeNames (sureLetNames bindings)
  | .const _ | .optNone | .host _ => []

def freeNamesAll : List Expr → List String
  | [] => []
  | e :: es => e.freeNames ++ freeNamesAll es

/-- The pattern of a rule binds in its body. -/
def freeNamesOfRules : List (Clause Expr) → List String
  | [] => []
  | ⟨pattern, body⟩ :: rest => without body.freeNames pattern.sureNames ++ freeNamesOfRules rest

/-- The right-hand sides of bindings, whatever the patterns bind. -/
def freeNamesOfBodies : List (Clause Expr) → List String
  | [] => []
  | ⟨_, body⟩ :: rest => body.freeNames ++ freeNamesOfBodies rest

end

theorem mem_freeNamesAll {es : List Expr} {name : String} :
    name ∈ freeNamesAll es ↔ ∃ e ∈ es, name ∈ e.freeNames := by
  induction es with
  | nil => simp [freeNamesAll]
  | cons e rest ih => simp [freeNamesAll, ih]

theorem mem_freeNamesOfRules {rules : List Rule} {name : String} :
    name ∈ freeNamesOfRules rules
      ↔ ∃ rule ∈ rules, name ∈ without rule.body.freeNames rule.pattern.sureNames := by
  induction rules with
  | nil => simp [freeNamesOfRules]
  | cons rule rest ih => simp [freeNamesOfRules, ih]

theorem mem_freeNamesOfBodies {bindings : List Binding} {name : String} :
    name ∈ freeNamesOfBodies bindings ↔ ∃ binding ∈ bindings, name ∈ binding.body.freeNames := by
  induction bindings with
  | nil => simp [freeNamesOfBodies]
  | cons binding rest ih => simp [freeNamesOfBodies, ih]

theorem freeNames_operator {symbol : String} (h : Operator.isSymbol symbol = true)
    (left right : Expr) :
    (Expr.apply (.apply (.ident symbol) left) right).freeNames
      = left.freeNames ++ right.freeNames := by
  rw [freeNames, if_pos h]

theorem freeNames_apply {func : Expr} (h : func.appliedOperator? = none) (arg : Expr) :
    (Expr.apply func arg).freeNames = func.freeNames ++ arg.freeNames := by
  cases func with
  | apply first left =>
      cases first with
      | ident symbol =>
          have hsymbol := appliedOperator?_eq_none_iff.mp h symbol left rfl
          rw [freeNames, if_neg (by simp [hsymbol])]
          rfl
      | _ => rfl
  | _ => rfl

end Expr

end MiniMl
