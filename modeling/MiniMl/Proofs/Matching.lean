import MiniMl.Matching
/-!
# What a match binds

Matching threads an environment through the pattern. What it adds does not depend on that
environment: it is a list of bindings, found from the pattern and the value alone, and a match
extends whatever it is given by this list (`match?_eq`). The rest of the theory knows matching only
through this equation and the facts about the list, and rule selection only as a first match.
-/

namespace MiniMl

/-- An environment with one frame more for each binding, in order. -/
def Env.extendAll (env : Env) : List (String × Value) → Env
  | [] => env
  | (name, value) :: rest => (env.extend name value).extendAll rest

theorem Env.extendAll_append (env : Env) (first rest : List (String × Value)) :
    env.extendAll (first ++ rest) = (env.extendAll first).extendAll rest := by
  induction first generalizing env with
  | nil => rfl
  | cons entry first ih => exact ih (env.extend entry.1 entry.2)

namespace Pattern

mutual

/-- The names and values that a match binds, in the order of their frames, or nothing. -/
def bindings? : Pattern → Value → Option (List (String × Value))
  | .wild, _ => some []
  | .const c, value => if c.matchesValue value then some [] else none
  | .ident name, value => some [(name, value)]
  | .typed inner _, value => inner.bindings? value
  | .optNone, .optNone => some []
  | .optSome inner, .optSome value => inner.bindings? value
  | .or left right, value => (left.bindings? value).or (right.bindings? value)
  | .list patterns, .list values => bindingsAll? patterns values
  | .tuple patterns, .tuple values => bindingsAll? patterns values
  | _, _ => none

def bindingsAll? : List Pattern → List Value → Option (List (String × Value))
  | [], [] => some []
  | p :: ps, v :: vs => do
    let first ← p.bindings? v
    let rest ← bindingsAll? ps vs
    some (first ++ rest)
  | _, _ => none

end

mutual

/-- A match extends any environment by the same bindings. -/
theorem match?_eq (env : Env) (p : Pattern) (value : Value) :
    p.match? env value = (p.bindings? value).map env.extendAll := by
  cases p with
  | wild => rfl
  | const c =>
      rw [match?, bindings?]
      split <;> rfl
  | ident name => rfl
  | typed inner ty =>
      rw [match?, bindings?]
      exact match?_eq env inner value
  | optNone => cases value <;> rfl
  | optSome inner =>
      cases value with
      | optSome content =>
          rw [match?, bindings?]
          exact match?_eq env inner content
      | _ => rfl
  | or left right =>
      rw [match?, bindings?, match?_eq env left value, match?_eq env right value]
      cases left.bindings? value <;> rfl
  | list patterns =>
      cases value with
      | list values =>
          rw [match?, bindings?]
          exact matchAll?_eq env patterns values
      | _ => rfl
  | tuple patterns =>
      cases value with
      | tuple values =>
          rw [match?, bindings?]
          exact matchAll?_eq env patterns values
      | _ => rfl
  | host obj => cases value <;> rfl

theorem matchAll?_eq (env : Env) (ps : List Pattern) (values : List Value) :
    matchAll? env ps values = (bindingsAll? ps values).map env.extendAll := by
  cases ps with
  | nil => cases values <;> rfl
  | cons p ps =>
      cases values with
      | nil => rfl
      | cons v vs =>
          rw [matchAll?, bindingsAll?, match?_eq env p v]
          cases p.bindings? v with
          | none => rfl
          | some first =>
              simp only [Option.map_some, matchAll?_eq (env.extendAll first) ps vs]
              cases bindingsAll? ps vs with
              | none => rfl
              | some rest => exact congrArg some (env.extendAll_append first rest).symm

end

theorem match?_eq_some_iff {env matched : Env} {p : Pattern} {value : Value} :
    p.match? env value = some matched
      ↔ ∃ bindings, p.bindings? value = some bindings ∧ env.extendAll bindings = matched := by
  rw [match?_eq, Option.map_eq_some_iff]

theorem matchAll?_eq_some_iff {env matched : Env} {ps : List Pattern} {values : List Value} :
    matchAll? env ps values = some matched
      ↔ ∃ bindings, bindingsAll? ps values = some bindings
        ∧ env.extendAll bindings = matched := by
  rw [matchAll?_eq, Option.map_eq_some_iff]

end Pattern

/-! ### The values that are bound -/

/-- A property of values that goes over to the items of a list or tuple and the content of an
option. -/
structure Value.Inherited (P : Value → Prop) : Prop where
  list : ∀ items, P (.list items) → ∀ item ∈ items, P item
  tuple : ∀ items, P (.tuple items) → ∀ item ∈ items, P item
  optSome : ∀ inner, P (.optSome inner) → P inner

namespace Pattern

variable {P : Value → Prop}

mutual

/-- A match binds the value or components of it. -/
theorem forall_mem_bindings (hP : Value.Inherited P) (p : Pattern) {value : Value}
    {bindings : List (String × Value)} (h : p.bindings? value = some bindings) (hvalue : P value) :
    ∀ entry ∈ bindings, P entry.2 := by
  cases p with
  | wild =>
      cases h
      simp
  | const c =>
      rw [bindings?] at h
      split at h
      · cases h
        simp
      · cases h
  | ident name =>
      cases h
      intro entry hentry
      rw [List.mem_singleton.mp hentry]
      exact hvalue
  | typed inner ty => exact forall_mem_bindings hP inner h hvalue
  | optNone =>
      cases value with
      | optNone =>
          cases h
          simp
      | _ => cases h
  | optSome inner =>
      cases value with
      | optSome content => exact forall_mem_bindings hP inner h (hP.optSome content hvalue)
      | _ => cases h
  | or left right =>
      rw [bindings?, Option.or_eq_some_iff] at h
      rcases h with h | ⟨-, h⟩
      · exact forall_mem_bindings hP left h hvalue
      · exact forall_mem_bindings hP right h hvalue
  | list patterns =>
      cases value with
      | list values => exact forall_mem_bindingsAll hP patterns h (hP.list values hvalue)
      | _ => cases h
  | tuple patterns =>
      cases value with
      | tuple values => exact forall_mem_bindingsAll hP patterns h (hP.tuple values hvalue)
      | _ => cases h
  | host obj => cases value <;> cases h

theorem forall_mem_bindingsAll (hP : Value.Inherited P) (ps : List Pattern) {values : List Value}
    {bindings : List (String × Value)} (h : bindingsAll? ps values = some bindings)
    (hvalues : ∀ value ∈ values, P value) : ∀ entry ∈ bindings, P entry.2 := by
  cases ps with
  | nil =>
      cases values with
      | nil =>
          cases h
          simp
      | cons v vs => cases h
  | cons p ps =>
      cases values with
      | nil => cases h
      | cons v vs =>
          simp only [bindingsAll?, Option.bind_eq_bind, Option.bind_eq_some_iff] at h
          obtain ⟨first, hfirst, rest, hrest, heq⟩ := h
          cases heq
          intro entry hentry
          rcases List.mem_append.mp hentry with hmem | hmem
          · exact forall_mem_bindings hP p hfirst (hvalues v List.mem_cons_self) entry hmem
          · refine forall_mem_bindingsAll hP ps hrest (fun value hvalue => ?_) entry hmem
            exact hvalues value (List.mem_cons_of_mem v hvalue)

end

end Pattern

/-! ### The first match -/

/-- The rule is the first one that matches the value, and leaves the environment. -/
def FirstMatch (env : Env) (value : Value) (rules : List Rule) (rule : Rule) (matched : Env) :
    Prop :=
  ∃ before after, rules = before ++ rule :: after
    ∧ (∀ earlier ∈ before, earlier.pattern.match? env value = none)
    ∧ rule.pattern.match? env value = some matched

theorem FirstMatch.mem {env : Env} {value : Value} {rules : List Rule} {rule : Rule} {matched : Env}
    (h : FirstMatch env value rules rule matched) : rule ∈ rules := by
  obtain ⟨before, after, rfl, -, -⟩ := h
  simp

theorem FirstMatch.match?_eq {env : Env} {value : Value} {rules : List Rule} {rule : Rule}
    {matched : Env} (h : FirstMatch env value rules rule matched) :
    rule.pattern.match? env value = some matched := by
  obtain ⟨before, after, -, -, hmatch⟩ := h
  exact hmatch

theorem selectRule_eq_ok {env : Env} {value : Value} {rules : List Rule} {rule : Rule}
    {matched : Env} (h : selectRule env value rules = .ok (rule, matched)) :
    FirstMatch env value rules rule matched := by
  induction rules with
  | nil => cases h
  | cons first rest ih =>
      rw [selectRule] at h
      cases hfirst : first.pattern.match? env value with
      | some extended =>
          rw [hfirst] at h
          cases h
          exact ⟨[], rest, rfl, by simp, hfirst⟩
      | none =>
          rw [hfirst] at h
          obtain ⟨before, after, rfl, hbefore, hmatch⟩ := ih h
          refine ⟨first :: before, after, rfl, ?_, hmatch⟩
          intro earlier hmem
          rcases List.mem_cons.mp hmem with rfl | hmem
          · exact hfirst
          · exact hbefore earlier hmem

theorem FirstMatch.selectRule_eq {env : Env} {value : Value} {rules : List Rule} {rule : Rule}
    {matched : Env} (h : FirstMatch env value rules rule matched) :
    selectRule env value rules = .ok (rule, matched) := by
  obtain ⟨before, after, rfl, hbefore, hmatch⟩ := h
  induction before with
  | nil => rw [List.nil_append, selectRule, hmatch]
  | cons first before ih =>
      rw [List.cons_append, selectRule, hbefore first List.mem_cons_self]
      exact ih fun earlier hmem => hbefore earlier (List.mem_cons_of_mem first hmem)

theorem selectRule_eq_error_iff {env : Env} {value : Value} {rules : List Rule} {e : EvalError} :
    selectRule env value rules = .error e
      ↔ e = .noRuleMatches value.kind
        ∧ ∀ rule ∈ rules, rule.pattern.match? env value = none := by
  induction rules with
  | nil => simp [selectRule, eq_comm]
  | cons first rest ih =>
      rw [selectRule]
      cases hfirst : first.pattern.match? env value with
      | some extended => simp [hfirst]
      | none => simp [hfirst, ih]

end MiniMl
