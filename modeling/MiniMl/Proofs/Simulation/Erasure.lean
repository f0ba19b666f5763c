import MiniMl.Proofs.Simulation.CodeMap
/-!
# Erasing annotations

`erase` takes every annotation out of patterns, expressions, values, environments and errors.
Matching does not notice, nor do the checks of a recursive let, so it is a lawful rewriting of code:
the erased expression in the erased environment ends in what the original ends in, erased.

There are two provisos. An annotation costs a level of depth, so the original may be cut short where
the erased expression is not. And the operator form is recognised by its syntax: in
`((+) : t) 1 2` the annotation makes a common application of it, and erasing it would bring the
operator back. Code where this does not happen anywhere has `KeepsForm` everywhere.
-/

namespace MiniMl

/-! ### Erasure -/

namespace Pattern

mutual

def erase : Pattern → Pattern
  | .wild => .wild
  | .const c => .const c
  | .ident name => .ident name
  | .typed inner _ => inner.erase
  | .optNone => .optNone
  | .optSome inner => .optSome inner.erase
  | .or left right => .or left.erase right.erase
  | .list items => .list (eraseAll items)
  | .tuple items => .tuple (eraseAll items)
  | .host obj => .host obj

def eraseAll : List Pattern → List Pattern
  | [] => []
  | p :: ps => p.erase :: eraseAll ps

end

end Pattern

namespace Expr

mutual

/-- The expression without annotations, those in its patterns included. -/
def erase : Expr → Expr
  | .const c => .const c
  | .ident name => .ident name
  | .typed inner _ => inner.erase
  | .list items => .list (eraseAll items)
  | .tuple items => .tuple (eraseAll items)
  | .lambda param body => .lambda param.erase body.erase
  | .ifThen cond yes => .ifThen cond.erase yes.erase
  | .ifThenElse cond yes no => .ifThenElse cond.erase yes.erase no.erase
  | .optNone => .optNone
  | .optSome inner => .optSome inner.erase
  | .matchWith scrutinee rules => .matchWith scrutinee.erase (eraseClauses rules)
  | .function rules => .function (eraseClauses rules)
  | .apply func arg => .apply func.erase arg.erase
  | .letIn recursive bindings body => .letIn recursive (eraseClauses bindings) body.erase
  | .host obj => .host obj

def eraseAll : List Expr → List Expr
  | [] => []
  | e :: es => e.erase :: eraseAll es

def eraseClauses : List (Clause Expr) → List (Clause Expr)
  | [] => []
  | ⟨pattern, body⟩ :: rest => ⟨pattern.erase, body.erase⟩ :: eraseClauses rest

end

/-- Erasing makes no operator with its left operand of a function part that is none as it stands. -/
def KeepsForm : Expr → Prop
  | .apply func _ => ∀ symbol left, Operator.isSymbol symbol = true →
      func.erase = .apply (.ident symbol) left → ∃ left', func = .apply (.ident symbol) left'
  | _ => True

end Expr

/-- Erasure as a rewriting of code. -/
def erasing : CodeMap where
  pattern := Pattern.erase
  expr := Expr.erase

/-- The value without annotations in the code it carries. -/
def Value.erase : Value → Value :=
  erasing.value

/-- The environment without annotations in its values and definitions. -/
def Env.erase : Env → Env :=
  erasing.env

/-- The error without annotations in the code it quotes. -/
def EvalError.erase : EvalError → EvalError :=
  erasing.evalError

def Malformed.erase : Malformed → Malformed :=
  erasing.malformed

theorem Expr.eraseAll_eq_map (es : List Expr) : Expr.eraseAll es = es.map Expr.erase := by
  induction es with
  | nil => rfl
  | cons e rest ih => rw [Expr.eraseAll, ih, List.map_cons]

theorem Expr.eraseClauses_eq_map (clauses : List (Clause Expr)) :
    Expr.eraseClauses clauses = clauses.map erasing.clause := by
  induction clauses with
  | nil => rfl
  | cons clause rest ih =>
      rw [Expr.eraseClauses, ih, List.map_cons]
      rfl

/-- Erasing an expression that is no annotation itself is erasing its children. -/
theorem Expr.erase_eq_under {e : Expr} (htyped : ∀ inner ty, e ≠ .typed inner ty) :
    e.erase = erasing.under e := by
  cases e with
  | typed inner ty => exact absurd rfl (htyped inner ty)
  | list items => exact congrArg Expr.list (Expr.eraseAll_eq_map items)
  | tuple items => exact congrArg Expr.tuple (Expr.eraseAll_eq_map items)
  | function rules => exact congrArg Expr.function (Expr.eraseClauses_eq_map rules)
  | matchWith scrutinee rules =>
      exact congrArg (Expr.matchWith scrutinee.erase) (Expr.eraseClauses_eq_map rules)
  | letIn recursive bindings body =>
      rw [Expr.erase, Expr.eraseClauses_eq_map]
      rfl
  | _ => rfl

/-! ### Matching -/

namespace Pattern

mutual

/-- Annotations have no say in what a pattern matches and binds. -/
theorem bindings?_erase (p : Pattern) (value : Value) :
    p.erase.bindings? value = p.bindings? value := by
  cases p with
  | typed inner ty => exact bindings?_erase inner value
  | optSome inner =>
      cases value with
      | optSome content => exact bindings?_erase inner content
      | _ => rfl
  | or left right =>
      rw [erase, bindings?, bindings?, bindings?_erase left value, bindings?_erase right value]
  | list patterns =>
      cases value with
      | list values => exact bindingsAll?_erase patterns values
      | _ => rfl
  | tuple patterns =>
      cases value with
      | tuple values => exact bindingsAll?_erase patterns values
      | _ => rfl
  | _ => rfl

private theorem bindingsAll?_erase (ps : List Pattern) (values : List Value) :
    bindingsAll? (eraseAll ps) values = bindingsAll? ps values := by
  cases ps with
  | nil => rfl
  | cons p ps =>
      cases values with
      | nil => rfl
      | cons v vs =>
          rw [eraseAll, bindingsAll?, bindingsAll?, bindings?_erase p v, bindingsAll?_erase ps vs]

end

mutual

theorem boundNames_erase (p : Pattern) : p.erase.boundNames = p.boundNames := by
  cases p with
  | typed inner ty => exact boundNames_erase inner
  | optSome inner => exact boundNames_erase inner
  | or left right => exact boundNames_erase left
  | list patterns => exact boundNamesAll_erase patterns
  | tuple patterns => exact boundNamesAll_erase patterns
  | _ => rfl

private theorem boundNamesAll_erase (ps : List Pattern) :
    boundNamesAll (eraseAll ps) = boundNamesAll ps := by
  cases ps with
  | nil => rfl
  | cons p ps =>
      rw [eraseAll, boundNamesAll, boundNamesAll, boundNames_erase p, boundNamesAll_erase ps]

end

theorem recursiveName_erase (p : Pattern) :
    p.erase.recursiveName = p.recursiveName.mapError erasing.evalError := by
  cases p with
  | typed inner ty => exact recursiveName_erase inner
  | _ => rfl

end Pattern

/-! ### Literals and operators -/

namespace Expr

theorem stripped_erase (e : Expr) : e.erase.stripped = e.stripped.erase := by
  cases e with
  | typed inner ty => exact stripped_erase inner
  | _ => rfl

theorem isFunctionLiteral_erase (e : Expr) : e.erase.isFunctionLiteral = e.isFunctionLiteral := by
  cases e with
  | typed inner ty => exact isFunctionLiteral_erase inner
  | _ => rfl

/-- An operator form that was none before is what `KeepsForm` excludes. -/
theorem appliedOperator?_erase {func arg : Expr} (h : (Expr.apply func arg).KeepsForm) :
    func.erase.appliedOperator?
      = func.appliedOperator?.map fun operation => (operation.1, operation.2.erase) := by
  cases hoperator : func.appliedOperator? with
  | some operation =>
      obtain ⟨rfl, hsymbol⟩ := eq_of_appliedOperator? hoperator
      exact appliedOperator?_operator hsymbol operation.2.erase
  | none =>
      rw [Option.map_none]
      rw [appliedOperator?_eq_none_iff] at hoperator ⊢
      intro symbol left herased
      by_contra hsymbol
      rw [Bool.not_eq_false] at hsymbol
      obtain ⟨left', rfl⟩ := h symbol left hsymbol herased
      rw [hoperator symbol left' rfl] at hsymbol
      cases hsymbol

end Expr

/-! ### The comparison -/

/-- The code keeps its form under erasure, as far as the expression and the environment reach. -/
def formKept : Discipline :=
  everywhere Expr.KeepsForm

theorem formKept_lawful (settings : Settings) : formKept.Lawful settings fun _ => True :=
  everywhere_lawful settings fun _ _ _ => trivial

/-- The second code and the second values are the first ones, erased. The first evaluation may be
too deep where the second is not. -/
def erasure : Simulation :=
  erasing.simulation formKept (fun failure failure' => failure' = erasing.failure failure)
    fun failure => ∃ limit, failure = .tooDeep limit

theorem erasing_lawful (settings : Settings) : erasing.Lawful formKept settings where
  discipline := formKept_lawful settings
  tupleSize _ := trivial
  bindings? := Pattern.bindings?_erase
  boundNames := Pattern.boundNames_erase
  recursiveName := Pattern.recursiveName_erase
  lambda _ _ := rfl
  function rules := congrArg Expr.function (Expr.eraseClauses_eq_map rules)
  stripped := Expr.stripped_erase
  isFunctionLiteral := Expr.isFunctionLiteral_erase
  operator h := Expr.appliedOperator?_erase h.self

theorem erasure_lawful (settings : Settings) : erasure.Lawful :=
  CodeMap.simulation_lawful (erasing_lawful settings) fun _ => rfl

theorem erasure_code {env : Env} (henv : env.Obeys formKept) {e : Expr}
    (he : e.Everywhere Expr.KeepsForm) : erasure.code env e env.erase e.erase :=
  ⟨⟨henv, he⟩, rfl, rfl⟩

/-- Code has the same form as its erasure, unless it is an annotation itself. -/
theorem erasure_sameForm {settings : Settings} {env : Env} (henv : env.Obeys formKept) {e : Expr}
    (h : e.Everywhere Expr.KeepsForm) (htyped : ∀ inner ty, e ≠ .typed inner ty) :
    erasure.SameForm settings env env.erase e e.erase := by
  rw [Expr.erase_eq_under htyped]
  refine CodeMap.sameForm (erasing_lawful settings) ?_ henv h
  exact fun _ => rfl

theorem eval_relates_erase {settings : Settings} {budget budget' : Nat} (hle : budget ≤ budget')
    {env env' : Env} {e e' : Expr} (h : erasure.code env e env' e') :
    erasure.Relates erasure.value (eval settings budget e env) (eval settings budget' e' env') := by
  induction budget generalizing budget' env env' e e' with
  | zero => exact Run.Ends.of_error rfl (.inl ⟨_, rfl⟩)
  | succ budget ih =>
      obtain ⟨⟨henv, he⟩, rfl, rfl⟩ := h
      -- An annotation is a level on the first side only, so the second keeps its budget there.
      by_cases htyped : ∃ inner ty, e = .typed inner ty
      · obtain ⟨inner, ty, rfl⟩ := htyped
        exact ih (by omega) (erasure_code henv (he.child List.mem_cons_self))
      · obtain ⟨fewer, rfl⟩ : ∃ fewer, budget' = fewer + 1 := ⟨budget' - 1, by omega⟩
        have hform : erasure.SameForm settings env env.erase e e.erase :=
          erasure_sameForm henv he fun inner ty heq => htyped ⟨inner, ty, heq⟩
        rw [eval_succ, eval_succ]
        exact Simulation.evalWith_relates (erasure_lawful settings) (ih (by omega)) hform

/-- An evaluation that is not too deep ends alike without annotations: in the erased value, or in
the erased error, which has the same kind. The third case is that of malformed data, which no
constructor lets pass. -/
theorem evaluate_erase (settings : Settings) {env : Env} {e : Expr}
    (henv : env.Obeys (everywhere Expr.KeepsForm)) (he : e.Everywhere Expr.KeepsForm)
    (hdepth : ¬ (evaluate settings e env).TooDeep) :
    (∃ value, (evaluate settings e env).outcome = .ok value
        ∧ (evaluate settings e.erase env.erase).outcome = .ok value.erase)
      ∨ (∃ err : EvalError, (evaluate settings e env).outcome = .error (.error err)
        ∧ (evaluate settings e.erase env.erase).outcome = .error (.error err.erase)
        ∧ err.erase.kind = err.kind)
      ∨ ∃ m : Malformed, (evaluate settings e env).outcome = .error (.malformed m)
        ∧ (evaluate settings e.erase env.erase).outcome = .error (.malformed m.erase) := by
  have hrelates : erasure.Relates erasure.value (evaluate settings e env)
      (evaluate settings e.erase env.erase) :=
    eval_relates_erase (Nat.le_refl settings.budget) (erasure_code henv he)
  cases houtcome : (evaluate settings e env).outcome with
  | ok value =>
      obtain ⟨_, hok, -, rfl⟩ := hrelates.ok houtcome
      exact .inl ⟨value, rfl, hok⟩
  | error failure =>
      rcases hrelates.error houtcome with ⟨limit, rfl⟩ | ⟨_, herror, rfl⟩
      · exact absurd ⟨limit, houtcome⟩ hdepth
      · cases failure with
        | error err => exact .inr (.inl ⟨err, rfl, herror, erasing.kind_evalError err⟩)
        | malformed m => exact .inr (.inr ⟨m, rfl, herror⟩)
        | tooDeep limit => exact absurd ⟨limit, houtcome⟩ hdepth

/-- A definition that is annotated as a whole, in its parameter and at an operand, called under an
annotation. -/
theorem evaluate_erase_successor :
    let int : Ty := .named "int" []
    let sum : Expr := .apply (.apply (.ident "+") (.typed (.ident "n") int)) (.const (.int 1))
    let successor : Expr := .typed (.lambda (.typed (.ident "n") int) sum) (.arrow int int)
    let env : Env := .recursive .empty [("successor", successor)]
    let e : Expr := .apply (.typed (.ident "successor") (.arrow int int)) (.const (.int 2))
    env.Obeys (everywhere Expr.KeepsForm) ∧ e.Everywhere Expr.KeepsForm
      ∧ ¬ (evaluate {} e env).TooDeep ∧ (evaluate {} e env).outcome = .ok (.int 3)
      ∧ (evaluate {} e.erase env.erase).outcome = .ok (.int 3) := by
  intro int sum successor env e
  have hleaf : ∀ leaf : Expr, leaf.children = [] → leaf.KeepsForm →
      leaf.Everywhere Expr.KeepsForm :=
    fun leaf hchildren hself => .intro hself (by simp [hchildren])
  have htyped : ∀ inner ty, inner.Everywhere Expr.KeepsForm →
      (Expr.typed inner ty).Everywhere Expr.KeepsForm :=
    fun inner ty hinner => .intro trivial (by simpa [Expr.children] using hinner)
  have hident : ∀ name, (Expr.ident name).Everywhere Expr.KeepsForm :=
    fun name => hleaf _ rfl trivial
  have hint : ∀ n, (Expr.const (.int n)).Everywhere Expr.KeepsForm :=
    fun n => hleaf _ rfl trivial
  have hplus : (Expr.apply (.ident "+") (.typed (.ident "n") int)).Everywhere Expr.KeepsForm := by
    refine .intro (by simp [Expr.KeepsForm, Expr.erase]) ?_
    simpa [Expr.children] using ⟨hident "+", htyped _ int (hident "n")⟩
  have hsum : sum.Everywhere Expr.KeepsForm := by
    refine .intro ?_ (by simpa [sum, Expr.children] using ⟨hplus, hint 1⟩)
    simp [sum, Expr.KeepsForm, Expr.erase]
  have hsuccessor : successor.Everywhere Expr.KeepsForm :=
    htyped _ _ (.intro trivial (by simpa [Expr.children] using hsum))
  have henv : env.Obeys (everywhere Expr.KeepsForm) := by
    refine ⟨trivial, fun entry hentry => ⟨trivial, ?_⟩⟩
    rw [List.mem_singleton.mp hentry]
    exact hsuccessor
  have he : e.Everywhere Expr.KeepsForm := by
    refine .intro (by simp [e, Expr.KeepsForm, Expr.erase]) ?_
    simpa [e, Expr.children] using ⟨htyped _ _ (hident "successor"), hint 2⟩
  have hvalue : (evaluate {} e env).outcome = .ok (.int 3) := rfl
  have hdepth : ¬ (evaluate {} e env).TooDeep := by
    rintro ⟨limit, hlimit⟩
    rw [hvalue] at hlimit
    cases hlimit
  refine ⟨henv, he, hdepth, hvalue, ?_⟩
  rcases evaluate_erase {} henv he hdepth with
    ⟨value, hok, herased⟩ | ⟨err, herror, -⟩ | ⟨m, herror, -⟩
  · rw [hvalue] at hok
    cases hok
    exact herased
  · rw [hvalue] at herror
    cases herror
  · rw [hvalue] at herror
    cases herror

-- Where erasing does make an operator form, it changes the outcome.
example :
    let plus : Expr := .typed (.ident "+") (.named "t" [])
    let e : Expr := .apply (.apply plus (.const (.int 1))) (.const (.int 2))
    (evaluate {} e .empty).outcome = .error (.error (.unbound "+"))
      ∧ (evaluate {} e.erase .empty).outcome = .ok (.int 3) := ⟨rfl, rfl⟩

end MiniMl
