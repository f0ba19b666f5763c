import Mathlib.Data.List.Forall2
import MiniMl.Eval.Basic
import MiniMl.Proofs.Lookup
import MiniMl.Proofs.Run
/-!
# The pieces of one level of evaluation

One specification for each piece from which a level is put together: tracing, the operator form,
several expressions in a row, and the steps of a let. Proofs about the evaluator use these and do
not open the pieces again.

A recursive let that passes its checks has one definition for each name, all of them function
literals, so its frame is never refused.
-/

namespace MiniMl

theorem outcome_traceEvent (settings : Settings) (event : Event) :
    (settings.traceEvent event : Run Unit).outcome = .ok () := by
  rw [Settings.traceEvent]
  split <;> rfl

/-- A dispatch ends as the body of the first rule that matches. -/
theorem outcome_dispatchWith {settings : Settings} {evaluation : Evaluation} {env matched : Env}
    {value : Value} {rules : List Rule} {rule : Rule}
    (hfirst : FirstMatch env value rules rule matched) :
    (dispatchWith settings evaluation env value rules).outcome
      = (evaluation rule.body matched).outcome := by
  rw [dispatchWith, hfirst.selectRule_eq]
  refine (Run.outcome_bind_ok rfl _).trans ?_
  exact Run.outcome_bind_ok (outcome_traceEvent settings _) _

/-- The first place with a property, where all places before it have another one, is the first place
of the list or lies behind it. -/
private theorem exists_first_cons_iff {α : Type} {P Q : α → Prop} {first : α} {rest : List α} :
    (∃ before a after, first :: rest = before ++ a :: after ∧ (∀ earlier ∈ before, Q earlier) ∧ P a)
      ↔ P first ∨ Q first ∧ ∃ before a after, rest = before ++ a :: after
        ∧ (∀ earlier ∈ before, Q earlier) ∧ P a := by
  constructor
  · rintro ⟨before, a, after, hlist, hbefore, ha⟩
    cases before with
    | nil =>
        cases hlist
        exact .inl ha
    | cons other before =>
        cases hlist
        rw [List.forall_mem_cons] at hbefore
        exact .inr ⟨hbefore.1, before, a, after, rfl, hbefore.2, ha⟩
  · rintro (hfirst | ⟨hfirst, before, a, after, rfl, hbefore, ha⟩)
    · exact ⟨[], first, rest, rfl, by simp, hfirst⟩
    · exact ⟨first :: before, a, after, rfl, List.forall_mem_cons.mpr ⟨hfirst, hbefore⟩, ha⟩

theorem evalAll_eq_ok_iff {evaluation : Evaluation} {env : Env} {es : List Expr}
    {values : List Value} :
    (evalAll evaluation env es).outcome = .ok values
      ↔ List.Forall₂ (fun e value => (evaluation e env).outcome = .ok value) es values := by
  induction es generalizing values with
  | nil =>
      constructor
      · intro h
        cases h
        exact .nil
      · intro h
        cases h
        rfl
  | cons e rest ih =>
      simp only [evalAll, Run.outcome_bind_eq_ok_iff, ih]
      constructor
      · rintro ⟨value, hvalue, others, hothers, heq⟩
        cases heq
        exact .cons hvalue hothers
      · intro h
        cases h with
        | cons hvalue hothers => exact ⟨_, hvalue, _, hothers, rfl⟩

/-- Several expressions fail as the first of them that fails. -/
theorem evalAll_eq_error_iff {evaluation : Evaluation} {env : Env} {es : List Expr}
    {failure : Failure} :
    (evalAll evaluation env es).outcome = .error failure
      ↔ ∃ before e after, es = before ++ e :: after
        ∧ (∀ earlier ∈ before, ∃ value, (evaluation earlier env).outcome = .ok value)
        ∧ (evaluation e env).outcome = .error failure := by
  induction es with
  | nil => simp [evalAll, Run.pure_def]
  | cons first rest ih =>
      rw [exists_first_cons_iff, ← ih]
      simp [evalAll, Run.outcome_bind_eq_error_iff, Run.pure_def]

theorem length_of_evalAll {evaluation : Evaluation} {env : Env} {es : List Expr}
    {values : List Value} (h : (evalAll evaluation env es).outcome = .ok values) :
    values.length = es.length :=
  (evalAll_eq_ok_iff.mp h).length_eq.symm

/-! ### Operators -/

namespace Expr

theorem appliedOperator?_operator {symbol : String} (h : Operator.isSymbol symbol = true)
    (left : Expr) : (Expr.apply (.ident symbol) left).appliedOperator? = some (symbol, left) := by
  rw [appliedOperator?, if_pos h]

theorem eq_of_appliedOperator? {func left : Expr} {symbol : String}
    (h : func.appliedOperator? = some (symbol, left)) :
    func = .apply (.ident symbol) left ∧ Operator.isSymbol symbol = true := by
  unfold appliedOperator? at h
  split at h
  · split at h
    · rename_i hsymbol
      cases h
      exact ⟨rfl, hsymbol⟩
    · cases h
  · cases h

theorem appliedOperator?_eq_none_iff {func : Expr} :
    func.appliedOperator? = none
      ↔ ∀ symbol left, func = .apply (.ident symbol) left → Operator.isSymbol symbol = false := by
  constructor
  · intro h symbol left hfunc
    subst hfunc
    cases hsymbol : Operator.isSymbol symbol with
    | false => rfl
    | true =>
        rw [appliedOperator?_operator hsymbol] at h
        cases h
  · intro h
    rw [Option.eq_none_iff_forall_ne_some]
    intro operation hsome
    obtain ⟨hfunc, hsymbol⟩ := eq_of_appliedOperator? hsome
    rw [h operation.1 operation.2 hfunc] at hsymbol
    cases hsymbol

end Expr

private theorem Arithmetic.onInts_eq_error {op : Arithmetic} {x y : Int} {e : EvalError}
    (h : op.onInts x y = .error e) : e = .intDivisionByZero := by
  cases op with
  | div =>
      rw [Arithmetic.onInts] at h
      split at h
      · cases h
        rfl
      · cases h
  | _ => cases h

private theorem Arithmetic.onFloats_eq_error {op : Arithmetic} {x y : Float} {e : EvalError}
    (h : op.onFloats x y = .error e) : e = .floatDivisionByZero := by
  cases op with
  | div =>
      rw [Arithmetic.onFloats] at h
      split at h
      · cases h
        rfl
      · cases h
  | _ => cases h

/-- What an operator can give. Only a list is built from the operands, all other values are new. -/
theorem applyOperator_cases (symbol : String) (left right : Value) :
    (∃ n, applyOperator symbol left right = .ok (.int n))
      ∨ (∃ x, applyOperator symbol left right = .ok (.float x))
      ∨ (∃ b, applyOperator symbol left right = .ok (.bool b))
      ∨ (∃ items, right = .list items
        ∧ applyOperator symbol left right = .ok (.list (left :: items)))
      ∨ ∃ e, applyOperator symbol left right = .error e
        ∧ (e.kind = .divisionByZero ∨ e.kind = .unsupportedOperation) := by
  rw [applyOperator]
  cases Operator.ofSymbol? symbol with
  | none => exact .inr (.inr (.inr (.inr ⟨_, rfl, .inr rfl⟩)))
  | some op =>
      rw [Option.bind_some]
      fun_cases Operator.compute? op left right with
      | case1 op x y =>
          cases hresult : op.onInts x y with
          | ok n => exact .inl ⟨n, rfl⟩
          | error e =>
              rw [Arithmetic.onInts_eq_error hresult]
              exact .inr (.inr (.inr (.inr ⟨_, rfl, .inl rfl⟩)))
      | case2 op x y =>
          cases hresult : op.onFloats x y with
          | ok z => exact .inr (.inl ⟨z, rfl⟩)
          | error e =>
              rw [Arithmetic.onFloats_eq_error hresult]
              exact .inr (.inr (.inr (.inr ⟨_, rfl, .inl rfl⟩)))
      | case3 op x y => exact .inr (.inr (.inl ⟨_, rfl⟩))
      | case4 op x y => exact .inr (.inr (.inl ⟨_, rfl⟩))
      | case5 op a b => exact .inr (.inr (.inl ⟨_, rfl⟩))
      | case6 => exact .inr (.inr (.inr (.inl ⟨_, rfl, rfl⟩)))
      | case7 => exact .inr (.inr (.inr (.inr ⟨_, rfl, .inr rfl⟩)))

/-! ### Integers in messages -/

/-- Where an operator fails, the operands are named by their kinds. -/
theorem EvalError.integers_eq_nil {e : EvalError}
    (h : e.kind = .divisionByZero ∨ e.kind = .unsupportedOperation) : e.integers = [] := by
  cases e <;> first | rfl | simp [kind] at h

theorem Expr.mem_clauseIntegers {clause : Clause Expr} {clauses : List (Clause Expr)}
    (hmem : clause ∈ clauses) {n : Int}
    (hn : n ∈ clause.pattern.integers ∨ n ∈ clause.body.integers) :
    n ∈ clauseIntegers clauses := by
  induction clauses with
  | nil => cases hmem
  | cons first rest ih =>
      rw [clauseIntegers]
      rcases List.mem_cons.mp hmem with rfl | hmem
      · exact List.mem_append_left _ (List.mem_append.mpr hn)
      · exact List.mem_append_right _ (ih hmem)

/-! ### Names of a let -/

/-- The names that a let binds, with repetitions. -/
def letNames (bindings : List Binding) : List String :=
  Pattern.boundNamesAll (bindings.map Clause.pattern)

theorem letNames_cons (binding : Binding) (rest : List Binding) :
    letNames (binding :: rest) = binding.pattern.boundNames ++ letNames rest := rfl

theorem firstRepeated_eq_none_iff {seen names : List String} :
    firstRepeated seen names = none ↔ names.Nodup ∧ ∀ name ∈ names, name ∉ seen := by
  induction names generalizing seen with
  | nil => simp [firstRepeated]
  | cons name rest ih =>
      rw [firstRepeated, List.nodup_cons]
      by_cases hseen : name ∈ seen
      · simp [hseen]
      · rw [if_neg hseen, ih]
        constructor
        · rintro ⟨hnodup, hfresh⟩
          have hname : name ∉ rest := fun hmem => hfresh name hmem List.mem_cons_self
          refine ⟨⟨hname, hnodup⟩, ?_⟩
          intro other hother
          rcases List.mem_cons.mp hother with rfl | hother
          · exact hseen
          · exact fun hmem => hfresh other hother (List.mem_cons_of_mem name hmem)
        · rintro ⟨⟨hname, hnodup⟩, hfresh⟩
          refine ⟨hnodup, fun other hother hmem => ?_⟩
          rcases List.mem_cons.mp hmem with rfl | hmem
          · exact hname hother
          · exact hfresh other (List.mem_cons_of_mem name hother) hmem

/-- The name that is reported is the first one that was there before. -/
theorem firstRepeated_eq_some_iff {seen names : List String} {name : String} :
    firstRepeated seen names = some name
      ↔ ∃ before after, names = before ++ name :: after ∧ firstRepeated seen before = none
        ∧ (name ∈ before ∨ name ∈ seen) := by
  induction names generalizing seen with
  | nil => simp [firstRepeated]
  | cons first rest ih =>
      rw [firstRepeated]
      by_cases hseen : first ∈ seen
      · rw [if_pos hseen]
        constructor
        · intro h
          cases h
          exact ⟨[], rest, rfl, rfl, .inr hseen⟩
        · rintro ⟨before, after, hnames, hbefore, -⟩
          cases before with
          | nil =>
              cases hnames
              rfl
          | cons other before =>
              cases hnames
              rw [firstRepeated, if_pos hseen] at hbefore
              cases hbefore
      · rw [if_neg hseen, ih]
        constructor
        · rintro ⟨before, after, rfl, hbefore, hmem⟩
          refine ⟨first :: before, after, rfl, ?_, ?_⟩
          · rw [firstRepeated, if_neg hseen]
            exact hbefore
          · simp only [List.mem_cons] at hmem ⊢
            exact hmem.elim (fun h => .inl (.inr h)) fun h =>
              h.elim (fun h => .inl (.inl h)) .inr
        · rintro ⟨before, after, hnames, hbefore, hmem⟩
          cases before with
          | nil =>
              cases hnames
              simp [hseen] at hmem
          | cons other before =>
              cases hnames
              rw [firstRepeated, if_neg hseen] at hbefore
              refine ⟨before, after, rfl, hbefore, ?_⟩
              simp only [List.mem_cons] at hmem ⊢
              exact hmem.elim (fun h => h.elim (fun h => .inr (.inl h)) .inl) fun h =>
                .inr (.inr h)

/-! ### Definitions of a recursive let -/

theorem Pattern.boundNames_of_recursiveName {p : Pattern} {name : String}
    (h : p.recursiveName = .ok name) : p.boundNames = [name] := by
  fun_induction Pattern.recursiveName p with
  | case1 own =>
      cases h
      rfl
  | case2 inner ty ih => exact ih h
  | case3 p => cases h

theorem Clause.definition_eq_ok_iff {binding : Binding} {name : String} {e : Expr} :
    binding.definition = .ok (name, e)
      ↔ binding.pattern.recursiveName = .ok name ∧ binding.body.isFunctionLiteral = true
        ∧ e = binding.body := by
  rw [Clause.definition]
  cases binding.pattern.recursiveName with
  | error err => simp [bind, Except.bind]
  | ok own =>
      cases hliteral : binding.body.isFunctionLiteral with
      | true => simp [bind, Except.bind, eq_comm]
      | false => simp [bind, Except.bind]

theorem definitionsOf_eq_ok_iff {bindings : List Binding} {definitions : List (String × Expr)} :
    definitionsOf bindings = .ok definitions
      ↔ bindings.map Clause.definition = definitions.map .ok := by
  induction bindings generalizing definitions with
  | nil => simp [definitionsOf, eq_comm]
  | cons binding rest ih =>
      rw [definitionsOf, List.map_cons]
      cases definitions with
      | nil =>
          cases binding.definition <;> cases definitionsOf rest <;> simp [bind, Except.bind]
      | cons definition others =>
          rw [List.map_cons, List.cons.injEq, ← ih]
          cases binding.definition <;> cases definitionsOf rest <;> simp [bind, Except.bind]

/-- The binding that is reported is the first one that is no definition. -/
theorem definitionsOf_eq_error_iff {bindings : List Binding} {e : EvalError} :
    definitionsOf bindings = .error e
      ↔ ∃ before binding after, bindings = before ++ binding :: after
        ∧ (∀ earlier ∈ before, ∃ definition, earlier.definition = .ok definition)
        ∧ binding.definition = .error e := by
  induction bindings with
  | nil => simp [definitionsOf]
  | cons first rest ih =>
      rw [exists_first_cons_iff, ← ih, definitionsOf]
      cases first.definition <;> cases definitionsOf rest <;> simp [bind, Except.bind]

theorem Pattern.recursiveName_eq_error {p : Pattern} {e : EvalError}
    (h : p.recursiveName = .error e) :
    ∃ inner, e = .recursivePattern inner ∧ inner.integers = p.integers := by
  fun_induction Pattern.recursiveName p with
  | case1 name => cases h
  | case2 inner ty ih => exact ih h
  | case3 p =>
      cases h
      exact ⟨p, rfl, rfl⟩

/-- A binding that is no definition is shown by its pattern, without the annotations, or by its
body. -/
theorem Clause.definition_eq_error {binding : Binding} {e : EvalError}
    (h : binding.definition = .error e) :
    (∃ p, e = .recursivePattern p ∧ p.integers = binding.pattern.integers)
      ∨ e = .recursiveNotFunction binding.body := by
  rw [Clause.definition] at h
  cases hname : binding.pattern.recursiveName with
  | error err =>
      rw [hname] at h
      cases h
      exact .inl (Pattern.recursiveName_eq_error hname)
  | ok name =>
      rw [hname] at h
      simp only [bind, Except.bind] at h
      split at h
      · cases h
      · cases h
        exact .inr rfl

theorem Clause.kind_of_definition_eq_error {binding : Binding} {e : EvalError}
    (h : binding.definition = .error e) : e.kind = .notImplemented := by
  rcases Clause.definition_eq_error h with ⟨p, rfl, -⟩ | rfl <;> rfl

theorem Clause.mem_integers_of_definition_eq_error {binding : Binding} {e : EvalError}
    (h : binding.definition = .error e) {n : Int} (hn : n ∈ e.integers) :
    n ∈ binding.pattern.integers ∨ n ∈ binding.body.integers := by
  rcases Clause.definition_eq_error h with ⟨p, rfl, hp⟩ | rfl
  · exact .inl (hp ▸ hn)
  · exact .inr hn

/-- A recursive let defines the names of its patterns, in order. -/
theorem map_fst_definitionsOf {bindings : List Binding} {definitions : List (String × Expr)}
    (h : definitionsOf bindings = .ok definitions) :
    definitions.map Prod.fst = letNames bindings := by
  rw [definitionsOf_eq_ok_iff] at h
  induction bindings generalizing definitions with
  | nil =>
      obtain rfl := List.map_eq_nil_iff.mp h.symm
      rfl
  | cons binding rest ih =>
      cases definitions with
      | nil => cases h
      | cons definition others =>
          rw [List.map_cons, List.map_cons, List.cons.injEq] at h
          obtain ⟨hname, -, -⟩ := Clause.definition_eq_ok_iff.mp h.1
          rw [List.map_cons, ih h.2, letNames_cons, Pattern.boundNames_of_recursiveName hname]
          rfl

theorem exists_binding_of_mem_definitionsOf {bindings : List Binding}
    {definitions : List (String × Expr)} (h : definitionsOf bindings = .ok definitions)
    {entry : String × Expr} (hentry : entry ∈ definitions) :
    ∃ binding ∈ bindings, binding.pattern.recursiveName = .ok entry.1
      ∧ entry.2 = binding.body ∧ entry.2.isFunctionLiteral = true := by
  have hmem : Except.ok entry ∈ bindings.map Clause.definition := by
    rw [definitionsOf_eq_ok_iff.mp h]
    exact List.mem_map_of_mem hentry
  obtain ⟨binding, hbinding, hdefinition⟩ := List.mem_map.mp hmem
  obtain ⟨hname, hliteral, hbody⟩ := Clause.definition_eq_ok_iff.mp hdefinition
  exact ⟨binding, hbinding, hname, hbody, by rw [hbody]; exact hliteral⟩

namespace Assoc

variable {κ β : Type} [BEq κ] [LawfulBEq κ]

private theorem put_of_not_mem {key : κ} (value : β) {table : List (κ × β)}
    (h : key ∉ table.map Prod.fst) : put key value table = table ++ [(key, value)] := by
  induction table with
  | nil => rfl
  | cons entry rest ih =>
      obtain ⟨k, v⟩ := entry
      rw [List.map_cons, List.mem_cons, not_or] at h
      have hne : ¬ (k == key) = true := fun heq => h.1 (eq_of_beq heq).symm
      rw [put, if_neg hne, ih h.2]
      rfl

private theorem foldl_put_of_nodup (entries : List (κ × β)) {table : List (κ × β)}
    (h : ((table ++ entries).map Prod.fst).Nodup) :
    entries.foldl (fun table entry => put entry.1 entry.2 table) table = table ++ entries := by
  induction entries generalizing table with
  | nil => simp
  | cons entry rest ih =>
      have hnew : entry.1 ∉ table.map Prod.fst := by
        rw [List.map_append, List.map_cons] at h
        intro hmem
        exact (List.nodup_append.mp h).2.2 entry.1 hmem entry.1 List.mem_cons_self rfl
      rw [List.foldl_cons, put_of_not_mem entry.2 hnew, ih (by simpa using h)]
      simp

/-- Entries with different keys are their own table. -/
private theorem ofList_of_nodup {entries : List (κ × β)} (h : (entries.map Prod.fst).Nodup) :
    ofList entries = entries :=
  foldl_put_of_nodup entries h

end Assoc

/-- The frame of a recursive let with different names holds its definitions as they are. -/
theorem extendRecursive_definitionsOf (env : Env) {bindings : List Binding}
    {definitions : List (String × Expr)} (hdefinitions : definitionsOf bindings = .ok definitions)
    (hdistinct : (letNames bindings).Nodup) :
    env.extendRecursive definitions = .ok (.recursive env definitions) := by
  have hkeys : (definitions.map Prod.fst).Nodup := by
    rw [map_fst_definitionsOf hdefinitions]
    exact hdistinct
  have hliterals : definitions.find? (fun entry => !entry.2.isFunctionLiteral) = none := by
    rw [List.find?_eq_none]
    intro entry hentry
    obtain ⟨-, -, -, -, hliteral⟩ := exists_binding_of_mem_definitionsOf hdefinitions hentry
    simp [hliteral]
  rw [Env.extendRecursive, Assoc.ofList_of_nodup hkeys]
  simp only [hliterals]

/-! ### Matches of the other lets -/

theorem matchBindings_eq_ok_iff {env extended : Env} {bindings : List Binding}
    {values : List Value} (hlength : bindings.length = values.length) :
    matchBindings env bindings values = .ok extended
      ↔ Pattern.matchAll? env (bindings.map Clause.pattern) values = some extended := by
  induction bindings generalizing env values with
  | nil =>
      obtain rfl := List.length_eq_zero_iff.mp hlength.symm
      simp [matchBindings, Pattern.matchAll?]
  | cons binding rest ih =>
      cases values with
      | nil => cases hlength
      | cons value values =>
          rw [matchBindings, List.map_cons, Pattern.matchAll?]
          cases binding.pattern.match? env value with
          | none => simp
          | some matched => exact ih (Nat.succ.inj hlength)

theorem matchBindings_eq_error {env : Env} {bindings : List Binding} {values : List Value}
    {e : EvalError} (h : matchBindings env bindings values = .error e) :
    ∃ binding ∈ bindings, ∃ value ∈ values, ∃ matched,
      binding.pattern.match? matched value = none
        ∧ e = .letMismatch value.kind binding.pattern := by
  induction bindings generalizing env values with
  | nil => simp [matchBindings] at h
  | cons first rest ih =>
      cases values with
      | nil => simp [matchBindings] at h
      | cons firstValue restValues =>
          rw [matchBindings] at h
          cases hfirst : first.pattern.match? env firstValue with
          | none =>
              rw [hfirst] at h
              cases h
              exact ⟨first, List.mem_cons_self, firstValue, List.mem_cons_self, env, hfirst, rfl⟩
          | some extended =>
              rw [hfirst] at h
              obtain ⟨binding, hbinding, value, hvalue, hrest⟩ := ih h
              exact ⟨binding, List.mem_cons_of_mem first hbinding, value,
                List.mem_cons_of_mem firstValue hvalue, hrest⟩

/-! ### Lets -/

theorem bindWith_of_nodup {evaluation : Evaluation} {env : Env} {bindings : List Binding}
    (recursive : Bool) (hdistinct : (letNames bindings).Nodup) :
    bindWith evaluation env recursive bindings
      = bif recursive then
          Run.ofEval (definitionsOf bindings) >>= fun definitions =>
            Run.ofChecked (env.extendRecursive definitions)
        else
          evalAll evaluation env (bindings.map Clause.body) >>= fun values =>
            Run.ofEval (matchBindings env bindings values) := by
  have hrepeated : firstRepeated [] (Pattern.boundNamesAll (bindings.map Clause.pattern)) = none :=
    firstRepeated_eq_none_iff.mpr ⟨hdistinct, fun _ _ => List.not_mem_nil⟩
  cases recursive <;> simp only [bindWith, hrepeated] <;> rfl

/-- A let that binds a name twice is refused before anything is evaluated. -/
theorem bindWith_of_not_nodup (evaluation : Evaluation) (env : Env) {bindings : List Binding}
    (recursive : Bool) (hrepeated : ¬ (letNames bindings).Nodup) :
    ∃ name, firstRepeated [] (letNames bindings) = some name
      ∧ bindWith evaluation env recursive bindings = Run.fail (.error (.repeatedName name)) := by
  cases hname : firstRepeated [] (letNames bindings) with
  | none => exact absurd (firstRepeated_eq_none_iff.mp hname).1 hrepeated
  | some name =>
      refine ⟨name, rfl, ?_⟩
      rw [letNames] at hname
      simp only [bindWith, hname]
      rfl

/-- A let of one pattern binds what the pattern matches, or names the pattern. -/
theorem bindWith_single (evaluation : Evaluation) {p : Pattern} (hp : p.boundNames.Nodup)
    (bound : Expr) (env : Env) :
    bindWith evaluation env false [⟨p, bound⟩]
      = evaluation bound env >>= fun value =>
        match p.match? env value with
        | some matched => pure matched
        | none => Run.fail (.error (.letMismatch value.kind p)) := by
  have hrepeated : firstRepeated [] (Pattern.boundNamesAll [p]) = none := by
    rw [firstRepeated_eq_none_iff, Pattern.boundNamesAll, Pattern.boundNamesAll, List.append_nil]
    exact ⟨hp, fun _ _ => List.not_mem_nil⟩
  have hmatch : ∀ value, Run.ofEval (matchBindings env [⟨p, bound⟩] [value])
      = match p.match? env value with
        | some matched => pure matched
        | none => Run.fail (.error (.letMismatch value.kind p)) := by
    intro value
    rw [matchBindings]
    cases p.match? env value <;> rfl
  simp only [bindWith, List.map_cons, List.map_nil, hrepeated, evalAll, Run.after_eq, Run.call_eq,
    Run.step_eq, pure_bind, bind_assoc, hmatch]
  rfl

end MiniMl
