import MiniMl.Proofs.Depth
import MiniMl.Proofs.LetBindings
/-!
# A let is a match on a tuple

A let of several bindings can be written as a match on the tuple of its right-hand sides, with the
tuple of its patterns as the only rule. Both evaluate all right-hand sides before they match the
first pattern, and both match the patterns from left to right, so they differ in two respects only.
The tuple is a level of its own, and the match is cut short where the let may have one level left.
And a value that does not match is reported as an item of the let, but as a tuple of the match.

Apart from the level, both are the same steps over any evaluation of the parts. These are compared
first (`tupleSteps_cases`), and then the depth limit is brought in.
-/

namespace MiniMl

/-- A let as a match on the tuple of its right-hand sides. -/
def tupleMatch (bindings : List Binding) (body : Expr) : Expr :=
  .matchWith (.tuple (bindings.map Clause.body)) [⟨.tuple (bindings.map Clause.pattern), body⟩]

/-- The failure is that of a right-hand side, with a value for each one before it, or that of the
body, with a match for each pattern. -/
inductive PartFails (evaluation : Evaluation) (env : Env) (bindings : List Binding) (body : Expr)
    (failure : Failure) : Prop
  | bound {before after : List Binding} {binding : Binding}
      (hbindings : bindings = before ++ binding :: after)
      (hbefore : ∀ earlier ∈ before, ∃ value, (evaluation earlier.body env).outcome = .ok value)
      (hfails : (evaluation binding.body env).outcome = .error failure) :
      PartFails evaluation env bindings body failure
  | body {added : List (List (String × Value))}
      (hadded : List.Forall₂ (Clause.Adds evaluation env) bindings added)
      (hfails : (evaluation body (env.extendAll added.flatten)).outcome = .error failure) :
      PartFails evaluation env bindings body failure

/-! ### The steps of both -/

section Steps

variable (settings : Settings) (evaluation : Evaluation) (bindings : List Binding) (body : Expr)
  (env : Env)

/-- What a match on a tuple does apart from making the tuple a level of its own. -/
def tupleSteps : Run Value :=
  evalAll evaluation env (bindings.map Clause.body) >>= fun values =>
    dispatchWith settings evaluation env (.tuple values)
      [⟨.tuple (bindings.map Clause.pattern), body⟩]

def letSteps : Run Value :=
  bindWith evaluation env false bindings >>= evaluation body

end Steps

section Comparison

variable {settings : Settings} {evaluation : Evaluation} {bindings : List Binding} {body : Expr}
  {env : Env}

private theorem dispatchWith_tuple_of_bindings {ps : List Pattern} {values : List Value}
    {all : List (String × Value)} (h : Pattern.bindingsAll? ps values = some all) :
    (dispatchWith settings evaluation env (.tuple values) [⟨.tuple ps, body⟩]).outcome
      = (evaluation body (env.extendAll all)).outcome := by
  have hselect : selectRule env (.tuple values) [⟨.tuple ps, body⟩]
      = .ok (⟨.tuple ps, body⟩, env.extendAll all) := by
    rw [selectRule, Pattern.match?, Pattern.matchAll?_eq, h]
    rfl
  exact outcome_dispatchWith (selectRule_eq_ok hselect)

private theorem dispatchWith_tuple_of_none {ps : List Pattern} {values : List Value}
    (h : Pattern.bindingsAll? ps values = none) :
    (dispatchWith settings evaluation env (.tuple values) [⟨.tuple ps, body⟩]).outcome
      = .error (.error (.noRuleMatches "tuple")) := by
  have hselect : selectRule env (.tuple values) [⟨.tuple ps, body⟩]
      = .error (.noRuleMatches "tuple") := by
    rw [selectRule, Pattern.match?, Pattern.matchAll?_eq, h]
    rfl
  rw [dispatchWith, hselect]
  exact Run.outcome_bind_error rfl _

private theorem outcome_tupleSteps_of_adds {added : List (List (String × Value))}
    (hadded : List.Forall₂ (Clause.Adds evaluation env) bindings added) :
    (tupleSteps settings evaluation bindings body env).outcome
      = (evaluation body (env.extendAll added.flatten)).outcome := by
  obtain ⟨values, hvalues, hall⟩ := exists_values_iff_adds.mpr ⟨added, hadded, rfl⟩
  rw [tupleSteps, Run.outcome_bind_ok (evalAll_eq_ok_iff.mpr hvalues)]
  exact dispatchWith_tuple_of_bindings hall

private theorem outcome_letSteps_of_adds (hdistinct : (letNames bindings).Nodup)
    {added : List (List (String × Value))}
    (hadded : List.Forall₂ (Clause.Adds evaluation env) bindings added) :
    (letSteps evaluation bindings body env).outcome
      = (evaluation body (env.extendAll added.flatten)).outcome := by
  have hbind := bindWith_eq_ok_iff.mpr ⟨hdistinct, added, hadded, rfl⟩
  exact Run.outcome_bind_ok hbind _

private theorem evalAll_of_bound_fails {before after : List Binding} {binding : Binding}
    {failure : Failure}
    (hbefore : ∀ earlier ∈ before, ∃ value, (evaluation earlier.body env).outcome = .ok value)
    (hfails : (evaluation binding.body env).outcome = .error failure) :
    (evalAll evaluation env ((before ++ binding :: after).map Clause.body)).outcome
      = .error failure := by
  rw [List.map_append, List.map_cons, evalAll_eq_error_iff]
  refine ⟨before.map Clause.body, binding.body, after.map Clause.body, rfl, ?_, hfails⟩
  intro e he
  obtain ⟨earlier, hearlier, rfl⟩ := List.mem_map.mp he
  exact hbefore earlier hearlier

private theorem PartFails.outcome_tupleSteps {failure : Failure}
    (h : PartFails evaluation env bindings body failure) :
    (tupleSteps settings evaluation bindings body env).outcome = .error failure := by
  cases h with
  | bound hbindings hbefore hfails =>
      subst hbindings
      exact Run.outcome_bind_error (evalAll_of_bound_fails hbefore hfails) _
  | body hadded hfails => exact (outcome_tupleSteps_of_adds hadded).trans hfails

private theorem PartFails.outcome_letSteps (hdistinct : (letNames bindings).Nodup)
    {failure : Failure} (h : PartFails evaluation env bindings body failure) :
    (letSteps evaluation bindings body env).outcome = .error failure := by
  cases h with
  | bound hbindings hbefore hfails =>
      subst hbindings
      rw [letSteps, bindWith_of_nodup false hdistinct]
      exact Run.outcome_bind_error
        (Run.outcome_bind_error (evalAll_of_bound_fails hbefore hfails) _) _
  | body hadded hfails => exact (outcome_letSteps_of_adds hdistinct hadded).trans hfails

private theorem partFails_of_evalAll_error {failure : Failure}
    (h : (evalAll evaluation env (bindings.map Clause.body)).outcome = .error failure) :
    PartFails evaluation env bindings body failure := by
  obtain ⟨before, e, after, hbodies, hbefore, hfails⟩ := evalAll_eq_error_iff.mp h
  obtain ⟨earlier, rest, rfl, rfl, hrest⟩ := List.map_eq_append_iff.mp hbodies
  obtain ⟨binding, later, rfl, rfl, -⟩ := List.map_eq_cons_iff.mp hrest
  exact .bound rfl (fun binding hbinding => hbefore _ (List.mem_map_of_mem hbinding)) hfails

private theorem outcome_letSteps_of_none (hdistinct : (letNames bindings).Nodup)
    {values : List Value}
    (hvalues : (evalAll evaluation env (bindings.map Clause.body)).outcome = .ok values)
    (hnone : Pattern.bindingsAll? (bindings.map Clause.pattern) values = none) :
    ∃ binding ∈ bindings, ∃ kind, (letSteps evaluation bindings body env).outcome
      = .error (.error (.letMismatch kind binding.pattern)) := by
  cases hmatch : matchBindings env bindings values with
  | ok extended =>
      obtain ⟨all, hall, -⟩ := (matchBindings_values_iff hvalues).mp hmatch
      rw [hnone] at hall
      cases hall
  | error e =>
      obtain ⟨binding, hbinding, value, -, -, -, rfl⟩ := matchBindings_eq_error hmatch
      refine ⟨binding, hbinding, value.kind, Run.outcome_bind_error ?_ _⟩
      rw [bindWith_of_nodup false hdistinct, cond_false, Run.outcome_bind_ok hvalues, hmatch]
      rfl

variable (settings body env) in
/-- Both come to the same value, or to the failure of a part, or a value does not match. -/
theorem tupleSteps_cases (hdistinct : (letNames bindings).Nodup) :
    (∃ value, (tupleSteps settings evaluation bindings body env).outcome = .ok value
      ∧ (letSteps evaluation bindings body env).outcome = .ok value)
    ∨ (∃ failure, PartFails evaluation env bindings body failure)
    ∨ ((tupleSteps settings evaluation bindings body env).outcome
        = .error (.error (.noRuleMatches "tuple"))
      ∧ ∃ binding ∈ bindings, ∃ kind, (letSteps evaluation bindings body env).outcome
        = .error (.error (.letMismatch kind binding.pattern))) := by
  cases hbodies : (evalAll evaluation env (bindings.map Clause.body)).outcome with
  | error failure => exact .inr (.inl ⟨failure, partFails_of_evalAll_error hbodies⟩)
  | ok values =>
      cases hall : Pattern.bindingsAll? (bindings.map Clause.pattern) values with
      | some all =>
          obtain ⟨added, hadded, rfl⟩ :=
            exists_values_iff_adds.mp ⟨values, evalAll_eq_ok_iff.mp hbodies, hall⟩
          cases hbody : (evaluation body (env.extendAll added.flatten)).outcome with
          | error failure => exact .inr (.inl ⟨failure, .body hadded hbody⟩)
          | ok value =>
              refine .inl ⟨value, ?_, ?_⟩
              · exact (outcome_tupleSteps_of_adds hadded).trans hbody
              · exact (outcome_letSteps_of_adds hdistinct hadded).trans hbody
      | none =>
          refine .inr (.inr ⟨?_, outcome_letSteps_of_none hdistinct hbodies hall⟩)
          exact (Run.outcome_bind_ok hbodies _).trans (dispatchWith_tuple_of_none hall)

private theorem letSteps_of_tupleSteps_ok (hdistinct : (letNames bindings).Nodup) {value : Value}
    (h : (tupleSteps settings evaluation bindings body env).outcome = .ok value) :
    (letSteps evaluation bindings body env).outcome = .ok value := by
  rcases tupleSteps_cases settings body env hdistinct with ⟨other, htuple, hlet⟩ | ⟨failure, hfails⟩
    | ⟨htuple, -⟩
  · rw [hlet, ← htuple]
    exact h
  · rw [hfails.outcome_tupleSteps] at h
    cases h
  · rw [htuple] at h
    cases h

/-- The match fails with a part of it, or because the tuple does not match. -/
private theorem letSteps_of_tupleSteps_error (hdistinct : (letNames bindings).Nodup)
    {failure : Failure}
    (h : (tupleSteps settings evaluation bindings body env).outcome = .error failure) :
    PartFails evaluation env bindings body failure
      ∨ failure = .error (.noRuleMatches "tuple")
        ∧ ∃ binding ∈ bindings, ∃ kind, (letSteps evaluation bindings body env).outcome
          = .error (.error (.letMismatch kind binding.pattern)) := by
  rcases tupleSteps_cases settings body env hdistinct with ⟨value, htuple, -⟩ | ⟨other, hfails⟩
    | ⟨htuple, hlet⟩
  · rw [htuple] at h
    cases h
  · rw [hfails.outcome_tupleSteps] at h
    cases h
    exact .inl hfails
  · rw [htuple] at h
    cases h
    exact .inr ⟨rfl, hlet⟩

/-- The let is cut short only where the match is. -/
private theorem tooDeep_of_letSteps (hdistinct : (letNames bindings).Nodup)
    (h : (letSteps evaluation bindings body env).TooDeep) :
    (tupleSteps settings evaluation bindings body env).TooDeep := by
  obtain ⟨limit, hlimit⟩ := h
  cases houtcome : (tupleSteps settings evaluation bindings body env).outcome with
  | ok value =>
      rw [letSteps_of_tupleSteps_ok hdistinct houtcome] at hlimit
      cases hlimit
  | error failure =>
      rcases letSteps_of_tupleSteps_error hdistinct houtcome with hfails
        | ⟨-, binding, -, kind, hmismatch⟩
      · rw [hfails.outcome_letSteps hdistinct] at hlimit
        cases hlimit
        exact ⟨limit, houtcome⟩
      · rw [hmismatch] at hlimit
        cases hlimit

end Comparison

/-! ### The levels of both -/

theorem evalWith_tuple (settings : Settings) (evaluation : Evaluation) {es : List Expr}
    (hlength : 2 ≤ es.length) (env : Env) :
    evalWith settings evaluation (.tuple es) env
      = evalAll evaluation env es >>= fun values => pure (.tuple values) := by
  refine Run.bind_congr_of_ok fun values hvalues => ?_
  have hitems : 2 ≤ values.length := by
    rw [length_of_evalAll hvalues]
    exact hlength
  rw [Value.checkedTuple, if_pos hitems]
  rfl

/-- A match on a tuple does its steps, unless it is cut short. -/
theorem eval_tupleMatch_below (settings : Settings) {budget budget' : Nat}
    (hbudget : budget ≤ budget' + 1) {bindings : List Binding} (hlength : 2 ≤ bindings.length)
    (body : Expr) (env : Env) :
    (eval settings budget (tupleMatch bindings body) env).Below
      (tupleSteps settings (eval settings budget') bindings body env) := by
  have hlimit : ∀ {fewer} (_ : fewer ≤ budget') (part : Expr) (site : Env),
      (eval settings fewer part site).Below (eval settings budget' part site) :=
    fun hle => eval_below settings settings.maxDepth settings.maxDepth hle
  let below := belowRelation settings settings.maxDepth settings.maxDepth
  cases budget with
  | zero => exact .inl ⟨settings.maxDepth, rfl⟩
  | succ budget =>
      have htuple : (eval settings budget (.tuple (bindings.map Clause.body)) env).Below
          (evalAll (eval settings budget') env (bindings.map Clause.body) >>= fun values =>
            pure (.tuple values)) := by
        -- The items lie one level below the tuple, which the steps do not count.
        cases budget with
        | zero => exact .inl ⟨settings.maxDepth, rfl⟩
        | succ fewer =>
            rw [eval_succ, evalWith_tuple settings _ (by rw [List.length_map]; exact hlength)]
            exact (below.evalAll_related (hlimit (by omega)) env _).bind fun values => .refl _
      have hsteps : tupleSteps settings (eval settings budget') bindings body env
          = (evalAll (eval settings budget') env (bindings.map Clause.body) >>= fun values =>
              pure (.tuple values)) >>= fun value =>
            dispatchWith settings (eval settings budget') env value
              [⟨.tuple (bindings.map Clause.pattern), body⟩] := by
        simp only [tupleSteps, bind_assoc, pure_bind]
      rw [hsteps]
      exact htuple.bind fun value => below.dispatchWith_related (hlimit (by omega)) env value _

private theorem letSteps_below (settings : Settings) {budget budget' : Nat}
    (hbudget : budget ≤ budget') (bindings : List Binding) (body : Expr) (env : Env) :
    (letSteps (eval settings budget) bindings body env).Below
      (letSteps (eval settings budget') bindings body env) := by
  have hlimit := eval_below settings settings.maxDepth settings.maxDepth hbudget
  have hbind := (belowRelation settings settings.maxDepth settings.maxDepth).bindWith_related
    hlimit env false bindings
  exact Run.Below.bind hbind fun extended => hlimit body extended

section Evaluate

variable (settings : Settings) {bindings : List Binding} (hlength : 2 ≤ bindings.length)
  (hdistinct : (letNames bindings).Nodup) (body : Expr) (env : Env)
  (hdepth : ¬ (evaluate settings (tupleMatch bindings body) env).TooDeep)

include hlength hdepth

theorem evaluate_tupleMatch :
    evaluate settings (tupleMatch bindings body) env
      = tupleSteps settings (evaluate settings) bindings body env :=
  (eval_tupleMatch_below settings (Nat.le_succ _) hlength body env).eq hdepth

include hdistinct

theorem evaluate_let :
    evaluate settings (.letIn false bindings body) env
      = letSteps (evaluate settings) bindings body env := by
  simp only [evaluate] at hdepth ⊢
  cases hbudget : settings.budget with
  | zero =>
      rw [hbudget] at hdepth
      exact absurd ⟨settings.maxDepth, rfl⟩ hdepth
  | succ budget =>
      rw [hbudget] at hdepth
      have hsteps := (eval_tupleMatch_below settings (Nat.le_refl _) hlength body env).eq hdepth
      rw [hsteps] at hdepth
      have hlet : ¬ (letSteps (eval settings budget) bindings body env).TooDeep :=
        fun hdeep => hdepth (tooDeep_of_letSteps hdistinct hdeep)
      exact (letSteps_below settings (Nat.le_succ budget) bindings body env).eq hlet

/-- A let of two bindings or more agrees with a match on the tuple of its right-hand sides, where
the match is not too deep. It has the value that the match has, and an error of the kind of error
that the match has. A failure of a right-hand side or of the body is the failure of both. The only
other failure is that a value does not match, which the match reports of the tuple and the let of
one of its patterns. -/
theorem let_agrees_with_tupleMatch :
    (∀ value, (evaluate settings (tupleMatch bindings body) env).outcome = .ok value →
      (evaluate settings (.letIn false bindings body) env).outcome = .ok value)
    ∧ (∀ e, (evaluate settings (tupleMatch bindings body) env).outcome = .error (.error e) →
      ∃ e', (evaluate settings (.letIn false bindings body) env).outcome = .error (.error e')
        ∧ e'.kind = e.kind)
    ∧ (∀ failure, PartFails (evaluate settings) env bindings body failure →
      (evaluate settings (tupleMatch bindings body) env).outcome = .error failure
        ∧ (evaluate settings (.letIn false bindings body) env).outcome = .error failure)
    ∧ ∀ failure, (evaluate settings (tupleMatch bindings body) env).outcome = .error failure →
      PartFails (evaluate settings) env bindings body failure
        ∨ failure = .error (.noRuleMatches "tuple")
          ∧ ∃ binding ∈ bindings, ∃ kind,
            (evaluate settings (.letIn false bindings body) env).outcome
              = .error (.error (.letMismatch kind binding.pattern)) := by
  rw [evaluate_tupleMatch settings hlength body env hdepth,
    evaluate_let settings hlength hdistinct body env hdepth]
  refine ⟨fun value h => letSteps_of_tupleSteps_ok hdistinct h, fun e h => ?_,
    fun failure h => ⟨h.outcome_tupleSteps, h.outcome_letSteps hdistinct⟩,
    fun failure h => letSteps_of_tupleSteps_error hdistinct h⟩
  rcases letSteps_of_tupleSteps_error hdistinct h with hfails | ⟨heq, binding, -, kind, hmismatch⟩
  · exact ⟨e, hfails.outcome_letSteps hdistinct, rfl⟩
  · cases heq
    exact ⟨_, hmismatch, rfl⟩

end Evaluate

theorem let_agrees_with_tupleMatch_sum :
    let bindings : List Binding :=
      [⟨.tuple [.ident "a", .ident "b"], .tuple [.const (.int 1), .const (.int 2)]⟩,
        ⟨.optSome (.ident "c"), .optSome (.const (.int 3))⟩]
    let sum : Expr := .apply (.apply (.ident "+") (.ident "a")) (.ident "c")
    2 ≤ bindings.length ∧ (letNames bindings).Nodup
      ∧ ¬ (evaluate {} (tupleMatch bindings sum) .empty).TooDeep
      ∧ (evaluate {} (tupleMatch bindings sum) .empty).outcome = .ok (.int 4)
      ∧ (evaluate {} (.letIn false bindings sum) .empty).outcome = .ok (.int 4) := by
  intro bindings sum
  have hlength : 2 ≤ bindings.length := by decide
  have hdistinct : (letNames bindings).Nodup := by decide
  have hvalue : (evaluate {} (tupleMatch bindings sum) .empty).outcome = .ok (.int 4) := rfl
  have hdepth := Run.not_tooDeep_of_ok hvalue
  exact ⟨hlength, hdistinct, hdepth, hvalue,
    (let_agrees_with_tupleMatch {} hlength hdistinct sum .empty hdepth).1 _ hvalue⟩

end MiniMl
