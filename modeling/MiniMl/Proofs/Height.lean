import MiniMl.Proofs.Depth
import MiniMl.Proofs.Frames
import MiniMl.Proofs.Safety.Calls
/-!
# Expressions that call nothing

A run that is cut short is cut short in one of the evaluations that it asks for
(`exists_call_of_tooDeep`). An expression that calls no function only asks for its own parts, and a
part is less high than the whole. So a budget of its height is enough for it, whatever the
environment holds: functions that are found there are passed on and never entered.

On a host its height bounds the calls as well. There can only be no room for it where a step, such
as the matching of a deep pattern, takes more than the margin.
-/

namespace MiniMl

/-! ### Where a run is cut short -/

private theorem limit_of_tooDeep {settings : Settings} {budget : Nat} {e : Expr} {env : Env}
    {limit : Int} (h : (eval settings budget e env).outcome = .error (.tooDeep limit)) :
    limit = settings.maxDepth := by
  have hlawful : anyCode.Lawful settings
      fun failure => ∀ limit, failure = .tooDeep limit → limit = settings.maxDepth :=
    { anyCode_lawful settings with
      shortTuple := fun _ _ _ h => by cases h
      lookup := by
        intro env name failure _ henv hfind limit h
        rcases henv.find_error hfind with hunbound | ⟨frame, e, -, -, -, hmalformed⟩
        · cases hunbound.symm.trans h
        · cases hmalformed.symm.trans h
      noRule := fun _ _ _ h => by cases h
      argument := fun _ _ _ h => by cases h
      letValue := fun _ _ _ _ h => by cases h
      tooDeep := fun _ h => (Failure.tooDeep.inj h).symm
      other := fun _ _ _ _ _ h => by cases h }
  exact (hlawful.eval_stays budget e env env.obeys_anyCode trivial).error h limit rfl

private theorem exists_call_of_tooDeep {settings : Settings} {budget : Nat} {e : Expr} {env : Env}
    (h : (eval settings (budget + 1) e env).TooDeep) :
    ∃ e' env', Calls (eval settings budget) e env e' env'
      ∧ (eval settings budget e' env').TooDeep := by
  by_contra hnone
  -- The calls run in the same way under another limit, and then the run itself names both limits.
  let other : Settings := { settings with maxDepth := settings.maxDepth + 1 }
  have hcalls : ∀ e' env', Calls (eval settings budget) e env e' env' →
      eval settings budget e' env' = eval other budget e' env' := by
    intro e' env' hcall
    refine (eval_below settings settings.maxDepth (settings.maxDepth + 1) (Nat.le_refl budget)
      e' env').eq fun hdeep => hnone ⟨e', env', hcall, hdeep⟩
  have hsame : eval settings (budget + 1) e env = eval other (budget + 1) e env :=
    evalWith_congr hcalls
  obtain ⟨limit, hlimit⟩ := h
  have hown : limit = settings.maxDepth := limit_of_tooDeep hlimit
  rw [hsame] at hlimit
  have hother : limit = settings.maxDepth + 1 := limit_of_tooDeep hlimit
  omega

/-! ### Heights -/

namespace Expr

mutual

/-- How many evaluations are nested in each other if no function is called. The bodies of functions
and the right-hand sides of a recursive let do not count, and neither does the symbol of an operator
with both operands. -/
def height : Expr → Nat
  | .const _ | .ident _ | .lambda _ _ | .function _ | .optNone | .host _ => 1
  | .typed inner _ => inner.height + 1
  | .list items => heightAll items + 1
  | .tuple items => heightAll items + 1
  | .ifThen cond yes => max cond.height yes.height + 1
  | .ifThenElse cond yes no => max cond.height (max yes.height no.height) + 1
  | .optSome inner => inner.height + 1
  | .matchWith scrutinee rules => max scrutinee.height (heightOfBodies rules) + 1
  | .apply (.apply (.ident _) left) right => max left.height right.height + 1
  | .apply func arg => max func.height arg.height + 1
  | .letIn true _ body => body.height + 1
  | .letIn false bindings body => max (heightOfBodies bindings) body.height + 1

def heightAll : List Expr → Nat
  | [] => 0
  | e :: es => max e.height (heightAll es)

def heightOfBodies : List (Clause Expr) → Nat
  | [] => 0
  | ⟨_, body⟩ :: rest => max body.height (heightOfBodies rest)

end

mutual

/-- All applications are of an operator to both operands, but for those in bodies of functions and
in right-hand sides of a recursive let. -/
def isCallFree : Expr → Bool
  | .const _ | .ident _ | .lambda _ _ | .function _ | .optNone | .host _ => true
  | .typed inner _ => inner.isCallFree
  | .list items => allCallFree items
  | .tuple items => allCallFree items
  | .ifThen cond yes => cond.isCallFree && yes.isCallFree
  | .ifThenElse cond yes no => cond.isCallFree && (yes.isCallFree && no.isCallFree)
  | .optSome inner => inner.isCallFree
  | .matchWith scrutinee rules => scrutinee.isCallFree && bodiesCallFree rules
  | .apply (.apply (.ident symbol) left) right =>
    Operator.isSymbol symbol && (left.isCallFree && right.isCallFree)
  | .apply _ _ => false
  | .letIn true _ body => body.isCallFree
  | .letIn false bindings body => bodiesCallFree bindings && body.isCallFree

def allCallFree : List Expr → Bool
  | [] => true
  | e :: es => e.isCallFree && allCallFree es

def bodiesCallFree : List (Clause Expr) → Bool
  | [] => true
  | ⟨_, body⟩ :: rest => body.isCallFree && bodiesCallFree rest

end

/-- The expression calls nothing and is not higher than the budget. -/
def Fits (budget : Nat) (e : Expr) : Prop :=
  e.isCallFree = true ∧ e.height ≤ budget

theorem height_pos (e : Expr) : 0 < e.height := by
  fun_cases height e <;> exact Nat.succ_pos _

private theorem fits_all_iff {budget : Nat} {es : List Expr} :
    (allCallFree es = true ∧ heightAll es ≤ budget) ↔ ∀ e ∈ es, e.Fits budget := by
  induction es with
  | nil => simp [allCallFree, heightAll]
  | cons e rest ih =>
      rw [List.forall_mem_cons, ← ih, allCallFree, heightAll, Bool.and_eq_true, Nat.max_le, Fits]
      exact and_and_and_comm

private theorem allCallFree_map_body (clauses : List (Clause Expr)) :
    allCallFree (clauses.map Clause.body) = bodiesCallFree clauses := by
  induction clauses with
  | nil => rfl
  | cons clause rest ih => rw [List.map_cons, allCallFree, ih, bodiesCallFree]

private theorem heightAll_map_body (clauses : List (Clause Expr)) :
    heightAll (clauses.map Clause.body) = heightOfBodies clauses := by
  induction clauses with
  | nil => rfl
  | cons clause rest ih => rw [List.map_cons, heightAll, ih, heightOfBodies]

theorem appliedOperator?_of_isCallFree {func arg : Expr}
    (h : (Expr.apply func arg).isCallFree = true) :
    ∃ symbol left, func.appliedOperator? = some (symbol, left) := by
  generalize he : Expr.apply func arg = e at h
  fun_cases isCallFree e <;> cases he
  · rename_i symbol left
    rw [isCallFree, Bool.and_eq_true] at h
    exact ⟨symbol, left, appliedOperator?_operator h.1 left⟩
  · rename_i hother
    rw [isCallFree] at h
    · cases h
    · exact hother

namespace Fits

variable {budget : Nat}

theorem parts {e : Expr} (h : e.Fits (budget + 1)) : ∀ part ∈ e.parts, part.Fits budget := by
  obtain ⟨hfree, hheight⟩ := h
  rw [← fits_all_iff]
  cases e with
  | list items | tuple items => exact ⟨hfree, Nat.le_of_succ_le_succ hheight⟩
  | typed | optSome | ifThen | ifThenElse =>
      rw [isCallFree] at hfree
      rw [height] at hheight
      simp only [Expr.parts, allCallFree, heightAll, Bool.and_true]
      exact ⟨hfree, by omega⟩
  | matchWith scrutinee rules =>
      rw [isCallFree, Bool.and_eq_true] at hfree
      rw [height] at hheight
      simp only [Expr.parts, allCallFree, heightAll, Bool.and_true]
      exact ⟨hfree.1, by omega⟩
  | apply func arg =>
      obtain ⟨symbol, left, hoperator⟩ := appliedOperator?_of_isCallFree hfree
      obtain ⟨rfl, -⟩ := eq_of_appliedOperator? hoperator
      rw [isCallFree, Bool.and_eq_true] at hfree
      rw [height] at hheight
      simp only [Expr.parts, hoperator, allCallFree, heightAll, Bool.and_true]
      exact ⟨hfree.2, by omega⟩
  | letIn recursive bindings body =>
      cases recursive with
      | true => exact ⟨rfl, Nat.zero_le budget⟩
      | false =>
          rw [isCallFree, Bool.and_eq_true] at hfree
          rw [height] at hheight
          rw [Expr.parts, allCallFree_map_body, heightAll_map_body]
          exact ⟨hfree.1, by omega⟩
  | const | ident | lambda | function | optNone | host => exact ⟨rfl, Nat.zero_le budget⟩

/-- So is the body of any rule, whichever is chosen. -/
theorem rule {scrutinee : Expr} {rules : List Rule}
    (h : (matchWith scrutinee rules).Fits (budget + 1)) {rule : Rule} (hrule : rule ∈ rules) :
    rule.body.Fits budget := by
  obtain ⟨hfree, hheight⟩ := h
  rw [isCallFree, Bool.and_eq_true, ← allCallFree_map_body] at hfree
  rw [height, ← heightAll_map_body] at hheight
  have hbodies : heightAll (rules.map Clause.body) ≤ budget := by omega
  exact fits_all_iff.mp ⟨hfree.2, hbodies⟩ rule.body (List.mem_map_of_mem hrule)

theorem letBody {recursive : Bool} {bindings : List Binding} {body : Expr}
    (h : (letIn recursive bindings body).Fits (budget + 1)) : body.Fits budget := by
  obtain ⟨hfree, hheight⟩ := h
  cases recursive with
  | true =>
      rw [isCallFree] at hfree
      rw [height] at hheight
      exact ⟨hfree, Nat.le_of_succ_le_succ hheight⟩
  | false =>
      rw [isCallFree, Bool.and_eq_true] at hfree
      rw [height] at hheight
      exact ⟨hfree.2, by omega⟩

/-- A level of an expression that fits asks for expressions that fit one level below. It never
enters a function, so nothing is asked of the environment. -/
theorem calls {evaluation : Evaluation} {e e' : Expr} {env env' : Env} (h : e.Fits (budget + 1))
    (hcall : Calls evaluation e env e' env') : e'.Fits budget := by
  cases hcall with
  | part hpart => exact h.parts e' hpart
  | rule _ hfirst => exact h.rule hfirst.mem
  | body hgeneric _ _ _ =>
      obtain ⟨symbol, left, hoperator⟩ := appliedOperator?_of_isCallFree h.1
      rw [hgeneric] at hoperator
      cases hoperator
  | letBody _ => exact h.letBody

end Fits

end Expr

theorem eval_not_tooDeep_of_fits {settings : Settings} {budget : Nat} {e : Expr} {env : Env}
    (h : e.Fits budget) : ¬ (eval settings budget e env).TooDeep := by
  induction budget generalizing e env with
  | zero => exact absurd h.2 (Nat.not_le.mpr e.height_pos)
  | succ budget ih =>
      intro hdeep
      obtain ⟨e', env', hcall, hdeep'⟩ := exists_call_of_tooDeep hdeep
      exact ih (h.calls hcall) hdeep'

theorem Expr.Fits.leads {budget : Nat} {e : Expr} (h : e.Fits (budget + 1)) :
    e.Leads (Expr.Fits budget) where
  part := h.parts
  rule := by
    rintro scrutinee rules rfl rule hrule
    exact h.rule hrule
  letBody := by
    rintro recursive bindings body rfl
    exact h.letBody
  applied := by
    rintro func arg rfl hgeneric
    obtain ⟨symbol, left, hoperator⟩ := appliedOperator?_of_isCallFree h.1
    rw [hgeneric] at hoperator
    cases hoperator

/-- Five calls for each level of the height, whatever the budget is. -/
theorem Host.descend_within_of_fits (host : Host) (settings : Settings) {height budget : Nat}
    (hle : height ≤ budget) {e : Expr} (h : e.Fits height) (env : Env) :
    (host.descend settings budget e env).Within (5 * height) := by
  induction height generalizing budget e env with
  | zero => exact absurd h.2 (Nat.not_le.mpr e.height_pos)
  | succ height ih =>
      obtain ⟨rest, rfl⟩ : ∃ rest, budget = rest + 1 := ⟨budget - 1, by omega⟩
      have hparts : ∀ part site, part.Fits height →
          (Machine.call (host.descend settings rest part site)).Within (5 * height + 1) :=
        fun part site hpart => (ih (by omega) hpart site).call
      rw [descend]
      exact (evalWith_within hparts h.leads env).call.call

end MiniMl
