import MiniMl.Proofs.Frames
/-!
# The depth of a loop

A function that counts down to zero by calling itself is entered at every second level: one level
is for the conditional and one for the call in it. The last two levels are those of the comparison
and of its operands. What a countdown comes to under a limit follows from there by induction on the
budget, and one that starts below zero is cut short by every limit.

On a host an iteration takes seven calls: three for each of its two levels, and one to apply the
function. So a limit that is higher than any that can be set may allow a countdown for which the
host has no room.
-/

namespace MiniMl.Countdown

def operation (symbol : String) (left right : Expr) : Expr :=
  .apply (.apply (.ident symbol) left) right

/-- `if k = 0 then 0 else f (k - 1)` -/
def loop : Expr :=
  .ifThenElse (operation "=" (.ident "k") (.const (.int 0))) (.const (.int 0))
    (.apply (.ident "f") (operation "-" (.ident "k") (.const (.int 1))))

/-- `let rec f = fun k -> if k = 0 then 0 else f (k - 1) in f n` -/
def countdown (n : Int) : Expr :=
  .letIn true [⟨.ident "f", .lambda (.ident "k") loop⟩] (.apply (.ident "f") (.const (.int n)))

/-- The environment of the call from outside. -/
def frame (env : Env) : Env :=
  .recursive env [("f", .lambda (.ident "k") loop)]

/-- The environment of an iteration. All of them are right above the frame. -/
def scope (env : Env) (k : Int) : Env :=
  .extend (frame env) "k" (.int k)

variable (settings : Settings) (env : Env) (host : Host)

/-! ### One iteration -/

private theorem find_frame :
    (frame env).find "f" = .ok (.closure (.ident "k") loop (frame env) true) := rfl

private theorem find_scope (k : Int) : (scope env k).find "f" = (frame env).find "f" := rfl

/-! ### Iterations that come to an end -/

section Takes

open Hosted (Takes)

private theorem const_takes (budget : Nat) (n : Int) (site : Env) :
    (host.descend settings (budget + 1) (.const (.int n)) site).Takes 2 (.int n) :=
  (Takes.step _ rfl (by simp [Run.ofEval, Run.ofOutcome])).call.call

private theorem ident_takes (budget : Nat) {name : String} {site : Env} {value : Value}
    (hfind : site.find name = .ok value) :
    (host.descend settings (budget + 1) (.ident name) site).Takes 2 value :=
  (Takes.step _ hfind (by simp [Run.ofOutcome])).call.call

/-- Both operands take the same room. -/
private theorem operation_takes (budget : Nat) {symbol name : String} {site : Env} {k n : Int}
    {value : Value} (hsymbol : Operator.isSymbol symbol = true)
    (hfind : site.find name = .ok (.int k))
    (hvalue : applyOperator symbol (.int k) (.int n) = .ok value) :
    (host.descend settings (budget + 2) (operation symbol (.ident name) (.const (.int n)))
      site).Takes 5 value := by
  have hleft := (ident_takes settings host budget hfind).call
  have hright := (const_takes settings host budget n site).call
  have hresult : (Machine.step (.operator symbol (.int k) (.int n))
      (Run.ofEval (applyOperator symbol (.int k) (.int n))) : Hosted host Value).Takes 0 value :=
    .step _ (by rw [hvalue]; rfl) (by simp [Run.ofEval, Run.ofOutcome])
  rw [Host.descend, operation]
  simp only [evalWith, Expr.appliedOperator?_operator hsymbol]
  refine Takes.call (.call ?_)
  exact hleft.bind (hright.bind hresult rfl) rfl

/-- A call takes one call more than the iteration that it makes, and those of its own level. -/
private theorem call_takes {budget j i : Nat} {site : Env} {arg : Expr} {k : Int} {value : Value}
    (hfind : site.find "f" = (frame env).find "f")
    (harg : (host.descend settings (budget + 1) arg site).Takes j (.int k))
    (hloop : (host.descend settings (budget + 1) loop (scope env k)).Takes i value)
    (hj : j ≤ i) (hi : 2 ≤ i) :
    (host.descend settings (budget + 2) (.apply (.ident "f") arg) site).Takes (i + 4) value := by
  have hfunc := (ident_takes settings host budget (hfind.trans (find_frame env))).call
  have hbody : (applyWith settings (fun part at' => Machine.call
      (host.descend settings (budget + 1) part at')) (.closure (.ident "k") loop (frame env) true)
      (.int k) site : Hosted host Value).Takes (i + 1) value :=
    ((Takes.traceEvent settings rfl).bind hloop.call (by omega)).after _
  rw [Host.descend]
  refine Takes.call (.call ?_)
  exact hfunc.bind (harg.call.bind hbody.call (m := i + 2) (by omega)) (by omega)

private theorem condition_takes (budget : Nat) (k : Int) :
    (host.descend settings (budget + 2) (operation "=" (.ident "k") (.const (.int 0)))
      (scope env k)).Takes 5 (.bool (k == 0)) :=
  operation_takes settings host budget (by decide) rfl rfl

private theorem argument_takes (budget : Nat) (k : Int) :
    (host.descend settings (budget + 2) (operation "-" (.ident "k") (.const (.int 1)))
      (scope env k)).Takes 5 (.int (k - 1)) :=
  operation_takes settings host budget (by decide) rfl rfl

/-- Seven calls for each iteration but the last, and eight for the last. -/
private theorem loop_takes (budget k : Nat) :
    (host.descend settings (budget + 2 * k + 3) loop (scope env k)).Takes (7 * k + 8)
      (.int 0) := by
  induction k with
  | zero =>
      have hcondition := (condition_takes settings env host budget 0).call
      have hzero := (const_takes settings host (budget + 1) 0 (scope env 0)).call
      refine Takes.call (.call ?_)
      exact hcondition.bind hzero rfl
  | succ k ih =>
      have hcondition := (condition_takes settings env host (budget + 2 * k + 2) (k + 1 : Nat)).call
      have hargument := argument_takes settings env host (budget + 2 * k + 1) (k + 1 : Nat)
      rw [show ((k + 1 : Nat) : Int) - 1 = k by omega] at hargument
      rw [show (((k + 1 : Nat) : Int) == 0) = false by simp; omega] at hcondition
      have hcall := call_takes settings env host (find_scope env (k + 1 : Nat)) hargument ih
        (by omega) (by omega)
      rw [show budget + 2 * (k + 1) + 3 = budget + 2 * k + 2 + 2 + 1 by omega,
        show 7 * (k + 1) + 8 = 7 * k + 8 + 4 + 1 + 1 + 1 by omega]
      refine Takes.call (.call ?_)
      exact hcondition.bind hcall.call (by omega)

/-- The definition is kept as it is, so nothing is evaluated. -/
private theorem bindWith_takes (evaluation : Expr → Env → Hosted host Value) :
    (bindWith evaluation env true [⟨.ident "f", .lambda (.ident "k") loop⟩]).Takes 0
      (frame env) := by
  have hdefinitions : (Machine.step (.definitions [⟨.ident "f", .lambda (.ident "k") loop⟩])
      (Run.ofEval (definitionsOf [⟨.ident "f", .lambda (.ident "k") loop⟩]))
      : Hosted host (List (String × Expr))).Takes 0 [("f", .lambda (.ident "k") loop)] :=
    .step _ rfl (by simp [Run.ofEval, Run.ofOutcome])
  exact (hdefinitions.bind (.step _ rfl (by simp [Run.ofChecked, Run.ofOutcome])) rfl).after _

theorem countdown_takes (budget n : Nat) :
    (host.descend settings (budget + 2 * n + 5) (countdown n) env).Takes (7 * n + 15)
      (.int 0) := by
  have hfind : (frame env).find "f" = (frame env).find "f" := rfl
  have hcall := call_takes settings env host hfind
    (const_takes settings host (budget + 2 * n + 2) n (frame env))
    (loop_takes settings env host budget n) (by omega) (by omega)
  rw [show 7 * n + 15 = 7 * n + 8 + 4 + 1 + 1 + 1 by omega]
  refine Takes.call (.call ?_)
  exact (bindWith_takes env host _).call.bind hcall.call (by omega)

end Takes

/-! ### Iterations that are cut short -/

section CutShort

open Hosted (EndsAs)

/-- The computation is cut short at the depth limit, unless it ends at a limit of the host. -/
def CutShort {α : Type} (x : Hosted host α) : Prop :=
  x.EndsAs (.error (.tooDeep settings.maxDepth))

variable {settings host}

private theorem cutShort_zero (e : Expr) (site : Env) :
    CutShort settings host (host.descend settings 0 e site) :=
  (EndsAs.step _ rfl (by simp [Run.fail, Run.ofOutcome])).call

theorem CutShort.call {e : Expr} {site : Env} {budget : Nat}
    (h : CutShort settings host (host.descend settings budget e site)) :
    CutShort settings host (Machine.call (host.descend settings budget e site)) :=
  EndsAs.call h

/-- Nothing is left for the left operand. -/
private theorem operation_cutShort {symbol : String} (hsymbol : Operator.isSymbol symbol = true)
    (left right : Expr) (site : Env) :
    CutShort settings host (host.descend settings 1 (operation symbol left right) site) := by
  rw [Host.descend, operation]
  simp only [evalWith, Expr.appliedOperator?_operator hsymbol]
  exact EndsAs.call (.call ((cutShort_zero left site).call.bind_error _))

private theorem apply_cutShort_of_arg {budget : Nat} {site : Env} {arg : Expr}
    (hfind : site.find "f" = (frame env).find "f")
    (harg : CutShort settings host (host.descend settings (budget + 1) arg site)) :
    CutShort settings host (host.descend settings (budget + 2) (.apply (.ident "f") arg) site) := by
  have hfunc := (ident_takes settings host budget (hfind.trans (find_frame env))).ends.call
  rw [Host.descend]
  exact EndsAs.call (.call (hfunc.bind (harg.call.bind_error _)))

/-- A call is cut short as the iteration is that it makes. -/
private theorem apply_cutShort {budget : Nat} {site : Env} {arg : Expr} {k : Int}
    (hfind : site.find "f" = (frame env).find "f")
    (harg : (host.descend settings (budget + 1) arg site).EndsAs (.ok (.int k)))
    (hloop : CutShort settings host (host.descend settings (budget + 1) loop (scope env k))) :
    CutShort settings host (host.descend settings (budget + 2) (.apply (.ident "f") arg) site) := by
  have hfunc := (ident_takes settings host budget (hfind.trans (find_frame env))).ends.call
  have hbody : (applyWith settings (fun part at' => Machine.call
      (host.descend settings (budget + 1) part at')) (.closure (.ident "k") loop (frame env) true)
      (.int k) site : Hosted host Value).EndsAs (.error (.tooDeep settings.maxDepth)) :=
    ((EndsAs.traceEvent settings rfl).bind (EndsAs.call hloop)).after _
  rw [Host.descend]
  exact EndsAs.call (.call (hfunc.bind (harg.call.bind hbody.call)))

private theorem loop_cutShort_of_condition {budget : Nat} {k : Int}
    (h : CutShort settings host (host.descend settings budget
      (operation "=" (.ident "k") (.const (.int 0))) (scope env k))) :
    CutShort settings host (host.descend settings (budget + 1) loop (scope env k)) := by
  rw [Host.descend, loop]
  exact EndsAs.call (.call (h.call.bind_error _))

/-- An iteration that is not the last one is cut short as its call is. -/
private theorem loop_cutShort_of_call {budget : Nat} {k : Int} (hk : k ≠ 0)
    (h : CutShort settings host (host.descend settings (budget + 2)
      (.apply (.ident "f") (operation "-" (.ident "k") (.const (.int 1)))) (scope env k))) :
    CutShort settings host (host.descend settings (budget + 3) loop (scope env k)) := by
  have hcondition := (condition_takes settings env host budget k).ends.call
  rw [beq_false_of_ne hk] at hcondition
  rw [Host.descend, loop]
  exact EndsAs.call (.call (hcondition.bind h.call))

private theorem loop_cutShort : ∀ (budget : Nat) (k : Int), ¬ (0 ≤ k ∧ 2 * k + 3 ≤ budget) →
    CutShort settings host (host.descend settings budget loop (scope env k))
  | 0, k, _ => cutShort_zero loop (scope env k)
  | 1, k, _ => loop_cutShort_of_condition env (cutShort_zero _ _)
  | 2, k, _ => loop_cutShort_of_condition env (operation_cutShort (by decide) _ _ _)
  | 3, k, hshort => by
      refine loop_cutShort_of_call env (by omega) ?_
      -- The call is made, but nothing is left for the operands of its argument.
      exact apply_cutShort_of_arg env (find_scope env k) (operation_cutShort (by decide) _ _ _)
  | budget + 4, k, hshort => by
      have hk : k ≠ 0 := by omega
      have hargument := (argument_takes settings env host budget k).ends
      have hrest := loop_cutShort (budget + 2) (k - 1) (by omega)
      exact loop_cutShort_of_call env hk (apply_cutShort env (find_scope env k) hargument hrest)

theorem countdown_cutShort (budget : Nat) {n : Int} (hshort : ¬ (0 ≤ n ∧ 2 * n + 5 ≤ budget)) :
    CutShort settings host (host.descend settings budget (countdown n) env) := by
  have hbind := fun fewer : Nat => (bindWith_takes env host fun part site =>
    Machine.call (host.descend settings fewer part site)).ends.call
  match budget with
  | 0 => exact cutShort_zero _ _
  | 1 => exact EndsAs.call (.call ((hbind 0).bind (cutShort_zero _ _).call))
  | 2 =>
      have hcall : CutShort settings host
          (host.descend settings 1 (.apply (.ident "f") (.const (.int n))) (frame env)) :=
        EndsAs.call (.call ((cutShort_zero _ _).call.bind_error _))
      exact EndsAs.call (.call ((hbind 1).bind hcall.call))
  | budget + 3 =>
      have hfind : (frame env).find "f" = (frame env).find "f" := rfl
      have hcall := apply_cutShort env hfind (const_takes settings host budget n (frame env)).ends
        (loop_cutShort env (budget + 1) n (by omega))
      exact EndsAs.call (.call ((hbind (budget + 2)).bind hcall.call))

end CutShort

/-! ### All countdowns -/

theorem evaluate_takes {n : Int} (h : 0 ≤ n ∧ 2 * n + 5 ≤ settings.maxDepth) :
    (host.descend settings settings.budget (countdown n) env).Takes (7 * n.toNat + 15)
      (.int 0) := by
  obtain ⟨n, rfl⟩ := Int.eq_ofNat_of_zero_le h.1
  obtain ⟨rest, hrest⟩ : ∃ rest, settings.budget = rest + 2 * n + 5 :=
    ⟨settings.budget - (2 * n + 5), by rw [Settings.budget]; omega⟩
  rw [hrest]
  exact countdown_takes settings env host rest n

end MiniMl.Countdown
