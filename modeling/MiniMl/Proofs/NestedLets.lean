import MiniMl.Proofs.Depth
import MiniMl.Proofs.Report
import MiniMl.Proofs.Safety.Discipline
/-!
# A program is a nest of lets

The declarations of a program run side by side, each at the top of the budget. As lets around the
rest of the program they run inside each other, and every declaration takes a level from the ones
after it. Otherwise nothing changes: the environment is threaded in the same way and the first
failure ends both. So the nest is below the program followed by the last expression
(`eval_nestedLets_below`), and where the nest is not cut short the two agree.
-/

namespace MiniMl

private theorem bindWith_wild (evaluation : Evaluation) (e : Expr) (env : Env) :
    bindWith evaluation env false [⟨.wild, e⟩] = evaluation e env >>= fun _ => pure env :=
  @bindWith_single evaluation .wild List.nodup_nil e env

theorem eval_nestedLets_below (settings : Settings) {budget : Nat}
    (hbudget : budget ≤ settings.budget) {program : List Decl}
    (hprogram : ∀ obj, Decl.host obj ∉ program) (e : Expr) (env : Env) :
    (eval settings budget (nestedLets program e) env).Below
      (declareAll settings program env >>= evaluate settings e) := by
  have hlimit : ∀ {fewer} (_ : fewer ≤ settings.budget) (part : Expr) (site : Env),
      (eval settings fewer part site).Below (evaluate settings part site) :=
    fun hle => eval_below settings settings.maxDepth settings.maxDepth hle
  induction program generalizing budget env with
  | nil =>
      rw [declareAll_nil, pure_bind]
      exact hlimit hbudget e env
  | cons decl rest ih =>
      cases budget with
      | zero => exact .inl ⟨settings.maxDepth, rfl⟩
      | succ budget =>
          -- One level down in the nest, the declaration still runs at the top in the program.
          have hless : budget ≤ settings.budget := by omega
          have hrest : ∀ site, (eval settings budget (nestedLets rest e) site).Below
              (declareAll settings rest site >>= evaluate settings e) :=
            ih hless fun obj hmem => hprogram obj (List.mem_cons_of_mem decl hmem)
          rw [eval_succ, declareAll_cons, bind_assoc]
          cases decl with
          | letDecl recursive bindings =>
              have hbind := (belowRelation settings settings.maxDepth settings.maxDepth)
                |>.bindWith_related (hlimit hless) env recursive bindings
              exact Run.Below.bind hbind hrest
          | expr first =>
              have hfirst : (bindWith (eval settings budget) env false [⟨.wild, first⟩]).Below
                  (declare settings (.expr first) env) := by
                rw [bindWith_wild]
                exact (hlimit hless first env).bind fun _ => .refl _
              exact hfirst.bind hrest
          | host obj => exact absurd List.mem_cons_self (hprogram obj)

/-- Where a program as nested lets around an expression is not too deep, neither is the program, and
the nest ends as the program does: in its failure, or in what the expression comes to in the
environment that the program leaves. -/
theorem nestedLets_ends_as_interpret (settings : Settings) {program : List Decl}
    (hprogram : ∀ obj, Decl.host obj ∉ program) (e : Expr) (env : Env)
    (hdepth : ¬ (evaluate settings (nestedLets program e) env).TooDeep) :
    ¬ (interpret settings program env).TooDeep
      ∧ (∀ failure, (interpret settings program env).outcome = .error failure →
        (evaluate settings (nestedLets program e) env).outcome = .error failure)
      ∧ ∀ final, (interpret settings program env).outcome = .ok final →
        (evaluate settings (nestedLets program e) env).outcome
          = (evaluate settings e final).outcome := by
  have hbelow := eval_nestedLets_below settings (Nat.le_refl settings.budget) hprogram e env
  have hsame : evaluate settings (nestedLets program e) env
      = declareAll settings program env >>= evaluate settings e := hbelow.eq hdepth
  rw [Run.TooDeep, outcome_interpret]
  rw [hsame] at hdepth ⊢
  refine ⟨fun hdeep => hdepth (Run.TooDeep.bind hdeep _), ?_, ?_⟩
  · exact fun failure hfailure => Run.outcome_bind_error hfailure _
  · exact fun final hfinal => Run.outcome_bind_ok hfinal _

theorem nestedLets_ends_as_interpret_sum :
    let plus (left right : Expr) : Expr := .apply (.apply (.ident "+") left) right
    let call (n : Int) : Expr := .apply (.ident "f") (.const (.int n))
    let f : Expr := .lambda (.ident "n") (plus (.ident "n") (.const (.int 1)))
    let program : List Decl := [.letDecl true [⟨.ident "f", f⟩], .expr (call 1),
      .letDecl false [⟨.tuple [.ident "a", .ident "b"], .tuple [call 2, call 3]⟩]]
    let sum : Expr := plus (.ident "a") (.ident "b")
    let final : Env := .extend (.extend (.recursive .empty [("f", f)]) "a" (.int 3)) "b" (.int 4)
    (∀ obj, Decl.host obj ∉ program)
      ∧ ¬ (evaluate {} (nestedLets program sum) .empty).TooDeep
      ∧ (interpret {} program .empty).outcome = .ok final
      ∧ (evaluate {} (nestedLets program sum) .empty).outcome
        = (evaluate {} sum final).outcome := by
  intro plus call f program sum final
  have hprogram : ∀ obj, Decl.host obj ∉ program := by
    intro obj
    simp [program]
  have hvalue : (evaluate {} (nestedLets program sum) .empty).outcome = .ok (.int 7) := rfl
  have hdepth := Run.not_tooDeep_of_ok hvalue
  have hfinal : (interpret {} program .empty).outcome = .ok final := rfl
  have hends := nestedLets_ends_as_interpret {} hprogram sum .empty hdepth
  exact ⟨hprogram, hdepth, hfinal, hends.2.2 final hfinal⟩

end MiniMl
