import MiniMl.Proofs.Safety.Calls
/-!
# Lexical scoping

A function by rules that has an environment finds its names there. One that has none finds them
where it is applied, and what it then means depends on the caller. With `captureFunctionEnv` on,
evaluation makes no functions of the second kind: having none of them is a lawful discipline, so
none ever arises in a run that starts without them, and no application looks at its site.
-/

namespace MiniMl

/-- There are no functions without an environment. -/
def capturing : Discipline where
  code _ _ := True
  openRules _ := False
  definition _ := True
  tupleSize _ := True

/-- All functions that can be reached from the value, through lists, tuples, options, closures and
frames, have an environment. -/
def Value.Captured (value : Value) : Prop :=
  value.Obeys capturing

/-- All functions that can be reached from the environment have one of their own. -/
def Env.Captured (env : Env) : Prop :=
  env.Obeys capturing

theorem capturing_lawful {settings : Settings} (hcapture : settings.captureFunctionEnv = true) :
    capturing.Lawful settings fun _ => True where
  part _ _ := trivial
  rules _ := trivial
  rule _ _ _ := trivial
  body _ _ := trivial
  letBody _ _ := trivial
  letRec _ _ := ⟨trivial, fun _ _ => ⟨trivial, trivial⟩⟩
  openRules hopen _ := by
    rw [hcapture] at hopen
    cases hopen
  closeRules h := h.elim
  tuple _ := trivial
  shortTuple _ _ := trivial
  lookup _ _ _ := trivial
  noRule _ _ := trivial
  argument _ _ := trivial
  letValue _ _ _ := trivial
  tooDeep := trivial
  other _ _ _ _ := trivial

/-- The site of an application does not matter to a function with an environment, nor to a value
that is no function. -/
theorem Value.Captured.applyWith_site {func : Value} (hfunc : func.Captured) (settings : Settings)
    (evaluation : Evaluation) (arg : Value) (site site' : Env) :
    applyWith settings evaluation func arg site = applyWith settings evaluation func arg site' := by
  cases func with
  | openFunction rules => exact hfunc.elim
  | _ => rfl

/-! ### Programs -/

/-- The expressions that a declaration evaluates in the environment before it. -/
def Decl.parts : Decl → List Expr
  | .letDecl false bindings => bindings.map Clause.body
  | .expr e => [e]
  | .letDecl true _ | .host _ => []

/-- The values of the run of a program: those bound between its declarations, those that arise in
the evaluations of a declaration, and what they hold. -/
inductive ArisesInProgram (settings : Settings) (program : List Decl) (env : Env) : Value → Prop
  | bound {before rest : List Decl} {env' : Env} {value : Value}
      (hprogram : program = before ++ rest)
      (hbefore : (declareAll settings before env).outcome = .ok env')
      (hvalue : value ∈ env'.boundValues) : ArisesInProgram settings program env value
  | evaluated {before rest : List Decl} {decl : Decl} {env' : Env} {e : Expr} {value : Value}
      (hprogram : program = before ++ decl :: rest)
      (hbefore : (declareAll settings before env).outcome = .ok env') (he : e ∈ decl.parts)
      (hvalue : Arises settings settings.budget e env' value) :
      ArisesInProgram settings program env value
  | content {whole value : Value} (hwhole : ArisesInProgram settings program env whole)
      (hvalue : value ∈ whole.contents) : ArisesInProgram settings program env value

theorem ArisesInProgram.captured {settings : Settings}
    (hcapture : settings.captureFunctionEnv = true) {program : List Decl} {env : Env}
    (henv : env.Captured) {value : Value} (h : ArisesInProgram settings program env value) :
    value.Captured := by
  have hlawful := capturing_lawful hcapture
  have hreached : ∀ {before : List Decl} {env' : Env},
      (declareAll settings before env).outcome = .ok env' → env'.Captured :=
    fun hbefore =>
      (@Discipline.Lawful.declareAll_stays _ _ _ _ hlawful _ .optNone _ henv trivial).ok hbefore
  induction h with
  | bound _ hbefore hvalue => exact (hreached hbefore).boundValues hvalue
  | evaluated _ hbefore _ hvalue => exact hlawful.arises hvalue (hreached hbefore) trivial
  | content _ hvalue ih => exact ih.contents hvalue

/-! ### Runs without functions of the caller -/

/-- What lexical scoping says of the values that arise in a run. -/
structure LexicallyScoped (settings : Settings) (arises : Value → Prop) : Prop where
  captured : ∀ value, arises value → value.Captured
  /-- The application of a function without environment never comes up. -/
  noFallback : ∀ rules, ¬ arises (.openFunction rules)
  /-- Applied anywhere and to any depth, a function does the same. -/
  anySite : ∀ func arg, arises func → arises arg → ∀ (budget : Nat) (site site' : Env),
    applyWith settings (eval settings budget) func arg site
      = applyWith settings (eval settings budget) func arg site'

private theorem LexicallyScoped.of_captured {settings : Settings} {arises : Value → Prop}
    (h : ∀ value, arises value → value.Captured) : LexicallyScoped settings arises where
  captured := h
  noFallback rules hrules := h (.openFunction rules) hrules
  anySite func arg hfunc _ budget site site' :=
    (h func hfunc).applyWith_site settings (eval settings budget) arg site site'

/-- When functions capture their environment, the evaluation of any expression and the run of any
program, started where all functions have an environment, is lexically scoped throughout and ends in
a value or an environment of that kind again. -/
theorem lexicallyScoped_of_captured (settings : Settings)
    (hcapture : settings.captureFunctionEnv = true) {env : Env} (henv : env.Captured) :
    (∀ e : Expr, LexicallyScoped settings (Arises settings settings.budget e env)
      ∧ ∀ value, (evaluate settings e env).outcome = .ok value → value.Captured)
    ∧ ∀ program : List Decl, LexicallyScoped settings (ArisesInProgram settings program env)
      ∧ ∀ final, (interpret settings program env).outcome = .ok final → final.Captured := by
  have hlawful := capturing_lawful hcapture
  refine ⟨fun e => ⟨.of_captured ?_, ?_⟩, fun program => ⟨.of_captured ?_, ?_⟩⟩
  · exact fun value hvalue => hlawful.arises hvalue henv trivial
  · exact fun value hvalue => (hlawful.evaluate_stays henv trivial).ok hvalue
  · exact fun value hvalue => hvalue.captured hcapture henv
  · intro final hfinal
    have hstays : (interpret settings program env).Stays (Env.Obeys capturing) (fun _ => True)
        fun _ => True :=
      @Discipline.Lawful.interpret_stays _ _ _ _ hlawful _ .optNone _ henv trivial
    exact hstays.ok hfinal

/-- A function keeps the `y` it was made with, although it is bound and applied beside another. -/
theorem lexicallyScoped_of_snapshot :
    let f : Value := .function [⟨.wild, .ident "y"⟩] (.extend .empty "y" (.int 1))
    let env : Env := .extend (.extend .empty "f" f) "y" (.int 2)
    let e : Expr := .apply (.ident "f") .optNone
    let program : List Decl := [.letDecl false [⟨.ident "z", e⟩]]
    ({} : Settings).captureFunctionEnv = true ∧ env.Captured
      ∧ (evaluate {} e env).outcome = .ok (.int 1)
      ∧ Arises {} 5000 e env f ∧ ArisesInProgram {} program env f
      ∧ (LexicallyScoped {} (Arises {} 5000 e env)
        ∧ ∀ value, (evaluate {} e env).outcome = .ok value → value.Captured)
      ∧ LexicallyScoped {} (ArisesInProgram {} program env)
      ∧ ∀ final, (interpret {} program env).outcome = .ok final → final.Captured := by
  intro f env e program
  have henv : env.Captured := ⟨⟨trivial, trivial, trivial, trivial⟩, trivial⟩
  have hbound : f ∈ env.boundValues := by simp [env, Env.boundValues]
  have hscoped := lexicallyScoped_of_captured {} rfl henv
  refine ⟨rfl, henv, rfl, ?_, ?_, hscoped.1 e, hscoped.2 program⟩
  · exact .bound (.self 5000 e env) hbound
  · exact .bound (List.nil_append program).symm rfl hbound

end MiniMl
