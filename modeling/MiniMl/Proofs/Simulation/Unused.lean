import MiniMl.Proofs.Safety.Everywhere
import MiniMl.Proofs.Safety.Lexical
import MiniMl.Proofs.Safety.Scope
import MiniMl.Proofs.Simulation.Lockstep
/-!
# Bindings that are not read

A binding of a name that is not free in an expression does not change what the expression does. The
two evaluations make closures with different environments, so they do not end in equal values: the
second value is the first one with the binding added in some of its environments (`Value.Gains`),
and only where the code that these environments are for does not read it. Environments are therefore
compared relative to the names that are still to be read in them (`Env.Gains`).

All this needs functions that have an environment. One that has none would read the binding at the
site of its application.
-/

namespace MiniMl

/-- The names that the definitions of a recursive frame read. -/
def freeNamesOfDefinitions (definitions : List (String × Expr)) : List String :=
  definitions.flatMap fun entry => entry.2.freeNames

section Gains

variable (x : String) (w : Value)

mutual

/-- The second value is the first one, but for environments that have gained a binding of `x` to `w`
where the code they are for does not read `x`. -/
inductive Value.Gains : Value → Value → Prop
  | atom {value : Value} (hatom : value.IsAtom) : Value.Gains value value
  | list {items items' : List Value} (hitems : Value.AllGain items items') :
      Value.Gains (.list items) (.list items')
  | tuple {items items' : List Value} (hitems : Value.AllGain items items') :
      Value.Gains (.tuple items) (.tuple items')
  | optSome {inner inner' : Value} (hinner : Value.Gains inner inner') :
      Value.Gains (.optSome inner) (.optSome inner')
  | closure {param : Pattern} {body : Expr} {env env' : Env} {recursive : Bool}
      (henv : Env.Gains (Expr.lambda param body).freeNames env env') :
      Value.Gains (.closure param body env recursive) (.closure param body env' recursive)
  | function {rules : List Rule} {env env' : Env}
      (henv : Env.Gains (Expr.function rules).freeNames env env') :
      Value.Gains (.function rules env) (.function rules env')

inductive Value.AllGain : List Value → List Value → Prop
  | nil : Value.AllGain [] []
  | cons {value value' : Value} {values values' : List Value} (hfirst : Value.Gains value value')
      (hrest : Value.AllGain values values') : Value.AllGain (value :: values) (value' :: values')

/-- The second environment is the first one with more bindings of `x` to `w`, none of which is in
sight where one of the names is looked up. -/
inductive Env.Gains : List String → Env → Env → Prop
  | empty (names : List String) : Env.Gains names .empty .empty
  | extend {names : List String} {env env' : Env} {key : String} {value value' : Value}
      (henv : Env.Gains (without names [key]) env env') (hvalue : Value.Gains value value') :
      Env.Gains names (.extend env key value) (.extend env' key value')
  | recursive {names : List String} {env env' : Env} {definitions : List (String × Expr)}
      (henv : Env.Gains (without (names ++ freeNamesOfDefinitions definitions)
        (definitions.map Prod.fst)) env env') :
      Env.Gains names (.recursive env definitions) (.recursive env' definitions)
  | unused {names : List String} {env env' : Env} (hx : x ∉ names)
      (henv : Env.Gains names env env') : Env.Gains names env (.extend env' x w)

end

end Gains

section Laws

variable {x : String} {w : Value}

private theorem Value.allGain_iff {items items' : List Value} :
    Value.AllGain x w items items' ↔ List.Forall₂ (Value.Gains x w) items items' := by
  constructor
  · intro h
    induction items generalizing items' with
    | nil =>
        cases h
        exact .nil
    | cons value values ih =>
        cases h with
        | cons hfirst hrest => exact .cons hfirst (ih hrest)
  · intro h
    induction h with
    | nil => exact .nil
    | cons hfirst _ ih => exact .cons hfirst ih

/-- It is a smaller demand to read fewer names. -/
theorem Env.Gains.mono {names names' : List String} {env env' : Env}
    (h : Env.Gains x w names env env') (hnames : ∀ name ∈ names', name ∈ names) :
    Env.Gains x w names' env env' := by
  cases h with
  | empty => exact .empty names'
  | extend henv hvalue =>
      refine .extend (henv.mono fun name hname => ?_) hvalue
      obtain ⟨hmem, hnew⟩ := mem_without.mp hname
      exact mem_without.mpr ⟨hnames name hmem, hnew⟩
  | recursive henv =>
      refine .recursive (henv.mono fun name hname => ?_)
      obtain ⟨hmem, hnew⟩ := mem_without.mp hname
      refine mem_without.mpr ⟨?_, hnew⟩
      rcases List.mem_append.mp hmem with hmem | hmem
      · exact List.mem_append_left _ (hnames name hmem)
      · exact List.mem_append_right _ hmem
  | unused hx henv => exact .unused (fun hmem => hx (hnames x hmem)) (henv.mono hnames)

mutual

theorem Value.Captured.gains_self (value : Value) (h : value.Captured) :
    Value.Gains x w value value := by
  cases value with
  | list items => exact .list (Value.Captured.allGain_self items h)
  | tuple items => exact .tuple (Value.Captured.allGain_self items h.2)
  | optSome inner => exact .optSome (Value.Captured.gains_self inner h)
  | closure param body env recursive => exact .closure (Env.Captured.gains_self env h.2 _)
  | function rules env => exact .function (Env.Captured.gains_self env h.2 _)
  | openFunction rules => exact h.elim
  | _ => exact .atom trivial

private theorem Value.Captured.allGain_self (items : List Value)
    (h : Value.AllObey capturing items) :
    Value.AllGain x w items items := by
  cases items with
  | nil => exact .nil
  | cons value values =>
      exact .cons (Value.Captured.gains_self value h.1) (Value.Captured.allGain_self values h.2)

/-- An environment need not gain anything, whatever is read in it. -/
theorem Env.Captured.gains_self (env : Env) (h : env.Captured) (names : List String) :
    Env.Gains x w names env env := by
  cases env with
  | empty => exact .empty names
  | extend parent key value =>
      exact .extend (Env.Captured.gains_self parent h.1 _) (Value.Captured.gains_self value h.2)
  | recursive parent definitions => exact .recursive (Env.Captured.gains_self parent h.1 _)

end

theorem Env.Gains.extendAll {names : List String} {env env' : Env}
    {bindings bindings' : List (String × Value)}
    (hbindings : BindingsRelated (Value.Gains x w) bindings bindings')
    (h : Env.Gains x w (without names (bindings.map Prod.fst)) env env') :
    Env.Gains x w names (env.extendAll bindings) (env'.extendAll bindings') := by
  induction hbindings generalizing env env' with
  | nil => exact h.mono fun name hname => mem_without.mpr ⟨hname, List.not_mem_nil⟩
  | @cons entry entry' rest rest' hentry _ ih =>
      obtain ⟨hkey, hvalue⟩ := hentry
      rw [Env.extendAll, Env.extendAll, ← hkey]
      refine ih (.extend (h.mono fun name hname => ?_) hvalue)
      simp only [mem_without, List.map_cons, List.mem_cons, List.not_mem_nil, or_false] at hname ⊢
      exact ⟨hname.1.1, fun hmem => hmem.elim hname.2 hname.1.2⟩

theorem Expr.freeNames_stripped (e : Expr) : e.stripped.freeNames = e.freeNames := by
  fun_induction Expr.stripped e with
  | case1 inner ty ih => exact ih
  | case2 e => rfl

theorem Env.Gains.close {names : List String} {env env' : Env}
    {definitions : List (String × Expr)}
    (h : Env.Gains x w names (.recursive env definitions) (.recursive env' definitions))
    {name : String} {e literal : Expr} (hmem : (name, e) ∈ definitions)
    (hliteral : e.stripped = literal) :
    Env.Gains x w literal.freeNames (.recursive env definitions) (.recursive env' definitions) := by
  cases h with
  | recursive henv =>
      refine .recursive (henv.mono fun free hfree => ?_)
      obtain ⟨hread, hnew⟩ := mem_without.mp hfree
      refine mem_without.mpr ⟨List.mem_append_right _ ?_, hnew⟩
      rcases List.mem_append.mp hread with hread | hread
      · rw [← hliteral, Expr.freeNames_stripped] at hread
        exact List.mem_flatMap.mpr ⟨(name, e), hmem, hread⟩
      · exact hread

/-- A name that may be read is found on both sides or on none. -/
theorem Env.Gains.find {names : List String} {env env' : Env} (h : Env.Gains x w names env env')
    {name : String} (hname : name ∈ names) :
    (∃ value value', env.find name = .ok value ∧ env'.find name = .ok value'
        ∧ Value.Gains x w value value')
      ∨ ∃ failure, env.find name = .error failure ∧ env'.find name = .error failure := by
  cases h with
  | empty => exact .inr ⟨_, rfl, rfl⟩
  | @extend _ env env' key value value' henv hvalue =>
      rw [Env.find, Env.find]
      by_cases hkey : key = name
      · have hfound : (key == name) = true := by simpa using hkey
        rw [if_pos hfound, if_pos hfound]
        exact .inl ⟨value, value', rfl, rfl, hvalue⟩
      · have hother : ¬ (key == name) = true := by simpa using hkey
        have hnew : name ∉ [key] := by simpa using fun heq : name = key => hkey heq.symm
        rw [if_neg hother, if_neg hother]
        exact henv.find (mem_without.mpr ⟨hname, hnew⟩)
  | @recursive _ env env' definitions henv =>
      rw [Env.find, Env.find]
      cases hlookup : definitions.lookup name with
      | none =>
          exact henv.find (mem_without.mpr
            ⟨List.mem_append_left _ hname, lookup_eq_none_iff_not_mem.mp hlookup⟩)
      | some e =>
          have hmem := mem_of_lookup_eq_some hlookup
          -- The definition is closed over the frame, which stands for all that it reads.
          have hframes : Env.Gains x w names (.recursive env definitions)
            (.recursive env' definitions) := .recursive henv
          simp only [Env.close]
          cases hstripped : e.stripped with
          | lambda param body =>
              exact .inl ⟨_, _, rfl, rfl, .closure (hframes.close hmem hstripped)⟩
          | function rules => exact .inl ⟨_, _, rfl, rfl, .function (hframes.close hmem hstripped)⟩
          | _ => exact .inr ⟨_, rfl, rfl⟩
  | unused hx henv =>
      have hother : ¬ (x == name) = true := fun heq => hx (by rw [eq_of_beq heq]; exact hname)
      rw [Env.find, if_neg hother]
      exact henv.find hname

end Laws

/-! ### The comparison -/

/-- The same code in an environment that has gained bindings which the code does not read. -/
def unusedBinding (x : String) (w : Value) : Simulation where
  code env e env' e' := e' = e ∧ Env.Gains x w e.freeNames env env'
  value := Value.Gains x w
  failure := Eq
  excused _ := False

section Comparison

variable {x : String} {w : Value}

theorem gains_congruence : Value.Congruence (Value.Gains x w) where
  shape h := by
    cases h with
    | atom hatom => exact .atom hatom
    | list hitems => exact .list (Value.allGain_iff.mp hitems)
    | tuple hitems => exact .tuple (Value.allGain_iff.mp hitems)
    | optSome hinner => exact .optSome hinner
    | closure _ => exact .closure _ _ _ _ _ _ _ _
    | function _ => exact .function _ _ _ _
  atom := .atom
  list h := .list (Value.allGain_iff.mpr h)
  tuple h := .tuple (Value.allGain_iff.mpr h)
  optSome := .optSome

theorem unusedBinding_lawful : (unusedBinding x w).Lawful where
  values := gains_congruence
  codeless _ := rfl

private theorem sameClause_of_gains {env env' : Env} {clause : Clause Expr}
    (h : Env.Gains x w (without clause.body.freeNames clause.pattern.sureNames) env env') :
    (unusedBinding x w).SameClause env env' clause clause where
  pattern _ := rfl
  body := by
    intro value bindings bindings' hbindings hrelated
    refine ⟨rfl, .extendAll hrelated (h.mono fun name hname => ?_)⟩
    obtain ⟨hread, hnew⟩ := mem_without.mp hname
    refine mem_without.mpr ⟨hread, fun hsure => hnew ?_⟩
    exact clause.pattern.mem_bindings_of_mem_sureNames hbindings hsure

private theorem sameRules_of_gains {env env' : Env} {rules : List Rule}
    (h : Env.Gains x w (Expr.function rules).freeNames env env') :
    List.Forall₂ ((unusedBinding x w).SameClause env env') rules rules := by
  refine List.forall₂_same.mpr fun rule hrule => sameClause_of_gains (h.mono fun name hname => ?_)
  exact Expr.mem_freeNamesOfRules.mpr ⟨rule, hrule, hname⟩

private theorem callable_of_gains {func func' : Value} (h : Value.Gains x w func func')
    (hfunction : func.IsFunction) (site site' : Env) :
    (unusedBinding x w).Callable site site' func func' := by
  cases h with
  | closure henv => exact .closure (sameClause_of_gains henv) fun _ => rfl
  | function henv => exact .function (sameRules_of_gains henv)
  | atom hatom =>
      cases func with
      | closure | function | openFunction => exact hatom.elim
      | _ => exact hfunction.elim
  | _ => exact hfunction.elim

private theorem sameForm_let_of_gains {settings : Settings} {env env' : Env}
    {bindings : List Binding} {body : Expr}
    (h : Env.Gains x w (Expr.letIn false bindings body).freeNames env env') :
    (unusedBinding x w).SameForm settings env env' (.letIn false bindings body)
      (.letIn false bindings body) := by
  refine .letIn rfl (List.forall₂_same.mpr ?_) ?_
  · intro binding hbinding
    refine ⟨fun _ => rfl, fun _ => rfl, ?_⟩
    refine ⟨rfl, h.mono fun name hname => List.mem_append_left _ ?_⟩
    exact Expr.mem_freeNamesOfBodies.mpr ⟨binding, hbinding, hname⟩
  · intro values entries entries' hentries hrelated
    refine ⟨rfl, .extendAll hrelated (h.mono fun name hname => List.mem_append_right _ ?_)⟩
    obtain ⟨hread, hnew⟩ := mem_without.mp hname
    refine mem_without.mpr ⟨hread, fun hsure => hnew ?_⟩
    exact Pattern.mem_bindings_of_mem_sureNamesAll _ hentries hsure

private theorem sameForm_letRec_of_gains {settings : Settings} {env env' : Env}
    {bindings : List Binding} {body : Expr}
    (h : Env.Gains x w (Expr.letIn true bindings body).freeNames env env') :
    (unusedBinding x w).SameForm settings env env' (.letIn true bindings body)
      (.letIn true bindings body) := by
  refine .letRec rfl ?_ fun herror => ⟨_, herror, rfl⟩
  intro definitions hdefinitions
  -- The frame is read by the body and by the definitions, and so is the let.
  refine ⟨definitions, hdefinitions, rfl, .recursive (h.mono fun name hname => ?_)⟩
  obtain ⟨hread, hnew⟩ := mem_without.mp hname
  rw [map_fst_definitionsOf hdefinitions] at hnew
  refine mem_without.mpr ⟨?_, fun hsure => hnew (Pattern.sureNamesAll_subset _ hsure)⟩
  rcases List.mem_append.mp hread with hread | hread
  · exact List.mem_append_right _ hread
  · obtain ⟨entry, hentry, hfree⟩ := List.mem_flatMap.mp hread
    obtain ⟨binding, hbinding, -, hbody, -⟩ :=
      exists_binding_of_mem_definitionsOf hdefinitions hentry
    rw [hbody] at hfree
    exact List.mem_append_left _ (Expr.mem_freeNamesOfBodies.mpr ⟨binding, hbinding, hfree⟩)

/-- Code that does not read the binding has the same form with and without it. -/
theorem sameForm_of_gains {settings : Settings} (hcapture : settings.captureFunctionEnv = true)
    {env env' : Env} {e : Expr} (h : Env.Gains x w e.freeNames env env') :
    (unusedBinding x w).SameForm settings env env' e e := by
  have hparts : ∀ part ∈ e.parts, (unusedBinding x w).code env part env' part :=
    fun part hpart => ⟨rfl, h.mono fun name hname => Expr.freeNames_part hpart hname⟩
  cases e with
  | const c => exact .const c
  | ident name =>
      refine .ident ?_
      rcases h.find List.mem_cons_self with ⟨value, value', hok, hok', hvalue⟩ | ⟨f, herr, herr'⟩
      · exact .of_ok hok hok' hvalue
      · exact .of_error herr herr' rfl
  | typed inner ty => exact .typed (hparts inner List.mem_cons_self)
  | list items => exact .list (List.forall₂_same.mpr hparts)
  | tuple items => exact .tuple (List.forall₂_same.mpr hparts)
  | lambda param body => exact .lambda (.closure h)
  | ifThen cond yes =>
      exact .ifThen (hparts cond (by simp [Expr.parts])) (hparts yes (by simp [Expr.parts]))
  | ifThenElse cond yes no =>
      exact .ifThenElse (hparts cond (by simp [Expr.parts])) (hparts yes (by simp [Expr.parts]))
        (hparts no (by simp [Expr.parts]))
  | optNone => exact .optNone
  | optSome inner => exact .optSome (hparts inner List.mem_cons_self)
  | matchWith scrutinee rules =>
      refine .matchWith (hparts scrutinee List.mem_cons_self) (sameRules_of_gains ?_)
      exact h.mono fun name hname => List.mem_append_right _ hname
  | function rules =>
      refine .function ?_
      rw [Simulation.ruleFunction, Simulation.ruleFunction, if_pos hcapture, if_pos hcapture]
      exact .function h
  | apply func arg =>
      cases hoperator : func.appliedOperator? with
      | some operation =>
          obtain ⟨rfl, hsymbol⟩ := Expr.eq_of_appliedOperator? hoperator
          exact .operator hsymbol (hparts operation.2 (by simp [Expr.parts, hoperator]))
            (hparts arg (by simp [Expr.parts, hoperator]))
      | none =>
          exact .apply hoperator hoperator (hparts func (by simp [Expr.parts, hoperator]))
            (hparts arg (by simp [Expr.parts, hoperator])) fun hvalue hfunction =>
              callable_of_gains hvalue hfunction env env'
  | letIn recursive bindings body =>
      cases recursive with
      | false => exact sameForm_let_of_gains h
      | true => exact sameForm_letRec_of_gains h
  | host obj => exact .host obj

theorem eval_relates_of_gains {settings : Settings} (hcapture : settings.captureFunctionEnv = true)
    (budget : Nat) {env env' : Env} {e e' : Expr} (h : (unusedBinding x w).code env e env' e') :
    (unusedBinding x w).Relates (Value.Gains x w) (eval settings budget e env)
      (eval settings budget e' env') := by
  induction budget generalizing env env' e e' with
  | zero => exact .fail rfl
  | succ budget ih =>
      obtain ⟨rfl, hgains⟩ := h
      rw [eval_succ, eval_succ]
      exact Simulation.evalWith_relates unusedBinding_lawful ih (sameForm_of_gains hcapture hgains)

end Comparison

/-! ### Operators with both operands -/

namespace Expr

/-- The symbol occurs as an identifier only where it stands as an operator before both its operands.
-/
inductive OnlySaturated (symbol : String) : Expr → Prop
  | operator {left right : Expr} (hleft : OnlySaturated symbol left)
      (hright : OnlySaturated symbol right) :
      OnlySaturated symbol (.apply (.apply (.ident symbol) left) right)
  | other {e : Expr} (hident : e ≠ .ident symbol)
      (hchildren : ∀ child ∈ e.children, OnlySaturated symbol child) : OnlySaturated symbol e

/-- What is free in an expression is the identifier itself or free in a child. -/
private theorem free_in_child {e : Expr} {name : String} (h : name ∈ e.freeNames) :
    e = .ident name ∨ ∃ child ∈ e.children, name ∈ child.freeNames := by
  cases e with
  | ident own =>
      rw [List.mem_singleton.mp h]
      exact .inl rfl
  | typed inner ty => exact .inr ⟨inner, List.mem_cons_self, h⟩
  | list items => exact .inr (mem_freeNamesAll.mp h)
  | tuple items => exact .inr (mem_freeNamesAll.mp h)
  | lambda param body => exact .inr ⟨body, List.mem_cons_self, (mem_without.mp h).1⟩
  | ifThen cond yes =>
      rw [freeNames, List.mem_append] at h
      rcases h with h | h
      · exact .inr ⟨cond, by simp [children], h⟩
      · exact .inr ⟨yes, by simp [children], h⟩
  | ifThenElse cond yes no =>
      rw [freeNames, List.mem_append, List.mem_append] at h
      rcases h with (h | h) | h
      · exact .inr ⟨cond, by simp [children], h⟩
      · exact .inr ⟨yes, by simp [children], h⟩
      · exact .inr ⟨no, by simp [children], h⟩
  | optSome inner => exact .inr ⟨inner, List.mem_cons_self, h⟩
  | matchWith scrutinee rules =>
      rcases List.mem_append.mp h with h | h
      · exact .inr ⟨scrutinee, List.mem_cons_self, h⟩
      · obtain ⟨rule, hrule, hfree⟩ := mem_freeNamesOfRules.mp h
        exact .inr ⟨rule.body, List.mem_cons_of_mem _ (List.mem_map_of_mem hrule),
          (mem_without.mp hfree).1⟩
  | function rules =>
      obtain ⟨rule, hrule, hfree⟩ := mem_freeNamesOfRules.mp h
      exact .inr ⟨rule.body, List.mem_map_of_mem hrule, (mem_without.mp hfree).1⟩
  | apply func arg =>
      have hparts : name ∈ func.freeNames ∨ name ∈ arg.freeNames := by
        cases hoperator : func.appliedOperator? with
        | some operation =>
            obtain ⟨rfl, hsymbol⟩ := eq_of_appliedOperator? hoperator
            rw [freeNames_operator hsymbol, List.mem_append] at h
            refine h.imp_left fun h => ?_
            rw [freeNames_apply rfl]
            exact List.mem_append_right _ h
        | none =>
            rw [freeNames_apply hoperator] at h
            exact List.mem_append.mp h
      rcases hparts with h | h
      · exact .inr ⟨func, by simp [children], h⟩
      · exact .inr ⟨arg, by simp [children], h⟩
  | letIn recursive bindings body =>
      have hparts : name ∈ freeNamesOfBodies bindings ∨ name ∈ body.freeNames := by
        cases recursive with
        | true => exact List.mem_append.mp (mem_without.mp h).1
        | false => exact (List.mem_append.mp h).imp_right fun h => (mem_without.mp h).1
      rcases hparts with h | h
      · obtain ⟨binding, hbinding, hfree⟩ := mem_freeNamesOfBodies.mp h
        exact .inr ⟨binding.body, List.mem_cons_of_mem _ (List.mem_map_of_mem hbinding), hfree⟩
      · exact .inr ⟨body, List.mem_cons_self, h⟩
  | _ => cases h

private theorem OnlySaturated.not_free {symbol : String} (hsymbol : Operator.isSymbol symbol = true)
    {e : Expr} (h : e.OnlySaturated symbol) : symbol ∉ e.freeNames := by
  induction h with
  | operator _ _ ihleft ihright =>
      rw [freeNames_operator hsymbol, List.mem_append]
      exact fun hmem => hmem.elim ihleft ihright
  | other hident _ ih =>
      intro hmem
      rcases free_in_child hmem with heq | ⟨child, hchild, hfree⟩
      · exact hident heq
      · exact ih child hchild hfree

end Expr

def Decl.OnlySaturated (symbol : String) : Decl → Prop
  | .letDecl _ bindings => ∀ binding ∈ bindings, binding.body.OnlySaturated symbol
  | .expr e => e.OnlySaturated symbol
  | .host _ => True

theorem nestedLets_onlySaturated {symbol : String} {program : List Decl}
    (h : ∀ decl ∈ program, decl.OnlySaturated symbol) :
    (nestedLets program .optNone).OnlySaturated symbol := by
  induction program with
  | nil => exact .other (by simp [nestedLets]) (by simp [nestedLets, Expr.children])
  | cons decl rest ih =>
      have hdecl := h decl List.mem_cons_self
      have hrest := ih fun other hother => h other (List.mem_cons_of_mem decl hother)
      cases decl with
      | letDecl recursive bindings =>
          refine .other (by simp [nestedLets]) fun child hchild => ?_
          rcases List.mem_cons.mp hchild with rfl | hchild
          · exact hrest
          · obtain ⟨binding, hbinding, rfl⟩ := List.mem_map.mp hchild
            exact hdecl binding hbinding
      | expr e =>
          refine .other (by simp [nestedLets]) fun child hchild => ?_
          rcases List.mem_cons.mp hchild with rfl | hchild
          · exact hrest
          · rw [List.mem_singleton.mp hchild]
            exact hdecl
      | host obj => exact .other (by simp [nestedLets]) (by simp [nestedLets, Expr.children])

/-! ### Adding a binding -/

/-- The runs end in related results or in the same failure. -/
def Run.AgreeUpTo {α : Type} (R : α → α → Prop) (x y : Run α) : Prop :=
  (∃ a b, x.outcome = .ok a ∧ y.outcome = .ok b ∧ R a b)
    ∨ ∃ failure, x.outcome = .error failure ∧ y.outcome = .error failure

theorem Run.AgreeUpTo.of_relates {α : Type} {R : α → α → Prop} {x : String} {w : Value}
    {first second : Run α} (h : (unusedBinding x w).Relates R first second) :
    first.AgreeUpTo R second := by
  cases houtcome : first.outcome with
  | ok a =>
      obtain ⟨b, hb, hab⟩ := h.ok houtcome
      exact .inl ⟨a, b, houtcome, hb, hab⟩
  | error failure =>
      rcases h.error houtcome with hexcused | ⟨failure', hfailure', heq⟩
      · exact hexcused.elim
      · cases heq
        exact .inr ⟨failure, houtcome, hfailure'⟩

/-- When functions capture their environment, a binding of a name that is not free in an expression
leaves its outcome as it is, up to the binding itself in the environments of closures. So does a
binding of an operator's symbol in expressions and programs that only use it with both operands. -/
theorem agreeUpTo_extend_unused (settings : Settings)
    (hcapture : settings.captureFunctionEnv = true) {env : Env} (henv : env.Captured) (x : String)
    (w : Value) :
    (∀ e : Expr, x ∉ e.freeNames →
      (evaluate settings e env).AgreeUpTo (Value.Gains x w) (evaluate settings e (env.extend x w)))
    ∧ (Operator.isSymbol x = true →
      (∀ e : Expr, e.OnlySaturated x →
        (evaluate settings e env).AgreeUpTo (Value.Gains x w)
          (evaluate settings e (env.extend x w)))
      ∧ ∀ program : List Decl, (∀ decl ∈ program, decl.OnlySaturated x) →
        (interpret settings program env).AgreeUpTo (Env.Gains x w [])
          (interpret settings program (env.extend x w))) := by
  have hgains : ∀ e : Expr, x ∉ e.freeNames →
      (unusedBinding x w).code env e (env.extend x w) e :=
    fun e hx => ⟨rfl, .unused hx (Env.Captured.gains_self env henv _)⟩
  have heval : ∀ {env₁ e₁ env₂ e₂}, (unusedBinding x w).code env₁ e₁ env₂ e₂ →
      (unusedBinding x w).Relates (Value.Gains x w) (evaluate settings e₁ env₁)
        (evaluate settings e₂ env₂) := eval_relates_of_gains hcapture settings.budget
  refine ⟨fun e hx => .of_relates (heval (hgains e hx)), fun hsymbol => ⟨fun e he => ?_, ?_⟩⟩
  · exact .of_relates (heval (hgains e (he.not_free hsymbol)))
  · intro program hprogram
    have hcode := hgains _ ((nestedLets_onlySaturated hprogram).not_free hsymbol)
    have hrelates := Simulation.interpret_relates unusedBinding_lawful
      (fun h => sameForm_of_gains hcapture h.2) heval hcode
    exact .of_relates (Run.Ends.imp hrelates (fun final h => h.imp fun final' h => ⟨h.1, h.2.2⟩)
      fun _ => id)

/-- A closure over `+` in its own code, made beside a binding of `+` to a function without
environment. -/
theorem agreeUpTo_extend_plus :
    let e : Expr := .lambda (.ident "y")
      (.apply (.apply (.ident "+") (.ident "y")) (.ident "k"))
    let env : Env := .extend .empty "k" (.int 1)
    let w : Value := .openFunction []
    let program : List Decl := [.letDecl false [⟨.ident "next", e⟩]]
    ({} : Settings).captureFunctionEnv = true ∧ env.Captured ∧ "+" ∉ e.freeNames
      ∧ Operator.isSymbol "+" = true ∧ e.OnlySaturated "+"
      ∧ (∀ decl ∈ program, decl.OnlySaturated "+")
      ∧ (evaluate {} e env).AgreeUpTo (Value.Gains "+" w) (evaluate {} e (env.extend "+" w))
      ∧ (interpret {} program env).AgreeUpTo (Env.Gains "+" w [])
        (interpret {} program (env.extend "+" w)) := by
  intro e env w program
  have henv : env.Captured := ⟨trivial, trivial⟩
  have hfree : "+" ∉ e.freeNames := by decide
  have hident : ∀ name, name ≠ "+" → (Expr.ident name).OnlySaturated "+" :=
    fun name hname => .other (by simpa using hname) (by simp [Expr.children])
  have he : e.OnlySaturated "+" := by
    refine .other (by simp [e]) fun child hchild => ?_
    rw [List.mem_singleton.mp hchild]
    exact .operator (hident "y" (by decide)) (hident "k" (by decide))
  have hprogram : ∀ decl ∈ program, decl.OnlySaturated "+" := by
    simpa [program, Decl.OnlySaturated] using he
  have hagree := agreeUpTo_extend_unused {} rfl henv "+" w
  exact ⟨rfl, henv, hfree, rfl, he, hprogram, hagree.1 e hfree, (hagree.2 rfl).2 program hprogram⟩

end MiniMl
