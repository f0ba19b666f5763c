import MiniMl.Proofs.RecursiveLets
import MiniMl.Proofs.Tables
/-!
# Environments made by extension

An environment is made from the empty one by steps: a step binds one name to a value, or a block of
names to function literals. A step decides the names that it binds and leaves all others as they
were (`Extension.find_of_mem`, `Extension.find_of_not_mem`), so after any number of steps the last
one that binds a name decides it. What that step gives does not depend on the steps after it: a
function literal is closed over the environment to which its own step has led.
-/

namespace MiniMl

/-- A step that extends an environment. -/
inductive Extension where
  | bind (name : String) (value : Value)
  /-- Definitions that see each other. A repeated name keeps its last definition. -/
  | define (definitions : List (String × Expr))

namespace Extension

/-- The environment to which a step leads. Definitions other than function literals are refused. -/
def apply (env : Env) : Extension → Except Malformed Env
  | .bind name value => .ok (.extend env name value)
  | .define definitions => env.extendRecursive definitions

/-- The names that a step binds. -/
def names : Extension → List String
  | .bind name _ => [name]
  | .define definitions => definitions.map Prod.fst

/-- What a step that has led to an environment gives a name. -/
inductive Gives (reached : Env) (name : String) : Extension → Value → Prop
  | value (value : Value) : Gives reached name (.bind name value) value
  | literal {definitions : List (String × Expr)} {e : Expr} {function : Value}
      (hlast : definitions.reverse.lookup name = some e)
      (hclosure : function.ClosureOf reached e) :
      Gives reached name (.define definitions) function

end Extension

namespace Env

/-! ### One step -/

private theorem extendRecursive_eq_ok_iff {env reached : Env} {definitions : List (String × Expr)} :
    env.extendRecursive definitions = .ok reached
      ↔ reached = .recursive env (Assoc.ofList definitions)
        ∧ ∀ entry ∈ Assoc.ofList definitions, entry.2.isFunctionLiteral = true := by
  rw [extendRecursive]
  cases hfirst : (Assoc.ofList definitions).find? fun entry => !entry.2.isFunctionLiteral with
  | some entry =>
      have hmem := List.mem_of_find?_eq_some hfirst
      have hnot : entry.2.isFunctionLiteral = false := by simpa using List.find?_some hfirst
      refine ⟨fun h => (by cases h), fun h => ?_⟩
      rw [h.2 entry hmem] at hnot
      cases hnot
  | none =>
      have hall : ∀ entry ∈ Assoc.ofList definitions, entry.2.isFunctionLiteral = true := by
        simpa using hfirst
      constructor
      · intro h
        cases h
        exact ⟨rfl, hall⟩
      · rintro ⟨rfl, -⟩
        rfl

end Env

namespace Extension

variable {step : Extension} {env reached : Env} {name : String}

private theorem mem_frameNames (h : step.apply env = .ok reached) :
    name ∈ reached.frameNames ↔ name ∈ step.names ∨ name ∈ env.frameNames := by
  cases step with
  | bind key value =>
      cases h
      simp [Env.frameNames, names]
  | define definitions =>
      obtain ⟨rfl, -⟩ := Env.extendRecursive_eq_ok_iff.mp h
      rw [Env.frameNames, List.mem_append, Assoc.mem_keys_ofList, names]

private theorem find_of_mem (h : step.apply env = .ok reached) (hname : name ∈ step.names) :
    ∃ value, step.Gives reached name value ∧ reached.find name = .ok value := by
  cases step with
  | bind key value =>
      cases h
      obtain rfl := List.mem_singleton.mp hname
      exact ⟨value, .value value, by simp [Env.find]⟩
  | define definitions =>
      obtain ⟨rfl, hliterals⟩ := Env.extendRecursive_eq_ok_iff.mp h
      have hkey := Assoc.mem_keys_ofList.mpr hname
      cases hlookup : (Assoc.ofList definitions).lookup name with
      | none => exact absurd hkey (lookup_eq_none_iff_not_mem.mp hlookup)
      | some e =>
          have hliteral := hliterals _ (mem_of_lookup_eq_some hlookup)
          obtain ⟨function, hfind, hclosure⟩ := @Env.find_definition env _ _ _ hlookup hliteral
          rw [Assoc.lookup_ofList] at hlookup
          exact ⟨function, .literal hlookup hclosure, hfind⟩

private theorem find_of_not_mem (h : step.apply env = .ok reached) (hname : name ∉ step.names) :
    reached.find name = env.find name := by
  cases step with
  | bind key value =>
      cases h
      have hne : ¬ key = name := fun heq => hname (List.mem_singleton.mpr heq.symm)
      rw [Env.find, if_neg (by simpa using hne)]
  | define definitions =>
      obtain ⟨rfl, -⟩ := Env.extendRecursive_eq_ok_iff.mp h
      exact Env.find_of_not_defined fun hkey => hname (Assoc.mem_keys_ofList.mp hkey)

end Extension

namespace Env

/-! ### Any number of steps -/

/-- The environment to which steps lead, if all of them succeed. -/
def extendBy (env : Env) (steps : List Extension) : Except Malformed Env :=
  steps.foldlM Extension.apply env

variable {env reached : Env} {steps : List Extension} {name : String}

theorem extendBy_cons_eq_ok_iff {step : Extension} :
    env.extendBy (step :: steps) = .ok reached
      ↔ ∃ middle, step.apply env = .ok middle ∧ middle.extendBy steps = .ok reached := by
  rw [extendBy, List.foldlM_cons]
  cases step.apply env with
  | error m => exact ⟨fun h => (by cases h), fun ⟨_, h, _⟩ => (by cases h)⟩
  | ok middle => exact ⟨fun h => ⟨middle, rfl, h⟩, fun ⟨_, heq, h⟩ => (by cases heq; exact h)⟩

private theorem extendBy_append_eq_ok_iff {later : List Extension} :
    env.extendBy (steps ++ later) = .ok reached
      ↔ ∃ middle, env.extendBy steps = .ok middle ∧ middle.extendBy later = .ok reached := by
  induction steps generalizing env with
  | nil => exact ⟨fun h => ⟨env, rfl, h⟩, fun ⟨_, heq, h⟩ => (by cases heq; exact h)⟩
  | cons step steps ih =>
      simp only [List.cons_append, extendBy_cons_eq_ok_iff, ih]
      exact ⟨fun ⟨a, ha, b, hb, h⟩ => ⟨b, ⟨a, ha, hb⟩, h⟩,
        fun ⟨b, ⟨a, ha, hb⟩, h⟩ => ⟨a, ha, b, hb, h⟩⟩

private theorem mem_frameNames_extendBy (h : env.extendBy steps = .ok reached) :
    name ∈ reached.frameNames
      ↔ (∃ step ∈ steps, name ∈ step.names) ∨ name ∈ env.frameNames := by
  induction steps generalizing env with
  | nil =>
      cases h
      simp
  | cons step steps ih =>
      obtain ⟨middle, hstep, hsteps⟩ := extendBy_cons_eq_ok_iff.mp h
      rw [ih hsteps, Extension.mem_frameNames hstep, or_left_comm, ← or_assoc]
      simp

private theorem find_extendBy_of_not_mem (h : env.extendBy steps = .ok reached)
    (hname : ∀ step ∈ steps, name ∉ step.names) : reached.find name = env.find name := by
  induction steps generalizing env with
  | nil =>
      cases h
      rfl
  | cons step steps ih =>
      obtain ⟨middle, hstep, hsteps⟩ := extendBy_cons_eq_ok_iff.mp h
      rw [ih hsteps fun other hother => hname other (List.mem_cons_of_mem step hother),
        Extension.find_of_not_mem hstep (hname step List.mem_cons_self)]

/-- The last step that binds a name decides it, by the environment to which that step led. -/
private theorem find_extendBy_of_last {before later : List Extension} {step : Extension}
    (h : env.extendBy (before ++ step :: later) = .ok reached) (hname : name ∈ step.names)
    (hlater : ∀ other ∈ later, name ∉ other.names) :
    ∃ middle value, env.extendBy (before ++ [step]) = .ok middle ∧ step.Gives middle name value
      ∧ reached.find name = .ok value := by
  rw [List.append_cons] at h
  obtain ⟨middle, hmiddle, hrest⟩ := extendBy_append_eq_ok_iff.mp h
  obtain ⟨start, -, hlast⟩ := extendBy_append_eq_ok_iff.mp hmiddle
  obtain ⟨landed, hstep, hnone⟩ := extendBy_cons_eq_ok_iff.mp hlast
  cases hnone
  obtain ⟨value, hgives, hfind⟩ := Extension.find_of_mem hstep hname
  exact ⟨middle, value, hmiddle, hgives, (find_extendBy_of_not_mem hrest hlater).trans hfind⟩

private theorem exists_last_step (h : ∃ step ∈ steps, name ∈ step.names) :
    ∃ before step later, steps = before ++ step :: later ∧ name ∈ step.names
      ∧ ∀ other ∈ later, name ∉ other.names := by
  induction steps using List.reverseRecOn with
  | nil => simp at h
  | append_singleton steps step ih =>
      by_cases hlast : name ∈ step.names
      · exact ⟨steps, step, [], rfl, hlast, by simp⟩
      · have hearlier : ∃ step ∈ steps, name ∈ step.names := by
          simpa [or_and_right, exists_or, hlast] using h
        obtain ⟨before, found, later, rfl, hfound, hlater⟩ := ih hearlier
        refine ⟨before, found, later ++ [step], by simp, hfound, ?_⟩
        intro other hother
        rcases List.mem_append.mp hother with hother | hother
        · exact hlater other hother
        · exact List.mem_singleton.mp hother ▸ hlast

/-- In an environment that steps have made from the empty one, the names are those that some step
binds. Just these are found, each as what the last step that binds it gives, in the environment to
which this step led. Any other name is reported as not bound, and nothing else can be reported. -/
theorem find_decided_by_last_step (h : Env.empty.extendBy steps = .ok env) (name : String) :
    (name ∈ env.names ↔ ∃ step ∈ steps, name ∈ step.names)
      ∧ ((∃ value, env.find name = .ok value) ↔ name ∈ env.names)
      ∧ (∀ before step later, steps = before ++ step :: later → name ∈ step.names →
        (∀ other ∈ later, name ∉ other.names) →
        ∃ reached value, Env.empty.extendBy (before ++ [step]) = .ok reached
          ∧ step.Gives reached name value ∧ env.find name = .ok value)
      ∧ (name ∉ env.names → env.find name = .error (.error (.unbound name)))
      ∧ ∀ m, env.find name ≠ .error (.malformed m) := by
  have hnames : name ∈ env.names ↔ ∃ step ∈ steps, name ∈ step.names := by
    rw [mem_names, mem_frameNames_extendBy h]
    simp [frameNames]
  have hlast : ∀ before step later, steps = before ++ step :: later → name ∈ step.names →
      (∀ other ∈ later, name ∉ other.names) →
      ∃ reached value, Env.empty.extendBy (before ++ [step]) = .ok reached
        ∧ step.Gives reached name value ∧ env.find name = .ok value := by
    rintro before step later rfl hname hlater
    exact find_extendBy_of_last h hname hlater
  have hfound : name ∈ env.names → ∃ value, env.find name = .ok value := by
    intro hname
    obtain ⟨before, step, later, hsteps, hbinds, hlater⟩ := exists_last_step (hnames.mp hname)
    obtain ⟨-, value, -, -, hfind⟩ := hlast before step later hsteps hbinds hlater
    exact ⟨value, hfind⟩
  have hmissing : name ∉ env.names → env.find name = .error (.error (.unbound name)) := by
    intro hname
    exact find_eq_error_iff.mpr ⟨rfl, fun hmem => hname (mem_names.mpr hmem)⟩
  refine ⟨hnames, ⟨?_, hfound⟩, hlast, hmissing, ?_⟩
  · rintro ⟨value, hfind⟩
    by_contra hname
    rw [hmissing hname] at hfind
    cases hfind
  · intro m hmalformed
    by_cases hname : name ∈ env.names
    · obtain ⟨value, hfind⟩ := hfound hname
      rw [hfind] at hmalformed
      cases hmalformed
    · rw [hmissing hname] at hmalformed
      cases hmalformed

/-- A value that definitions hide, and a definition that a value hides: the function of the other
definition still carries the environment in which both definitions can be seen. -/
theorem find_decided_by_last_step_shadowed :
    let even : Expr := .lambda (.ident "n") (.apply (.ident "odd") (.ident "n"))
    let definitions : List (String × Expr) :=
      [("even", .typed even (.named "t" [])), ("odd", .function [⟨.wild, .ident "even"⟩])]
    let steps : List Extension :=
      [.bind "even" (.int 0), .define definitions, .bind "odd" (.int 1)]
    let reached : Env := .recursive (.extend .empty "even" (.int 0)) definitions
    let env : Env := .extend reached "odd" (.int 1)
    Env.empty.extendBy steps = .ok env
      ∧ env.find "even"
        = .ok (.closure (.ident "n") (.apply (.ident "odd") (.ident "n")) reached true)
      ∧ env.find "odd" = .ok (.int 1)
      ∧ env.find "n" = .error (.error (.unbound "n")) := by
  intro even definitions steps reached env
  have hsteps : Env.empty.extendBy steps = .ok env := rfl
  obtain ⟨-, -, heven, -, -⟩ := find_decided_by_last_step hsteps "even"
  obtain ⟨-, -, hodd, -, -⟩ := find_decided_by_last_step hsteps "odd"
  obtain ⟨-, -, -, hmissing, -⟩ := find_decided_by_last_step hsteps "n"
  refine ⟨hsteps, ?_, ?_, hmissing (by decide)⟩
  · obtain ⟨middle, value, hmiddle, hgives, hfind⟩ :=
      heven [.bind "even" (.int 0)] (.define definitions) _ rfl (by decide) (by decide)
    obtain rfl : reached = middle := Except.ok.inj hmiddle
    rw [hfind]
    cases hgives with
    | literal hlast hclosure =>
        obtain rfl := Option.some.inj hlast
        cases hclosure with
        | lambda hstripped =>
            cases hstripped
            rfl
        | function hstripped => cases hstripped
  · obtain ⟨middle, value, -, hgives, hfind⟩ :=
      hodd [.bind "even" (.int 0), .define definitions] (.bind "odd" (.int 1)) [] rfl (by decide)
        (by decide)
    rw [hfind]
    cases hgives
    rfl

end Env

end MiniMl
