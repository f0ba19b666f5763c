import MiniMl.Proofs.Hosts
import MiniMl.Proofs.Safety.Discipline
/-!
# Integers in the messages of a run

The messages and the failures of an evaluation show integers that stand in its code, and the limit
of its depth; they show no integer that was computed. What all the integers of the code satisfy is
therefore a lawful discipline (`literals`). A host that can write the integers of the code never
fails for want of a text.
-/

namespace MiniMl

/-! ### Code -/

private theorem Expr.mem_integersAll {e : Expr} {es : List Expr} (he : e ∈ es) {n : Int}
    (hn : n ∈ e.integers) : n ∈ Expr.integersAll es := by
  induction es with
  | nil => cases he
  | cons first rest ih =>
      rw [integersAll]
      rcases List.mem_cons.mp he with rfl | he
      · exact List.mem_append_left _ hn
      · exact List.mem_append_right _ (ih he)

theorem Expr.integers_subset_of_mem_parts {e part : Expr} (hpart : part ∈ e.parts) :
    part.integers ⊆ e.integers := by
  intro n hn
  cases e with
  | typed inner ty =>
      rw [List.mem_singleton.mp hpart] at hn
      exact hn
  | list items => exact Expr.mem_integersAll hpart hn
  | tuple items => exact Expr.mem_integersAll hpart hn
  | ifThen cond yes =>
      simp only [Expr.parts, List.mem_cons, List.not_mem_nil, or_false] at hpart
      rw [integers, List.mem_append]
      rcases hpart with rfl | rfl
      · exact .inl hn
      · exact .inr hn
  | ifThenElse cond yes no =>
      simp only [Expr.parts, List.mem_cons, List.not_mem_nil, or_false] at hpart
      rw [integers, List.mem_append, List.mem_append]
      rcases hpart with rfl | rfl | rfl
      · exact .inl (.inl hn)
      · exact .inl (.inr hn)
      · exact .inr hn
  | optSome inner =>
      rw [List.mem_singleton.mp hpart] at hn
      exact hn
  | matchWith scrutinee rules =>
      rw [List.mem_singleton.mp hpart] at hn
      exact List.mem_append_left _ hn
  | apply func arg =>
      rw [integers, List.mem_append]
      rcases mem_parts_apply hpart with rfl | rfl | ⟨symbol, rfl⟩
      · exact .inr hn
      · exact .inl hn
      · exact .inl (List.mem_append_right _ hn)
  | letIn recursive bindings body =>
      cases recursive with
      | true => cases hpart
      | false =>
          obtain ⟨binding, hbinding, rfl⟩ := List.mem_map.mp hpart
          exact List.mem_append_left _ (Expr.mem_clauseIntegers hbinding (.inr hn))
  | _ => cases hpart

/-- The integers that the text shows. -/
def Decl.integers : Decl → List Int
  | .letDecl _ bindings => Expr.clauseIntegers bindings
  | .expr e => e.integers
  | .host _ => []

private theorem mem_integers_nestedLets {program : List Decl} {n : Int}
    (h : n ∈ (nestedLets program .optNone).integers) : ∃ decl ∈ program, n ∈ decl.integers := by
  induction program with
  | nil => cases h
  | cons decl rest ih =>
      cases decl with
      | letDecl recursive bindings =>
          rcases List.mem_append.mp h with h | h
          · exact ⟨_, List.mem_cons_self, h⟩
          · exact (ih h).imp fun other hother => ⟨List.mem_cons_of_mem _ hother.1, hother.2⟩
      | expr e =>
          rcases List.mem_append.mp h with h | h
          · refine ⟨_, List.mem_cons_self, ?_⟩
            simpa [Expr.clauseIntegers, Pattern.integers, Decl.integers] using h
          · exact (ih h).imp fun other hother => ⟨List.mem_cons_of_mem _ hother.1, hother.2⟩
      | host obj => cases h

/-! ### The discipline -/

/-- All integers in the code satisfy a predicate. -/
def literals (P : Int → Prop) : Discipline where
  code _ e := ∀ n ∈ e.integers, P n
  openRules rules := ∀ n ∈ (Expr.function rules).integers, P n
  definition _ := True
  tupleSize _ := True

section Laws

variable {P : Int → Prop}

/-- A look-up that fails shows nothing but the code of a definition. -/
private theorem Env.Obeys.find_integers {env : Env} (henv : env.Obeys (literals P)) {name : String}
    {failure : Failure} (h : env.find name = .error failure) : ∀ n ∈ failure.integers, P n := by
  rcases henv.find_error h with rfl | ⟨frame, e, -, hcode, -, rfl⟩
  · exact fun n hn => (List.not_mem_nil hn).elim
  · exact hcode

theorem literals_lawful {settings : Settings} (hlimit : P settings.maxDepth) :
    (literals P).Lawful settings (fun failure => ∀ n ∈ failure.integers, P n)
      fun event => ∀ n ∈ event.integers, P n where
  part h hpart n hn := h n (Expr.integers_subset_of_mem_parts hpart hn)
  rules h n hn := h n (List.mem_append_right _ hn)
  rule h hrule _ n hn := h n (Expr.mem_clauseIntegers hrule (.inr hn))
  body h _ n hn := h n (List.mem_append_right _ hn)
  letBody h _ n hn := h n (List.mem_append_right _ hn)
  letRec := by
    intro env bindings body definitions h hdefinitions
    refine ⟨fun n hn => h n (List.mem_append_right _ hn), fun entry hentry => ⟨trivial, ?_⟩⟩
    obtain ⟨binding, hbinding, -, hbody, -⟩ :=
      exists_binding_of_mem_definitionsOf hdefinitions hentry
    rw [hbody]
    exact fun n hn => h n (List.mem_append_left _ (Expr.mem_clauseIntegers hbinding (.inr hn)))
  openRules _ h := h
  closeRules h := h
  tuple _ := trivial
  shortTuple _ _ n hn := (List.not_mem_nil hn).elim
  lookup _ henv hfind := henv.find_integers hfind
  noRule _ _ n hn := (List.not_mem_nil hn).elim
  argument h _ n hn := h n (List.mem_append_left _ hn)
  letValue h hbinding _ n hn :=
    h n (List.mem_append_left _ (Expr.mem_clauseIntegers hbinding (.inl hn)))
  tooDeep n hn := List.mem_singleton.mp hn ▸ hlimit
  other e _ _ hshows n hn := by
    obtain ⟨env, e', hcode, hmem⟩ := hshows n hn
    exact hcode n hmem
  message event hshows n hn := by
    obtain ⟨env, e', hcode, hmem⟩ := hshows n hn
    exact hcode n hmem

end Laws

/-! ### Texts on a host -/

namespace Host

variable {host : Host}

/-- A literal that cannot be written does end an evaluation, in place of the error that shows it. -/
theorem evaluate_measure_of_not_writes {settings : Settings} (hroom : host.recursionLimit = none)
    (hdepth : 1 ≤ settings.maxDepth) {n : Int} (hn : host.writes n = false) (unit : String)
    (env : Env) :
    (host.evaluate settings (.const (.measure (.int n) unit)) env).outcome
      = .error (.unwritable n) := by
  obtain ⟨budget, hbudget⟩ : ∃ budget, settings.budget = budget + 1 :=
    ⟨settings.budget - 1, by unfold Settings.budget; omega⟩
  have hnone : host.room settings = none := by
    rw [room, hroom]
    rfl
  let c : Constant := .measure (.int n) unit
  have hfound : host.unwritable? (Run.ofEval c.value) = some n := by
    change [n].find? (fun n => !host.writes n) = some n
    simp [hn]
  rw [evaluate, hbudget, hnone]
  change (Hosted.after (.constant c) (Hosted.lift (Run.ofEval c.value)) none).outcome = _
  rw [Hosted.after_of_fits rfl]
  simp only [Hosted.lift, hfound]

theorem writes_of_mem_shown {α : Type} {Q : α → Prop} {x : Run α}
    (h : x.Stays Q (fun failure => ∀ n ∈ failure.integers, host.writes n = true)
      fun event => ∀ n ∈ event.integers, host.writes n = true) {n : Int}
    (hn : n ∈ host.shown x) : host.writes n = true := by
  rcases List.mem_append.mp hn with hn | hn
  · obtain ⟨event, hevent, hn⟩ := List.mem_flatMap.mp hn
    exact h.log event (List.mem_filter.mp hevent).1 n hn
  · cases houtcome : x.outcome with
    | ok a =>
        rw [houtcome] at hn
        cases hn
    | error failure =>
        rw [houtcome] at hn
        exact h.error houtcome n hn

/-- The host can write all integers in the code that can be reached from an environment. -/
def WritesCode (host : Host) (env : Env) : Prop :=
  env.Obeys (literals fun n => host.writes n = true)

variable {settings : Settings} {env : Env} (hlimit : host.writes settings.maxDepth = true)
  (henv : host.WritesCode env)

include hlimit henv

theorem writes_shown_evaluate {e : Expr} (he : ∀ n ∈ e.integers, host.writes n = true) :
    ∀ n ∈ host.shown (MiniMl.evaluate settings e env), host.writes n = true := fun _ hn =>
  writes_of_mem_shown ((literals_lawful hlimit).evaluate_stays henv he) hn

theorem writes_shown_interpret {program : List Decl}
    (hprogram : ∀ decl ∈ program, ∀ n ∈ decl.integers, host.writes n = true) :
    ∀ n ∈ host.shown (MiniMl.interpret settings program env), host.writes n = true := by
  have hnested : ∀ n ∈ (nestedLets program .optNone).integers, host.writes n = true := by
    intro n hn
    obtain ⟨decl, hdecl, hn⟩ := mem_integers_nestedLets hn
    exact hprogram decl hdecl n hn
  exact fun _ hn => writes_of_mem_shown ((literals_lawful hlimit).interpret_stays henv hnested) hn

end Host

end MiniMl
