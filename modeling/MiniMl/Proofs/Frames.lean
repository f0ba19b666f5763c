import MiniMl.Proofs.Hosts
import MiniMl.Proofs.Safety.Discipline
/-!
# Room for calls

How much room an evaluation needs is bounded level by level. From one evaluation to the next one in
it there are five calls at most, so the room that the evaluator asks for is enough for its own calls
(`descend_within`). Where an evaluation finds no room although its limit is one that can be set, a
step or the caller has used up the margin.
-/

namespace MiniMl

namespace Hosted

variable {host : Host} {α β : Type} {k : Nat}

/-- Room for so many calls is enough, and on top of it what the deepest step takes. -/
def Within (x : Hosted host α) (k : Nat) : Prop :=
  ∀ room s, (x room).outcome = .error (.noRoom s) →
    ∃ left, room = some left ∧ left < k + s.elim 0 host.frames

namespace Within

theorem mono {x : Hosted host α} {k' : Nat} (h : x.Within k) (hle : k ≤ k') : x.Within k' := by
  intro room s hnone
  obtain ⟨left, rfl, hleft⟩ := h room s hnone
  exact ⟨left, rfl, by omega⟩

theorem pure (a : α) : (Pure.pure a : Hosted host α).Within k := by
  intro room s hnone
  cases hnone

theorem lift (r : Run α) : (Hosted.lift r : Hosted host α).Within k := by
  intro room s hnone
  rw [Hosted.lift] at hnone
  split at hnone
  · cases hnone
  · cases hr : r.outcome <;> rw [Run.hosted, hr] at hnone <;> cases hnone

theorem bind_of_ok {x : Hosted host α} {next : α → Hosted host β} (hx : x.Within k)
    (hnext : ∀ room a, (x room).outcome = .ok a → (next a).Within k) : (x >>= next).Within k := by
  intro room s hnone
  cases hfirst : (x room).outcome with
  | ok a =>
      rw [outcome_bind_of_ok hfirst] at hnone
      exact hnext room a hfirst room s hnone
  | error failure =>
      rw [outcome_bind_of_error hfirst] at hnone
      cases hnone
      exact hx room s hfirst

theorem bind {x : Hosted host α} {next : α → Hosted host β} (hx : x.Within k)
    (hnext : ∀ a, (next a).Within k) : (x >>= next).Within k :=
  hx.bind_of_ok fun _ a _ => hnext a

theorem after {x : Hosted host α} (s : Step) (hx : x.Within k) : (Hosted.after s x).Within k := by
  intro room s' hnone
  by_cases hfits : room.all (host.frames s ≤ ·) = true
  · rw [after_of_fits hfits] at hnone
    exact hx room s' hnone
  · rw [after_of_not_fits hfits] at hnone
    cases hnone
    cases room with
    | none => exact absurd rfl hfits
    | some left =>
        have hless : ¬ host.frames s ≤ left := by simpa using hfits
        exact ⟨left, rfl, by rw [Option.elim_some]; omega⟩

theorem call {x : Hosted host α} (hx : x.Within k) : (Hosted.call x).Within (k + 1)
  | none, s, hnone => by
      obtain ⟨left, hroom, -⟩ := hx none s hnone
      cases hroom
  | some 0, s, hnone => ⟨0, rfl, by omega⟩
  | some (room + 1), s, hnone => by
      obtain ⟨left, hroom, hleft⟩ := hx (some room) s hnone
      cases hroom
      exact ⟨room + 1, rfl, by omega⟩

theorem step (s : Step) (r : Run α) : (Machine.step s r : Hosted host α).Within k :=
  (lift r).after s

theorem makeValue (value : Value) : (makeValue value : Hosted host Value).Within k :=
  (pure value).after _

theorem traceEvent (settings : Settings) (event : Event) :
    (settings.traceEvent event : Hosted host Unit).Within k := by
  rw [Settings.traceEvent]
  split
  · exact step _ _
  · exact pure ()

end Within

end Hosted

/-! ### The room that a computation takes -/

namespace Hosted

variable {host : Host} {α β : Type} {k : Nat}

/-- The computation has the outcome, unless it ends at a limit of the host before. -/
def EndsAs (x : Hosted host α) (outcome : Except Failure α) : Prop :=
  ∀ room, (x room).outcome = outcome.mapError .failure
    ∨ (∃ s, (x room).outcome = .error (.noRoom s) ∧ room ≠ none)
    ∨ ∃ failure n, outcome = .error failure ∧ n ∈ failure.integers ∧ host.writes n = false
      ∧ (x room).outcome = .error (.unwritable n)

namespace EndsAs

variable {outcome : Except Failure α}

theorem ok_or_noRoom {x : Hosted host α} {a : α} (h : x.EndsAs (.ok a)) (room : Option Nat) :
    (x room).outcome = .ok a ∨ ∃ s, (x room).outcome = .error (.noRoom s) := by
  rcases h room with hok | ⟨s, hnone, -⟩ | ⟨failure, n, herror, -⟩
  · exact .inl hok
  · exact .inr ⟨s, hnone⟩
  · cases herror

/-- A step whose messages show no integers. -/
theorem step (s : Step) {r : Run α} (h : r.outcome = outcome)
    (hlog : ∀ event ∈ r.log, event.integers = []) :
    (Machine.step s r : Hosted host α).EndsAs outcome := by
  intro room
  rcases (Refines.lift r).after s room with hsame | hroom | ⟨n, hshown, hnone, hwrites⟩
  · refine .inl ?_
    rw [← h]
    exact congrArg HostRun.outcome hsame
  · exact .inr (.inl hroom)
  · have hevents : (r.log.filter host.formats).flatMap Event.integers = [] := by
      rw [List.flatMap_eq_nil_iff]
      exact fun event hmem => hlog event (List.mem_filter.mp hmem).1
    rw [Host.shown, hevents, List.nil_append, h] at hshown
    cases outcome with
    | ok a => cases hshown
    | error failure => exact .inr (.inr ⟨failure, n, rfl, hshown, hwrites, hnone⟩)

theorem after {x : Hosted host α} (s : Step) (h : x.EndsAs outcome) :
    (Hosted.after s x).EndsAs outcome := by
  intro room
  by_cases hfits : room.all (host.frames s ≤ ·) = true
  · rw [after_of_fits hfits]
    exact h room
  · refine .inr (.inl ⟨some s, by rw [after_of_not_fits hfits], ?_⟩)
    rintro rfl
    exact hfits rfl

theorem call {x : Hosted host α} (h : x.EndsAs outcome) : (Hosted.call x).EndsAs outcome
  | none => h none
  | some 0 => .inr (.inl ⟨none, rfl, Option.some_ne_none 0⟩)
  | some (room + 1) =>
    (h (some room)).imp id (.imp (fun ⟨s, hnone, _⟩ => ⟨s, hnone, Option.some_ne_none _⟩) id)

theorem bind {x : Hosted host β} {next : β → Hosted host α} {b : β} (hx : x.EndsAs (.ok b))
    (hnext : (next b).EndsAs outcome) : (x >>= next).EndsAs outcome := by
  intro room
  rcases hx room with hok | ⟨s, hnone, hlimited⟩ | ⟨failure, n, herror, -⟩
  · rw [outcome_bind_of_ok hok]
    exact hnext room
  · exact .inr (.inl ⟨s, outcome_bind_of_error hnone next, hlimited⟩)
  · cases herror

theorem bind_error {x : Hosted host β} {failure : Failure} (hx : x.EndsAs (.error failure))
    (next : β → Hosted host α) : (x >>= next).EndsAs (.error failure) := by
  intro room
  rcases hx room with herror | ⟨s, hnone, hlimited⟩ | ⟨failure', n, herror, hmem, hwrites, hnone⟩
  · exact .inl (outcome_bind_of_error herror next)
  · exact .inr (.inl ⟨s, outcome_bind_of_error hnone next, hlimited⟩)
  · cases herror
    exact .inr (.inr ⟨failure, n, rfl, hmem, hwrites, outcome_bind_of_error hnone next⟩)

theorem traceEvent (settings : Settings) {event : Event} (h : event.integers = []) :
    (settings.traceEvent event : Hosted host Unit).EndsAs (.ok ()) := by
  rw [Settings.traceEvent]
  split
  · refine step _ rfl fun other hmem => ?_
    rw [List.mem_singleton.mp hmem, h]
  · exact fun _ => .inl rfl

end EndsAs

/-- What is the outcome on all hosts is the outcome without a host. -/
theorem EndsAs.outcome_evaluate {settings : Settings} {e : Expr} {env : Env}
    {outcome : Except Failure Value}
    (h : ∀ host : Host, (host.descend settings settings.budget e env).EndsAs outcome) :
    (evaluate settings e env).outcome = outcome := by
  have hsame : Host.unlimited.evaluate settings e env = (evaluate settings e env).hosted :=
    (Host.unlimited.evaluate_refines settings e env).eq_hosted rfl rfl
  have houtcome : (evaluate settings e env).hosted.outcome = outcome.mapError .failure := by
    rw [← hsame]
    rcases h Host.unlimited none with hends | ⟨_, _, hlimited⟩ | ⟨_, n, _, _, hwrites, _⟩
    · exact hends
    · exact absurd rfl hlimited
    · cases hwrites
  rw [Run.hosted] at houtcome
  cases hrun : (evaluate settings e env).outcome <;> cases outcome <;> rw [hrun] at houtcome
    <;> cases houtcome <;> rfl

/-- With room for so many calls the computation comes to the result, unless a step takes more, and
with less room it does not. -/
structure Takes (x : Hosted host α) (k : Nat) (a : α) : Prop where
  ends : x.EndsAs (.ok a)
  within : x.Within k
  short : ∀ left < k, ∃ s, (x (some left)).outcome = .error (.noRoom s)

namespace Takes

theorem step (s : Step) {r : Run α} {a : α} (h : r.outcome = .ok a)
    (hlog : ∀ event ∈ r.log, event.integers = []) :
    (Machine.step s r : Hosted host α).Takes 0 a :=
  ⟨.step s h hlog, .step s r, fun _ hless => absurd hless (Nat.not_lt_zero _)⟩

theorem traceEvent (settings : Settings) {event : Event} (h : event.integers = []) :
    (settings.traceEvent event : Hosted host Unit).Takes 0 () :=
  ⟨.traceEvent settings h, .traceEvent settings event,
    fun _ hless => absurd hless (Nat.not_lt_zero _)⟩

theorem after {x : Hosted host α} {a : α} (s : Step) (hx : x.Takes k a) :
    (Hosted.after s x).Takes k a where
  ends := hx.ends.after s
  within := hx.within.after s
  short left hless := by
    by_cases hfits : (some left).all (host.frames s ≤ ·) = true
    · rw [after_of_fits hfits]
      exact hx.short left hless
    · exact ⟨some s, by rw [after_of_not_fits hfits]⟩

theorem call {x : Hosted host α} {a : α} (hx : x.Takes k a) : (Hosted.call x).Takes (k + 1) a where
  ends := hx.ends.call
  within := hx.within.call
  short
    | 0, _ => ⟨none, rfl⟩
    | left + 1, hless => hx.short left (Nat.lt_of_succ_lt_succ hless)

/-- A sequence takes the room that its longer part takes. -/
theorem bind {x : Hosted host α} {next : α → Hosted host β} {a : α} {b : β} {k' m : Nat}
    (hx : x.Takes k a) (hnext : (next a).Takes k' b) (hm : max k k' = m) :
    (x >>= next).Takes m b where
  ends := hx.ends.bind hnext.ends
  within := by
    refine (hx.within.mono (by omega)).bind_of_ok fun room other hother => ?_
    rcases hx.ends.ok_or_noRoom room with hok | ⟨s, hnone⟩
    · cases hok.symm.trans hother
      exact hnext.within.mono (by omega)
    · cases hnone.symm.trans hother
  short left hless := by
    rcases hx.ends.ok_or_noRoom (some left) with hok | ⟨s, hnone⟩
    · rw [outcome_bind_of_ok hok]
      refine hnext.short left ?_
      -- The first computation has come to its result, so it is the second that lacks room.
      by_contra hmore
      obtain ⟨s, hnone⟩ := hx.short left (by omega)
      cases hok.symm.trans hnone
    · exact ⟨s, outcome_bind_of_error hnone next⟩

end Takes

end Hosted

/-! ### One level -/

/-- All that a level may evaluate has the property. A call may go anywhere. -/
structure Expr.Leads (P : Expr → Prop) (e : Expr) : Prop where
  part : ∀ part ∈ e.parts, P part
  rule : ∀ scrutinee rules, e = .matchWith scrutinee rules → ∀ rule ∈ rules, P rule.body
  letBody : ∀ recursive bindings body, e = .letIn recursive bindings body → P body
  applied : ∀ func arg, e = .apply func arg → func.appliedOperator? = none → ∀ body, P body

section Level

variable {host : Host} {settings : Settings} {evaluation : Expr → Env → Hosted host Value}
  {P : Expr → Prop} {k : Nat} (hparts : ∀ e env, P e → (evaluation e env).Within k)

include hparts

theorem evalAll_within (env : Env) {es : List Expr} (h : ∀ e ∈ es, P e) :
    (evalAll evaluation env es).Within k := by
  induction es with
  | nil => exact .pure []
  | cons e rest ih =>
      have hrest := ih fun other hother => h other (List.mem_cons_of_mem e hother)
      exact (hparts e env (h e List.mem_cons_self)).bind fun value =>
        hrest.bind fun values => .pure (value :: values)

theorem dispatchWith_within (env : Env) (value : Value) {rules : List Rule}
    (h : ∀ rule ∈ rules, P rule.body) :
    (dispatchWith settings evaluation env value rules).Within k := by
  rw [dispatchWith]
  refine (Hosted.Within.step _ _).bind_of_ok fun room selected hselected => ?_
  have hselect : selectRule env value rules = .ok selected := by
    have hrefines : (Machine.step (.select env value rules)
        (Run.ofEval (selectRule env value rules)) : Hosted host (Rule × Env)).Refines
        (Run.ofEval (selectRule env value rules)) := (Hosted.Refines.lift _).after _
    exact Run.outcome_ofEval_eq_ok_iff.mp ((hrefines room).outcome_ok hselected)
  have hbody := h selected.1 (selectRule_eq_ok hselect).mem
  exact (Hosted.Within.traceEvent settings _).bind fun _ => hparts _ _ hbody

theorem applyWith_within (hall : ∀ e, P e) (func arg : Value) (env : Env) :
    (applyWith settings evaluation func arg env).Within (k + 1) := by
  cases func with
  | function rules captured =>
      exact (dispatchWith_within hparts captured arg fun _ _ => hall _).call
  | openFunction rules => exact (dispatchWith_within hparts env arg fun _ _ => hall _).call
  | closure param body captured recursive =>
      simp only [applyWith]
      cases param.match? captured arg with
      | none => exact .step _ _
      | some matched =>
          have hbody := (hparts body matched (hall body)).mono (Nat.le_succ k)
          exact ((Hosted.Within.traceEvent settings _).bind fun _ => hbody).after _
  | _ => exact .step _ _

theorem bindWith_within (env : Env) {recursive : Bool} {bindings : List Binding}
    (h : recursive = false → ∀ e ∈ bindings.map Clause.body, P e) :
    (bindWith evaluation env recursive bindings).Within (k + 1) := by
  simp only [bindWith]
  cases firstRepeated [] (Pattern.boundNamesAll (bindings.map Clause.pattern)) with
  | some name => exact .step _ _
  | none =>
      refine Hosted.Within.after _ ?_
      cases recursive with
      | true => exact (Hosted.Within.step _ _).bind fun _ => .step _ _
      | false => exact (evalAll_within hparts env (h rfl)).call.bind fun _ => .step _ _

/-- A level takes two calls on top of what the evaluations in it take. -/
theorem evalWith_within {e : Expr} (h : e.Leads P) (env : Env) :
    (evalWith settings evaluation e env).Within (k + 2) := by
  have hpart : ∀ part ∈ e.parts, (evaluation part env).Within (k + 2) :=
    fun part hmem => (hparts part env (h.part part hmem)).mono (Nat.le_add_right k 2)
  cases e with
  | const c => exact .step _ _
  | ident name => exact .step _ _
  | typed inner ty => exact hpart inner List.mem_cons_self
  | list items =>
      have hitems := (evalAll_within hparts env h.part).call.mono (Nat.le_succ _)
      exact hitems.bind fun _ => .makeValue _
  | tuple items =>
      exact ((evalAll_within hparts env h.part).call.mono (Nat.le_succ _)).bind fun _ => .step _ _
  | lambda param body => exact .makeValue _
  | ifThen cond yes =>
      refine (hpart cond (by simp [Expr.parts])).bind fun value => ?_
      split
      · exact hpart yes (by simp [Expr.parts])
      · exact .makeValue _
      · exact .step _ _
  | ifThenElse cond yes no =>
      refine (hpart cond (by simp [Expr.parts])).bind fun value => ?_
      split
      · exact hpart yes (by simp [Expr.parts])
      · exact hpart no (by simp [Expr.parts])
      · exact .step _ _
  | optNone => exact .makeValue _
  | optSome inner => exact (hpart inner List.mem_cons_self).bind fun _ => .makeValue _
  | matchWith scrutinee rules =>
      refine (hpart scrutinee List.mem_cons_self).bind fun value => ?_
      have hrules := h.rule scrutinee rules rfl
      exact (dispatchWith_within hparts env value hrules).call.mono (Nat.le_succ _)
  | function rules => exact .makeValue _
  | apply func arg =>
      simp only [evalWith]
      cases hoperator : func.appliedOperator? with
      | some operation =>
          refine (hpart operation.2 (by simp [Expr.parts, hoperator])).bind fun left => ?_
          exact (hpart arg (by simp [Expr.parts, hoperator])).bind fun right => .step _ _
      | none =>
          refine (hpart func (by simp [Expr.parts, hoperator])).bind fun funcValue => ?_
          refine (hpart arg (by simp [Expr.parts, hoperator])).bind fun argValue => ?_
          exact (applyWith_within hparts (h.applied func arg rfl hoperator) funcValue argValue
            env).call
  | letIn recursive bindings body =>
      have hbind : (bindWith evaluation env recursive bindings).Within (k + 1) := by
        refine bindWith_within hparts env ?_
        rintro rfl
        exact h.part
      refine hbind.call.bind fun extended => ?_
      exact (hparts body extended (h.letBody recursive bindings body rfl)).mono
        (Nat.le_add_right k 2)
  | host obj => exact .step _ _

end Level

/-! ### All levels -/

namespace Host

variable (host : Host) (settings : Settings)

/-- Five calls for each level, and one to find out that there is none left. -/
theorem descend_within (budget : Nat) (e : Expr) (env : Env) :
    (host.descend settings budget e env).Within (5 * budget + 1) := by
  induction budget generalizing e env with
  | zero => exact (Hosted.Within.step _ _).call
  | succ budget ih =>
      have hparts : ∀ part site, True →
          (Machine.call (host.descend settings budget part site)).Within (5 * budget + 1 + 1) :=
        fun part site _ => (ih part site).call
      have hleads : e.Leads fun _ => True :=
        ⟨fun _ _ => trivial, fun _ _ _ _ _ => trivial, fun _ _ _ _ => trivial,
          fun _ _ _ _ _ => trivial⟩
      rw [descend]
      exact (evalWith_within hparts hleads env).call.call

/-- The room that the evaluator asks for, where its limit is one that can be set. -/
theorem le_room_add_used (hlimit : settings.maxDepth ≤ Settings.depthLimit) {left : Nat}
    (hroom : host.room settings = some left) :
    5 * settings.maxDepth + 200 ≤ left + host.used := by
  obtain ⟨limit, -, rfl⟩ := Option.map_eq_some_iff.mp hroom
  have hneeded : settings.stackNeeded = settings.maxDepth * 5 + 200 := by
    rw [Settings.stackNeeded, Settings.framesPerLevel, Settings.stackMargin]
    omega
  have hmax := Nat.le_max_right limit settings.stackNeeded.toNat
  omega

/-- Under a limit that can be set, the evaluator has room for its own calls: where there is none, a
step and the caller have used up the margin. -/
theorem margin_of_noRoom (hlow : 0 ≤ settings.maxDepth)
    (hhigh : settings.maxDepth ≤ Settings.depthLimit) {e : Expr} {env : Env} {s : Option Step}
    (h : (host.evaluate settings e env).outcome = .error (.noRoom s)) :
    200 ≤ host.used + s.elim 0 host.frames := by
  obtain ⟨left, hroom, hleft⟩ := host.descend_within settings settings.budget e env _ s h
  have hasked := host.le_room_add_used settings hhigh hroom
  rw [Settings.budget] at hleft
  omega

end Host

end MiniMl
