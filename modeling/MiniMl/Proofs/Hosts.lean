import MiniMl.Eval.Host
import MiniMl.Proofs.MachineRelation
import MiniMl.Proofs.Report
/-!
# Evaluation on a host

On a host an evaluation goes as it does without one, or it ends at a limit of the host: at a call
for which there is no room, or at a message with an integer that cannot be written (`Refines`). So
what is proved about runs holds on every host up to these two ends, and on a host that has no limits
it holds as it is.
-/

namespace MiniMl

/-! ### Sequences on a host -/

namespace Hosted

variable {host : Host} {α β : Type}

theorem bind_of_ok {x : Hosted host α} {room : Option Nat} {a : α} (h : (x room).outcome = .ok a)
    (next : α → Hosted host β) :
    (x >>= next) room = ⟨(next a room).outcome, (x room).log ++ (next a room).log⟩ := by
  change Hosted.bind x next room = _
  simp only [Hosted.bind, h]

theorem bind_of_error {x : Hosted host α} {room : Option Nat} {failure : HostFailure}
    (h : (x room).outcome = .error failure) (next : α → Hosted host β) :
    (x >>= next) room = ⟨.error failure, (x room).log⟩ := by
  change Hosted.bind x next room = _
  simp only [Hosted.bind, h]

theorem outcome_bind_of_ok {x : Hosted host α} {room : Option Nat} {a : α}
    (h : (x room).outcome = .ok a) (next : α → Hosted host β) :
    ((x >>= next) room).outcome = (next a room).outcome := by
  rw [bind_of_ok h]

theorem outcome_bind_of_error {x : Hosted host α} {room : Option Nat} {failure : HostFailure}
    (h : (x room).outcome = .error failure) (next : α → Hosted host β) :
    ((x >>= next) room).outcome = .error failure := by
  rw [bind_of_error h]

theorem after_of_fits {s : Step} {room : Option Nat} (h : room.all (host.frames s ≤ ·) = true)
    (x : Hosted host α) : after s x room = x room :=
  if_pos h

theorem after_of_not_fits {s : Step} {room : Option Nat}
    (h : ¬ room.all (host.frames s ≤ ·) = true) (x : Hosted host α) :
    after s x room = ⟨.error (.noRoom (some s)), []⟩ :=
  if_neg h

private theorem onError_of_error {x : Hosted host α} {room : Option Nat} {e : EvalError}
    (h : (x room).outcome = .error (.failure (.error e))) (handle : EvalError → Hosted host α) :
    x.onError handle room
      = ⟨(handle e room).outcome, (x room).log ++ (handle e room).log⟩ := by
  simp only [Hosted.onError, h]

private theorem onError_of_ne {x : Hosted host α} {room : Option Nat}
    (h : ∀ e, (x room).outcome ≠ .error (.failure (.error e)))
    (handle : EvalError → Hosted host α) : x.onError handle room = x room := by
  rw [Hosted.onError]
  split
  · exact absurd ‹_› (h _)
  · rfl

end Hosted

/-! ### What is shown -/

namespace Host

variable {host : Host} {α β : Type}

theorem mem_shown_bind {r : Run α} {n : Int} (h : n ∈ host.shown r) (next : α → Run β) :
    n ∈ host.shown (r >>= next) := by
  cases houtcome : r.outcome with
  | ok a =>
      rw [shown, houtcome, List.append_nil] at h
      rw [Run.bind_of_ok houtcome, shown, List.filter_append, List.flatMap_append]
      exact List.mem_append_left _ (List.mem_append_left _ h)
  | error failure =>
      rw [shown, houtcome] at h
      rw [Run.bind_of_error houtcome]
      exact h

private theorem mem_shown_bind_next {r : Run α} {a : α} (houtcome : r.outcome = .ok a)
    {next : α → Run β} {n : Int} (h : n ∈ host.shown (next a)) : n ∈ host.shown (r >>= next) := by
  rw [Run.bind_of_ok houtcome, shown, List.filter_append, List.flatMap_append, List.append_assoc]
  exact List.mem_append_right _ h

theorem unwritable?_eq_some {r : Run α} {n : Int} (h : host.unwritable? r = some n) :
    n ∈ host.shown r ∧ host.writes n = false :=
  ⟨List.mem_of_find?_eq_some h, by simpa using List.find?_some h⟩

private theorem writes_of_digits_eq_none (h : host.digits = none) (n : Int) :
    host.writes n = true := by
  rw [writes, h]

end Host

/-! ### Runs on a host -/

/-- The run goes through on the host, or it ends at one of its limits. -/
def HostRun.Refines (host : Host) (room : Option Nat) {α : Type} (y : HostRun α) (r : Run α) :
    Prop :=
  y = r.hosted
    ∨ (∃ s, y.outcome = .error (.noRoom s) ∧ room ≠ none)
    ∨ ∃ n ∈ host.shown r, y.outcome = .error (.unwritable n) ∧ host.writes n = false

namespace HostRun.Refines

variable {host : Host} {room : Option Nat} {α : Type} {y : HostRun α} {r : Run α}

/-- A result on the host is the result. -/
theorem outcome_ok (h : y.Refines host room r) {a : α} (ha : y.outcome = .ok a) :
    r.outcome = .ok a := by
  rcases h with rfl | ⟨s, hnone, -⟩ | ⟨n, -, hnone, -⟩
  · cases hr : r.outcome <;> rw [Run.hosted, hr] at ha <;> cases ha
    rfl
  · rw [hnone] at ha
    cases ha
  · rw [hnone] at ha
    cases ha

/-- A failure of the evaluator on the host is the failure. -/
theorem outcome_error (h : y.Refines host room r) {failure : Failure}
    (hfailure : y.outcome = .error (.failure failure)) : r.outcome = .error failure := by
  rcases h with rfl | ⟨s, hnone, -⟩ | ⟨n, -, hnone, -⟩
  · cases hr : r.outcome <;> rw [Run.hosted, hr] at hfailure <;> cases hfailure
    rfl
  · rw [hnone] at hfailure
    cases hfailure
  · rw [hnone] at hfailure
    cases hfailure

/-- Without limits of the host, everything is as it is without a host. -/
theorem eq_hosted {settings : Settings} (h : y.Refines host (host.room settings) r)
    (hroom : host.recursionLimit = none) (hdigits : host.digits = none) : y = r.hosted := by
  rcases h with hsame | ⟨_, _, hlimited⟩ | ⟨n, _, _, hwrites⟩
  · exact hsame
  · exact absurd (by rw [Host.room, hroom]; rfl) hlimited
  · rw [Host.writes_of_digits_eq_none hdigits] at hwrites
    cases hwrites

end HostRun.Refines

namespace Hosted

variable {host : Host} {α β : Type}

/-- With any room, the computation does what the run does or ends at a limit of the host. -/
def Refines (x : Hosted host α) (r : Run α) : Prop :=
  ∀ room, (x room).Refines host room r

namespace Refines

theorem pure (a : α) : (Pure.pure a : Hosted host α).Refines (Pure.pure a) :=
  fun _ => .inl rfl

theorem lift (r : Run α) : (Hosted.lift r : Hosted host α).Refines r := by
  intro room
  cases hfound : host.unwritable? r with
  | none =>
      refine .inl ?_
      simp only [Hosted.lift, hfound]
  | some n =>
      obtain ⟨hshown, hwrites⟩ := Host.unwritable?_eq_some hfound
      refine .inr (.inr ⟨n, hshown, ?_, hwrites⟩)
      simp only [Hosted.lift, hfound]

theorem bind {x : Hosted host α} {r : Run α} {next : α → Hosted host β} {next' : α → Run β}
    (hx : x.Refines r) (hnext : ∀ a, (next a).Refines (next' a)) :
    (x >>= next).Refines (r >>= next') := by
  intro room
  rcases hx room with hsame | ⟨s, hroom, hlimited⟩ | ⟨n, hshown, houtcome, hwrites⟩
  · cases hr : r.outcome with
    | error failure =>
        have hfirst : (x room).outcome = .error (.failure failure) := by
          rw [hsame, Run.hosted, hr]
          rfl
        refine .inl ?_
        rw [bind_of_error hfirst, Run.bind_of_error hr, hsame]
        rfl
    | ok a =>
        have hfirst : (x room).outcome = .ok a := by rw [hsame, Run.hosted, hr]; rfl
        rw [HostRun.Refines, bind_of_ok hfirst]
        rcases hnext a room with hnext | ⟨s, hroom, hlimited⟩ | ⟨n, hshown, houtcome, hwrites⟩
        · refine .inl ?_
          rw [Run.bind_of_ok hr, hsame, hnext]
          rfl
        · exact .inr (.inl ⟨s, hroom, hlimited⟩)
        · exact .inr (.inr ⟨n, Host.mem_shown_bind_next hr hshown, houtcome, hwrites⟩)
  · exact .inr (.inl ⟨s, outcome_bind_of_error hroom next, hlimited⟩)
  · exact .inr (.inr ⟨n, Host.mem_shown_bind hshown next', outcome_bind_of_error houtcome next,
      hwrites⟩)

theorem after {x : Hosted host α} {r : Run α} (s : Step) (hx : x.Refines r) :
    (Hosted.after s x).Refines r := by
  intro room
  by_cases hfits : room.all (host.frames s ≤ ·) = true
  · rw [after_of_fits hfits]
    exact hx room
  · refine .inr (.inl ⟨some s, by rw [after_of_not_fits hfits], ?_⟩)
    rintro rfl
    exact hfits rfl

theorem call {x : Hosted host α} {r : Run α} (hx : x.Refines r) : (Hosted.call x).Refines r
  | none => hx none
  | some 0 => .inr (.inl ⟨none, rfl, Option.some_ne_none 0⟩)
  | some (room + 1) =>
      (hx (some room)).imp id (.imp (fun ⟨s, h, _⟩ => ⟨s, h, Option.some_ne_none _⟩) id)

/-- The report of an error is a step like others. -/
theorem reporting {x : Hosted host α} {r : Run α} (event : EvalError → Event) (hx : x.Refines r) :
    (Hosted.reporting event x).Refines (r.reporting event) := by
  intro room
  rw [Hosted.reporting]
  rcases hx room with hsame | ⟨s, hroom, hlimited⟩ | ⟨n, hshown, houtcome, hwrites⟩
  · obtain ⟨outcome, log⟩ := r
    match outcome with
    | .error (.error e) =>
        have hfirst : (x room).outcome = .error (.failure (.error e)) := by rw [hsame]; rfl
        have hreport : (⟨.error (.error e), log⟩ : Run α).reporting event
            = (⟨.ok (), log⟩ : Run Unit) >>= fun _ =>
              Run.emit (event e) >>= fun _ => Run.fail (.error e) := rfl
        have hsecond : (Hosted.after (.log (event e)) (Hosted.lift (Run.emit (event e)))
              >>= fun _ _ => ⟨.error (.failure (.error e)), []⟩ : Hosted host α).Refines
            (Run.emit (event e) >>= fun _ => (Run.fail (.error e) : Run α)) :=
          ((lift _).after _).bind fun _ _ => .inl rfl
        rw [HostRun.Refines, onError_of_error hfirst, hreport]
        rcases hsecond room with hsame' | ⟨s, hroom, hlimited⟩ | ⟨n, hshown, houtcome, hwrites⟩
        · refine .inl ?_
          rw [hsame', hsame]
          rfl
        · exact .inr (.inl ⟨s, hroom, hlimited⟩)
        · exact .inr (.inr ⟨n, Host.mem_shown_bind_next rfl hshown, houtcome, hwrites⟩)
    | .ok _ | .error (.malformed _) | .error (.tooDeep _) =>
        rw [onError_of_ne fun e he => by rw [hsame] at he; cases he]
        exact .inl hsame
  · rw [onError_of_ne fun e he => by rw [hroom] at he; cases he]
    exact .inr (.inl ⟨s, hroom, hlimited⟩)
  · rw [onError_of_ne fun e he => by rw [houtcome] at he; cases he]
    refine .inr (.inr ⟨n, ?_, houtcome, hwrites⟩)
    rw [Run.reporting_eq, Host.shown, List.filter_append, List.flatMap_append]
    rw [Host.shown] at hshown
    exact (List.mem_append.mp hshown).elim
      (fun h => List.mem_append_left _ (List.mem_append_left _ h)) (List.mem_append_right _)

theorem traceEvent (settings : Settings) (event : Event) :
    (settings.traceEvent event : Hosted host Unit).Refines (settings.traceEvent event) := by
  rw [Settings.traceEvent, Settings.traceEvent]
  by_cases htrace : settings.trace = true
  · rw [if_pos htrace, if_pos htrace]
    exact (lift (Run.emit event)).after _
  · rw [if_neg htrace, if_neg htrace]
    exact .pure ()

end Refines

end Hosted

/-- On a host an evaluator does what it does without, or ends at a limit of the host. -/
def refinesRelation (host : Host) (settings : Settings) :
    MachineRelation (Hosted host) Run settings settings where
  Related x r := x.Refines r
  pure := .pure
  outcome _ := .lift _
  bind := .bind
  after s h := h.after s
  call h := h.call
  message _ := .traceEvent settings _
  capture := .refl settings

namespace Host

variable (host : Host) (settings : Settings)

theorem descend_refines (budget : Nat) (e : Expr) (env : Env) :
    (host.descend settings budget e env).Refines (eval settings budget e env) := by
  induction budget generalizing e env with
  | zero => exact ((Hosted.Refines.lift _).after _).call
  | succ budget ih =>
      rw [descend, eval_succ]
      refine Hosted.Refines.call (.call ?_)
      exact (refinesRelation host settings).evalWith_related (fun part site => (ih part site).call)
        e env

private theorem evaluation_refines (e : Expr) (env : Env) :
    (host.evaluation settings e env).Refines (MiniMl.evaluate settings e env) :=
  (host.descend_refines settings settings.budget e env).call

theorem evaluate_refines (e : Expr) (env : Env) :
    (host.evaluate settings e env).Refines host (host.room settings)
      (MiniMl.evaluate settings e env) :=
  host.descend_refines settings settings.budget e env (host.room settings)

theorem run_refines (e : Expr) (env : Env) :
    (host.run settings e env).Refines host (host.room settings) (MiniMl.run settings e env) :=
  (host.evaluation_refines settings e env).reporting .runFailed (host.room settings)

theorem interpret_refines (program : List Decl) (env : Env) :
    (host.interpret settings program env).Refines host (host.room settings)
      (MiniMl.interpret settings program env) :=
  (refinesRelation host settings).interpretWith_related (host.evaluation_refines settings)
    (fun _ => (Hosted.Refines.lift _).after _) (fun event h => h.reporting event) program env
    (host.room settings)

end Host

end MiniMl
