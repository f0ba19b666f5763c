import MiniMl.Eval.Run
/-!
# Reasoning about runs

A run is a result or a failure, with a log. What the rest of the theory says about a run it says in
one of two ways: `Ends` names the results and the failures a run may end in, and `Below` compares
two runs of which the first may have been cut short at the depth limit. Both pass through
sequences of runs, so a statement about a computation follows from statements about its parts.
-/

namespace MiniMl

namespace Run

variable {α β : Type}

theorem bind_of_ok {x : Run α} {a : α} (h : x.outcome = .ok a) (next : α → Run β) :
    x >>= next = ⟨(next a).outcome, x.log ++ (next a).log⟩ := by
  obtain ⟨outcome, log⟩ := x
  subst h
  rfl

theorem bind_of_error {x : Run α} {failure : Failure} (h : x.outcome = .error failure)
    (next : α → Run β) : x >>= next = ⟨.error failure, x.log⟩ := by
  obtain ⟨outcome, log⟩ := x
  subst h
  rfl

theorem outcome_bind_ok {x : Run α} {a : α} (h : x.outcome = .ok a) (next : α → Run β) :
    (x >>= next).outcome = (next a).outcome := by
  rw [bind_of_ok h]

theorem outcome_bind_error {x : Run α} {failure : Failure} (h : x.outcome = .error failure)
    (next : α → Run β) : (x >>= next).outcome = .error failure := by
  rw [bind_of_error h]

theorem outcome_bind_eq_ok_iff {x : Run α} {next : α → Run β} {b : β} :
    (x >>= next).outcome = .ok b ↔ ∃ a, x.outcome = .ok a ∧ (next a).outcome = .ok b := by
  cases h : x.outcome with
  | ok a => simp [outcome_bind_ok h]
  | error failure => simp [outcome_bind_error h]

theorem outcome_bind_eq_error_iff {x : Run α} {next : α → Run β} {failure : Failure} :
    (x >>= next).outcome = .error failure
      ↔ x.outcome = .error failure
        ∨ ∃ a, x.outcome = .ok a ∧ (next a).outcome = .error failure := by
  cases h : x.outcome with
  | ok a => simp [outcome_bind_ok h]
  | error failure => simp [outcome_bind_error h]

theorem outcome_ofEval_eq_ok_iff {result : Except EvalError α} {a : α} :
    (ofEval result).outcome = .ok a ↔ result = .ok a := by
  constructor
  · intro h
    cases result with
    | ok b =>
        cases h
        rfl
    | error e => cases h
  · intro h
    rw [h]
    rfl

/-- Of what follows a run only its part at the result counts. -/
theorem bind_congr_of_ok {x : Run α} {next next' : α → Run β}
    (h : ∀ a, x.outcome = .ok a → next a = next' a) : x >>= next = x >>= next' := by
  cases houtcome : x.outcome with
  | ok a => rw [bind_of_ok houtcome, bind_of_ok houtcome, h a houtcome]
  | error failure => rw [bind_of_error houtcome, bind_of_error houtcome]

theorem outcome_reporting (x : Run α) (event : EvalError → Event) :
    (x.reporting event).outcome = x.outcome := by
  rw [Run.reporting]
  split <;> rfl

/-! ### What a run ends in -/

/-- The run ends in a result with the first property or in a failure with the second. -/
def Ends (P : α → Prop) (F : Failure → Prop) (x : Run α) : Prop :=
  match x.outcome with
  | .ok a => P a
  | .error failure => F failure

namespace Ends

variable {P : α → Prop} {Q : β → Prop} {F G : Failure → Prop}

theorem of_ok {x : Run α} {a : α} (h : x.outcome = .ok a) (ha : P a) : x.Ends P F := by
  rw [Ends, h]
  exact ha

theorem of_error {x : Run α} {failure : Failure} (h : x.outcome = .error failure)
    (hfailure : F failure) : x.Ends P F := by
  rw [Ends, h]
  exact hfailure

theorem ok {x : Run α} {a : α} (hx : x.Ends P F) (h : x.outcome = .ok a) : P a := by
  rw [Ends, h] at hx
  exact hx

theorem error {x : Run α} {failure : Failure} (hx : x.Ends P F)
    (h : x.outcome = .error failure) : F failure := by
  rw [Ends, h] at hx
  exact hx

theorem pure {a : α} (ha : P a) : (Pure.pure a : Run α).Ends P F :=
  of_ok rfl ha

theorem fail {failure : Failure} (hfailure : F failure) : (Run.fail failure : Run α).Ends P F :=
  of_error rfl hfailure

theorem imp {P' : α → Prop} {x : Run α} (hx : x.Ends P F) (hP : ∀ a, P a → P' a)
    (hF : ∀ failure, F failure → G failure) : x.Ends P' G := by
  cases h : x.outcome with
  | ok a => exact of_ok h (hP a (hx.ok h))
  | error failure => exact of_error h (hF failure (hx.error h))

/-- A first run with a known result has no say in how the sequence ends. -/
theorem bind_of_ok {x : Run α} {a : α} {next : α → Run β} (h : x.outcome = .ok a)
    (hnext : (next a).Ends Q F) : (x >>= next).Ends Q F := by
  rw [Ends, outcome_bind_ok h]
  exact hnext

/-- A failure of the first run is one of the sequence, and a result of it is what the second run
starts from. -/
theorem bind {x : Run α} {next : α → Run β} (hx : x.Ends P F)
    (hnext : ∀ a, P a → (next a).Ends Q F) : (x >>= next).Ends Q F := by
  cases h : x.outcome with
  | ok a => exact bind_of_ok h (hnext a (hx.ok h))
  | error failure => exact of_error (outcome_bind_error h next) (hx.error h)

theorem reporting {x : Run α} (event : EvalError → Event) (hx : x.Ends P F) :
    (x.reporting event).Ends P F := by
  rw [Ends, outcome_reporting]
  exact hx

end Ends

/-- The run ends in such a way, and it logs none but such messages. -/
structure Stays (P : α → Prop) (F : Failure → Prop) (L : Event → Prop) (x : Run α) : Prop where
  ends : x.Ends P F
  log : ∀ event ∈ x.log, L event

namespace Stays

variable {P : α → Prop} {Q : β → Prop} {F : Failure → Prop} {L : Event → Prop}

/-- A run without messages. -/
theorem of_ends {x : Run α} (h : x.Ends P F) (hlog : x.log = []) : x.Stays P F L := by
  refine ⟨h, fun event hmem => ?_⟩
  rw [hlog] at hmem
  exact (List.not_mem_nil hmem).elim

theorem pure {a : α} (ha : P a) : (Pure.pure a : Run α).Stays P F L :=
  of_ends (.pure ha) rfl

theorem fail {failure : Failure} (hfailure : F failure) : (Run.fail failure : Run α).Stays P F L :=
  of_ends (.fail hfailure) rfl

theorem emit {event : Event} (hevent : L event) : (Run.emit event).Stays (fun _ => True) F L :=
  ⟨.of_ok rfl trivial, fun _ hmem => List.mem_singleton.mp hmem ▸ hevent⟩

theorem ok {x : Run α} {a : α} (hx : x.Stays P F L) (h : x.outcome = .ok a) : P a :=
  hx.ends.ok h

theorem error {x : Run α} {failure : Failure} (hx : x.Stays P F L)
    (h : x.outcome = .error failure) : F failure :=
  hx.ends.error h

theorem bind {x : Run α} {next : α → Run β} (hx : x.Stays P F L)
    (hnext : ∀ a, P a → (next a).Stays Q F L) : (x >>= next).Stays Q F L where
  ends := hx.ends.bind fun a ha => (hnext a ha).ends
  log event hmem := by
    cases h : x.outcome with
    | ok a =>
        rw [bind_of_ok h] at hmem
        exact (List.mem_append.mp hmem).elim (hx.log event) ((hnext a (hx.ok h)).log event)
    | error failure =>
        rw [bind_of_error h] at hmem
        exact hx.log event hmem

theorem reporting {x : Run α} {event : EvalError → Event} (hevent : ∀ e, L (event e))
    (hx : x.Stays P F L) : (x.reporting event).Stays P F L where
  ends := hx.ends.reporting event
  log message hmem := by
    rw [Run.reporting] at hmem
    split at hmem
    · rcases List.mem_append.mp hmem with hmem | hmem
      · exact hx.log message hmem
      · exact List.mem_singleton.mp hmem ▸ hevent _
    · exact hx.log message hmem

end Stays

/-! ### Runs that were cut short -/

/-- The run ends at the depth limit. -/
def TooDeep (x : Run α) : Prop :=
  ∃ limit, x.outcome = .error (.tooDeep limit)

theorem not_tooDeep_of_ok {x : Run α} {a : α} (h : x.outcome = .ok a) : ¬ x.TooDeep := by
  rintro ⟨limit, hlimit⟩
  rw [h] at hlimit
  cases hlimit

/-- The first run is the second one, unless it was cut short. -/
def Below (x y : Run α) : Prop :=
  x.TooDeep ∨ x = y

theorem Below.refl (x : Run α) : x.Below x :=
  .inr rfl

theorem Below.eq {x y : Run α} (h : x.Below y) (hx : ¬ x.TooDeep) : x = y :=
  h.resolve_left hx

theorem TooDeep.bind {x : Run α} (hx : x.TooDeep) (next : α → Run β) : (x >>= next).TooDeep := by
  obtain ⟨limit, hlimit⟩ := hx
  exact ⟨limit, outcome_bind_error hlimit next⟩

/-- A sequence cut short in a part is cut short as a whole. -/
theorem Below.bind {x y : Run α} {next next' : α → Run β} (hxy : x.Below y)
    (hnext : ∀ a, (next a).Below (next' a)) : (x >>= next).Below (y >>= next') := by
  rcases hxy with hdeep | rfl
  · exact .inl (hdeep.bind next)
  · cases h : x.outcome with
    | error failure =>
        rw [bind_of_error h, bind_of_error h]
        exact .refl _
    | ok a =>
        rcases hnext a with ⟨limit, hlimit⟩ | heq
        · exact .inl ⟨limit, by rw [outcome_bind_ok h, hlimit]⟩
        · rw [bind_of_ok h, bind_of_ok h, heq]
          exact .refl _

theorem Below.reporting {x y : Run α} (event : EvalError → Event) (h : x.Below y) :
    (x.reporting event).Below (y.reporting event) := by
  rcases h with ⟨limit, hlimit⟩ | rfl
  · refine .inl ⟨limit, ?_⟩
    rw [Run.reporting, hlimit]
    exact hlimit
  · exact .refl _

end Run

end MiniMl
