import MiniMl.Proofs.MachineRelation
import MiniMl.Proofs.Run
/-!
# The depth limit

A limit can cut an evaluation short and nothing else. One level of evaluation hands on what its
parts do: if the parts run alike unless they are cut short, so does the whole. From there it is an
induction on the budget, and a limit that is high enough shows neither in the outcome nor in the
log.
-/

namespace MiniMl

/-- Two evaluators that differ in their limits run alike, unless the first is cut short. -/
def belowRelation (settings : Settings) (m m' : Int) :
    MachineRelation Run Run { settings with maxDepth := m } { settings with maxDepth := m' } where
  Related := Run.Below
  pure _ := .refl _
  outcome _ := .refl _
  bind := .bind
  after _ h := h
  call h := h
  message _ := .refl _
  capture := rfl

/-! ### All levels -/

/-- A larger budget does what a smaller one does, unless the smaller one runs out. Nothing but the
failure at the limit depends on the limit that the settings name. -/
theorem eval_below (settings : Settings) (m m' : Int) {budget budget' : Nat}
    (hbudget : budget ≤ budget') (e : Expr) (env : Env) :
    (eval { settings with maxDepth := m } budget e env).Below
      (eval { settings with maxDepth := m' } budget' e env) := by
  induction budget generalizing budget' e env with
  | zero => exact .inl ⟨m, rfl⟩
  | succ budget ih =>
      -- The larger budget has a level to spend as well, and below it the order is the same.
      obtain ⟨rest, rfl⟩ : ∃ rest, budget' = rest + 1 := ⟨budget' - 1, by omega⟩
      rw [eval_succ, eval_succ]
      exact (belowRelation settings m m').evalWith_related (ih (by omega)) e env

section Limit

variable (settings : Settings) {m m' : Int} (hm : m ≤ m')

include hm

theorem evaluate_below (e : Expr) (env : Env) :
    (evaluate { settings with maxDepth := m } e env).Below
      (evaluate { settings with maxDepth := m' } e env) :=
  eval_below settings m m' (Int.toNat_le_toNat hm) e env

theorem run_below (e : Expr) (env : Env) :
    (run { settings with maxDepth := m } e env).Below
      (run { settings with maxDepth := m' } e env) :=
  (evaluate_below settings hm e env).reporting .runFailed

theorem interpret_below (program : List Decl) (env : Env) :
    (interpret { settings with maxDepth := m } program env).Below
      (interpret { settings with maxDepth := m' } program env) :=
  (belowRelation settings m m').interpretWith_related (evaluate_below settings hm)
    (fun _ => .refl _) (fun event h => h.reporting event) program env

end Limit

/-! ### Raising the limit -/

/-- What becomes of a computation as its depth limit varies. -/
structure StableInDepth {α : Type} (computation : Int → Run α) : Prop where
  /-- Once it is not cut short, a higher limit changes neither the outcome nor the log. -/
  stable : ∀ m m', m ≤ m' → ¬ (computation m).TooDeep → computation m' = computation m
  /-- The limits that cut it short are closed downward. -/
  downward : ∀ m m', m ≤ m' → (computation m').TooDeep → (computation m).TooDeep
  /-- All other limits agree. -/
  agree : ∀ m m', ¬ (computation m).TooDeep → ¬ (computation m').TooDeep →
    computation m = computation m'

/-- It is enough to compare a limit with the higher ones. -/
private theorem StableInDepth.of_below {α : Type} {computation : Int → Run α}
    (h : ∀ m m', m ≤ m' → (computation m).Below (computation m')) : StableInDepth computation where
  stable m m' hle hdeep := ((h m m' hle).eq hdeep).symm
  downward m m' hle hdeep := by
    rcases h m m' hle with hshort | heq
    · exact hshort
    · rw [heq]
      exact hdeep
  agree m m' hdeep hdeep' := by
    rcases Int.le_total m m' with hle | hle
    · exact (h m m' hle).eq hdeep
    · exact ((h m' m hle).eq hdeep').symm

/-- Raising the depth limit never changes an evaluation or the run of a program that the lower limit
lets finish. -/
theorem stableInDepth (settings : Settings) (env : Env) :
    (∀ e : Expr,
      StableInDepth (fun m => evaluate { settings with maxDepth := m } e env) ∧
        StableInDepth (fun m => run { settings with maxDepth := m } e env)) ∧
      ∀ program : List Decl,
        StableInDepth (fun m => interpret { settings with maxDepth := m } program env) := by
  refine ⟨fun e => ⟨?_, ?_⟩, fun program => ?_⟩
  · exact .of_below fun m m' hle => evaluate_below settings hle e env
  · exact .of_below fun m m' hle => run_below settings hle e env
  · exact .of_below fun m m' hle => interpret_below settings hle program env

end MiniMl
