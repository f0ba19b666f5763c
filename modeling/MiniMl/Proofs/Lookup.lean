import MiniMl.Proofs.Matching
import MiniMl.Value.Env
/-!
# What a look-up finds

A look-up fails in two ways: no frame has the name, or the frame that has it holds something else
than a function literal. The first is an evaluation error and says that the name is not one of the
environment; the second cannot come from an environment that the evaluator made.
-/

namespace MiniMl

theorem lookup_eq_none_iff_not_mem {β : Type} {entries : List (String × β)} {name : String} :
    entries.lookup name = none ↔ name ∉ entries.map Prod.fst := by
  rw [List.lookup_eq_none_iff, List.mem_map]
  constructor
  · rintro h ⟨entry, hmem, rfl⟩
    simpa using h entry hmem
  · intro h entry hmem
    have hne : name ≠ entry.1 := fun heq => h ⟨entry, hmem, heq.symm⟩
    simpa using hne

theorem mem_of_lookup_eq_some {β : Type} {entries : List (String × β)} {name : String} {content : β}
    (h : entries.lookup name = some content) : (name, content) ∈ entries := by
  obtain ⟨before, after, rfl, -⟩ := List.lookup_eq_some_iff.mp h
  simp

/-- Where the keys are different, an entry is the one that its key finds. -/
theorem lookup_of_mem {β : Type} {entries : List (String × β)}
    (hkeys : (entries.map Prod.fst).Nodup) {name : String} {content : β}
    (h : (name, content) ∈ entries) : entries.lookup name = some content := by
  obtain ⟨before, after, rfl⟩ := List.append_of_mem h
  refine List.lookup_eq_some_iff.mpr ⟨before, after, rfl, fun earlier hearlier => ?_⟩
  rw [List.map_append, List.map_cons] at hkeys
  have hne := (List.nodup_append.mp hkeys).2.2 earlier.1 (List.mem_map_of_mem hearlier) name
    List.mem_cons_self
  simpa using hne.symm

namespace Env

/-- Closing an expression makes a closure of the literal under its annotations. -/
theorem close_eq_ok {env : Env} {e : Expr} {value : Value} (h : env.close e = .ok value) :
    (∃ param body, e.stripped = .lambda param body ∧ value = .closure param body env true)
      ∨ ∃ rules, e.stripped = .function rules ∧ value = .function rules env := by
  rw [close] at h
  split at h
  · rename_i param body hstripped
    cases h
    exact .inl ⟨param, body, hstripped, rfl⟩
  · rename_i rules hstripped
    cases h
    exact .inr ⟨rules, hstripped, rfl⟩
  · cases h

theorem close_eq_error {env : Env} {e : Expr} {m : Malformed} (h : env.close e = .error m) :
    e.isFunctionLiteral = false := by
  rw [Expr.isFunctionLiteral]
  rw [close] at h
  cases hstripped : e.stripped with
  | lambda param body =>
      rw [hstripped] at h
      cases h
  | function rules =>
      rw [hstripped] at h
      cases h
  | _ => rfl

theorem close_of_not_literal (env : Env) {e : Expr} (h : e.isFunctionLiteral = false) :
    env.close e = .error (.notFunctionLiteral e) := by
  rw [Expr.isFunctionLiteral] at h
  rw [close]
  cases hstripped : e.stripped with
  | lambda param body =>
      rw [hstripped] at h
      cases h
  | function rules =>
      rw [hstripped] at h
      cases h
  | _ => rfl

/-- The only evaluation error of a look-up is that no frame has the name. -/
theorem find_eq_error_iff {env : Env} {name : String} {e : EvalError} :
    env.find name = .error (.error e) ↔ e = .unbound name ∧ name ∉ env.frameNames := by
  cases env with
  | empty => simp [find, frameNames, eq_comm]
  | extend parent key value =>
      rw [find, frameNames, List.mem_cons]
      by_cases hkey : key = name
      · simp [hkey]
      · have hne : ¬ name = key := fun heq => hkey heq.symm
        rw [if_neg (by simpa using hkey), @find_eq_error_iff parent name e]
        simp [hne]
  | recursive parent definitions =>
      rw [find, frameNames, List.mem_append]
      cases hlookup : definitions.lookup name with
      | none =>
          have hnew := lookup_eq_none_iff_not_mem.mp hlookup
          rw [@find_eq_error_iff parent name e]
          simp only [hnew, false_or]
      | some literal =>
          have hmem : name ∈ definitions.map Prod.fst :=
            List.mem_map.mpr ⟨_, mem_of_lookup_eq_some hlookup, rfl⟩
          have hfound : ((Env.recursive parent definitions).close literal).mapError
              Failure.malformed ≠ .error (.error e) := by
            intro h
            cases hclose : (Env.recursive parent definitions).close literal with
            | ok value =>
                rw [hclose] at h
                cases h
            | error m =>
                rw [hclose] at h
                cases h
          exact ⟨fun h => absurd h hfound, fun h => absurd (.inl hmem) h.2⟩

theorem frameNames_extendAll (env : Env) (bindings : List (String × Value)) :
    (env.extendAll bindings).frameNames = (bindings.map Prod.fst).reverse ++ env.frameNames := by
  induction bindings generalizing env with
  | nil => rfl
  | cons entry rest ih => simp [extendAll, ih, frameNames]

theorem mem_frameNames_extendAll {env : Env} {bindings : List (String × Value)} {name : String} :
    name ∈ (env.extendAll bindings).frameNames
      ↔ name ∈ bindings.map Prod.fst ∨ name ∈ env.frameNames := by
  rw [frameNames_extendAll, List.mem_append, List.mem_reverse]

/-- The last of the added bindings that has the name decides. -/
theorem find_extendAll (env : Env) (bindings : List (String × Value)) (name : String) :
    (env.extendAll bindings).find name
      = (bindings.reverse.lookup name).elim (env.find name) .ok := by
  induction bindings generalizing env with
  | nil => rfl
  | cons entry rest ih =>
      obtain ⟨key, value⟩ := entry
      rw [extendAll, ih, List.reverse_cons, List.lookup_append, find]
      cases rest.reverse.lookup name with
      | some bound => rfl
      | none =>
          by_cases hkey : key = name
          · simp [hkey]
          · have hne : (name == key) = false := by simpa using fun heq => hkey heq.symm
            simp [hkey, List.lookup_cons, hne]

end Env

end MiniMl
