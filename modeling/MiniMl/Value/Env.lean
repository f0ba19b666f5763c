import MiniMl.Assoc
import MiniMl.Failure
import MiniMl.Value.Basic
/-!
# Looking names up

The newest frame that has a name decides. A recursive frame keeps function literals, and looking one
up closes it over the environment that ends in this frame: that is how the definitions see each
other.
-/

namespace MiniMl

namespace Env

/-- Closes a function literal over an environment. -/
def close (env : Env) (e : Expr) : Except Malformed Value :=
  match e.stripped with
  | .lambda param body => .ok (.closure param body env true)
  | .function rules => .ok (.function rules env)
  | _ => .error (.notFunctionLiteral e)

/-- The value of a name. -/
def find (env : Env) (name : String) : Except Failure Value :=
  match env with
  | .empty => .error (.error (.unbound name))
  | .extend parent key value => if key == name then .ok value else parent.find name
  | .recursive parent definitions =>
    match definitions.lookup name with
    | some e => (env.close e).mapError .malformed
    | none => parent.find name

/-- The names of all frames, with repetitions. -/
def frameNames : Env → List String
  | .empty => []
  | .extend parent key _ => key :: parent.frameNames
  | .recursive parent definitions => definitions.map Prod.fst ++ parent.frameNames

/-- Puts a name into an ascending list that is to have it once. -/
def insertName (name : String) : List String → List String
  | [] => [name]
  | n :: rest =>
    if name < n then name :: n :: rest
    else if name = n then n :: rest
    else n :: insertName name rest

/-- The names that can be found, in ascending order and each of them once. -/
def names (env : Env) : List String :=
  env.frameNames.foldr insertName []

theorem mem_insertName {name n : String} {list : List String} :
    n ∈ insertName name list ↔ n = name ∨ n ∈ list := by
  induction list with
  | nil => simp [insertName]
  | cons first rest ih =>
    rw [insertName]
    split
    · simp
    · split
      · rename_i heq
        subst heq
        simp
      · rw [List.mem_cons, ih, List.mem_cons]
        exact or_left_comm

theorem pairwise_insertName {name : String} {list : List String} (h : list.Pairwise (· < ·)) :
    (insertName name list).Pairwise (· < ·) := by
  induction list with
  | nil => simp [insertName]
  | cons first rest ih =>
    obtain ⟨hfirst, hrest⟩ := List.pairwise_cons.mp h
    rw [insertName]
    split
    · rename_i hlt
      refine List.pairwise_cons.mpr ⟨?_, h⟩
      intro n hn
      rcases List.mem_cons.mp hn with rfl | hn
      · exact hlt
      · exact String.lt_trans hlt (hfirst n hn)
    · split
      · exact h
      · rename_i hlt hne
        refine List.pairwise_cons.mpr ⟨?_, ih hrest⟩
        intro n hn
        rcases mem_insertName.mp hn with rfl | hn
        · have hle : first ≤ n := String.not_lt.mp hlt
          exact Std.lt_of_le_of_ne hle fun heq => hne heq.symm
        · exact hfirst n hn

/-- The names of an environment are those of its frames. -/
theorem mem_names {env : Env} {name : String} : name ∈ env.names ↔ name ∈ env.frameNames := by
  rw [names]
  induction env.frameNames with
  | nil => simp
  | cons first rest ih => rw [List.foldr_cons, mem_insertName, ih, List.mem_cons]

/-- The names of an environment ascend, so none of them stands there twice. -/
theorem pairwise_names (env : Env) : env.names.Pairwise (· < ·) := by
  rw [names]
  induction env.frameNames with
  | nil => exact List.Pairwise.nil
  | cons first rest ih => exact pairwise_insertName ih

/-- The name can be found. -/
def contains (env : Env) (name : String) : Bool :=
  env.frameNames.contains name

/-- An environment is shown by the number of its names. -/
def display (env : Env) : String :=
  "Environment(" ++ toString env.names.length ++ " bindings)"

/-- A frame of definitions, whatever they are. A repeated name keeps its last definition. -/
def recursiveFrame (env : Env) (definitions : List (String × Expr)) : Env :=
  .recursive env (Assoc.ofList definitions)

/-- A frame of definitions that have to be function literals. -/
def extendRecursive (env : Env) (definitions : List (String × Expr)) : Except Malformed Env :=
  let definitions := Assoc.ofList definitions
  match definitions.find? fun entry => !entry.2.isFunctionLiteral with
  | some entry => .error (.definitionNotFunction entry.1)
  | none => .ok (.recursive env definitions)

end Env

end MiniMl
