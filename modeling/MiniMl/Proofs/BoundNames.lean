import Mathlib.Data.List.Perm.Subperm
import MiniMl.Proofs.Alternatives
import MiniMl.Proofs.Lookup
/-!
# The names that a match binds

A match binds the names of the first choice between its alternatives that fits the value, while
`boundNames` reads left sides only. How far the two can differ is settled at the single
alternatives: a comparison of names that can be made part by part, and that holds between the two
sides of every alternative, holds between what a match binds and `boundNames`
(`related_map_fst_bindings`).
-/

namespace MiniMl

/-- The value itself or a component of it: an item of a list or tuple, the content of an option, at
any depth. -/
inductive Value.HasPart (whole : Value) : Value → Prop
  | self : HasPart whole whole
  | listItem {items : List Value} {item : Value} (hlist : HasPart whole (.list items))
      (hitem : item ∈ items) : HasPart whole item
  | tupleItem {items : List Value} {item : Value} (htuple : HasPart whole (.tuple items))
      (hitem : item ∈ items) : HasPart whole item
  | content {inner : Value} (hoption : HasPart whole (.optSome inner)) : HasPart whole inner

private theorem Value.inherited_hasPart (whole : Value) :
    Value.Inherited (Value.HasPart whole) where
  list _ hlist _ hitem := .listItem hlist hitem
  tuple _ htuple _ hitem := .tupleItem htuple hitem
  optSome _ hoption := .content hoption

/-- A comparison of lists of names that can be made part by part. -/
structure NameComparison (R : List String → List String → Prop) : Prop where
  refl : ∀ names, R names names
  trans : ∀ {names others more}, R names others → R others more → R names more
  append : ∀ {first first' rest rest'}, R first first' → R rest rest' →
    R (first ++ rest) (first' ++ rest')

theorem nameComparison_perm : NameComparison List.Perm where
  refl := .refl
  trans := .trans
  append := .append

theorem nameComparison_subperm : NameComparison List.Subperm where
  refl := .refl
  trans := .trans
  append := .append

theorem nameComparison_subset : NameComparison (· ⊆ ·) where
  refl := List.Subset.refl
  trans := List.Subset.trans
  append hfirst hrest := List.append_subset.mpr
    ⟨List.subset_append_of_subset_left _ hfirst, List.subset_append_of_subset_right _ hrest⟩

namespace Pattern

variable {R : List String → List String → Prop}

mutual

/-- In every alternative of the pattern, the names on the right compare to those on the left. -/
def SidesRelated (R : List String → List String → Prop) : Pattern → Prop
  | .typed inner _ => inner.SidesRelated R
  | .optSome inner => inner.SidesRelated R
  | .or left right =>
    R right.boundNames left.boundNames ∧ left.SidesRelated R ∧ right.SidesRelated R
  | .list items => AllSidesRelated R items
  | .tuple items => AllSidesRelated R items
  | .wild | .const _ | .ident _ | .optNone | .host _ => True

def AllSidesRelated (R : List String → List String → Prop) : List Pattern → Prop
  | [] => True
  | p :: ps => p.SidesRelated R ∧ AllSidesRelated R ps

end

mutual

instance decidableSidesRelated [DecidableRel R] : (p : Pattern) → Decidable (p.SidesRelated R)
  | .typed inner _ => decidableSidesRelated inner
  | .optSome inner => decidableSidesRelated inner
  | .or left right =>
    have : Decidable (left.SidesRelated R) := decidableSidesRelated left
    have : Decidable (right.SidesRelated R) := decidableSidesRelated right
    inferInstanceAs (Decidable (_ ∧ _ ∧ _))
  | .list items => decidableAllSidesRelated items
  | .tuple items => decidableAllSidesRelated items
  | .wild | .const _ | .ident _ | .optNone | .host _ => .isTrue trivial

instance decidableAllSidesRelated [DecidableRel R] :
    (ps : List Pattern) → Decidable (AllSidesRelated R ps)
  | [] => .isTrue trivial
  | p :: ps =>
    have : Decidable (p.SidesRelated R) := decidableSidesRelated p
    have : Decidable (AllSidesRelated R ps) := decidableAllSidesRelated ps
    inferInstanceAs (Decidable (_ ∧ _))

end

mutual

theorem related_boundNames_of_mem_expand (hR : NameComparison R) (p : Pattern)
    (hp : p.SidesRelated R) {q : Pattern} (hq : q ∈ p.expand) : R q.boundNames p.boundNames := by
  cases p with
  | typed inner ty =>
      obtain ⟨chosen, hchosen, rfl⟩ := List.mem_map.mp hq
      show R chosen.boundNames inner.boundNames
      exact related_boundNames_of_mem_expand hR inner hp hchosen
  | optSome inner =>
      obtain ⟨chosen, hchosen, rfl⟩ := List.mem_map.mp hq
      show R chosen.boundNames inner.boundNames
      exact related_boundNames_of_mem_expand hR inner hp hchosen
  | or left right =>
      obtain ⟨hsides, hleft, hright⟩ := hp
      rcases List.mem_append.mp hq with hq | hq
      · exact related_boundNames_of_mem_expand hR left hleft hq
      · exact hR.trans (related_boundNames_of_mem_expand hR right hright hq) hsides
  | list items =>
      obtain ⟨chosen, hchosen, rfl⟩ := List.mem_map.mp hq
      exact related_boundNamesAll_of_mem_expandAll hR items hp hchosen
  | tuple items =>
      obtain ⟨chosen, hchosen, rfl⟩ := List.mem_map.mp hq
      exact related_boundNamesAll_of_mem_expandAll hR items hp hchosen
  | _ =>
      rw [List.mem_singleton.mp hq]
      exact hR.refl _

private theorem related_boundNamesAll_of_mem_expandAll (hR : NameComparison R) (ps : List Pattern)
    (hps : AllSidesRelated R ps) {qs : List Pattern} (hqs : qs ∈ expandAll ps) :
    R (boundNamesAll qs) (boundNamesAll ps) := by
  cases ps with
  | nil =>
      rw [List.mem_singleton.mp hqs]
      exact hR.refl _
  | cons p ps =>
      obtain ⟨first, hfirst, hqs⟩ := List.mem_flatMap.mp hqs
      obtain ⟨rest, hrest, rfl⟩ := List.mem_map.mp hqs
      exact hR.append (related_boundNames_of_mem_expand hR p hps.1 hfirst)
        (related_boundNamesAll_of_mem_expandAll hR ps hps.2 hrest)

end

/-- A match binds the names of one of the ways to choose between the alternatives. -/
private theorem exists_choice_of_bindings {p : Pattern} {value : Value}
    {bindings : List (String × Value)} (h : p.bindings? value = some bindings) :
    ∃ q ∈ p.expand, bindings.map Prod.fst = q.boundNames := by
  rw [bindings?_eq_findSome?_expand] at h
  obtain ⟨q, hq, hbindings⟩ := List.exists_of_findSome?_eq_some h
  exact ⟨q, hq, map_fst_bindings_of_isOrFree q (isOrFree_of_mem_expand p hq) hbindings⟩

/-- What holds between the sides of every alternative holds between the names that a match binds
and those of the pattern. -/
theorem related_map_fst_bindings (hR : NameComparison R) {p : Pattern} (hp : p.SidesRelated R)
    {value : Value} {bindings : List (String × Value)} (h : p.bindings? value = some bindings) :
    R (bindings.map Prod.fst) p.boundNames := by
  obtain ⟨q, hq, hnames⟩ := exists_choice_of_bindings h
  rw [hnames]
  exact related_boundNames_of_mem_expand hR p hp hq

/-- A pattern and a value decide a match alone. Either they match in no environment, or there is one
list of bindings that a match adds to whatever environment it is given, the later ones hiding the
earlier ones. The values are parts of the value, and the names are those of the pattern: up to order
if the sides of every alternative bind the same names, and in order if there is no alternative. -/
theorem match_adds_boundNames (p : Pattern) (value : Value) :
    (∀ env, p.match? env value = none)
    ∨ ∃ bindings : List (String × Value),
      (∀ env, p.match? env value = some (env.extendAll bindings)
        ∧ ∀ name, (env.extendAll bindings).find name
          = (bindings.reverse.lookup name).elim (env.find name) .ok)
      ∧ (∀ entry ∈ bindings, value.HasPart entry.2)
      ∧ (p.SidesRelated List.Perm → (bindings.map Prod.fst).Perm p.boundNames)
      ∧ (p.isOrFree = true → bindings.map Prod.fst = p.boundNames) := by
  cases hbindings : p.bindings? value with
  | none =>
      refine .inl fun env => ?_
      rw [match?_eq, hbindings]
      rfl
  | some bindings =>
      refine .inr ⟨bindings, fun env => ⟨?_, env.find_extendAll bindings⟩, ?_, ?_, ?_⟩
      · exact match?_eq_some_iff.mpr ⟨bindings, hbindings, rfl⟩
      · exact forall_mem_bindings (Value.inherited_hasPart value) p hbindings .self
      · exact fun hsides => related_map_fst_bindings nameComparison_perm hsides hbindings
      · exact fun horFree => map_fst_bindings_of_isOrFree p horFree hbindings

theorem match_adds_boundNames_rightSide :
    let left : Pattern := .tuple [.const (.int 0), .tuple [.ident "x", .ident "y"]]
    let right : Pattern := .tuple [.wild, .tuple [.ident "y", .ident "x"]]
    let value : Value := .tuple [.int 1, .tuple [.int 2, .int 3]]
    (Pattern.or left right).SidesRelated List.Perm
      ∧ ∃ bindings, (∀ env, (Pattern.or left right).match? env value
          = some (env.extendAll bindings))
        ∧ (bindings.map Prod.fst).Perm ["x", "y"] := by
  intro left right value
  have hsides : (Pattern.or left right).SidesRelated List.Perm := by decide
  refine ⟨hsides, ?_⟩
  rcases match_adds_boundNames (.or left right) value with hnone | ⟨bindings, hmatch, -, hnames, -⟩
  · cases hnone .empty
  · exact ⟨bindings, fun env => (hmatch env).1, hnames hsides⟩

end Pattern

end MiniMl
