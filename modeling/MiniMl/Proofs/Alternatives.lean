import MiniMl.Proofs.Matching
/-!
# Choosing between alternatives

A match takes the left side of an alternative if it can and never comes back to it, even if a later
part of the pattern fails. Nothing is lost by that. What a part binds has no influence on whether
the parts after it match, so where the left side matches and the rest fails, the rest fails beside
the right side too.

The measure of this is the list of all ways to choose a side of every alternative (`expand`), in the
order in which a search through all of them would go. A match is the match of the first of them that
succeeds (`match?_eq_findSome?_expand`).
-/

namespace MiniMl

/-- The second environment has a frame more for each of the names, in order. -/
def Env.ExtendsBy (env : Env) (names : List String) (extended : Env) : Prop :=
  ∃ bindings : List (String × Value), bindings.map Prod.fst = names
    ∧ env.extendAll bindings = extended

namespace Pattern

/-! ### Ways to choose -/

mutual

/-- The patterns that come of choosing a side of every alternative. The choices are ordered by the
first place at which they differ, where left sides come before right sides. -/
def expand : Pattern → List Pattern
  | .typed inner ty => inner.expand.map (.typed · ty)
  | .optSome inner => inner.expand.map .optSome
  | .or left right => left.expand ++ right.expand
  | .list items => (expandAll items).map .list
  | .tuple items => (expandAll items).map .tuple
  | p => [p]

def expandAll : List Pattern → List (List Pattern)
  | [] => [[]]
  | p :: ps => p.expand.flatMap fun first => (expandAll ps).map (first :: ·)

end

mutual

/-- There is no alternative in the pattern. -/
def isOrFree : Pattern → Bool
  | .typed inner _ => inner.isOrFree
  | .optSome inner => inner.isOrFree
  | .or _ _ => false
  | .list items => allOrFree items
  | .tuple items => allOrFree items
  | .wild | .const _ | .ident _ | .optNone | .host _ => true

def allOrFree : List Pattern → Bool
  | [] => true
  | p :: ps => p.isOrFree && allOrFree ps

end

mutual

theorem isOrFree_of_mem_expand (p : Pattern) {q : Pattern} (h : q ∈ p.expand) :
    q.isOrFree = true := by
  cases p with
  | typed inner ty =>
      obtain ⟨chosen, hchosen, rfl⟩ := List.mem_map.mp h
      rw [isOrFree]
      exact isOrFree_of_mem_expand inner hchosen
  | optSome inner =>
      obtain ⟨chosen, hchosen, rfl⟩ := List.mem_map.mp h
      rw [isOrFree]
      exact isOrFree_of_mem_expand inner hchosen
  | or left right =>
      rcases List.mem_append.mp h with h | h
      · exact isOrFree_of_mem_expand left h
      · exact isOrFree_of_mem_expand right h
  | list items =>
      obtain ⟨chosen, hchosen, rfl⟩ := List.mem_map.mp h
      rw [isOrFree]
      exact allOrFree_of_mem_expandAll items hchosen
  | tuple items =>
      obtain ⟨chosen, hchosen, rfl⟩ := List.mem_map.mp h
      rw [isOrFree]
      exact allOrFree_of_mem_expandAll items hchosen
  | _ =>
      rw [List.mem_singleton.mp h]
      rfl

private theorem allOrFree_of_mem_expandAll (ps : List Pattern) {qs : List Pattern}
    (h : qs ∈ expandAll ps) : allOrFree qs = true := by
  cases ps with
  | nil =>
      rw [List.mem_singleton.mp h]
      rfl
  | cons p ps =>
      obtain ⟨first, hfirst, hqs⟩ := List.mem_flatMap.mp h
      obtain ⟨rest, hrest, rfl⟩ := List.mem_map.mp hqs
      rw [allOrFree, isOrFree_of_mem_expand p hfirst, allOrFree_of_mem_expandAll ps hrest]
      rfl

end

example : (Pattern.tuple [.or .wild (.ident "x"), .optSome (.or .optNone (.ident "y"))]).expand
    = [.tuple [.wild, .optSome .optNone], .tuple [.wild, .optSome (.ident "y")],
      .tuple [.ident "x", .optSome .optNone], .tuple [.ident "x", .optSome (.ident "y")]] := rfl

mutual

theorem map_fst_bindings_of_isOrFree (p : Pattern) (hp : p.isOrFree = true) {value : Value}
    {bindings : List (String × Value)} (h : p.bindings? value = some bindings) :
    bindings.map Prod.fst = p.boundNames := by
  cases p with
  | wild =>
      cases h
      rfl
  | const c =>
      rw [bindings?] at h
      split at h
      · cases h
        rfl
      · cases h
  | ident name =>
      cases h
      rfl
  | typed inner ty => exact map_fst_bindings_of_isOrFree inner hp h
  | optNone =>
      cases value with
      | optNone =>
          cases h
          rfl
      | _ => cases h
  | optSome inner =>
      cases value with
      | optSome content => exact map_fst_bindings_of_isOrFree inner hp h
      | _ => cases h
  | or left right => cases hp
  | list items =>
      cases value with
      | list values => exact map_fst_bindingsAll_of_allOrFree items hp h
      | _ => cases h
  | tuple items =>
      cases value with
      | tuple values => exact map_fst_bindingsAll_of_allOrFree items hp h
      | _ => cases h
  | host obj => cases value <;> cases h

private theorem map_fst_bindingsAll_of_allOrFree (ps : List Pattern) (hps : allOrFree ps = true)
    {values : List Value} {bindings : List (String × Value)}
    (h : bindingsAll? ps values = some bindings) :
    bindings.map Prod.fst = boundNamesAll ps := by
  cases ps with
  | nil =>
      cases values with
      | nil =>
          cases h
          rfl
      | cons v vs => cases h
  | cons p ps =>
      cases values with
      | nil => cases h
      | cons v vs =>
          rw [allOrFree, Bool.and_eq_true] at hps
          simp only [bindingsAll?, Option.bind_eq_bind, Option.bind_eq_some_iff] at h
          obtain ⟨first, hfirst, rest, hrest, heq⟩ := h
          cases heq
          rw [List.map_append, boundNamesAll, map_fst_bindings_of_isOrFree p hps.1 hfirst,
            map_fst_bindingsAll_of_allOrFree ps hps.2 hrest]

end

/-! ### The first choice that matches -/

private theorem findSome?_map_cons (p : Pattern) (v : Value) (vs : List Value)
    (choices : List (List Pattern)) :
    (choices.map (p :: ·)).findSome? (bindingsAll? · (v :: vs))
      = (p.bindings? v).bind fun bindings =>
        (choices.findSome? (bindingsAll? · vs)).bind fun others => some (bindings ++ others) := by
  rw [List.findSome?_map]
  induction choices with
  | nil => cases p.bindings? v <;> rfl
  | cons rest choices ih =>
      rw [List.findSome?_cons, List.findSome?_cons, ih]
      simp only [Function.comp_apply, bindingsAll?]
      cases p.bindings? v with
      | none => rfl
      | some first => cases bindingsAll? rest vs <;> rfl

/-- Searching all choices for a first item and the rest together comes to the same as searching for
each of them alone. -/
private theorem findSome?_flatMap_cons (firsts : List Pattern) (v : Value) (vs : List Value)
    (choices : List (List Pattern)) :
    (firsts.flatMap fun p => choices.map (p :: ·)).findSome? (bindingsAll? · (v :: vs))
      = (firsts.findSome? (·.bindings? v)).bind fun bindings =>
        (choices.findSome? (bindingsAll? · vs)).bind fun others => some (bindings ++ others) := by
  induction firsts with
  | nil => rfl
  | cons p firsts ih =>
      rw [List.flatMap_cons, List.findSome?_append, findSome?_map_cons, ih, List.findSome?_cons]
      cases p.bindings? v with
      | none => rfl
      | some first =>
          cases choices.findSome? (bindingsAll? · vs) with
          | some rest => rfl
          | none =>
              -- The rest fails whatever the first item binds, so no later choice helps it.
              cases firsts.findSome? (·.bindings? v) <;> rfl

mutual

theorem bindings?_eq_findSome?_expand (p : Pattern) (value : Value) :
    p.bindings? value = p.expand.findSome? (·.bindings? value) := by
  cases p with
  | typed inner ty =>
      rw [bindings?, expand, List.findSome?_map, bindings?_eq_findSome?_expand inner value]
      rfl
  | optSome inner =>
      rw [expand, List.findSome?_map]
      cases value with
      | optSome content =>
          rw [bindings?, bindings?_eq_findSome?_expand inner content]
          rfl
      | _ => exact (List.findSome?_eq_none_iff.mpr fun _ _ => rfl).symm
  | or left right =>
      rw [bindings?, expand, List.findSome?_append, bindings?_eq_findSome?_expand left value,
        bindings?_eq_findSome?_expand right value]
  | list items =>
      rw [expand, List.findSome?_map]
      cases value with
      | list values =>
          rw [bindings?, bindingsAll?_eq_findSome?_expandAll items values]
          rfl
      | _ => exact (List.findSome?_eq_none_iff.mpr fun _ _ => rfl).symm
  | tuple items =>
      rw [expand, List.findSome?_map]
      cases value with
      | tuple values =>
          rw [bindings?, bindingsAll?_eq_findSome?_expandAll items values]
          rfl
      | _ => exact (List.findSome?_eq_none_iff.mpr fun _ _ => rfl).symm
  | _ => simp [expand]

private theorem bindingsAll?_eq_findSome?_expandAll (ps : List Pattern) (values : List Value) :
    bindingsAll? ps values = (expandAll ps).findSome? (bindingsAll? · values) := by
  cases ps with
  | nil => simp [expandAll]
  | cons p ps =>
      cases values with
      | nil =>
          refine (List.findSome?_eq_none_iff.mpr fun chosen hchosen => ?_).symm
          obtain ⟨first, -, hrest⟩ := List.mem_flatMap.mp hchosen
          obtain ⟨rest, -, rfl⟩ := List.mem_map.mp hrest
          rfl
      | cons v vs =>
          rw [expandAll, findSome?_flatMap_cons, bindingsAll?, bindings?_eq_findSome?_expand p v,
            bindingsAll?_eq_findSome?_expandAll ps vs]
          rfl

end

theorem match?_eq_findSome?_expand (env : Env) (p : Pattern) (value : Value) :
    p.match? env value = p.expand.findSome? (·.match? env value) := by
  rw [match?_eq, bindings?_eq_findSome?_expand, List.map_findSome?]
  congr 1
  funext q
  exact (match?_eq env q value).symm

/-- The first way to choose in which the pattern matches the value, with the environment it
leaves. -/
def FirstChoice (env : Env) (value : Value) (p q : Pattern) (matched : Env) : Prop :=
  ∃ before after, p.expand = before ++ q :: after
    ∧ (∀ earlier ∈ before, earlier.match? env value = none) ∧ q.match? env value = some matched

theorem FirstChoice.mem {env : Env} {value : Value} {p q : Pattern} {matched : Env}
    (h : FirstChoice env value p q matched) : q ∈ p.expand := by
  obtain ⟨before, after, hexpand, -, -⟩ := h
  rw [hexpand]
  simp

theorem match?_eq_some_iff_firstChoice {env : Env} {value : Value} {p : Pattern} {matched : Env} :
    p.match? env value = some matched ↔ ∃ q, FirstChoice env value p q matched := by
  rw [match?_eq_findSome?_expand, List.findSome?_eq_some_iff]
  constructor
  · rintro ⟨before, q, after, hexpand, hmatch, hbefore⟩
    exact ⟨q, before, after, hexpand, hbefore, hmatch⟩
  · rintro ⟨q, before, after, hexpand, hbefore, hmatch⟩
    exact ⟨before, q, after, hexpand, hmatch, hbefore⟩

/-- The first choice adds its own names. A side that was given up leaves nothing behind. -/
theorem FirstChoice.extendsBy {env : Env} {value : Value} {p q : Pattern} {matched : Env}
    (h : FirstChoice env value p q matched) : env.ExtendsBy q.boundNames matched := by
  have horFree := isOrFree_of_mem_expand p h.mem
  obtain ⟨before, after, -, -, hmatch⟩ := h
  obtain ⟨bindings, hbindings, rfl⟩ := match?_eq_some_iff.mp hmatch
  exact ⟨bindings, map_fst_bindings_of_isOrFree q horFree hbindings, rfl⟩

/-- Committing to the left side of an alternative loses no match. A pattern fails if all its choices
fail, and otherwise does what the first choice does that matches: it adds the names of this choice
and nothing besides. None of the choices has an alternative left. -/
theorem matches_as_first_choice (env : Env) (p : Pattern) (value : Value) :
    (∀ q ∈ p.expand, q.isOrFree = true)
    ∧ (p.match? env value = none ↔ ∀ q ∈ p.expand, q.match? env value = none)
    ∧ ∀ matched, p.match? env value = some matched
      ↔ ∃ q, FirstChoice env value p q matched ∧ env.ExtendsBy q.boundNames matched := by
  refine ⟨fun q hq => isOrFree_of_mem_expand p hq, ?_, fun matched => ?_⟩
  · rw [match?_eq_findSome?_expand, List.findSome?_eq_none_iff]
  · rw [match?_eq_some_iff_firstChoice]
    exact ⟨fun ⟨q, hq⟩ => ⟨q, hq, hq.extendsBy⟩, fun ⟨q, hq, _⟩ => ⟨q, hq⟩⟩

end Pattern

end MiniMl
