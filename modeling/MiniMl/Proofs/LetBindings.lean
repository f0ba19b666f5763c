import Mathlib.Data.List.Perm.Basic
import MiniMl.Proofs.BoundNames
import MiniMl.Proofs.Level
/-!
# What the bindings of a let add

A let that succeeds adds a block of frames for each of its bindings, found from the binding and the
outer environment alone (`bindWith_eq_ok_iff`). The names of a block are those of its pattern as far
as the sides of the alternatives bind the same names. A name that the patterns have twice is
refused, so the blocks of a let are then apart from each other. It follows that no name is added
twice, and that the order of the bindings does not matter.

The refusal looks at left sides only. An alternative whose right side has a name of its own can add
it a second time, and then the order of the bindings shows.
-/

namespace MiniMl

/-! ### Blocks of entries -/

/-- The blocks have no name in common. -/
def NamesApart {β : Type} (block other : List (String × β)) : Prop :=
  (block.map Prod.fst).Disjoint (other.map Prod.fst)

theorem NamesApart.symm {β : Type} {block other : List (String × β)} (h : NamesApart block other) :
    NamesApart other block :=
  List.disjoint_symm h

private theorem lookup_flatten_of_perm {β : Type} {blocks reordered : List (List (String × β))}
    (hperm : blocks.Perm reordered) (hapart : blocks.Pairwise NamesApart) (name : String) :
    blocks.flatten.lookup name = reordered.flatten.lookup name := by
  induction hperm with
  | nil => rfl
  | cons block _ ih =>
      rw [List.flatten_cons, List.flatten_cons, List.lookup_append, List.lookup_append,
        ih (List.pairwise_cons.mp hapart).2]
  | swap block other rest =>
      simp only [List.flatten_cons, List.lookup_append]
      cases hother : other.lookup name with
      | none => rfl
      | some content =>
          cases hblock : block.lookup name with
          | none => rfl
          | some content' =>
              -- Only here would it matter which block is asked first, and it cannot come to this.
              have hinOther : name ∈ other.map Prod.fst :=
                List.mem_map.mpr ⟨_, mem_of_lookup_eq_some hother, rfl⟩
              have hinBlock : name ∈ block.map Prod.fst :=
                List.mem_map.mpr ⟨_, mem_of_lookup_eq_some hblock, rfl⟩
              have hneighbours := (List.pairwise_cons.mp hapart).1 block List.mem_cons_self
              exact absurd hinBlock (hneighbours hinOther)
  | trans hfirst _ ihfirst ihrest =>
      have hmiddle := hfirst.pairwise hapart NamesApart.symm
      exact (ihfirst hapart).trans (ihrest hmiddle)

private theorem lookup_of_perm {β : Type} {entries reordered : List (String × β)}
    (hperm : entries.Perm reordered) (hkeys : (entries.map Prod.fst).Nodup) (name : String) :
    entries.lookup name = reordered.lookup name := by
  have hapart : (entries.map fun entry => [entry]).Pairwise NamesApart := by
    rw [List.pairwise_map]
    refine (List.pairwise_map.mp hkeys).imp fun hne => ?_
    simpa [NamesApart] using hne.symm
  have hflatten : ∀ list : List (String × β), (list.map fun entry => [entry]).flatten = list :=
    fun list => by simp [← List.flatMap_def]
  rw [← hflatten entries, ← hflatten reordered]
  exact lookup_flatten_of_perm (hperm.map _) hapart name

/-! ### Lets that are not recursive -/

/-- The right-hand side has a value in the environment, and the pattern matches it with these
bindings. -/
def Clause.Adds (evaluation : Evaluation) (env : Env) (binding : Binding)
    (added : List (String × Value)) : Prop :=
  ∃ value, (evaluation binding.body env).outcome = .ok value
    ∧ binding.pattern.bindings? value = some added

section Let

variable {evaluation : Evaluation} {env : Env} {bindings : List Binding}

theorem exists_values_iff_adds {all : List (String × Value)} :
    (∃ values, List.Forall₂ (fun e value => (evaluation e env).outcome = .ok value)
        (bindings.map Clause.body) values
      ∧ Pattern.bindingsAll? (bindings.map Clause.pattern) values = some all)
      ↔ ∃ added, List.Forall₂ (Clause.Adds evaluation env) bindings added
        ∧ added.flatten = all := by
  induction bindings generalizing all with
  | nil => simp [Pattern.bindingsAll?]
  | cons binding rest ih =>
      constructor
      · rintro ⟨values, hvalues, hall⟩
        cases hvalues with
        | @cons _ value _ values hvalue hvalues =>
            simp only [List.map_cons, Pattern.bindingsAll?, Option.bind_eq_bind,
              Option.bind_eq_some_iff] at hall
            obtain ⟨first, hfirst, others, hothers, heq⟩ := hall
            cases heq
            obtain ⟨added, hadded, rfl⟩ := ih.mp ⟨values, hvalues, hothers⟩
            exact ⟨first :: added, .cons ⟨value, hvalue, hfirst⟩ hadded, rfl⟩
      · rintro ⟨added, hadded, rfl⟩
        cases hadded with
        | @cons _ first _ added hfirst hadded =>
            obtain ⟨value, hvalue, hmatch⟩ := hfirst
            obtain ⟨values, hvalues, hothers⟩ := ih.mpr ⟨added, hadded, rfl⟩
            refine ⟨value :: values, .cons hvalue hvalues, ?_⟩
            rw [List.map_cons, Pattern.bindingsAll?, hmatch, hothers]
            rfl

theorem matchBindings_values_iff {values : List Value} {extended : Env}
    (hvalues : (evalAll evaluation env (bindings.map Clause.body)).outcome = .ok values) :
    matchBindings env bindings values = .ok extended
      ↔ ∃ all, Pattern.bindingsAll? (bindings.map Clause.pattern) values = some all
        ∧ env.extendAll all = extended := by
  have hlength : bindings.length = values.length := by
    rw [length_of_evalAll hvalues, List.length_map]
  rw [matchBindings_eq_ok_iff hlength, Pattern.matchAll?_eq_some_iff]

/-- A let succeeds if its names are different, every right-hand side has a value and every pattern
matches, and then it adds a block for each binding. -/
theorem bindWith_eq_ok_iff {extended : Env} :
    (bindWith evaluation env false bindings).outcome = .ok extended
      ↔ (letNames bindings).Nodup
        ∧ ∃ added, List.Forall₂ (Clause.Adds evaluation env) bindings added
          ∧ env.extendAll added.flatten = extended := by
  by_cases hdistinct : (letNames bindings).Nodup
  · rw [bindWith_of_nodup false hdistinct, cond_false, Run.outcome_bind_eq_ok_iff]
    simp only [Run.outcome_ofEval_eq_ok_iff]
    constructor
    · rintro ⟨values, hvalues, hok⟩
      obtain ⟨all, hall, hextended⟩ := (matchBindings_values_iff hvalues).mp hok
      obtain ⟨added, hadded, rfl⟩ :=
        exists_values_iff_adds.mp ⟨values, evalAll_eq_ok_iff.mp hvalues, hall⟩
      exact ⟨hdistinct, added, hadded, hextended⟩
    · rintro ⟨-, added, hadded, hextended⟩
      obtain ⟨values, hvalues, hall⟩ := exists_values_iff_adds.mpr ⟨added, hadded, rfl⟩
      have hok := evalAll_eq_ok_iff.mpr hvalues
      exact ⟨values, hok, (matchBindings_values_iff hok).mpr ⟨_, hall, hextended⟩⟩
  · obtain ⟨name, -, hrefused⟩ := bindWith_of_not_nodup evaluation env false hdistinct
    simp [hrefused, hdistinct, Run.fail, Run.ofOutcome]

/-! ### Names that are added -/

private theorem related_names_of_adds {R : List String → List String → Prop} (hR : NameComparison R)
    (hsides : ∀ binding ∈ bindings, binding.pattern.SidesRelated R)
    {added : List (List (String × Value))}
    (hadded : List.Forall₂ (Clause.Adds evaluation env) bindings added) :
    R (added.flatten.map Prod.fst) (letNames bindings) := by
  induction hadded with
  | nil => exact hR.refl []
  | @cons binding first rest added hfirst hadded ih =>
      obtain ⟨value, -, hmatch⟩ := hfirst
      rw [List.flatten_cons, List.map_append, letNames_cons]
      have hrest : ∀ other ∈ rest, other.pattern.SidesRelated R :=
        fun other hother => hsides other (List.mem_cons_of_mem binding hother)
      have hnames := Pattern.related_map_fst_bindings hR (hsides binding List.mem_cons_self) hmatch
      exact hR.append hnames (ih hrest)

private theorem namesApart_of_adds
    (hsides : ∀ binding ∈ bindings, binding.pattern.SidesRelated (· ⊆ ·))
    (hdistinct : (letNames bindings).Nodup) {added : List (List (String × Value))}
    (hadded : List.Forall₂ (Clause.Adds evaluation env) bindings added) :
    added.Pairwise NamesApart := by
  induction hadded with
  | nil => exact .nil
  | @cons binding first rest added hfirst hadded ih =>
      obtain ⟨value, -, hmatch⟩ := hfirst
      rw [letNames_cons] at hdistinct
      have hrest : ∀ other ∈ rest, other.pattern.SidesRelated (· ⊆ ·) :=
        fun other hother => hsides other (List.mem_cons_of_mem binding hother)
      have hnames : first.map Prod.fst ⊆ binding.pattern.boundNames :=
        Pattern.related_map_fst_bindings nameComparison_subset
          (hsides binding List.mem_cons_self) hmatch
      have hothers : added.flatten.map Prod.fst ⊆ letNames rest :=
        related_names_of_adds nameComparison_subset hrest hadded
      refine .cons (fun block hblock => ?_) (ih hrest (List.nodup_append.mp hdistinct).2.1)
      have hblock' : block.map Prod.fst ⊆ letNames rest :=
        List.Subset.trans (List.map_subset _ fun _ hentry => List.mem_flatten_of_mem hblock hentry)
          hothers
      have hapart : binding.pattern.boundNames.Disjoint (letNames rest) :=
        List.disjoint_iff_ne.mpr (List.nodup_append.mp hdistinct).2.2
      exact List.disjoint_of_subset_left hnames (List.disjoint_of_subset_right hblock' hapart)

/-! ### Reordering -/

theorem letNames_eq_flatMap (bindings : List Binding) :
    letNames bindings = bindings.flatMap fun binding => binding.pattern.boundNames := by
  induction bindings with
  | nil => rfl
  | cons binding rest ih => rw [letNames_cons, List.flatMap_cons, ih]

private theorem letNames_perm {reordered : List Binding} (hperm : bindings.Perm reordered) :
    (letNames bindings).Perm (letNames reordered) := by
  rw [letNames_eq_flatMap, letNames_eq_flatMap]
  exact hperm.flatMap_right _

private theorem find_extendAll_of_perm {added reordered : List (List (String × Value))}
    (hperm : added.Perm reordered) (hapart : added.Pairwise NamesApart) (name : String) :
    (env.extendAll added.flatten).find name = (env.extendAll reordered.flatten).find name := by
  -- The last entry of a name is the one that is found, so the blocks are searched from behind.
  have hblocks : (added.map List.reverse).reverse.Perm (reordered.map List.reverse).reverse :=
    (List.reverse_perm _).trans ((hperm.map _).trans (List.reverse_perm _).symm)
  have hapart' : (added.map List.reverse).reverse.Pairwise NamesApart := by
    rw [List.pairwise_reverse, List.pairwise_map]
    refine hapart.imp fun {block other} hblock => ?_
    rw [NamesApart, List.map_reverse, List.map_reverse, List.disjoint_reverse_left,
      List.disjoint_reverse_right]
    exact hblock.symm
  rw [Env.find_extendAll, Env.find_extendAll, List.reverse_flatten, List.reverse_flatten,
    lookup_flatten_of_perm hblocks hapart']

private theorem bindWith_of_perm {reordered : List Binding}
    (hsides : ∀ binding ∈ bindings, binding.pattern.SidesRelated (· ⊆ ·))
    (hperm : bindings.Perm reordered) {extended : Env}
    (h : (bindWith evaluation env false bindings).outcome = .ok extended) :
    ∃ extended', (bindWith evaluation env false reordered).outcome = .ok extended'
      ∧ ∀ name, extended.find name = extended'.find name := by
  obtain ⟨hdistinct, added, hadded, rfl⟩ := bindWith_eq_ok_iff.mp h
  obtain ⟨added', hadded', hblocks⟩ := List.perm_comp_forall₂ hperm.symm hadded
  have hdistinct' : (letNames reordered).Nodup := (letNames_perm hperm).nodup hdistinct
  refine ⟨_, bindWith_eq_ok_iff.mpr ⟨hdistinct', added', hadded', rfl⟩, fun name => ?_⟩
  exact find_extendAll_of_perm hblocks.symm (namesApart_of_adds hsides hdistinct hadded) name

end Let

/-! ### Recursive lets -/

section LetRec

variable {evaluation : Evaluation} {env : Env} {bindings : List Binding}

private theorem definitionsOf_eq_ok_iff_forall₂ {definitions : List (String × Expr)} :
    definitionsOf bindings = .ok definitions
      ↔ List.Forall₂ (fun binding definition => binding.definition = .ok definition)
        bindings definitions := by
  rw [definitionsOf_eq_ok_iff, ← List.forall₂_eq_eq_eq, List.forall₂_map_left_iff,
    List.forall₂_map_right_iff]

theorem bindWith_recursive_eq_ok_iff {extended : Env} :
    (bindWith evaluation env true bindings).outcome = .ok extended
      ↔ (letNames bindings).Nodup
        ∧ ∃ definitions,
          List.Forall₂ (fun binding definition => binding.definition = .ok definition)
            bindings definitions
          ∧ Env.recursive env definitions = extended := by
  by_cases hdistinct : (letNames bindings).Nodup
  · rw [bindWith_of_nodup true hdistinct, cond_true, Run.outcome_bind_eq_ok_iff]
    have hframe : ∀ {definitions}, definitionsOf bindings = .ok definitions →
        ((Run.ofChecked (env.extendRecursive definitions)).outcome = .ok extended
          ↔ Env.recursive env definitions = extended) := by
      intro definitions hok
      rw [extendRecursive_definitionsOf env hok hdistinct]
      show (Except.ok (Env.recursive env definitions) : Except Failure Env) = .ok extended ↔ _
      rw [Except.ok.injEq]
    constructor
    · rintro ⟨definitions, hok, hextended⟩
      have hok' := Run.outcome_ofEval_eq_ok_iff.mp hok
      have hall := definitionsOf_eq_ok_iff_forall₂.mp hok'
      exact ⟨hdistinct, definitions, hall, (hframe hok').mp hextended⟩
    · rintro ⟨-, definitions, hall, hextended⟩
      have hok := definitionsOf_eq_ok_iff_forall₂.mpr hall
      exact ⟨definitions, Run.outcome_ofEval_eq_ok_iff.mpr hok, (hframe hok).mpr hextended⟩
  · obtain ⟨name, -, hrefused⟩ := bindWith_of_not_nodup evaluation env true hdistinct
    simp [hrefused, hdistinct, Run.fail, Run.ofOutcome]

private theorem bindWith_recursive_of_perm {reordered : List Binding}
    (hperm : bindings.Perm reordered) {extended : Env}
    (h : (bindWith evaluation env true bindings).outcome = .ok extended) :
    ∃ definitions definitions', extended = .recursive env definitions
      ∧ (bindWith evaluation env true reordered).outcome = .ok (.recursive env definitions')
      ∧ definitions.Perm definitions'
      ∧ ∀ name, definitions.lookup name = definitions'.lookup name := by
  obtain ⟨hdistinct, definitions, hall, rfl⟩ := bindWith_recursive_eq_ok_iff.mp h
  obtain ⟨definitions', hall', hentries⟩ := List.perm_comp_forall₂ hperm.symm hall
  have hdistinct' : (letNames reordered).Nodup := (letNames_perm hperm).nodup hdistinct
  have hkeys : (definitions.map Prod.fst).Nodup := by
    rw [map_fst_definitionsOf (definitionsOf_eq_ok_iff_forall₂.mpr hall)]
    exact hdistinct
  refine ⟨definitions, definitions', rfl, ?_, hentries.symm, fun name => ?_⟩
  · exact bindWith_recursive_eq_ok_iff.mpr ⟨hdistinct', definitions', hall', rfl⟩
  · exact lookup_of_perm hentries.symm hkeys name

end LetRec

/-! ### The names and the order of a let -/

/-- A let that succeeds adds no name twice, if the right side of every alternative binds no more
than the left side does. If its patterns have a name twice it fails and tells the first such
name. -/
theorem let_names_distinct (settings : Settings) (env : Env) {bindings : List Binding}
    (hsides : ∀ binding ∈ bindings, binding.pattern.SidesRelated List.Subperm) :
    (∀ extended, (bindLet settings env false bindings).outcome = .ok extended →
      ∃ names, env.ExtendsBy names extended ∧ names.Nodup ∧ names.Subperm (letNames bindings))
    ∧ (¬ (letNames bindings).Nodup → ∃ name, firstRepeated [] (letNames bindings) = some name
      ∧ (bindLet settings env false bindings).outcome = .error (.error (.repeatedName name))) := by
  constructor
  · intro extended h
    obtain ⟨hdistinct, added, hadded, hextended⟩ := bindWith_eq_ok_iff.mp h
    have hnames := related_names_of_adds nameComparison_subperm hsides hadded
    refine ⟨_, ⟨added.flatten, rfl, hextended⟩, ?_, hnames⟩
    obtain ⟨chosen, hperm, hsublist⟩ := hnames
    exact hperm.nodup (hsublist.nodup hdistinct)
  · intro hrepeated
    obtain ⟨name, hname, hrefused⟩ :=
      bindWith_of_not_nodup (evaluate settings) env false hrepeated
    exact ⟨name, hname, congrArg Run.outcome hrefused⟩

/-- One identifier, and an alternative of which the right side matches. -/
theorem let_names_distinct_rightSide :
    let bindings : List Binding := [⟨.ident "x", .const (.int 1)⟩,
      ⟨.or (.tuple [.const (.int 0), .ident "y"]) (.tuple [.ident "y", .wild]),
        .tuple [.const (.int 2), .const (.int 3)]⟩]
    let extended : Env := (Env.empty.extend "x" (.int 1)).extend "y" (.int 2)
    (∀ binding ∈ bindings, binding.pattern.SidesRelated List.Subperm)
      ∧ (bindLet {} .empty false bindings).outcome = .ok extended
      ∧ ∃ names, Env.empty.ExtendsBy names extended ∧ names.Nodup
        ∧ names.Subperm (letNames bindings) := by
  intro bindings extended
  have hsides : ∀ binding ∈ bindings, binding.pattern.SidesRelated List.Subperm := by decide
  have hok : (bindLet {} .empty false bindings).outcome = .ok extended := rfl
  exact ⟨hsides, hok, (let_names_distinct {} .empty hsides).1 extended hok⟩

/-- Without a condition on alternatives a let can add a name twice: in `let x = 1 and (0 | x) = 2`
the second pattern counts as one without names. -/
theorem not_forall_let_names_distinct :
    ¬ ∀ (settings : Settings) (env : Env) (bindings : List Binding) (extended : Env),
      bindings ≠ [] → (bindLet settings env false bindings).outcome = .ok extended →
        ∃ names, env.ExtendsBy names extended ∧ names.Nodup := by
  intro h
  obtain ⟨names, ⟨added, rfl, hadded⟩, hdistinct⟩ := h {} .empty
    [⟨.ident "x", .const (.int 1)⟩, ⟨.or (.const (.int 0)) (.ident "x"), .const (.int 2)⟩]
    ((Env.empty.extend "x" (.int 1)).extend "x" (.int 2)) (by simp) rfl
  have hframes := congrArg Env.frameNames hadded
  rw [Env.frameNames_extendAll] at hframes
  have hreversed : ((added.map Prod.fst).reverse ++ Env.empty.frameNames).Nodup := by
    rw [Env.frameNames, List.append_nil]
    exact (List.reverse_perm _).symm.nodup hdistinct
  rw [hframes] at hreversed
  exact absurd hreversed (by decide)

/-- The order of the bindings of a let does not matter, if the right side of every alternative binds
no name that the left side does not bind, so in particular if both bind the same names. A let
succeeds in all orders or in none. All orders of a let give each name the same value, and all orders
of a recursive let give a frame with the same definitions over the same environment. -/
theorem let_order_irrelevant (settings : Settings) (env : Env) {bindings reordered : List Binding}
    (hsides : ∀ binding ∈ bindings, binding.pattern.SidesRelated (· ⊆ ·))
    (hperm : bindings.Perm reordered) :
    (∀ recursive, (∃ extended, (bindLet settings env recursive bindings).outcome = .ok extended)
      ↔ ∃ extended, (bindLet settings env recursive reordered).outcome = .ok extended)
    ∧ (∀ extended extended', (bindLet settings env false bindings).outcome = .ok extended →
      (bindLet settings env false reordered).outcome = .ok extended' →
      ∀ name, extended.find name = extended'.find name)
    ∧ ∀ extended extended', (bindLet settings env true bindings).outcome = .ok extended →
      (bindLet settings env true reordered).outcome = .ok extended' →
      ∃ definitions definitions', extended = .recursive env definitions
        ∧ extended' = .recursive env definitions' ∧ definitions.Perm definitions'
        ∧ ∀ name, definitions.lookup name = definitions'.lookup name := by
  have hsides' : ∀ binding ∈ reordered, binding.pattern.SidesRelated (· ⊆ ·) :=
    fun binding hbinding => hsides binding (hperm.mem_iff.mpr hbinding)
  refine ⟨fun recursive => ?_, fun extended extended' h h' => ?_, fun extended extended' h h' => ?_⟩
  · cases recursive with
    | false =>
        constructor
        · rintro ⟨extended, h⟩
          obtain ⟨extended', h', -⟩ := bindWith_of_perm hsides hperm h
          exact ⟨extended', h'⟩
        · rintro ⟨extended, h⟩
          obtain ⟨extended', h', -⟩ := bindWith_of_perm hsides' hperm.symm h
          exact ⟨extended', h'⟩
    | true =>
        constructor
        · rintro ⟨extended, h⟩
          obtain ⟨-, definitions', -, h', -⟩ := bindWith_recursive_of_perm hperm h
          exact ⟨_, h'⟩
        · rintro ⟨extended, h⟩
          obtain ⟨-, definitions', -, h', -⟩ := bindWith_recursive_of_perm hperm.symm h
          exact ⟨_, h'⟩
  · obtain ⟨other, hother, hfind⟩ := bindWith_of_perm hsides hperm h
    obtain rfl : other = extended' := Except.ok.inj (hother.symm.trans h')
    exact hfind
  · obtain ⟨definitions, definitions', hextended, hother, hsame⟩ :=
      bindWith_recursive_of_perm hperm h
    exact ⟨definitions, definitions', hextended, Except.ok.inj (h'.symm.trans hother), hsame⟩

/-- Two bindings the other way round, one of them an alternative, and both of them read a name that
the let binds. -/
theorem let_order_irrelevant_swap :
    let first : Binding := ⟨.ident "x", .ident "x"⟩
    let second : Binding :=
      ⟨.or (.tuple [.const (.int 0), .ident "y"]) (.tuple [.ident "y", .wild]),
        .tuple [.ident "x", .const (.int 3)]⟩
    let env : Env := Env.empty.extend "x" (.int 1)
    let extended : Env := (env.extend "x" (.int 1)).extend "y" (.int 1)
    let extended' : Env := (env.extend "y" (.int 1)).extend "x" (.int 1)
    (∀ binding ∈ [first, second], binding.pattern.SidesRelated (· ⊆ ·))
      ∧ [first, second].Perm [second, first]
      ∧ (bindLet {} env false [first, second]).outcome = .ok extended
      ∧ (bindLet {} env false [second, first]).outcome = .ok extended'
      ∧ ∀ name, extended.find name = extended'.find name := by
  intro first second env extended extended'
  have hsides : ∀ binding ∈ [first, second], binding.pattern.SidesRelated (· ⊆ ·) := by decide
  have hperm : [first, second].Perm [second, first] := .swap second first []
  have hok : (bindLet {} env false [first, second]).outcome = .ok extended := rfl
  have hok' : (bindLet {} env false [second, first]).outcome = .ok extended' := rfl
  exact ⟨hsides, hperm, hok, hok',
    (let_order_irrelevant {} env hsides hperm).2.1 extended extended' hok hok'⟩

end MiniMl
