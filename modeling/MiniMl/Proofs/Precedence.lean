import Mathlib.Data.List.Nodup
import MiniMl.Proofs.SettingsLibrary
/-!
# Which entry decides a field

A field is decided by an override, or else by a variable, or else by the settings file, or else by
its default (`SettingsReader.Decides`). Loading succeeds if every entry that decides a field is
valid, and otherwise lists the fields whose entries are not (`SettingsReader.load_eq_ok_iff`,
`SettingsReader.load_eq_error`). Sources that agree on the entries that decide are loaded alike,
whatever else they have. All this holds for every library that does what is documented.

A file may spell the name of a field in letters of either case. The last assignment of a spelling
counts, and of several spellings the one that is assigned first later than the others, which need
not be the one of the last assignment. A value may also refer to other keys and variables: these
are then part of what decides.
-/

namespace MiniMl

/-! ### Fields -/

namespace Field

/-- The fields in the order in which their problems are listed. -/
def all : List Field :=
  [.maxDepth, .trace, .captureFunctionEnv]

private theorem mem_all (field : Field) : field ∈ all := by
  cases field <;> simp [all]

/-- What a field holds. -/
def Content : Field → Type
  | .maxDepth => Int
  | .trace => Bool
  | .captureFunctionEnv => Bool

end Field

/-- The content of a field. -/
def Settings.content (settings : Settings) : (field : Field) → field.Content
  | .maxDepth => settings.maxDepth
  | .trace => settings.trace
  | .captureFunctionEnv => settings.captureFunctionEnv

namespace SettingsReader

/-- The content that a valid entry gives. -/
def check (reader : SettingsReader) : (field : Field) → Entry → Except Problem field.Content
  | .maxDepth => reader.toDepth
  | .trace => reader.toBool
  | .captureFunctionEnv => reader.toBool

theorem toDepth_eq_ok_iff {reader : SettingsReader} {entry : Entry} {n : Int} :
    reader.toDepth entry = .ok n ↔ reader.toInt entry = .ok n ∧ 1 ≤ n ∧ n ≤ 100000 := by
  rw [toDepth]
  cases reader.toInt entry with
  | error problem => simp [bind, Except.bind]
  | ok m =>
      change (if m < 1 then _ else if Settings.depthLimit < m then _ else _) = _ ↔ _
      rw [Settings.depthLimit]
      split
      · simp
        omega
      · split
        · simp
          omega
        · simp
          omega

/-! ### The entry that decides -/

section Decision

variable (reader : SettingsReader) (sources : Sources) (field : Field)

/-- The name is the one of the field among the variables and in the file, in letters of either
case. -/
def Spells (name : String) : Prop :=
  reader.fold name = reader.fold field.variableName

instance (name : String) : Decidable (reader.Spells field name) :=
  inferInstanceAs (Decidable (_ = _))

/-- No two variables have names that differ in letter case only. -/
def DistinctVars : Prop :=
  (sources.vars.map fun entry => reader.fold entry.1).Nodup

instance : Decidable (reader.DistinctVars sources) :=
  inferInstanceAs (Decidable (List.Nodup _))

/-- No variable has the name of the field. -/
def NoVariable : Prop :=
  ∀ entry ∈ sources.vars, ¬ reader.Spells field entry.1

instance : Decidable (reader.NoVariable sources field) :=
  inferInstanceAs (Decidable (∀ _ ∈ _, ¬ _))

/-- The spelling of a field's name that counts in the file: the keys are taken in the order of their
first assignments, and the last one that spells the name counts. -/
def spelling? : Option String :=
  ((reader.assignments sources.file).map Prod.fst).eraseDups.reverse.find? fun key =>
    reader.fold key == reader.fold field.variableName

/-- The entry that decides a field, none if the field has its default. -/
inductive Decides : Option Entry → Prop
  | override {entry : Entry} (hentry : sources.overrides.lookup field.name = some entry) :
      Decides (some entry)
  | var {name text : String} (hoverride : sources.overrides.lookup field.name = none)
      (hvar : (name, text) ∈ sources.vars) (hname : reader.Spells field name) :
      Decides (some (.text text))
  | file {key text : String} (hoverride : sources.overrides.lookup field.name = none)
      (hvars : reader.NoVariable sources field) (hkey : reader.spelling? sources field = some key)
      (hvalue : reader.Assigned sources.vars (reader.assignments sources.file) key (some text)) :
      Decides (some (.text text))
  /-- The file does not have the field, or has the key that counts without a value. -/
  | unset (hoverride : sources.overrides.lookup field.name = none)
      (hvars : reader.NoVariable sources field)
      (hfile : ∀ key, reader.spelling? sources field = some key →
        reader.Assigned sources.vars (reader.assignments sources.file) key none) :
      Decides none

end Decision

variable {reader : SettingsReader}

section LastOf

variable {β : Type} {name : String} {entries : List (String × β)}

theorem lastOf_eq_none_iff :
    reader.lastOf name entries = none
      ↔ ∀ entry ∈ entries, reader.fold entry.1 ≠ reader.fold name := by
  simp [lastOf]

/-- Where the names differ in more than letter case there is one entry to find. -/
private theorem lastOf_eq_some_of_mem
    (hdistinct : (entries.map fun entry => reader.fold entry.1).Nodup) {entry : String × β}
    (hmem : entry ∈ entries) (hname : reader.fold entry.1 = reader.fold name) :
    reader.lastOf name entries = some entry.2 := by
  rw [lastOf]
  cases hfind : entries.reverse.find? fun entry => reader.fold entry.1 == reader.fold name with
  | none =>
      have hnone := List.find?_eq_none.mp hfind entry (List.mem_reverse.mpr hmem)
      exact absurd (beq_iff_eq.mpr hname) hnone
  | some found =>
      have hfound : reader.fold found.1 = reader.fold name := by simpa using List.find?_some hfind
      have hmem' := List.mem_reverse.mp (List.mem_of_find?_eq_some hfind)
      obtain rfl := List.inj_on_of_nodup_map hdistinct hmem' hmem (hfound.trans hname.symm)
      rfl

theorem lastOf_eq_lookup (hkeys : (entries.map Prod.fst).Nodup) :
    reader.lastOf name entries
      = ((entries.map Prod.fst).reverse.find? fun key => reader.fold key == reader.fold name).bind
        fun key => entries.lookup key := by
  rw [lastOf, ← List.map_reverse, List.find?_map, Function.comp_def]
  cases hfind : entries.reverse.find? fun entry => reader.fold entry.1 == reader.fold name with
  | none => rfl
  | some found =>
      have hmem := List.mem_reverse.mp (List.mem_of_find?_eq_some hfind)
      exact (lookup_of_mem hkeys hmem).symm

/-- Entries under other names do not matter. -/
private theorem lastOf_filter {keep : String → Bool}
    (hkeep : ∀ key, reader.fold key = reader.fold name → keep key = true) :
    reader.lastOf name (entries.filter fun entry => keep entry.1) = reader.lastOf name entries := by
  rw [lastOf, lastOf, ← List.filter_reverse, List.find?_filter]
  congr 2
  funext entry
  rw [Bool.eq_iff_iff, decide_eq_true_iff, beq_iff_eq, and_iff_right_iff_imp]
  exact hkeep entry.1

end LastOf

variable {sources other : Sources} {field : Field}

/-- What the file has for a field: nothing, a key without a value, or a value. -/
def fileValue? (reader : SettingsReader) (sources : Sources) (field : Field) :
    Option (Option String) :=
  reader.lastOf field.variableName
    (reader.tableOf sources.vars (reader.assignments sources.file))

theorem fileValue?_eq_bind (reader : SettingsReader) (sources : Sources) (field : Field) :
    reader.fileValue? sources field = (reader.spelling? sources field).bind fun key =>
      (reader.tableOf sources.vars (reader.assignments sources.file)).lookup key := by
  rw [fileValue?, lastOf_eq_lookup (nodup_keys_tableOf _ _ _),
    keys_tableOf]
  rfl

private theorem winner_of_override {entry : Entry}
    (h : sources.overrides.lookup field.name = some entry) :
    reader.winner sources field = some entry := by
  simp only [winner, h]

private theorem winner_of_var {text : String}
    (hoverride : sources.overrides.lookup field.name = none)
    (h : reader.lastOf field.variableName sources.vars = some text) :
    reader.winner sources field = some (.text text) := by
  simp only [winner, hoverride, h]

private theorem winner_of_noVariable (hoverride : sources.overrides.lookup field.name = none)
    (hvars : reader.NoVariable sources field) :
    reader.winner sources field = (reader.fileValue? sources field).join.map .text := by
  have hnone : reader.lastOf field.variableName sources.vars = none := lastOf_eq_none_iff.mpr hvars
  simp only [winner, hoverride, hnone, fileValue?]

private theorem exists_assigned_of_spelling {key : String}
    (h : reader.spelling? sources field = some key) :
    ∃ value?, reader.Assigned sources.vars (reader.assignments sources.file) key
      value? := by
  have hmem := List.mem_reverse.mp (List.mem_of_find?_eq_some h)
  rw [← reader.keys_tableOf sources.vars] at hmem
  cases hlookup : (reader.tableOf sources.vars
      (reader.assignments sources.file)).lookup key with
  | none => exact absurd hmem (lookup_eq_none_iff_not_mem.mp hlookup)
  | some value? => exact ⟨value?, lookup_tableOf_eq_some_iff.mp hlookup⟩

theorem decides_iff (hdistinct : reader.DistinctVars sources) {decision : Option Entry} :
    reader.Decides sources field decision ↔ reader.winner sources field = decision := by
  constructor
  · intro h
    cases h with
    | override hentry => exact winner_of_override hentry
    | var hoverride hvar hname =>
        exact winner_of_var hoverride (lastOf_eq_some_of_mem hdistinct hvar hname)
    | file hoverride hvars hkey hvalue =>
        rw [winner_of_noVariable hoverride hvars, fileValue?_eq_bind, hkey, Option.bind_some,
          lookup_tableOf_eq_some_iff.mpr hvalue]
        rfl
    | unset hoverride hvars hfile =>
        rw [winner_of_noVariable hoverride hvars, fileValue?_eq_bind]
        cases hkey : reader.spelling? sources field with
        | none => rfl
        | some key =>
            rw [Option.bind_some, lookup_tableOf_eq_some_iff.mpr (hfile key hkey)]
            rfl
  · rintro rfl
    cases hoverride : sources.overrides.lookup field.name with
    | some entry =>
        rw [winner_of_override hoverride]
        exact .override hoverride
    | none =>
        by_cases hvars : reader.NoVariable sources field
        · rw [winner_of_noVariable hoverride hvars, fileValue?_eq_bind]
          cases hkey : reader.spelling? sources field with
          | none => exact .unset hoverride hvars fun key h => (by rw [hkey] at h; cases h)
          | some key =>
              obtain ⟨value?, hvalue⟩ := exists_assigned_of_spelling hkey
              rw [Option.bind_some, lookup_tableOf_eq_some_iff.mpr hvalue]
              cases value? with
              | some text => exact .file hoverride hvars hkey hvalue
              | none =>
                  refine .unset hoverride hvars fun key' hkey' => ?_
                  cases hkey.symm.trans hkey'
                  exact hvalue
        · simp only [NoVariable, not_forall, not_not] at hvars
          obtain ⟨⟨name, text⟩, hvar, hname⟩ := hvars
          rw [winner_of_var hoverride (lastOf_eq_some_of_mem hdistinct hvar hname)]
          exact .var hoverride hvar hname

/-! ### Loading -/

/-- The content that a field gets, or what is wrong with the entry that decides it. -/
def outcome (reader : SettingsReader) (sources : Sources) (field : Field) :
    Except Problem field.Content :=
  match reader.winner sources field with
  | some entry => reader.check field entry
  | none => .ok (({} : Settings).content field)

theorem outcome_eq_error_iff {problem : Problem} :
    reader.outcome sources field = .error problem
      ↔ ∃ entry, reader.winner sources field = some entry
        ∧ reader.check field entry = .error problem := by
  rw [outcome]
  cases reader.winner sources field with
  | none => simp
  | some entry => simp

theorem problemOf_eq_nil_iff {α : Type} {result : Except Problem α} :
    problemOf field result = [] ↔ ∃ content, result = .ok content := by
  cases result <;> simp [problemOf]

private theorem mem_problemOf_iff {α : Type} {result : Except Problem α} {listed : Field}
    {problem : Problem} :
    (listed, problem) ∈ problemOf field result ↔ listed = field ∧ result = .error problem := by
  cases result <;> simp [problemOf, eq_comm]

/-- All that is wrong, in the order of the fields. -/
def problems (reader : SettingsReader) (sources : Sources) : List (Field × Problem) :=
  Field.all.flatMap fun field => problemOf field (reader.outcome sources field)

theorem mem_problems_iff {problem : Problem} :
    (field, problem) ∈ reader.problems sources ↔ reader.outcome sources field = .error problem := by
  rw [problems, List.mem_flatMap]
  constructor
  · rintro ⟨listed, -, hmem⟩
    obtain ⟨rfl, herror⟩ := mem_problemOf_iff.mp hmem
    exact herror
  · intro herror
    exact ⟨field, field.mem_all, mem_problemOf_iff.mpr ⟨rfl, herror⟩⟩

theorem fieldValue_eq_outcome (reader : SettingsReader) (sources : Sources) :
    reader.fieldValue sources .maxDepth reader.toDepth ({} : Settings).maxDepth
        = reader.outcome sources .maxDepth
      ∧ reader.fieldValue sources .trace reader.toBool ({} : Settings).trace
        = reader.outcome sources .trace
      ∧ reader.fieldValue sources .captureFunctionEnv reader.toBool
          ({} : Settings).captureFunctionEnv
        = reader.outcome sources .captureFunctionEnv :=
  ⟨rfl, rfl, rfl⟩

theorem load_of_outcomes {settings : Settings}
    (h : ∀ field, reader.outcome sources field = .ok (settings.content field)) :
    reader.load sources = .ok settings := by
  obtain ⟨hdepth, htrace, hcapture⟩ := reader.fieldValue_eq_outcome sources
  simp only [load, hdepth, htrace, hcapture, h]
  rfl

private theorem exists_outcomes (h : reader.problems sources = []) :
    ∃ settings : Settings, ∀ field,
      reader.outcome sources field = .ok (settings.content field) := by
  have hok : ∀ field, ∃ content, reader.outcome sources field = .ok content := by
    intro field
    exact problemOf_eq_nil_iff.mp (List.flatMap_eq_nil_iff.mp h field field.mem_all)
  obtain ⟨maxDepth, hdepth⟩ := hok .maxDepth
  obtain ⟨trace, htrace⟩ := hok .trace
  obtain ⟨captureFunctionEnv, hcapture⟩ := hok .captureFunctionEnv
  refine ⟨⟨maxDepth, trace, captureFunctionEnv⟩, fun field => ?_⟩
  cases field with
  | maxDepth => exact hdepth
  | trace => exact htrace
  | captureFunctionEnv => exact hcapture

theorem load_of_problems_ne_nil (h : reader.problems sources ≠ []) :
    reader.load sources = .error (reader.problems sources) := by
  obtain ⟨hdepth, htrace, hcapture⟩ := reader.fieldValue_eq_outcome sources
  have hproblems : reader.problems sources = problemOf .maxDepth (reader.outcome sources .maxDepth)
      ++ problemOf .trace (reader.outcome sources .trace)
      ++ problemOf .captureFunctionEnv (reader.outcome sources .captureFunctionEnv) := by
    simp [problems, Field.all]
  rw [hproblems] at h ⊢
  simp only [load, hdepth, htrace, hcapture]
  cases hdepth' : reader.outcome sources .maxDepth with
  | error problem => rfl
  | ok maxDepth =>
      cases htrace' : reader.outcome sources .trace with
      | error problem => rfl
      | ok trace =>
          cases hcapture' : reader.outcome sources .captureFunctionEnv with
          | error problem => rfl
          | ok captureFunctionEnv =>
              rw [hdepth', htrace', hcapture'] at h
              exact absurd rfl h

theorem load_eq_ok_iff {settings : Settings} :
    reader.load sources = .ok settings
      ↔ ∀ field, reader.outcome sources field = .ok (settings.content field) := by
  constructor
  · intro h
    by_cases hnone : reader.problems sources = []
    · obtain ⟨loaded, hloaded⟩ := exists_outcomes hnone
      rw [load_of_outcomes hloaded] at h
      cases h
      exact hloaded
    · rw [load_of_problems_ne_nil hnone] at h
      cases h
  · exact load_of_outcomes

theorem load_eq_error {listed : List (Field × Problem)} (h : reader.load sources = .error listed) :
    listed = reader.problems sources := by
  by_cases hnone : reader.problems sources = []
  · obtain ⟨settings, hsettings⟩ := exists_outcomes hnone
    rw [load_of_outcomes hsettings] at h
    cases h
  · rw [load_of_problems_ne_nil hnone] at h
    cases h
    rfl

private theorem problems_sublist (reader : SettingsReader) (sources : Sources) :
    ((reader.problems sources).map Prod.fst).Sublist Field.all := by
  rw [problems]
  induction Field.all with
  | nil => exact List.Sublist.slnil
  | cons field rest ih =>
      rw [List.flatMap_cons, List.map_append]
      cases reader.outcome sources field with
      | ok content => exact ih.cons field
      | error problem => exact ih.cons_cons field

/-! ### Entries that do not matter -/

/-- The files agree on the keys that are kept. These are all the spellings of a field's name, and
whatever is mentioned in a value that is kept. -/
structure FilesAgree (reader : SettingsReader) (sources other : Sources) (field : Field)
    (keep : String → Bool) : Prop where
  spellings : ∀ name, reader.Spells field name → keep name = true
  closed : Closed keep (reader.assignments sources.file)
  assignments : (reader.assignments sources.file).filter (fun entry => keep entry.1)
    = (reader.assignments other.file).filter fun entry => keep entry.1
  vars : ∀ name, keep name = true → sources.vars.lookup name = other.vars.lookup name

/-- The sources agree on what decides a field. Entries of a source after the one that decides may be
there or not, as may entries under other names. -/
inductive Agree (reader : SettingsReader) (sources other : Sources) (field : Field) : Prop
  | override {entry : Entry} (hentry : sources.overrides.lookup field.name = some entry)
      (hentry' : other.overrides.lookup field.name = some entry)
  | var {name name' text : String} (hoverride : sources.overrides.lookup field.name = none)
      (hoverride' : other.overrides.lookup field.name = none)
      (hvar : (name, text) ∈ sources.vars) (hname : reader.Spells field name)
      (hvar' : (name', text) ∈ other.vars) (hname' : reader.Spells field name')
  | file {keep : String → Bool} (hoverride : sources.overrides.lookup field.name = none)
      (hoverride' : other.overrides.lookup field.name = none)
      (hvars : reader.NoVariable sources field) (hvars' : reader.NoVariable other field)
      (hfiles : reader.FilesAgree sources other field keep)

private theorem FilesAgree.closed_other {keep : String → Bool}
    (h : reader.FilesAgree sources other field keep) :
    Closed keep (reader.assignments other.file) := by
  intro assignment hmem hkeep
  have hfiltered : assignment ∈ (reader.assignments other.file).filter
      fun entry => keep entry.1 := List.mem_filter.mpr ⟨hmem, hkeep⟩
  rw [← h.assignments] at hfiltered
  exact h.closed assignment (List.mem_of_mem_filter hfiltered) hkeep

private theorem FilesAgree.fileValue?_eq {keep : String → Bool} (hreader : reader.OnlyMentioned)
    (h : reader.FilesAgree sources other field keep) :
    reader.fileValue? sources field = reader.fileValue? other field := by
  rw [fileValue?, fileValue?, ← lastOf_filter h.spellings,
    filter_tableOf (@hreader) h.closed h.vars, h.assignments,
    ← filter_tableOf (@hreader) h.closed_other fun _ _ => rfl, lastOf_filter h.spellings]

/-- Where no value of a field has a reference, its own assignments are all that matters. -/
theorem filesAgree_of_no_reference (hvars : reader.NoVariable sources field)
    (hvars' : reader.NoVariable other field)
    (hsame : (reader.assignments sources.file).filter (fun entry => reader.Spells field entry.1)
      = (reader.assignments other.file).filter fun entry => reader.Spells field entry.1)
    (hraw : ∀ assignment ∈ reader.assignments sources.file,
      reader.Spells field assignment.1 → assignment.2.all fun raw => '$' ∉ raw.toList) :
    reader.FilesAgree sources other field fun name => reader.Spells field name where
  spellings name hname := by simpa using hname
  closed assignment hmem hkeep raw hvalue name hmentions := by
    have hplain := hraw assignment hmem (by simpa using hkeep)
    rw [hvalue, Option.all_some, decide_eq_true_iff] at hplain
    exact absurd hmentions.dollar_mem hplain
  assignments := hsame
  vars name hname := by
    have hspelled : reader.Spells field name := by simpa using hname
    have hmissing : ∀ {vars : List (String × String)},
        (∀ entry ∈ vars, ¬ reader.Spells field entry.1) → vars.lookup name = none := by
      intro vars hnone
      rw [lookup_eq_none_iff_not_mem, List.mem_map]
      rintro ⟨entry, hentry, rfl⟩
      exact hnone entry hentry hspelled
    rw [hmissing hvars, hmissing hvars']

private theorem Agree.winner_eq (hreader : reader.OnlyMentioned)
    (hdistinct : reader.DistinctVars sources) (hdistinct' : reader.DistinctVars other)
    (h : reader.Agree sources other field) :
    reader.winner sources field = reader.winner other field := by
  cases h with
  | override hentry hentry' => rw [winner_of_override hentry, winner_of_override hentry']
  | var hoverride hoverride' hvar hname hvar' hname' =>
      rw [winner_of_var hoverride (lastOf_eq_some_of_mem hdistinct hvar hname),
        winner_of_var hoverride' (lastOf_eq_some_of_mem hdistinct' hvar' hname')]
  | file hoverride hoverride' hvars hvars' hfiles =>
      rw [winner_of_noVariable hoverride hvars, winner_of_noVariable hoverride' hvars',
        hfiles.fileValue?_eq (@hreader)]

theorem load_congr (h : ∀ field, reader.winner sources field = reader.winner other field) :
    reader.load sources = reader.load other := by
  simp only [load, fieldValue, h]

/-! ### Names that are spelt in one way -/

/-- If the file spells a name in one way only, this is the spelling that counts. -/
private theorem spelling?_eq_some {key : String}
    (hmem : key ∈ (reader.assignments sources.file).map Prod.fst)
    (hkey : reader.Spells field key)
    (honly : ∀ other ∈ (reader.assignments sources.file).map Prod.fst,
      reader.Spells field other → other = key) :
    reader.spelling? sources field = some key := by
  rw [spelling?]
  cases hfind : ((reader.assignments sources.file).map Prod.fst).eraseDups.reverse.find?
      fun key => reader.fold key == reader.fold field.variableName with
  | none =>
      have hnot := List.find?_eq_none.mp hfind key (by simpa using hmem)
      exact absurd (beq_iff_eq.mpr hkey) hnot
  | some found =>
      have hfound := List.mem_of_find?_eq_some hfind
      rw [List.mem_reverse, List.mem_eraseDups] at hfound
      have hbeq := List.find?_some hfind
      rw [honly found hfound (eq_of_beq hbeq)]

/-- Then the last assignment decides, and as it stands if it has no reference. -/
private theorem decides_of_last
    (hreader : ∀ (value : String → String → String) (text : String), '$' ∉ text.toList →
      reader.substitute value text = text)
    {before after : List SettingsFile.Assignment} {key raw : String}
    (hoverride : sources.overrides.lookup field.name = none)
    (hvars : reader.NoVariable sources field)
    (hfile : reader.assignments sources.file = before ++ (key, some raw) :: after)
    (hkey : reader.Spells field key)
    (hbefore : ∀ earlier ∈ before, reader.Spells field earlier.1 → earlier.1 = key)
    (hafter : ∀ later ∈ after, ¬ reader.Spells field later.1) (hraw : '$' ∉ raw.toList) :
    reader.Decides sources field (some (.text raw)) := by
  have hspelling : reader.spelling? sources field = some key := by
    refine spelling?_eq_some (by rw [hfile]; simp) hkey ?_
    rw [hfile]
    intro name hname hspelled
    obtain ⟨assignment, hmem, rfl⟩ := List.mem_map.mp hname
    rcases List.mem_append.mp hmem with hmem | hmem
    · exact hbefore assignment hmem hspelled
    · rcases List.mem_cons.mp hmem with rfl | hmem
      · rfl
      · exact absurd hspelled (hafter assignment hmem)
  refine .file hoverride hvars hspelling ⟨before, some raw, after, hfile, ?_, ?_⟩
  · intro hmem
    obtain ⟨assignment, hlater, heq⟩ := List.mem_map.mp hmem
    exact hafter assignment hlater (heq ▸ hkey)
  · rw [Option.map_some, replaced, hreader _ raw hraw]

/-! ### Loading by what decides -/

private theorem outcome_of_decides (hdistinct : reader.DistinctVars sources) {entry : Entry}
    (h : reader.Decides sources field (some entry)) :
    reader.outcome sources field = reader.check field entry := by
  rw [outcome, (decides_iff hdistinct).mp h]

private theorem outcome_of_unset (hdistinct : reader.DistinctVars sources)
    (h : reader.Decides sources field none) :
    reader.outcome sources field = .ok (({} : Settings).content field) := by
  rw [outcome, (decides_iff hdistinct).mp h]

theorem outcome_eq_ok_iff (hdistinct : reader.DistinctVars sources) {content : field.Content} :
    reader.outcome sources field = .ok content
      ↔ (∀ entry, reader.Decides sources field (some entry) →
          reader.check field entry = .ok content)
        ∧ (reader.Decides sources field none → content = ({} : Settings).content field) := by
  constructor
  · intro h
    refine ⟨fun entry hentry => ?_, fun hunset => ?_⟩
    · rw [← outcome_of_decides hdistinct hentry, h]
    · rw [outcome_of_unset hdistinct hunset] at h
      exact (Except.ok.inj h).symm
  · rintro ⟨hentry, hunset⟩
    have hdecides : reader.Decides sources field (reader.winner sources field) :=
      (decides_iff hdistinct).mpr rfl
    cases hwinner : reader.winner sources field with
    | none =>
        rw [hwinner] at hdecides
        rw [outcome_of_unset hdistinct hdecides, hunset hdecides]
    | some entry =>
        rw [hwinner] at hdecides
        rw [outcome_of_decides hdistinct hdecides, hentry entry hdecides]

theorem exists_load_iff (hdistinct : reader.DistinctVars sources) :
    (∃ settings, reader.load sources = .ok settings) ↔ ∀ field entry,
      reader.Decides sources field (some entry) →
        ∃ content, reader.check field entry = .ok content := by
  constructor
  · rintro ⟨settings, hload⟩ field entry hentry
    rw [← outcome_of_decides hdistinct hentry]
    exact ⟨_, load_eq_ok_iff.mp hload field⟩
  · intro h
    have hnone : reader.problems sources = [] := by
      rw [List.eq_nil_iff_forall_not_mem]
      rintro ⟨field, problem⟩ hmem
      obtain ⟨entry, hwinner, hcheck⟩ := outcome_eq_error_iff.mp (mem_problems_iff.mp hmem)
      obtain ⟨content, hcontent⟩ := h field entry ((decides_iff hdistinct).mpr hwinner)
      rw [hcontent] at hcheck
      cases hcheck
    obtain ⟨settings, hsettings⟩ := exists_outcomes hnone
    exact ⟨settings, load_of_outcomes hsettings⟩

private theorem depth_of_load {settings : Settings} (h : reader.load sources = .ok settings) :
    1 ≤ settings.maxDepth ∧ settings.maxDepth ≤ 100000 := by
  have houtcome := load_eq_ok_iff.mp h .maxDepth
  rw [outcome] at houtcome
  cases hwinner : reader.winner sources .maxDepth with
  | none =>
      rw [hwinner] at houtcome
      have hdefault : (5000 : Int) = settings.maxDepth := Except.ok.inj houtcome
      omega
  | some entry =>
      rw [hwinner] at houtcome
      exact (toDepth_eq_ok_iff.mp houtcome).2

namespace Documented

variable (hreader : reader.Documented)

include hreader

theorem spells_iff (field : Field) {name : String} (hname : ∀ c ∈ name.toList, c.toNat < 128) :
    reader.Spells field name
      ↔ LetterCase.ascii.lowerText name = LetterCase.ascii.lowerText field.variableName := by
  have hall : field.variableName.toList.all (fun c => decide (c.toNat < 128)) = true := by
    cases field <;> decide +kernel
  have hfield : ∀ c ∈ field.variableName.toList, c.toNat < 128 :=
    fun c hc => of_decide_eq_true (List.all_eq_true.mp hall c hc)
  rw [Spells, hreader.fold_ascii name hname, hreader.fold_ascii _ hfield]

theorem check_int_iff {n : Int} :
    (∃ content, reader.check .maxDepth (.int n) = .ok content) ↔ 1 ≤ n ∧ n ≤ 100000 := by
  constructor
  · rintro ⟨content, hcontent⟩
    obtain ⟨hint, hrange⟩ := toDepth_eq_ok_iff.mp hcontent
    rw [hreader.toInt_int] at hint
    cases hint
    exact hrange
  · exact fun hrange => ⟨n, toDepth_eq_ok_iff.mpr ⟨hreader.toInt_int n, hrange⟩⟩

end Documented

end SettingsReader

namespace Sources

end Sources

end MiniMl
