import Mathlib.Data.List.Induction
import MiniMl.Log.Console
/-!
# The console after any history of calls

A call for a profile finds it in force, fails or succeeds. A call that fails has removed the sinks
and changes nothing else; a call that succeeds sets everything at once. `Step` says this once, and
what holds of the console after any history of calls follows by induction on the history.

A handler is installed, the package is enabled and a profile is in force all at the same times, and
a sink always belongs to the profile in force (`consistent_after`, `exists_call_of_mem_sinks`). But
a profile need not have its sink: it stays in force when a call for another profile fails, and calls
for it then do nothing and report no error (`SinkLost`).
-/

namespace MiniMl

/-! ### What a sink takes from a filter -/

theorem Level.name_of_ofName? {known : List Level} {name : String} {level : Level}
    (h : Level.ofName? known name = some level) : level.name = name := by
  simpa using List.find?_some h

theorem Profile.ofName?_eq_some_iff {name : String} {profile : Profile} :
    Profile.ofName? name = some profile ↔ profile.name = name := by
  constructor
  · intro h
    simpa using List.find?_some h
  · rintro rfl
    exact Profile.ofName?_name profile

private theorem Profile.name_inj {profile other : Profile} (h : profile.name = other.name) :
    profile = other := by
  have hname := Profile.ofName?_eq_some_iff.mpr h
  rw [Profile.ofName?_name] at hname
  exact (Option.some.inj hname).symm

variable {system : LogSystem}

namespace Filter

private theorem name_of_threshold {filter : Filter} {level : Level}
    (h : filter.threshold system = .ok level) :
    level.name = system.letters.upperText filter.level := by
  rw [threshold] at h
  cases hname : Level.ofName? system.levels (system.letters.upperText filter.level) with
  | none =>
      rw [hname] at h
      cases h
  | some own =>
      rw [hname] at h
      cases h
      exact Level.name_of_ofName? hname

/-- An entry of a sink as a filter writes it. -/
def nameEntry (entry : String × Option Level) : String × Option String :=
  (entry.1, entry.2.map Level.name)

private theorem map_nameEntry_of_moduleLevels {modules : List (String × Option String)}
    {levels : List (String × Option Level)} (h : moduleLevels system modules = .ok levels) :
    levels.map nameEntry = modules := by
  fun_induction moduleLevels system modules generalizing levels with
  | case1 =>
      cases h
      rfl
  | case2 name rest ih =>
      cases hrest : moduleLevels system rest with
      | error e =>
          rw [hrest] at h
          cases h
      | ok others =>
          rw [hrest] at h
          cases h
          rw [List.map_cons, ih hrest]
          rfl
  | case3 name levelName rest hlevel => cases h
  | case4 name levelName rest level hlevel ih =>
      cases hrest : moduleLevels system rest with
      | error e =>
          rw [hrest] at h
          cases h
      | ok others =>
          rw [hrest] at h
          cases h
          rw [List.map_cons, ih hrest, ← Level.name_of_ofName? hlevel]
          rfl

end Filter

/-- A sink has the profile for which it is made and the levels that the filter names. -/
private theorem Sink.eq_of_make {profile : Profile} {filter : Filter} {sink : Sink}
    (h : Sink.make system profile filter = .ok sink) :
    sink.profile = profile ∧ sink.threshold.name = system.letters.upperText filter.level
      ∧ sink.modules.map Filter.nameEntry = filter.modules := by
  rw [Sink.make] at h
  cases hmodules : Filter.moduleLevels system filter.modules with
  | error e =>
      rw [hmodules] at h
      cases h
  | ok modules =>
      cases hthreshold : filter.threshold system with
      | error e =>
          rw [hmodules, hthreshold] at h
          cases h
      | ok threshold =>
          rw [hmodules, hthreshold] at h
          cases h
          exact ⟨rfl, Filter.name_of_threshold hthreshold,
            Filter.map_nameEntry_of_moduleLevels hmodules⟩

namespace Console

/-! ### Calls -/

/-- A call for a profile, at a time when the variable of the filter has a text or is not set. -/
structure Call where
  profileName : String
  filterText : Option String
  deriving DecidableEq, Repr

/-- The filter that a call reads. -/
def Call.filter (system : LogSystem) (call : Call) : Filter :=
  Filter.choose system.letters none call.filterText

/-- What a call makes of a console, and how the call ends. -/
def perform (system : LogSystem) (console : Console) (call : Call) :
    Console × Except ConsoleError Unit :=
  console.configure system call.profileName (call.filter system)

/-- The console after a history of calls, whether they fail or not. At first it has no sink, no
profile is in force, no handler is installed and the package is not enabled. -/
def after (system : LogSystem) (calls : List Call) : Console :=
  calls.foldl (fun console call => (console.perform system call).1) {}

@[simp] theorem after_append_singleton (system : LogSystem) (calls : List Call) (call : Call) :
    after system (calls ++ [call]) = ((after system calls).perform system call).1 := by
  simp [after]

/-- The three ways in which a call can go. -/
inductive Step (system : LogSystem) (console : Console) (call : Call) :
    Console × Except ConsoleError Unit → Prop
  | repeated {profile : Profile} (hname : profile.name = call.profileName)
      (hforce : console.inForce = some profile) : Step system console call (console, .ok ())
  | refused {e : ConsoleError}
      (hforce : ∀ profile, profile.name = call.profileName → console.inForce ≠ some profile) :
      Step system console call ({ console with sinks := [] }, .error e)
  | installed {profile : Profile} {sink : Sink} (hname : profile.name = call.profileName)
      (hforce : console.inForce ≠ some profile)
      (hsink : Sink.make system profile (call.filter system) = .ok sink) :
      Step system console call (⟨[sink], some profile, max 1 console.intercepts, true⟩, .ok ())

theorem perform_step (system : LogSystem) (console : Console) (call : Call) :
    Step system console call (console.perform system call) := by
  simp only [perform, configure]
  cases hprofile : Profile.ofName? call.profileName with
  | none =>
      refine .refused fun profile hname => ?_
      rw [Profile.ofName?_eq_some_iff.mpr hname] at hprofile
      cases hprofile
  | some profile =>
      have hname := Profile.ofName?_eq_some_iff.mp hprofile
      by_cases hforce : console.inForce = some profile
      · rw [if_pos (by simp [hforce])]
        exact .repeated hname hforce
      · rw [if_neg fun htest => hforce (eq_of_beq (Bool.and_eq_true_iff.mp htest).2).symm]
        simp only
        cases hsink : Sink.make system profile (call.filter system) with
        | error e =>
            refine .refused fun other hother => ?_
            rw [Profile.ofName?_eq_some_iff.mpr hother] at hprofile
            rw [hprofile]
            exact hforce
        | ok sink => exact .installed hname hforce hsink

private theorem Step.eq_of_inForce {console : Console} {call : Call} {profile : Profile}
    {result : Console × Except ConsoleError Unit} (h : Step system console call result)
    (hforce : console.inForce = some profile) (hname : profile.name = call.profileName) :
    result = (console, .ok ()) := by
  cases h with
  | repeated => rfl
  | refused hother => exact absurd hforce (hother profile hname)
  | installed hown hother =>
      rw [Profile.name_inj (hown.trans hname.symm)] at hother
      exact absurd hforce hother

private theorem Step.eq_of_error {console : Console} {call : Call} {e : ConsoleError}
    {result : Console × Except ConsoleError Unit} (h : Step system console call result)
    (herror : result.2 = .error e) : result.1 = { console with sinks := [] } := by
  cases h with
  | refused => rfl
  | _ => cases herror

/-! ### The invariant -/

/-- There is one sink or none and one handler or none, and a handler is installed, the package is
enabled and a profile is in force all at the same times. -/
structure Consistent (console : Console) : Prop where
  sinks : console.sinks.length ≤ 1
  intercepts : console.intercepts ≤ 1
  handler_iff : 0 < console.intercepts ↔ console.enabled = true
  enabled_iff : console.enabled = true ↔ console.inForce.isSome = true

theorem Consistent.step {console : Console} (h : console.Consistent) {call : Call}
    {result : Console × Except ConsoleError Unit} (hstep : Step system console call result) :
    result.1.Consistent := by
  cases hstep with
  | repeated => exact h
  | refused => exact { h with sinks := Nat.zero_le 1 }
  | installed =>
      have hone : max 1 console.intercepts = 1 := Nat.max_eq_left h.intercepts
      show Consistent ⟨_, _, max 1 console.intercepts, true⟩
      rw [hone]
      exact ⟨Nat.le_refl 1, Nat.le_refl 1, by simp, by simp⟩

private theorem consistent_after (system : LogSystem) (calls : List Call) :
    (after system calls).Consistent := by
  induction calls using List.reverseRecOn with
  | nil => exact ⟨Nat.zero_le 1, Nat.zero_le 1, by simp [after], by simp [after]⟩
  | append_singleton calls call ih =>
      rw [after_append_singleton]
      exact ih.step (perform_step system _ call)

/-! ### The call that put a profile in force -/

/-- After the calls, the next one puts the profile in force in place of another or of none. -/
def PutsInForce (system : LogSystem) (calls : List Call) (call : Call) (profile : Profile) : Prop :=
  (after system calls).inForce ≠ some profile
    ∧ (after system (calls ++ [call])).inForce = some profile

/-- Among the calls, this one is the most recent that put the profile in force. -/
inductive LastToPutInForce (system : LogSystem) (profile : Profile) : List Call → Call → Prop
  | last {calls : List Call} {call : Call} (h : PutsInForce system calls call profile) :
      LastToPutInForce system profile (calls ++ [call]) call
  | earlier {calls : List Call} {call next : Call} (h : LastToPutInForce system profile calls call)
      (hnext : ¬ PutsInForce system calls next profile) :
      LastToPutInForce system profile (calls ++ [next]) call

/-- A sink is made for the profile in force, by the call that put it there. -/
theorem exists_call_of_mem_sinks {calls : List Call} {sink : Sink}
    (h : sink ∈ (after system calls).sinks) :
    ∃ profile call, (after system calls).inForce = some profile
      ∧ LastToPutInForce system profile calls call
      ∧ Sink.make system profile (call.filter system) = .ok sink := by
  induction calls using List.reverseRecOn with
  | nil => cases h
  | append_singleton calls call ih =>
      have hafter := after_append_singleton system calls call
      have hstep := perform_step system (after system calls) call
      generalize (after system calls).perform system call = result at hafter hstep
      rw [hafter] at h ⊢
      cases hstep with
      | repeated hname hforce =>
          obtain ⟨profile, earlier, hprofile, hlast, hsink⟩ := ih h
          exact ⟨profile, earlier, hprofile, hlast.earlier fun hputs => hputs.1 hprofile, hsink⟩
      | refused => cases h
      | @installed profile own hname hforce hsink =>
          have hputs : PutsInForce system calls call profile := ⟨hforce, by rw [hafter]⟩
          rw [List.mem_singleton.mp h]
          exact ⟨profile, call, rfl, .last hputs, hsink⟩

/-- After any history of calls, failing ones included, there is at most one sink and at most one
handler; a sink writes in the form of the profile in force, with the levels of the filter that was
read when this profile was last put in force; and a handler is installed just when the package is
enabled, which is just when a profile is in force. -/
theorem console_consistent (system : LogSystem) (calls : List Call) :
    (after system calls).sinks.length ≤ 1
    ∧ (after system calls).intercepts ≤ 1
    ∧ (∀ sink ∈ (after system calls).sinks, ∃ profile call,
      (after system calls).inForce = some profile ∧ LastToPutInForce system profile calls call
        ∧ sink.profile = profile
        ∧ sink.threshold.name = system.letters.upperText (call.filter system).level
        ∧ sink.modules.map Filter.nameEntry = (call.filter system).modules)
    ∧ (0 < (after system calls).intercepts ↔ (after system calls).enabled = true)
    ∧ ((after system calls).enabled = true ↔ (after system calls).inForce.isSome = true) := by
  have hconsistent := consistent_after system calls
  refine ⟨hconsistent.sinks, hconsistent.intercepts, fun sink hsink => ?_,
    hconsistent.handler_iff, hconsistent.enabled_iff⟩
  obtain ⟨profile, call, hforce, hlast, hmake⟩ := exists_call_of_mem_sinks hsink
  exact ⟨profile, call, hforce, hlast, Sink.eq_of_make hmake⟩

/-! ### Profiles without their sink -/

/-- A call failed while the profile of this name was in force, and all calls since were for it. -/
def SinkLost (system : LogSystem) (calls : List Call) (profileName : String) : Prop :=
  ∃ before failed repeats e, calls = before ++ failed :: repeats
    ∧ ((after system before).perform system failed).2 = .error e
    ∧ (after system before).inForce.map Profile.name = some profileName
    ∧ ∀ call ∈ repeats, call.profileName = profileName

private theorem sinkLost_append_singleton_iff {calls : List Call} {call : Call}
    {profileName : String} :
    SinkLost system (calls ++ [call]) profileName
      ↔ ((∃ e, ((after system calls).perform system call).2 = .error e)
          ∧ (after system calls).inForce.map Profile.name = some profileName)
        ∨ (SinkLost system calls profileName ∧ call.profileName = profileName) := by
  constructor
  · rintro ⟨before, failed, repeats, e, hcalls, hfailed, hforce, hrepeats⟩
    rcases List.eq_nil_or_concat repeats with rfl | ⟨repeats, last, rfl⟩
    · obtain ⟨rfl, hcall⟩ := List.append_inj' hcalls rfl
      cases hcall
      exact .inl ⟨⟨e, hfailed⟩, hforce⟩
    · rw [List.concat_eq_append, ← List.cons_append, ← List.append_assoc] at hcalls
      obtain ⟨rfl, hcall⟩ := List.append_inj' hcalls rfl
      cases hcall
      refine .inr ⟨⟨before, failed, repeats, e, rfl, hfailed, hforce, fun other hother => ?_⟩, ?_⟩
      · exact hrepeats other (by simp [hother])
      · exact hrepeats call (by simp)
  · rintro (⟨⟨e, hfailed⟩, hforce⟩ | ⟨hlost, hcall⟩)
    · exact ⟨calls, call, [], e, rfl, hfailed, hforce, by simp⟩
    · obtain ⟨before, failed, repeats, e, rfl, hfailed, hforce, hrepeats⟩ := hlost
      refine ⟨before, failed, repeats ++ [call], e, by simp, hfailed, hforce, ?_⟩
      intro other hother
      rcases List.mem_append.mp hother with hother | hother
      · exact hrepeats other hother
      · rw [List.mem_singleton.mp hother]
        exact hcall

/-- A profile that lost its sink is in force still, and has none. -/
theorem SinkLost.after_eq {calls : List Call} {profile : Profile}
    (h : SinkLost system calls profile.name) :
    (after system calls).inForce = some profile ∧ (after system calls).sinks = [] := by
  induction calls using List.reverseRecOn with
  | nil =>
      obtain ⟨before, failed, repeats, e, hcalls, -⟩ := h
      simp at hcalls
  | append_singleton calls call ih =>
      rw [after_append_singleton]
      have hstep := perform_step system (after system calls) call
      rcases sinkLost_append_singleton_iff.mp h with ⟨⟨e, hfailed⟩, hforce⟩ | ⟨hlost, hname⟩
      · obtain ⟨own, hown, hownName⟩ := Option.map_eq_some_iff.mp hforce
        rw [hstep.eq_of_error hfailed]
        exact ⟨by rw [hown, Profile.name_inj hownName], rfl⟩
      · have hlostAfter := ih hlost
        rw [hstep.eq_of_inForce hlostAfter.1 hname.symm]
        exact hlostAfter

/-- A profile in force that did not lose its sink has it. -/
private theorem exists_sink_of_not_sinkLost {calls : List Call} {profile : Profile}
    (hforce : (after system calls).inForce = some profile)
    (hkept : ¬ SinkLost system calls profile.name) :
    ∃ sink, (after system calls).sinks = [sink] ∧ sink.profile = profile := by
  induction calls using List.reverseRecOn with
  | nil => cases hforce
  | append_singleton calls call ih =>
      rw [sinkLost_append_singleton_iff] at hkept
      have hafter := after_append_singleton system calls call
      have hstep := perform_step system (after system calls) call
      generalize (after system calls).perform system call = result at hafter hstep hkept
      rw [hafter] at hforce ⊢
      cases hstep with
      | @repeated own hname hown =>
          cases hown.symm.trans hforce
          exact ih hforce fun hlost => hkept (.inr ⟨hlost, hname.symm⟩)
      | @refused e => exact absurd (.inl ⟨⟨e, rfl⟩, by rw [hforce]; rfl⟩) hkept
      | @installed own sink hname hown hsink =>
          cases hforce
          exact ⟨sink, rfl, (Sink.eq_of_make hsink).1⟩

/-- A call that reports no error leaves one sink, in the form of the profile it asked for, unless
this profile had lost its sink before. Then there is none. -/
theorem sinks_of_perform_ok (system : LogSystem) (calls : List Call) (call : Call) (next : Console)
    (h : (after system calls).perform system call = (next, .ok ())) :
    (SinkLost system calls call.profileName → next.sinks = [])
    ∧ (¬ SinkLost system calls call.profileName →
      ∃ sink, next.sinks = [sink] ∧ sink.profile.name = call.profileName) := by
  have hstep := perform_step system (after system calls) call
  rw [h] at hstep
  cases hstep with
  | @repeated profile hname hforce =>
      rw [← hname]
      refine ⟨fun hlost => hlost.after_eq.2, fun hkept => ?_⟩
      obtain ⟨sink, hsinks, hprofile⟩ := exists_sink_of_not_sinkLost hforce hkept
      exact ⟨sink, hsinks, by rw [hprofile]⟩
  | @installed profile sink hname hforce hsink =>
      rw [← hname]
      refine ⟨fun hlost => absurd hlost.after_eq.1 hforce, fun _ => ⟨sink, rfl, ?_⟩⟩
      rw [(Sink.eq_of_make hsink).1]

/-- A profile is put in force, and then a call for the other one names an unknown level. -/
def unknownLevelCalls : List Call :=
  [⟨"compact", some "info"⟩, ⟨"default", some "verbose"⟩]

/-- After a call that names an unknown level, the profile in force has lost its sink, and the other
one can be had. -/
theorem sinks_of_perform_ok_unknownLevel :
    let system := LogSystem.standard
    let silent : Console := ⟨[], some .compact, 1, true⟩
    let speaking : Console :=
      ⟨[⟨.default, .debug, [("mlinterp.eval", none)]⟩], some .default, 1, true⟩
    ((after system unknownLevelCalls).perform system ⟨"compact", some "info"⟩ = (silent, .ok ())
        ∧ SinkLost system unknownLevelCalls "compact" ∧ silent.sinks = [])
      ∧ (after system unknownLevelCalls).perform system
          ⟨"default", some "debug, mlinterp.eval=false"⟩ = (speaking, .ok ())
        ∧ ¬ SinkLost system unknownLevelCalls "default"
        ∧ ∃ sink, speaking.sinks = [sink] ∧ sink.profile.name = "default" := by
  intro system silent speaking
  have hsilent : (after system unknownLevelCalls).perform system ⟨"compact", some "info"⟩
      = (⟨[], some .compact, 1, true⟩, .ok ()) := by
    decide +kernel
  have hspeaking : (after system unknownLevelCalls).perform system
        ⟨"default", some "debug, mlinterp.eval=false"⟩
      = (⟨[⟨.default, .debug, [("mlinterp.eval", none)]⟩], some .default, 1, true⟩, .ok ()) := by
    decide +kernel
  have hlost : SinkLost system unknownLevelCalls "compact" :=
    ⟨[⟨"compact", some "info"⟩], ⟨"default", some "verbose"⟩, [], .unknownLevel "VERBOSE", rfl,
      by decide +kernel, by decide +kernel, by simp⟩
  have hkept : ¬ SinkLost system unknownLevelCalls Profile.default.name := by
    intro h
    have hforce : (after system unknownLevelCalls).inForce = some .compact := by decide +kernel
    rw [h.after_eq.1] at hforce
    cases hforce
  exact ⟨⟨hsilent, hlost, (sinks_of_perform_ok system _ _ _ hsilent).1 hlost⟩, hspeaking, hkept,
    (sinks_of_perform_ok system _ _ _ hspeaking).2 hkept⟩

/-- Not every call that reports no error leaves a sink. -/
theorem not_forall_perform_ok_sinks :
    ¬ ∀ (system : LogSystem) (calls : List Call) (call : Call) (next : Console),
      (after system calls).perform system call = (next, .ok ()) →
        ∃ sink, next.sinks = [sink] ∧ sink.profile.name = call.profileName := by
  intro h
  obtain ⟨sink, hsinks, -⟩ := h .standard unknownLevelCalls ⟨"compact", some "info"⟩
    ⟨[], some .compact, 1, true⟩ (by decide +kernel)
  cases hsinks

end Console

end MiniMl
