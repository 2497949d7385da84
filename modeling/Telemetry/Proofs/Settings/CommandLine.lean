import Mathlib.Logic.Function.Basic
import Telemetry.Proofs.Settings.Spelling

/-!
# What a command line and the environment give

Behind the values of a command line the variables of the environment are accepted, as far as their
flags were not given. Flags set what stands under their own names, so what results depends on the value
under each name only, and not on the order.
-/

namespace Telemetry.Settings

namespace CommandLine

variable {σ : Type} {flags : List (Flag σ)} {flag : Flag σ} {value : String}
  {reading reading' : Reading σ} {assignments : List (Flag σ × String)}

/-! ### Variables of the environment -/

variable {environment : List (String × String)}

/-- The variables of the flags whose names are not among those given. -/
def supplied (environment : List (String × String)) (given : List String)
    (flags : List (Flag σ)) : List (Flag σ × String) :=
  flags.filterMap fun flag =>
    if flag.long ∈ given then none
    else (environment.lookup flag.envName).map fun value => (flag, value)

theorem supplied_cons (given : List String) :
    supplied environment given (flag :: flags) =
      if flag.long ∈ given then supplied environment given flags
      else match environment.lookup flag.envName with
        | none => supplied environment given flags
        | some value => (flag, value) :: supplied environment given flags := by
  rw [supplied, List.filterMap_cons]
  by_cases hgiven : flag.long ∈ given
  · rw [if_pos hgiven, if_pos hgiven]
    rfl
  · rw [if_neg hgiven, if_neg hgiven]
    cases environment.lookup flag.envName <;> rfl

theorem mem_of_mem_supplied {given : List String} {assignment : Flag σ × String}
    (h : assignment ∈ supplied environment given flags) : assignment.1 ∈ flags := by
  obtain ⟨flag, hflag, hsome⟩ := List.mem_filterMap.1 h
  split at hsome
  · cases hsome
  · obtain ⟨value, -, rfl⟩ := Option.map_eq_some_iff.1 hsome
    exact hflag

theorem supplied_congr {given given' : List String}
    (h : ∀ flag ∈ flags, flag.long ∈ given ↔ flag.long ∈ given') :
    supplied environment given flags = supplied environment given' flags := by
  refine List.filterMap_congr fun flag hflag => ?_
  simp only [h flag hflag]

/-- Variables are accepted like values from the command line. -/
theorem takeVariables_eq (hnames : (flags.map Flag.long).Nodup) (reading : Reading σ) :
    takeVariables environment flags reading
      = acceptAll (supplied environment reading.given flags) reading := by
  induction flags generalizing reading with
  | nil => rfl
  | cons flag flags ih =>
    rw [List.map_cons, List.nodup_cons] at hnames
    rw [takeVariables, supplied_cons]
    by_cases hgiven : flag.long ∈ reading.given
    · rw [if_pos (List.contains_iff_mem.2 hgiven), if_pos hgiven]
      exact ih hnames.2 reading
    · rw [if_neg (fun h => hgiven (List.contains_iff_mem.1 h)), if_neg hgiven]
      cases environment.lookup flag.envName with
      | none => exact ih hnames.2 reading
      | some value =>
        dsimp only
        rw [acceptAll]
        cases haccept : accept flag value reading with
        | error usage => rfl
        | ok accepted =>
          obtain ⟨-, set, -, rfl⟩ := accept_eq_ok_iff.1 haccept
          dsimp only
          rw [ih hnames.2]
          -- the flag counts as given from now on, but none of those that remain has its name
          refine congrArg (acceptAll · _) (supplied_congr fun other hother => ?_)
          have hne : other.long ≠ flag.long :=
            fun heq => hnames.1 (heq ▸ List.mem_map_of_mem hother)
          simp [hne]

theorem acceptAll_append (assignments more : List (Flag σ × String)) (reading : Reading σ) :
    acceptAll (assignments ++ more) reading = match acceptAll assignments reading with
      | .error usage => .error usage
      | .ok reading => acceptAll more reading := by
  induction assignments generalizing reading with
  | nil => rfl
  | cons assignment assignments ih =>
    rw [List.cons_append, acceptAll, acceptAll]
    cases accept assignment.1 assignment.2 reading with
    | error usage => rfl
    | ok accepted => exact ih accepted

/-! ### What is accepted -/

def named (assignments : List (Flag σ × String)) : List String :=
  assignments.map fun assignment => assignment.1.long

/-- No flag is given a value twice, and every value can be read. -/
structure Acceptable (assignments : List (Flag σ × String)) : Prop where
  once : (named assignments).Nodup
  readable : ∀ assignment ∈ assignments, ∃ set, assignment.1.read assignment.2 = .ok set

theorem Acceptable.perm {assignments' : List (Flag σ × String)} (h : Acceptable assignments)
    (hperm : assignments.Perm assignments') : Acceptable assignments' where
  once := (hperm.map _).nodup_iff.1 h.once
  readable assignment hassignment := h.readable assignment (hperm.mem_iff.2 hassignment)

/-- Values are accepted when they can be read and no flag is given again. -/
theorem acceptAll_ok_iff : (∃ reading', acceptAll assignments reading = .ok reading') ↔
    Acceptable assignments ∧ ∀ name ∈ named assignments, name ∉ reading.given := by
  induction assignments generalizing reading with
  | nil =>
    refine ⟨fun _ => ⟨⟨List.nodup_nil, ?_⟩, ?_⟩, fun _ => ⟨reading, rfl⟩⟩
    · exact fun _ hmem => absurd hmem List.not_mem_nil
    · exact fun _ hmem => absurd hmem List.not_mem_nil
  | cons assignment assignments ih =>
    obtain ⟨flag, value⟩ := assignment
    rw [acceptAll]
    constructor
    · rintro ⟨reading', hall⟩
      split at hall
      · cases hall
      · rename_i accepted haccept
        obtain ⟨hnew, set, hread, rfl⟩ := accept_eq_ok_iff.1 haccept
        obtain ⟨⟨honce, hreadable⟩, hgiven⟩ := ih.1 ⟨_, hall⟩
        have hflag : flag.long ∉ named assignments :=
          fun hmem => hgiven _ hmem List.mem_cons_self
        refine ⟨⟨List.nodup_cons.2 ⟨hflag, honce⟩, ?_⟩, ?_⟩
        · exact List.forall_mem_cons.2 ⟨⟨set, hread⟩, hreadable⟩
        · exact List.forall_mem_cons.2 ⟨hnew, fun name hname hmem =>
            hgiven name hname (List.mem_cons_of_mem _ hmem)⟩
    · rintro ⟨⟨honce, hreadable⟩, hgiven⟩
      obtain ⟨set, hread⟩ := hreadable _ List.mem_cons_self
      have haccept : accept flag value reading = .ok _ :=
        accept_eq_ok_iff.2 ⟨hgiven _ List.mem_cons_self, set, hread, rfl⟩
      rw [haccept]
      refine ih.2 ⟨⟨(List.nodup_cons.1 honce).2,
        fun _ hmem => hreadable _ (List.mem_cons_of_mem _ hmem)⟩, fun name hname hmem => ?_⟩
      rcases List.mem_cons.1 hmem with rfl | hmem
      · exact (List.nodup_cons.1 honce).1 hname
      · exact hgiven name (List.mem_cons_of_mem _ hname) hmem

def valueOf (assignments : List (Flag σ × String)) (name : String) : Option String :=
  (assignments.find? fun assignment => assignment.1.long == name).map Prod.snd

variable {name : String}

theorem valueOf_cons (assignments : List (Flag σ × String)) :
    valueOf ((flag, value) :: assignments) name
      = if flag.long = name then some value else valueOf assignments name := by
  by_cases heq : flag.long = name
  · rw [if_pos heq, valueOf, List.find?_cons_of_pos (by simpa using heq), Option.map_some]
  · rw [if_neg heq, valueOf, List.find?_cons_of_neg (by simpa using heq), valueOf]

theorem valueOf_append (assignments more : List (Flag σ × String)) :
    valueOf (assignments ++ more) name = (valueOf assignments name).or (valueOf more name) := by
  rw [valueOf, List.find?_append, Option.map_or, valueOf, valueOf]

theorem valueOf_eq_none_iff : valueOf assignments name = none ↔ name ∉ named assignments := by
  simp [valueOf, named]

theorem valueOf_eq_some_iff (honce : (named assignments).Nodup) :
    valueOf assignments name = some value ↔
      ∃ flag, (flag, value) ∈ assignments ∧ flag.long = name := by
  constructor
  · intro hvalue
    obtain ⟨⟨flag, other⟩, hfind, rfl⟩ := Option.map_eq_some_iff.1 hvalue
    exact ⟨flag, List.mem_of_find?_eq_some hfind, by simpa using List.find?_some hfind⟩
  · rintro ⟨flag, hmem, rfl⟩
    have hfind : (assignments.find? fun other => other.1.long == flag.long) = some (flag, value) :=
      find?_key honce hmem
    rw [valueOf, hfind, Option.map_some]

theorem valueOf_perm {assignments' : List (Flag σ × String)} (honce : (named assignments).Nodup)
    (hperm : assignments.Perm assignments') : valueOf assignments name = valueOf assignments' name := by
  refine Option.ext fun value => ?_
  rw [valueOf_eq_some_iff honce, valueOf_eq_some_iff ((hperm.map _).nodup_iff.1 honce)]
  simp only [hperm.mem_iff]

theorem valueOf_supplied {given : List String} (hnames : (flags.map Flag.long).Nodup)
    (hflag : flag ∈ flags) : valueOf (supplied environment given flags) flag.long
      = if flag.long ∈ given then none else environment.lookup flag.envName := by
  induction flags with
  | nil => cases hflag
  | cons other flags ih =>
    rw [List.map_cons, List.nodup_cons] at hnames
    rw [supplied_cons]
    have habsent (hnew : flag.long ∉ flags.map Flag.long) :
        valueOf (supplied environment given flags) flag.long = none := by
      refine valueOf_eq_none_iff.2 fun hmem => hnew ?_
      obtain ⟨assignment, hassignment, hname⟩ := List.mem_map.1 hmem
      exact hname ▸ List.mem_map_of_mem (mem_of_mem_supplied hassignment)
    rcases List.mem_cons.1 hflag with rfl | hflag
    · split
      · exact habsent hnames.1
      · split
        · rename_i hlookup
          rw [habsent hnames.1, hlookup]
        · rename_i hlookup
          rw [valueOf_cons, if_pos rfl, hlookup]
    · have hne : other.long ≠ flag.long :=
        fun heq => hnames.1 (heq ▸ List.mem_map_of_mem hflag)
      have hrest := ih hnames.2 hflag
      split
      · exact hrest
      · split
        · exact hrest
        · rw [valueOf_cons, if_neg hne]
          exact hrest

/-- All values that are accepted: those of the command line, and the variables of the other flags. -/
def effective (flags : List (Flag σ)) (assignments : List (Flag σ × String))
    (environment : List (String × String)) : List (Flag σ × String) :=
  assignments ++ supplied environment (named assignments) flags

/-- A flag goes before its variable. -/
theorem Distinct.valueOf_effective (h : Distinct flags) (hflag : flag ∈ flags) :
    valueOf (effective flags assignments environment) flag.long
      = (valueOf assignments flag.long).or (environment.lookup flag.envName) := by
  rw [effective, valueOf_append, valueOf_supplied h.names hflag]
  split
  · rename_i hnamed
    cases hvalue : valueOf assignments flag.long with
    | none => exact absurd hnamed (valueOf_eq_none_iff.1 hvalue)
    | some value => rfl
  · rfl

/-! ### What results -/

/-- Flags that set what stands under their own names, in something that is made of what stands under
each name. -/
def Sets (flags : List (Flag σ)) (ofValues : (String → Option String) → σ) : Prop :=
  ∀ flag ∈ flags, ∀ value set, flag.read value = .ok set →
    ∀ values, set (ofValues values) = ofValues (Function.update values flag.long (some value))

variable {ofValues : (String → Option String) → σ} {values : String → Option String}

theorem given_of_acceptAll (hall : acceptAll assignments reading = .ok reading') :
    ∀ name, name ∈ reading'.given ↔ name ∈ named assignments ∨ name ∈ reading.given := by
  induction assignments generalizing reading with
  | nil =>
    cases hall
    simp [named]
  | cons assignment assignments ih =>
    rw [acceptAll] at hall
    split at hall
    · cases hall
    · rename_i accepted haccept
      obtain ⟨-, set, -, rfl⟩ := accept_eq_ok_iff.1 haccept
      intro name
      rw [ih hall name]
      simp only [named, List.map_cons, List.mem_cons]
      tauto

/-- Values that are accepted make what they set stand under their names. -/
theorem Sets.acceptAll (h : Sets flags ofValues)
    (hflags : ∀ assignment ∈ assignments, assignment.1 ∈ flags)
    (hvalues : reading.values = ofValues values)
    (hall : acceptAll assignments reading = .ok reading') :
    reading'.values = ofValues fun name => (valueOf assignments name).or (values name) := by
  induction assignments generalizing reading values with
  | nil =>
    cases hall
    exact hvalues
  | cons assignment assignments ih =>
    obtain ⟨flag, value⟩ := assignment
    have hnotin := (acceptAll_ok_iff.1 ⟨_, hall⟩).1.once
    rw [named, List.map_cons, List.nodup_cons] at hnotin
    rw [CommandLine.acceptAll] at hall
    split at hall
    · cases hall
    · rename_i accepted haccept
      obtain ⟨-, set, hread, rfl⟩ := accept_eq_ok_iff.1 haccept
      have hset := h flag (hflags _ List.mem_cons_self) value set hread values
      rw [← hvalues] at hset
      rw [ih (fun _ hmem => hflags _ (List.mem_cons_of_mem _ hmem)) hset hall]
      refine congrArg ofValues (funext fun name => ?_)
      rw [valueOf_cons]
      by_cases heq : flag.long = name
      · subst heq
        rw [valueOf_eq_none_iff.2 hnotin.1, if_pos rfl, Function.update_self]
        rfl
      · rw [if_neg heq, Function.update_of_ne (Ne.symm heq)]

theorem SpellsAll.mem {arguments : List String} (h : SpellsAll flags assignments arguments) :
    ∀ assignment ∈ assignments, assignment.1 ∈ flags := by
  induction h with
  | nil => exact fun _ hmem => absurd hmem List.not_mem_nil
  | dashes => exact fun _ hmem => absurd hmem List.not_mem_nil
  | cons hflag _ _ ih => exact List.forall_mem_cons.2 ⟨hflag, ih⟩

theorem mem_effective (hflags : ∀ assignment ∈ assignments, assignment.1 ∈ flags) :
    ∀ assignment ∈ effective flags assignments environment, assignment.1 ∈ flags := by
  intro assignment hmem
  rcases List.mem_append.1 hmem with hmem | hmem
  · exact hflags _ hmem
  · exact mem_of_mem_supplied hmem

/-- Reading a command line and the environment is accepting all they give. -/
theorem Distinct.read_eq (h : Distinct flags) {arguments : List String}
    (hspells : SpellsAll flags assignments arguments) (start : σ) :
    read flags start arguments environment
      = (acceptAll (effective flags assignments environment) ⟨start, [], none⟩).map
          Reading.values := by
  rw [read, h.takeArguments_eq hspells, settle_of_none rfl, effective, acceptAll_append]
  dsimp only
  cases hall : acceptAll assignments ⟨start, [], none⟩ with
  | error usage => rfl
  | ok reading =>
    dsimp only
    rw [takeVariables_eq h.names]
    refine congrArg (fun l => (acceptAll l reading).map Reading.values)
      (supplied_congr fun flag _ => ?_)
    simp [given_of_acceptAll hall]

theorem exists_spellsAll {arguments : List String} {start result : σ}
    (hread : read flags start arguments environment = .ok result) :
    ∃ assignments, SpellsAll flags assignments arguments := by
  unfold CommandLine.read at hread
  split at hread
  · cases hread
  · rename_i reading htake
    exact (spellsAll_of_takeArguments htake).1 fun _ heq => by cases heq

/-- What results from a command line that is accepted is made of what stands under each name. -/
theorem Distinct.read_eq_ok_iff (h : Distinct flags) (hsets : Sets flags ofValues)
    {arguments : List String} (hspells : SpellsAll flags assignments arguments) {result : σ} :
    read flags (ofValues fun _ => none) arguments environment = .ok result ↔
      Acceptable (effective flags assignments environment) ∧
        result = ofValues (valueOf (effective flags assignments environment)) := by
  have hflags : ∀ assignment ∈ effective flags assignments environment, assignment.1 ∈ flags :=
    mem_effective hspells.mem
  have hresult {reading : Reading σ}
      (hall : acceptAll (effective flags assignments environment)
        ⟨ofValues fun _ => none, [], none⟩ = .ok reading) :
      reading.values = ofValues (valueOf (effective flags assignments environment)) := by
    have hvalues := hsets.acceptAll hflags rfl hall
    simpa using hvalues
  rw [h.read_eq hspells]
  constructor
  · intro hread
    cases hall : acceptAll (effective flags assignments environment)
      ⟨ofValues fun _ => none, [], none⟩ with
    | error usage =>
      rw [hall] at hread
      cases hread
    | ok reading =>
      rw [hall] at hread
      cases hread
      exact ⟨(acceptAll_ok_iff.1 ⟨_, hall⟩).1, hresult hall⟩
  · rintro ⟨haccept, rfl⟩
    obtain ⟨reading, hall⟩ : ∃ reading, acceptAll (effective flags assignments environment)
        ⟨ofValues fun _ => none, [], none⟩ = .ok reading :=
      acceptAll_ok_iff.2 ⟨haccept, fun _ _ => List.not_mem_nil⟩
    rw [hall, ← hresult hall]
    rfl

end CommandLine

end Telemetry.Settings
