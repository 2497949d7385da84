import Mathlib.Data.List.Nodup
import Telemetry.Settings.CommandLine

/-!
# Spellings of a command line

Arguments are read one at a time, and the value of a flag is only checked when the next flag is
understood. Seen from outside none of this shows: a command line spells flags with their values, each
flag in one of five ways, and to read it is to accept the values one after the other, the first fault
being the fault of the whole. Nothing else is accepted.
-/

namespace Telemetry.Settings

namespace CommandLine

variable {σ : Type} {flags : List (Flag σ)} {flag : Flag σ} {value argument : String}
  {reading reading' : Reading σ} {assignments : List (Flag σ × String)}

/-! ### Spellings -/

/-- An argument that is taken for a flag wherever it stands. -/
def Dashed (argument : String) : Prop := ∃ c rest, argument.toList = '-' :: c :: rest

/-- The arguments that name a flag, with a value attached or without. -/
inductive Names (flag : Flag σ) : String → Option String → Prop
  | letter {c : Char} (hshort : flag.short = some c) : Names flag ("-" ++ String.singleton c) none
  | letterValue {c d : Char} {rest : List Char} (hshort : flag.short = some c) (value : String)
      (hvalue : value.toList = d :: rest) (hd : d ≠ '=') :
      Names flag ("-" ++ String.singleton c ++ value) (some value)
  | letterEquals {c : Char} (hshort : flag.short = some c) (value : String) :
      Names flag ("-" ++ String.singleton c ++ "=" ++ value) (some value)
  | name : Names flag ("--" ++ flag.long) none
  | nameEquals (value : String) : Names flag ("--" ++ flag.long ++ "=" ++ value) (some value)

/-- The ways to give a flag a value: attached, or as the next argument. -/
inductive Spells (flag : Flag σ) (value : String) : List String → Prop
  | attached {argument : String} (hnames : Names flag argument (some value)) :
      Spells flag value [argument]
  | apart {argument : String} (hnames : Names flag argument none) (hvalue : ¬ Dashed value) :
      Spells flag value [argument, value]

/-- The command lines that give flags their values in turn. Two dashes may stand at the end. -/
inductive SpellsAll (flags : List (Flag σ)) : List (Flag σ × String) → List String → Prop
  | nil : SpellsAll flags [] []
  | dashes : SpellsAll flags [] ["--"]
  | cons {flag : Flag σ} {value : String} {words : List String}
      {assignments : List (Flag σ × String)} {arguments : List String} (hflag : flag ∈ flags)
      (hwords : Spells flag value words) (hrest : SpellsAll flags assignments arguments) :
      SpellsAll flags ((flag, value) :: assignments) (words ++ arguments)

/-- Flags that can be told apart by their letters and by their names, which are not mistaken for
anything else. -/
structure Distinct (flags : List (Flag σ)) : Prop where
  names : (flags.map Flag.long).Nodup
  letters : (flags.filterMap Flag.short).Nodup
  plain : ∀ name ∈ flags.map Flag.long, name ≠ "" ∧ '=' ∉ name.toList
  noDash : '-' ∉ flags.filterMap Flag.short

theorem find?_key {α : Type} {key : α → String} {l : List α} {a : α} (h : (l.map key).Nodup)
    (ha : a ∈ l) : l.find? (fun b => key b == key a) = some a := by
  cases hfind : l.find? fun b => key b == key a with
  | none => exact absurd (beq_self_eq_true (key a)) (List.find?_eq_none.1 hfind a ha)
  | some b =>
    have hkey : key b = key a := by simpa using List.find?_some hfind
    rw [List.inj_on_of_nodup_map h (List.mem_of_find?_eq_some hfind) ha hkey]

theorem Distinct.find_name (h : Distinct flags) (hflag : flag ∈ flags) :
    flags.find? (fun other => other.long == flag.long) = some flag := find?_key h.names hflag

theorem Distinct.find_letter (h : Distinct flags) (hflag : flag ∈ flags) {c : Char}
    (hshort : flag.short = some c) :
    flags.find? (fun other => other.short == some c) = some flag := by
  have hletters := h.letters
  clear h
  induction flags with
  | nil => cases hflag
  | cons other flags ih =>
    rcases List.mem_cons.1 hflag with rfl | hflag
    · exact List.find?_cons_of_pos (by simp [hshort])
    · cases hother : other.short with
      | none =>
        rw [List.filterMap_cons_none hother] at hletters
        rw [List.find?_cons_of_neg (by simp [hother])]
        exact ih hflag hletters
      | some d =>
        rw [List.filterMap_cons_some hother, List.nodup_cons] at hletters
        have hne : d ≠ c := by
          rintro rfl
          exact hletters.1 (List.mem_filterMap.2 ⟨flag, hflag, hshort⟩)
        rw [List.find?_cons_of_neg (by simp [hother, hne])]
        exact ih hflag hletters.2

/-! ### One argument -/

/-- Up to the equals sign stands the name. -/
theorem takeWhile_name {name rest : List Char} (hplain : '=' ∉ name)
    (hrest : ∀ c ∈ rest.head?, c = '=') : (name ++ rest).takeWhile (· ≠ '=') = name := by
  have hname : ∀ c ∈ name, decide (c ≠ '=') = true := by
    intro c hc
    exact decide_eq_true fun heq => hplain (heq ▸ hc)
  rw [List.takeWhile_append_of_pos hname]
  cases rest with
  | nil => rw [List.takeWhile_nil, List.append_nil]
  | cons c rest => rw [List.takeWhile_cons_of_neg (by simp [hrest c rfl]), List.append_nil]

theorem dropWhile_name {name rest : List Char} (hplain : '=' ∉ name)
    (hrest : ∀ c ∈ rest.head?, c = '=') : (name ++ rest).dropWhile (· ≠ '=') = rest := by
  have hsplit := List.takeWhile_append_dropWhile (p := (· ≠ '=')) (l := name ++ rest)
  rw [takeWhile_name hplain hrest] at hsplit
  exact List.append_cancel_left hsplit

theorem Distinct.takeLong_name (h : Distinct flags) (hflag : flag ∈ flags) (reading : Reading σ) :
    takeLong flags flag.long.toList reading = takeFlag flag none reading := by
  have hplain := (h.plain _ (List.mem_map_of_mem hflag)).2
  have htake : (flag.long.toList ++ []).takeWhile (· ≠ '=') = flag.long.toList :=
    takeWhile_name hplain (by rintro c ⟨⟩)
  have hdrop : (flag.long.toList ++ []).dropWhile (· ≠ '=') = [] :=
    dropWhile_name hplain (by rintro c ⟨⟩)
  rw [List.append_nil] at htake hdrop
  rw [takeLong, htake, hdrop, String.ofList_toList, h.find_name hflag]

theorem Distinct.takeLong_equals (h : Distinct flags) (hflag : flag ∈ flags) (value : List Char)
    (reading : Reading σ) : takeLong flags (flag.long.toList ++ '=' :: value) reading
      = takeFlag flag (some (String.ofList value)) reading := by
  have hplain := (h.plain _ (List.mem_map_of_mem hflag)).2
  have hequals : ∀ c ∈ ('=' :: value).head?, c = '=' := by
    rintro c ⟨⟩
    rfl
  rw [takeLong, takeWhile_name hplain hequals, dropWhile_name hplain hequals, String.ofList_toList,
    h.find_name hflag]

theorem Distinct.ne_dash (h : Distinct flags) (hflag : flag ∈ flags) {c : Char}
    (hshort : flag.short = some c) : c ≠ '-' := by
  rintro rfl
  exact h.noDash (List.mem_filterMap.2 ⟨flag, hflag, hshort⟩)

theorem takeArgument_letter {c : Char} (hc : c ≠ '-') {rest : List Char}
    (hargument : argument.toList = '-' :: c :: rest) (reading : Reading σ) :
    takeArgument flags argument reading = takeShort flags c rest reading := by
  rw [takeArgument, hargument]
  split
  · rename_i heq
    exact absurd (List.cons.inj (List.cons.inj heq).2).1 hc
  · rename_i heq
    obtain ⟨rfl, rfl⟩ := List.cons.inj (List.cons.inj heq).2
    rfl
  · rename_i hother
    exact absurd rfl (hother _ _)

theorem Distinct.takeArgument_names (h : Distinct flags) (hflag : flag ∈ flags)
    {attached : Option String} (hnames : Names flag argument attached) (reading : Reading σ) :
    takeArgument flags argument reading = takeFlag flag attached reading := by
  cases hnames with
  | @letter c hshort =>
    have hargument : ("-" ++ String.singleton c).toList = ['-', c] := by simp
    rw [takeArgument_letter (h.ne_dash hflag hshort) hargument, takeShort,
      h.find_letter hflag hshort]
  | @letterValue c d rest hshort value hvalue hd =>
    have hargument : ("-" ++ String.singleton c ++ value).toList = '-' :: c :: d :: rest := by
      simp [hvalue]
    rw [takeArgument_letter (h.ne_dash hflag hshort) hargument, takeShort,
      h.find_letter hflag hshort]
    · dsimp only
      rw [← hvalue, String.ofList_toList]
    · rintro ⟨⟩
    · exact fun _ heq => hd (List.cons.inj heq).1
  | @letterEquals c hshort value =>
    have hargument : ("-" ++ String.singleton c ++ "=" ++ value).toList
        = '-' :: c :: '=' :: value.toList := by simp
    rw [takeArgument_letter (h.ne_dash hflag hshort) hargument, takeShort,
      h.find_letter hflag hshort]
    dsimp only
    rw [String.ofList_toList]
  | name =>
    have hargument : ("--" ++ flag.long).toList = '-' :: '-' :: flag.long.toList := by simp
    rw [takeArgument, hargument]
    exact h.takeLong_name hflag reading
  | nameEquals value =>
    have hargument : ("--" ++ flag.long ++ "=" ++ value).toList
        = '-' :: '-' :: (flag.long.toList ++ '=' :: value.toList) := by simp
    rw [takeArgument, hargument]
    change takeLong flags (flag.long.toList ++ '=' :: value.toList) reading = _
    rw [h.takeLong_equals hflag, String.ofList_toList]

theorem Distinct.ne_dashes (h : Distinct flags) (hflag : flag ∈ flags) {attached : Option String}
    (hnames : Names flag argument attached) : argument ≠ "--" := by
  have hletter {c : Char} (hshort : flag.short = some c) := h.ne_dash hflag hshort
  intro heq
  have hlist := congrArg String.toList heq
  cases hnames with
  | letter hshort => exact hletter hshort (by simpa using hlist)
  | letterValue hshort => simp [hletter hshort] at hlist
  | letterEquals hshort => simp [hletter hshort] at hlist
  | name => exact (h.plain _ (List.mem_map_of_mem hflag)).1 (by simpa using hlist)
  | nameEquals => simp at hlist

theorem showHelp_ne_ok : showHelp reading ≠ .ok reading' := by
  intro heq
  unfold showHelp at heq
  split at heq <;> cases heq

/-- Behind two dashes, what is taken is the name of a flag, with a value attached or without. -/
theorem takeLong_cases {body : List Char} (hbody : argument.toList = '-' :: '-' :: body)
    (htake : takeLong flags body reading = .ok reading') : ∃ flag ∈ flags, ∃ attached,
      Names flag argument attached ∧ takeFlag flag attached reading = .ok reading' := by
  have hargument := String.ofList_toList (s := argument)
  unfold takeLong at htake
  dsimp only at htake
  split at htake
  · rename_i flag hfind
    have hflag := List.mem_of_find?_eq_some hfind
    have hname : flag.long = String.ofList (body.takeWhile (· ≠ '=')) := by
      simpa using List.find?_some hfind
    have hsplit := List.takeWhile_append_dropWhile (p := (· ≠ '=')) (l := body)
    refine ⟨flag, hflag, _, ?_, htake⟩
    split
    · rename_i hdrop
      have hwhole : argument = "--" ++ flag.long := by
        rw [← hargument, hbody, hname]
        rw [hdrop, List.append_nil] at hsplit
        exact String.ext (by simpa using hsplit.symm)
      rw [hwhole]
      exact .name
    · rename_i c value hdrop
      have hc : c = '=' := by
        have hhead := List.head?_dropWhile_not (· ≠ '=') body
        rw [hdrop] at hhead
        simpa using hhead
      have hwhole : argument = "--" ++ flag.long ++ "=" ++ String.ofList value := by
        rw [← hargument, hbody, hname]
        rw [hdrop, hc] at hsplit
        exact String.ext (by simpa using hsplit.symm)
      rw [hwhole]
      exact .nameEquals _
  · split at htake
    · split at htake <;> split at htake
      · cases htake
      · exact absurd htake showHelp_ne_ok
      · cases htake
      · exact absurd htake showHelp_ne_ok
    · cases htake

/-- Behind one dash, what is taken is the letter of a flag, with a value attached or without. -/
theorem takeShort_cases {c : Char} {rest : List Char} (hbody : argument.toList = '-' :: c :: rest)
    (htake : takeShort flags c rest reading = .ok reading') : ∃ flag ∈ flags, ∃ attached,
      Names flag argument attached ∧ takeFlag flag attached reading = .ok reading' := by
  have hargument := String.ofList_toList (s := argument)
  unfold takeShort at htake
  dsimp only at htake
  split at htake
  · rename_i flag hfind
    have hflag := List.mem_of_find?_eq_some hfind
    have hshort : flag.short = some c := by simpa using List.find?_some hfind
    refine ⟨flag, hflag, _, ?_, htake⟩
    split
    · have hwhole : argument = "-" ++ String.singleton c := by
        rw [← hargument, hbody]
        exact String.ext (by simp)
      rw [hwhole]
      exact .letter hshort
    · rename_i value
      have hwhole : argument = "-" ++ String.singleton c ++ "=" ++ String.ofList value := by
        rw [← hargument, hbody]
        exact String.ext (by simp)
      rw [hwhole]
      exact .letterEquals hshort _
    · rename_i hempty hequals
      obtain ⟨d, value, rfl⟩ := List.exists_cons_of_ne_nil hempty
      have hwhole : argument = "-" ++ String.singleton c ++ String.ofList (d :: value) := by
        rw [← hargument, hbody]
        exact String.ext (by simp)
      rw [hwhole]
      exact .letterValue hshort _ String.toList_ofList
        fun heq => hequals value (by rw [heq])
  · split at htake
    · exact absurd htake showHelp_ne_ok
    · cases htake

/-- An argument that is taken names a flag, or is a value. -/
theorem takeArgument_cases (htake : takeArgument flags argument reading = .ok reading') :
    (∃ flag ∈ flags, ∃ attached, Names flag argument attached ∧
      takeFlag flag attached reading = .ok reading') ∨
    (¬ Dashed argument ∧ takeValue argument reading = .ok reading') := by
  unfold takeArgument at htake
  split at htake
  · rename_i body hbody
    exact .inl (takeLong_cases hbody htake)
  · rename_i letter rest hlong hbody
    exact .inl (takeShort_cases hbody htake)
  · rename_i hlong hshort
    refine .inr ⟨?_, htake⟩
    rintro ⟨c, rest, hdashed⟩
    exact hshort c rest hdashed

/-! ### All arguments -/

def acceptAll : List (Flag σ × String) → Reading σ → Except Usage (Reading σ)
  | [], reading => .ok reading
  | (flag, value) :: assignments, reading => match accept flag value reading with
    | .error usage => .error usage
    | .ok reading => acceptAll assignments reading

/-- What acceptance does to a reading, if there is no fault. -/
theorem accept_eq_ok_iff : accept flag value reading = .ok reading' ↔
    flag.long ∉ reading.given ∧ ∃ set, flag.read value = .ok set ∧
      reading' = ⟨set reading.values, flag.long :: reading.given, reading.pending⟩ := by
  unfold accept
  by_cases hgiven : flag.long ∈ reading.given
  · simp [hgiven]
  · cases hread : flag.read value with
    | error usage => simp [hgiven, Except.map]
    | ok set => simp [hgiven, Except.map, eq_comm]

theorem settle_of_none (hpending : reading.pending = none) : settle reading = .ok reading := by
  rw [settle, hpending]

theorem settle_waiting (hpending : reading.pending = some (flag, none)) :
    settle reading = .error .invalidValue := by
  rw [settle, hpending]

theorem pending_of_settle (hsettle : settle reading = .ok reading') : reading'.pending = none := by
  unfold settle at hsettle
  split at hsettle
  · rename_i hpending
    cases hsettle
    exact hpending
  · cases hsettle
  · obtain ⟨-, set, -, rfl⟩ := accept_eq_ok_iff.1 hsettle
    rfl

theorem settle_pending (hpending : reading.pending = none) :
    settle { reading with pending := some (flag, some value) } = accept flag value reading := by
  obtain ⟨values, given, pending⟩ := reading
  cases hpending
  rfl

/-- One flag with its value, however it is spelled, is accepted once the reading is settled, and the
rest of the command line is read after that. -/
theorem Distinct.takeArguments_spells (h : Distinct flags) (hflag : flag ∈ flags)
    {words arguments : List String} (hwords : Spells flag value words) (reading : Reading σ)
    (hrest : ∀ reading, takeArguments flags arguments reading = match settle reading with
      | .error usage => .error usage
      | .ok reading => acceptAll assignments reading) :
    takeArguments flags (words ++ arguments) reading = match settle reading with
      | .error usage => .error usage
      | .ok reading => acceptAll ((flag, value) :: assignments) reading := by
  cases hwords with
  | attached hnames =>
    rw [List.singleton_append, takeArguments, if_neg (h.ne_dashes hflag hnames),
      h.takeArgument_names hflag hnames, takeFlag]
    cases hsettle : settle reading with
    | error usage => rfl
    | ok settled =>
      dsimp only
      rw [acceptAll]
      cases haccept : accept flag value settled with
      | error usage => rfl
      | ok accepted =>
        obtain ⟨-, set, -, rfl⟩ := accept_eq_ok_iff.1 haccept
        dsimp only
        have hnone := pending_of_settle hsettle
        rw [hrest, settle_of_none]
        exact hnone
  | @apart argument hnames hvalue =>
    have hdashes : value ≠ "--" := by
      rintro rfl
      exact hvalue ⟨'-', [], rfl⟩
    have htake (reading : Reading σ) : takeArgument flags value reading = takeValue value reading := by
      unfold takeArgument
      split
      · rename_i body heq
        exact absurd ⟨'-', body, heq⟩ hvalue
      · rename_i c rest _ heq
        exact absurd ⟨c, rest, heq⟩ hvalue
      · rfl
    rw [List.cons_append, takeArguments, if_neg (h.ne_dashes hflag hnames),
      h.takeArgument_names hflag hnames, takeFlag]
    -- the value is not accepted here but when the rest settles what waits
    cases hsettle : settle reading with
    | error usage => rfl
    | ok settled =>
      dsimp only
      rw [List.singleton_append, takeArguments, if_neg hdashes, htake, takeValue]
      dsimp only
      rw [hrest, settle_pending (pending_of_settle hsettle), acceptAll]

/-- The values that a command line spells are accepted in turn, once the reading is settled. -/
theorem Distinct.takeArguments_eq (h : Distinct flags) {arguments : List String}
    (hspells : SpellsAll flags assignments arguments) (reading : Reading σ) :
    takeArguments flags arguments reading = match settle reading with
      | .error usage => .error usage
      | .ok reading => acceptAll assignments reading := by
  induction hspells generalizing reading with
  | nil =>
    rw [takeArguments]
    cases settle reading <;> rfl
  | dashes =>
    change settle reading = _
    cases settle reading <;> rfl
  | cons hflag hwords _ ih => exact h.takeArguments_spells hflag hwords reading ih

/-- A flag is only taken when none waits for a value, and it waits itself if it has none. -/
theorem pending_of_takeFlag {attached : Option String}
    (htake : takeFlag flag attached reading = .ok reading') :
    (∀ other, reading.pending ≠ some (other, none)) ∧
      reading'.pending = if attached.isNone then some (flag, none) else none := by
  unfold takeFlag at htake
  split at htake
  · cases htake
  · rename_i settled hsettle
    refine ⟨fun other hpending => ?_, ?_⟩
    · rw [settle_waiting hpending] at hsettle
      cases hsettle
    · cases attached with
      | none =>
        cases htake
        rfl
      | some value =>
        obtain ⟨-, set, -, rfl⟩ := accept_eq_ok_iff.1 htake
        have hsettled := pending_of_settle hsettle
        exact hsettled

/-- Whatever is accepted spells flags and values. What is left to read begins with the value, if a
flag waits for one. -/
theorem spellsAll_of_takeArguments {arguments : List String}
    (htake : takeArguments flags arguments reading = .ok reading') :
    ((∀ flag, reading.pending ≠ some (flag, none)) →
      ∃ assignments, SpellsAll flags assignments arguments) ∧
    (∀ flag, reading.pending = some (flag, none) → ∃ value rest assignments,
      arguments = value :: rest ∧ ¬ Dashed value ∧ SpellsAll flags assignments rest) := by
  induction arguments generalizing reading with
  | nil =>
    refine ⟨fun _ => ⟨[], .nil⟩, fun flag hpending => ?_⟩
    rw [takeArguments, settle_waiting hpending] at htake
    cases htake
  | cons argument arguments ih =>
    rw [takeArguments] at htake
    split at htake
    · rename_i hdashes
      split at htake
      · rename_i hempty
        obtain rfl := List.isEmpty_iff.1 hempty
        refine ⟨fun _ => ⟨[], hdashes ▸ .dashes⟩, fun flag hpending => ?_⟩
        rw [settle_waiting hpending] at htake
        cases htake
      · cases htake
    · split at htake
      · cases htake
      · rename_i taken hargument
        rcases takeArgument_cases hargument with
          ⟨flag, hflag, attached, hnames, hflagged⟩ | ⟨hvalue, htaken⟩
        · obtain ⟨hready, hpending⟩ := pending_of_takeFlag hflagged
          refine ⟨fun _ => ?_, fun other hwaiting => absurd hwaiting (hready other)⟩
          cases attached with
          | none =>
            obtain ⟨value, rest, assignments, rfl, hvalue, hrest⟩ := (ih htake).2 flag hpending
            exact ⟨_, .cons hflag (.apart hnames hvalue) hrest⟩
          | some value =>
            have hsettled : ∀ other, taken.pending ≠ some (other, none) := by
              intro other heq
              cases hpending.symm.trans heq
            obtain ⟨assignments, hrest⟩ := (ih htake).1 hsettled
            exact ⟨_, .cons hflag (.attached hnames) hrest⟩
        · unfold takeValue at htaken
          split at htaken
          · rename_i flag hpending
            cases htaken
            refine ⟨fun hnone => absurd hpending (hnone flag), fun _ _ => ?_⟩
            obtain ⟨assignments, hrest⟩ := (ih htake).1 fun _ heq => by cases heq
            exact ⟨argument, arguments, assignments, rfl, hvalue, hrest⟩
          · cases htaken

end CommandLine

end Telemetry.Settings
