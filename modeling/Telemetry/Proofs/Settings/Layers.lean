import Telemetry.Proofs.Json.Outline
import Telemetry.Proofs.Settings.CommandLine

/-!
# Settings in layers

A setting has four sources: its flag, its variable, its place in the file, and its default, each of
which counts only where those before it are silent. The file has two sources itself, a flag and a
variable, and a file that is named has to be there. All this follows for a program from what its own
lines say: that each flag changes what stands under its own name, that the settings of a file follow
what the file has for them, and that what is given is laid over the file setting by setting.
-/

namespace Telemetry

open Json

namespace Settings

open CommandLine

variable {σ τ α : Type}

/-! ### Formats -/

/-- How a setting is written: as the value of a flag or of a variable, and in a file. -/
structure Format (α : Type) where
  parse : String → Option α
  reader : Reader α

namespace Format

def text : Format String := ⟨some, Reader.text "a string"⟩

/-- A path, which is not empty outside a file. -/
def path : Format String where
  parse text := if text = "" then none else some text
  reader := Reader.text "path string"

def number (expected : String) : Format UInt64 where
  parse text := match Number.Literal.readNat Number.uint64Max text.toList with
    | .error _ => none
    | .ok n => some (UInt64.ofNat n)
  reader := (Reader.uint64 expected).map UInt64.ofNat

def truth : Format Bool where
  parse text := if text = "true" then some true else if text = "false" then some false else none
  reader := Reader.boolean

/-- What may be absent. Only a file can say that it is. -/
def optional (format : Format α) : Format (Option α) where
  parse text := (format.parse text).map some
  reader := format.reader.optional

variable (format : Format α)

/-- The value of a setting comes from its flag, else from its variable, else from the file, where it
is read off the bytes that begin with it, else it is the default. -/
def Chosen (byFlag byVariable : Option String) (inFile : Option Bytes) (default value : α) : Prop :=
  match byFlag, byVariable, inFile with
  | some text, _, _ => format.parse text = some value
  | none, some text, _ => format.parse text = some value
  | none, none, some bytes => ∃ rest, format.reader.run bytes = .ok (value, rest)
  | none, none, none => value = default

variable {format} {byFlag byVariable : Option String} {inFile : Option Bytes} {default base : α}

/-- What is given from outside goes before what is there. -/
theorem chosen_getD
    (hreadable : ∀ text, byFlag.or byVariable = some text → ∃ value, format.parse text = some value)
    (hbase : format.Chosen none none inFile default base) :
    format.Chosen byFlag byVariable inFile default
      (((byFlag.or byVariable).bind format.parse).getD base) := by
  have hgiven {text : String} (h : byFlag.or byVariable = some text) :
      format.parse text = some (((byFlag.or byVariable).bind format.parse).getD base) := by
    obtain ⟨value, hvalue⟩ := hreadable text h
    rw [h, Option.bind_some, hvalue, Option.getD_some]
  cases byFlag with
  | some text => exact hgiven rfl
  | none =>
    cases byVariable with
    | some text => exact hgiven rfl
    | none => exact hbase

theorem bind_optional (given : Option String) (base : Option α) :
    (given.bind format.optional.parse).getD base = (given.bind format.parse <|> base) := by
  cases given with
  | none => rfl
  | some text =>
    change ((format.parse text).map some).getD base = (format.parse text <|> base)
    cases format.parse text <;> rfl

end Format

/-! ### One flag -/

/-- A flag that sets what the format makes of its value. -/
def Writes (flag : Flag σ) (format : Format α) (set : α → σ → σ) : Prop :=
  ∀ ⦃value : String⦄ ⦃change : σ → σ⦄, flag.read value = .ok change →
    ∃ a, format.parse value = some a ∧ change = set a

section Flags

variable {short : Option Char} {long envName : String}

theorem writes_textFlag {set : String → σ → σ} :
    Writes (textFlag short long envName set) Format.text set := by
  rintro value change ⟨⟩
  exact ⟨value, rfl, rfl⟩

theorem writes_pathFlag {set : String → σ → σ} :
    Writes (pathFlag short long envName set) Format.path set := by
  intro value change h
  dsimp only [pathFlag] at h
  split at h
  · cases h
  · rename_i hvalue
    cases h
    exact ⟨value, if_neg hvalue, rfl⟩

theorem writes_numberFlag (expected : String) {set : UInt64 → σ → σ} :
    Writes (numberFlag short long envName set) (Format.number expected) set := by
  intro value change h
  dsimp only [numberFlag] at h
  split at h
  · cases h
  · rename_i n hn
    cases h
    refine ⟨UInt64.ofNat n, ?_, rfl⟩
    dsimp only [Format.number]
    rw [hn]

theorem writes_truthFlag {set : Bool → σ → σ} :
    Writes (truthFlag short long envName set) Format.truth set := by
  intro value change h
  dsimp only [truthFlag] at h
  split at h
  · rename_i htrue
    cases h
    exact ⟨true, if_pos htrue, rfl⟩
  · rename_i htrue
    split at h
    · rename_i hfalse
      cases h
      exact ⟨false, (if_neg htrue).trans (if_pos hfalse), rfl⟩
    · cases h

end Flags

section Overrides

variable {flags : List (Flag σ)} {flag : Flag σ} {format : Format α} {set : α → σ → σ}
  {assignments : List (Flag σ × String)} {environment : List (String × String)}
  {inFile : Option Bytes}

/-- What is accepted under the name of a flag can be read. -/
theorem Writes.readable (hwrites : Writes flag format set) (h : Distinct flags) (hflag : flag ∈ flags)
    (hflags : ∀ assignment ∈ assignments, assignment.1 ∈ flags)
    (haccept : Acceptable (effective flags assignments environment)) {text : String}
    (hvalue : valueOf (effective flags assignments environment) flag.long = some text) :
    ∃ value, format.parse text = some value := by
  -- what is accepted stands there with some flag, and no two flags have one name
  obtain ⟨other, hother, hname⟩ := (valueOf_eq_some_iff haccept.once).1 hvalue
  have hmem : other ∈ flags := mem_effective hflags _ hother
  have hsame : other = flag := List.inj_on_of_nodup_map h.names hmem hflag hname
  obtain ⟨change, hread⟩ := haccept.readable _ hother
  rw [hsame] at hread
  obtain ⟨a, hparse, -⟩ := hwrites hread
  exact ⟨a, hparse⟩

/-- A setting of its own type, with what the overrides hold laid over what is there. -/
theorem Writes.chosen_getD (hwrites : Writes flag format set) (h : Distinct flags)
    (hflags : ∀ assignment ∈ assignments, assignment.1 ∈ flags)
    (haccept : Acceptable (effective flags assignments environment)) (hflag : flag ∈ flags)
    {default base : α} (hbase : format.Chosen none none inFile default base) :
    format.Chosen (valueOf assignments flag.long) (environment.lookup flag.envName) inFile default
      (((valueOf (effective flags assignments environment) flag.long).bind format.parse).getD
        base) := by
  have hvalue : valueOf (effective flags assignments environment) flag.long
      = (valueOf assignments flag.long).or (environment.lookup flag.envName) :=
    h.valueOf_effective hflag
  rw [hvalue]
  refine Format.chosen_getD (fun text htext => ?_) hbase
  exact hwrites.readable h hflag hflags haccept (hvalue.trans htext)

/-- The same for a setting that may be absent. -/
theorem Writes.chosen_or (hwrites : Writes flag format set) (h : Distinct flags)
    (hflags : ∀ assignment ∈ assignments, assignment.1 ∈ flags)
    (haccept : Acceptable (effective flags assignments environment)) (hflag : flag ∈ flags)
    {default base : Option α} (hbase : format.optional.Chosen none none inFile default base) :
    format.optional.Chosen (valueOf assignments flag.long) (environment.lookup flag.envName) inFile
      default ((valueOf (effective flags assignments environment) flag.long).bind format.parse
        <|> base) := by
  have hvalue : valueOf (effective flags assignments environment) flag.long
      = (valueOf assignments flag.long).or (environment.lookup flag.envName) :=
    h.valueOf_effective hflag
  rw [hvalue, ← Format.bind_optional]
  refine Format.chosen_getD (fun text htext => ?_) hbase
  obtain ⟨value, hparse⟩ := hwrites.readable h hflag hflags haccept (hvalue.trans htext)
  exact ⟨some value, congrArg (Option.map some) hparse⟩

end Overrides

/-! ### One field of a file -/

/-- A field that sets what the reader of the format makes of its value. -/
def Fills (field : Json.Field σ) (format : Format α) (set : α → σ → σ) : Prop :=
  ∀ ⦃value rest : Bytes⦄ ⦃change : σ → σ⦄, field.change.run value = .ok (change, rest) →
    ∃ a, format.reader.run value = .ok (a, rest) ∧ change = set a

theorem run_map {β : Type} {reader : Reader α} {f : α → β} {value rest : Bytes} {b : β} :
    (reader.map f).run value = .ok (b, rest) ↔
      ∃ a, reader.run value = .ok (a, rest) ∧ f a = b := by
  dsimp only [Reader.map, Reader.filterMap]
  cases reader.run value with
  | error e => simp
  | ok p =>
    obtain ⟨a, after⟩ := p
    simp only [Except.ok.injEq, Prod.mk.injEq]
    constructor
    · rintro ⟨rfl, rfl⟩
      exact ⟨a, ⟨rfl, rfl⟩, rfl⟩
    · rintro ⟨a, ⟨rfl, rfl⟩, rfl⟩
      exact ⟨rfl, rfl⟩

/-- A field that maps the reader of its format fills in what it reads. -/
theorem fills_of_map {field : Json.Field σ} {format : Format α} {set : α → σ → σ}
    (h : field.change = format.reader.map set) : Fills field format set := by
  intro value rest change hread
  rw [h] at hread
  obtain ⟨a, ha, rfl⟩ := run_map.1 hread
  exact ⟨a, ha, rfl⟩

theorem fills_number {field : Json.Field σ} {expected : String} {set : UInt64 → σ → σ}
    (h : field.change = (Reader.uint64 expected).map fun n => set (UInt64.ofNat n)) :
    Fills field (Format.number expected) set := by
  intro value rest change hread
  rw [h] at hread
  obtain ⟨n, hn, rfl⟩ := run_map.1 hread
  exact ⟨UInt64.ofNat n, run_map.2 ⟨n, hn, rfl⟩, rfl⟩

section Fields

variable {name : String}

theorem fills_textField {set : String → σ → σ} : Fills (textField name set) Format.text set :=
  fills_of_map rfl

theorem fills_optionalTextField {set : Option String → σ → σ} :
    Fills (optionalTextField name set) Format.text.optional set := fills_of_map rfl

theorem fills_pathField {aliases : List String} {set : Option String → σ → σ} :
    Fills (pathField name aliases set) Format.path.optional set := fills_of_map rfl

theorem fills_secondsField {set : UInt64 → σ → σ} :
    Fills (secondsField name set) (Format.number "u64") set := fills_number rfl

theorem fills_countField {set : UInt64 → σ → σ} :
    Fills (countField name set) (Format.number "usize") set := fills_number rfl

theorem fills_flagField {set : Bool → σ → σ} : Fills (flagField name set) Format.truth set :=
  fills_of_map rfl

end Fields

section Held

variable {format : Format α} {held : String → Option Bytes} {name other : String}
  {value rest : Bytes} {default a : α}

theorem chosen_update_self (hread : format.reader.run value = .ok (a, rest)) :
    format.Chosen none none (Function.update held name (some value) name) default a := by
  rw [Function.update_self]
  exact ⟨rest, hread⟩

theorem chosen_update_of_ne (hne : other ≠ name)
    (h : format.Chosen none none (held other) default a) :
    format.Chosen none none (Function.update held name (some value) other) default a := by
  rwa [Function.update_of_ne hne]

end Held

/-! ### All settings -/

/-- The file that is named, if any, and its outline. -/
def Opens (files : TextFiles) (path : Option String) (file : Option Outline) : Prop :=
  match path with
  | none => file = none
  | some path => ∃ text outline, files path = .ok text ∧
      IsOutline (Bytes.ofString text) outline ∧ file = some outline

theorem Opens.unique {files : TextFiles} {path : Option String} {file file' : Option Outline}
    (h : Opens files path file) (h' : Opens files path file') : file = file' := by
  cases path with
  | none => exact Eq.trans h h'.symm
  | some path =>
    obtain ⟨text, outline, hfile, houtline, rfl⟩ := h
    obtain ⟨text', outline', hfile', houtline', rfl⟩ := h'
    cases hfile.symm.trans hfile'
    rw [houtline.unique houtline']

/-- What a file has for a setting. -/
def valueIn (file : Option Outline) (names : List String) (place : Nat) : Option Bytes :=
  file.bind fun outline => outline.value names place

/-- The path of the file: a flag goes before a variable. -/
def filePath (assignments : List (Flag σ × String)) (environment : List (String × String)) :
    Option String :=
  (valueOf assignments "config").or (environment.lookup "CONFIG")

/-- What it means that flags go before variables, variables before the file, and the file before the
defaults. How each setting follows its flag, its variable and its place in the file is said apart. -/
structure Layered (flags : List (Flag σ)) (start : σ)
    (resolve : σ → TextFiles → Except Failure τ) (form : Form τ)
    (Follows : (String → Option String) → (String → Option String) →
      (List String → Nat → Option Bytes) → τ → Prop) : Prop where
  /-- A command line that is accepted spells flags with their values, none of them twice. -/
  spelled : ∀ {arguments environment overrides},
    read flags start arguments environment = .ok overrides →
      ∃ assignments, SpellsAll flags assignments arguments ∧ (named assignments).Nodup
  /-- However the flags are spelled, each setting follows its own sources. -/
  follows : ∀ {assignments arguments environment overrides files settings},
    SpellsAll flags assignments arguments →
    read flags start arguments environment = .ok overrides →
    resolve overrides files = .ok settings →
      (∃ file, Opens files (filePath assignments environment) file) ∧
      ∀ file, Opens files (filePath assignments environment) file →
        Follows (valueOf assignments) (fun name => environment.lookup name) (valueIn file) settings
  /-- The order of the flags does not matter, and neither does how they are spelled. -/
  unordered : ∀ {assignments assignments' arguments arguments' environment overrides},
    SpellsAll flags assignments arguments → SpellsAll flags assignments' arguments' →
    assignments.Perm assignments' → read flags start arguments environment = .ok overrides →
      read flags start arguments' environment = .ok overrides
  /-- A file that is named has to be there and to be readable, whatever else is given. -/
  refused : ∀ {assignments arguments environment overrides files path},
    SpellsAll flags assignments arguments →
    read flags start arguments environment = .ok overrides →
    filePath assignments environment = some path →
    (∀ text settings, files path = .ok text →
      form.reader.document (Bytes.ofString text) ≠ .ok settings) →
      ∃ reason, resolve overrides files = .error (.configuration reason)

section Layers

variable {flags : List (Flag σ)} {ofValues : (String → Option String) → σ} {form : Form τ}
  {resolve : σ → TextFiles → Except Failure τ} {config : σ → Option String}
  {applyTo : σ → τ → τ}
  {Follows : (String → Option String) → (String → Option String) →
    (List String → Nat → Option Bytes) → τ → Prop}
  {assignments assignments' : List (Flag σ × String)} {arguments arguments' : List String}
  {environment : List (String × String)} {overrides : σ} {files : TextFiles} {settings : τ}

theorem effective_perm (hperm : assignments.Perm assignments') :
    (effective flags assignments environment).Perm (effective flags assignments' environment) := by
  have hsupplied : supplied environment (named assignments) flags
      = supplied environment (named assignments') flags :=
    supplied_congr fun flag _ => (hperm.map _).mem_iff
  rw [effective, effective, hsupplied]
  exact hperm.append_right _

theorem read_perm (h : Distinct flags) (hsets : Sets flags ofValues)
    (hspells : SpellsAll flags assignments arguments)
    (hspells' : SpellsAll flags assignments' arguments') (hperm : assignments.Perm assignments')
    (hread : read flags (ofValues fun _ => none) arguments environment = .ok overrides) :
    read flags (ofValues fun _ => none) arguments' environment = .ok overrides := by
  obtain ⟨haccept, rfl⟩ := (h.read_eq_ok_iff hsets hspells).1 hread
  have heffective : (effective flags assignments environment).Perm
      (effective flags assignments' environment) := effective_perm hperm
  refine (h.read_eq_ok_iff hsets hspells').2 ⟨haccept.perm heffective, ?_⟩
  exact congrArg ofValues (funext fun _ => valueOf_perm haccept.once heffective)

/-- What has to be known of the flags, the form and the overrides of a program: flags set what stands
under their names, the file is the one that a flag or its variable names, a setting follows the file
where nothing else is given, and what is given is laid over the file. -/
structure Lays (flags : List (Flag σ)) (ofValues : (String → Option String) → σ) (form : Form τ)
    (resolve : σ → TextFiles → Except Failure τ) (config : σ → Option String) (applyTo : σ → τ → τ)
    (Follows : (String → Option String) → (String → Option String) →
      (List String → Nat → Option Bytes) → τ → Prop) : Prop where
  distinct : Distinct flags
  sets : Sets flags ofValues
  config_mem : ∃ short set, pathFlag short "config" "CONFIG" set ∈ flags
  config_ofValues : ∀ values,
    config (ofValues values) = (values "config").bind Format.path.parse
  resolve_eq : ∀ overrides files, resolve overrides files = match config overrides with
    | none => .ok (applyTo overrides form.start)
    | some path => (load form files path).map (applyTo overrides)
  follows_start : Follows (fun _ => none) (fun _ => none) (fun _ _ => none) form.start
  follows_document : ∀ {bytes base}, form.reader.document bytes = .ok base →
    ∃ outline, IsOutline bytes outline ∧
      Follows (fun _ => none) (fun _ => none) outline.value base
  follows_applyTo : ∀ {assignments environment held base},
    (∀ assignment ∈ assignments, assignment.1 ∈ flags) →
    Acceptable (effective flags assignments environment) →
    Follows (fun _ => none) (fun _ => none) held base →
      Follows (valueOf assignments) (fun name => environment.lookup name) held
        (applyTo (ofValues (valueOf (effective flags assignments environment))) base)

namespace Lays

/-- The overrides name the file that the flag or the variable names. -/
theorem config_eq (h : Lays flags ofValues form resolve config applyTo Follows)
    (hflags : ∀ assignment ∈ assignments, assignment.1 ∈ flags)
    (haccept : Acceptable (effective flags assignments environment)) :
    config (ofValues (valueOf (effective flags assignments environment)))
      = filePath assignments environment := by
  obtain ⟨short, set, hflag⟩ := h.config_mem
  have hvalue : valueOf (effective flags assignments environment) "config"
      = filePath assignments environment := h.distinct.valueOf_effective hflag
  rw [h.config_ofValues, ← hvalue]
  cases hgiven : valueOf (effective flags assignments environment) "config" with
  | none => rfl
  | some text =>
    obtain ⟨path, hparse⟩ := writes_pathFlag.readable h.distinct hflag hflags haccept hgiven
    rw [Option.bind_some, hparse]
    dsimp only [Format.path] at hparse
    split at hparse
    · cases hparse
    · exact hparse.symm

/-- The file that is named, if any, is opened, and the settings follow it. -/
theorem opens (h : Lays flags ofValues form resolve config applyTo Follows)
    (hspells : SpellsAll flags assignments arguments)
    (hread : read flags (ofValues fun _ => none) arguments environment = .ok overrides)
    (hresolve : resolve overrides files = .ok settings) :
    ∃ file, Opens files (filePath assignments environment) file ∧
      Follows (valueOf assignments) (fun name => environment.lookup name) (valueIn file)
        settings := by
  obtain ⟨haccept, rfl⟩ := (h.distinct.read_eq_ok_iff h.sets hspells).1 hread
  rw [h.resolve_eq, h.config_eq hspells.mem haccept] at hresolve
  cases hpath : filePath assignments environment with
  | none =>
    rw [hpath] at hresolve
    cases hresolve
    exact ⟨none, rfl, h.follows_applyTo hspells.mem haccept h.follows_start⟩
  | some path =>
    rw [hpath] at hresolve
    obtain ⟨base, hload, rfl⟩ := Numeral.map_ok hresolve
    rw [load] at hload
    split at hload
    · cases hload
    · rename_i text htext
      obtain ⟨outline, houtline, hfollows⟩ := h.follows_document (mapError_ok hload)
      exact ⟨some outline, ⟨text, outline, htext, houtline, rfl⟩,
        h.follows_applyTo hspells.mem haccept hfollows⟩

theorem layered (h : Lays flags ofValues form resolve config applyTo Follows) :
    Layered flags (ofValues fun _ => none) resolve form Follows where
  spelled hread := by
    obtain ⟨assignments, hspells⟩ := exists_spellsAll hread
    have honce := ((h.distinct.read_eq_ok_iff h.sets hspells).1 hread).1.once
    rw [effective, named, List.map_append] at honce
    exact ⟨assignments, hspells, (List.nodup_append.1 honce).1⟩
  follows hspells hread hresolve := by
    obtain ⟨file, hopens, hfollows⟩ := h.opens hspells hread hresolve
    exact ⟨⟨file, hopens⟩, fun other hother => hopens.unique hother ▸ hfollows⟩
  unordered hspells hspells' hperm hread := read_perm h.distinct h.sets hspells hspells' hperm hread
  refused {_ _ _ _ files path} hspells hread hpath hfault := by
    obtain ⟨haccept, rfl⟩ := (h.distinct.read_eq_ok_iff h.sets hspells).1 hread
    rw [h.resolve_eq, h.config_eq hspells.mem haccept, hpath]
    dsimp only
    rw [load]
    cases hfile : files path with
    | error fault => exact ⟨_, rfl⟩
    | ok text =>
      dsimp only
      rw [readText]
      cases hdocument : form.reader.document (Bytes.ofString text) with
      | error e => exact ⟨_, rfl⟩
      | ok settings => exact absurd hdocument (hfault text settings hfile)

end Lays

end Layers

end Settings

end Telemetry
