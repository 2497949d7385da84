import Telemetry.Proofs.Json.Fields
import Telemetry.Settings.Agent
import Telemetry.Settings.Server

/-!
# Settings files that were written

Settings that were written are read back without their secret, which is not written, so that the text
does not depend on it. Every other field is written, and a reader that meets each of them in turn ends
with the settings, whatever it started from; the secret stays as it started. The place of the snapshot
file may be written under its other name.
-/

namespace Telemetry

open Json

namespace Settings

variable {σ : Type} {form : Form σ}

/-! ### Members of a settings file -/

def textMember (name : String) {set : String → σ → σ}
    (found : form.field? name = some (textField name set)) (value : String) : Member form where
  field := textField name set
  text := writeString value
  change := set value
  found := found
  reads := (Reader.reads_text "a string" value).map set

/-- The word for an absent text, or a text. -/
theorem reads_writeOption (expected : String) (value : Option String) :
    (Reader.text expected).optional.Reads (writeOption writeString value) value := by
  cases value with
  | none => exact Reader.reads_null _
  | some value =>
    exact Reader.reads_optional (Reader.reads_text expected value) (Reader.present_writeString value)

def optionalTextMember (name : String) {set : Option String → σ → σ}
    (found : form.field? name = some (optionalTextField name set)) (value : Option String) :
    Member form where
  field := optionalTextField name set
  text := writeOption writeString value
  change := set value
  found := found
  reads := (reads_writeOption "a string" value).map set

/-- The member that holds a path or null. It may stand under any name of its field. -/
def pathMember (written name : String) {aliases : List String} {set : Option String → σ → σ}
    (found : form.field? written = some (pathField name aliases set)) (value : Option String) :
    Member form where
  field := pathField name aliases set
  name := written
  text := writeOption writeString value
  change := set value
  found := found
  reads := (reads_writeOption "path string" value).map set

theorem reads_number (expected : String) (set : UInt64 → σ → σ) (value : UInt64) :
    ((Reader.uint64 expected).map fun n => set (UInt64.ofNat n)).Reads (integerText value.toNat)
      (set value) := by
  have hread := Reader.reads_uint64 expected (Nat.le_of_lt_succ value.toNat_lt)
  have hvalue : UInt64.ofNat value.toNat = value := UInt64.ofNat_toNat
  have hset := hread.map fun n => set (UInt64.ofNat n)
  rwa [hvalue] at hset

def secondsMember (name : String) {set : UInt64 → σ → σ}
    (found : form.field? name = some (secondsField name set)) (value : UInt64) : Member form where
  field := secondsField name set
  text := integerText value.toNat
  change := set value
  found := found
  reads := reads_number "u64" set value

def countMember (name : String) {set : UInt64 → σ → σ}
    (found : form.field? name = some (countField name set)) (value : UInt64) : Member form where
  field := countField name set
  text := integerText value.toNat
  change := set value
  found := found
  reads := reads_number "usize" set value

def flagMember (name : String) {set : Bool → σ → σ}
    (found : form.field? name = some (flagField name set)) (value : Bool) : Member form where
  field := flagField name set
  text := writeBool value
  change := set value
  found := found
  reads := (Reader.reads_boolean value).map set

/-- Settings are loaded from a file whose text is read as them. -/
theorem load_of_reads {text : List Char} {settings : σ} (h : form.reader.Reads text settings)
    {files : TextFiles} {path : String} (hfile : files path = .ok (String.ofList text)) :
    load form files path = .ok settings := by
  rw [load, hfile]
  dsimp only
  rw [readText, Bytes.ofString_ofList, h.document]
  rfl

end Settings

open Settings

/-! ### The agent -/

namespace AgentSettings

variable (s : AgentSettings)

def members : List (Member form) := [
  textMember "address" rfl s.address,
  secondsMember "poll_interval" rfl s.pollInterval,
  secondsMember "report_interval" rfl s.reportInterval,
  countMember "rate_limit" rfl s.rateLimit,
  pathMember "crypto_key" "crypto_key" rfl s.cryptoKey,
  secondsMember "request_timeout" rfl s.requestTimeout,
  textMember "log_level" rfl s.logLevel,
  optionalTextMember "metrics_address" rfl s.metricsAddress]

theorem write_eq : s.write = writeObject (s.members.map fun m => writeMember m.name m.text) := rfl

/-- The members set every field but the secret, which stays as the settings started with it. -/
theorem foldl_members (start : AgentSettings) :
    s.members.foldl (fun s m => m.change s) start = { s with secretKey := start.secretKey } := rfl

theorem reads_write : form.reader.Reads s.write { s with secretKey := none } := by
  have hnodup : (s.members.map (·.field.name)).Nodup :=
    show (["address", "poll_interval", "report_interval", "rate_limit", "crypto_key",
      "request_timeout", "log_level", "metrics_address"]).Nodup by decide
  have hsome : s.members ≠ [] := List.cons_ne_nil _ _
  have hread := Form.reads_object hsome hnodup rfl
  rwa [foldl_members, ← write_eq] at hread

end AgentSettings

/-! ### The server -/

namespace ServerSettings

variable (s : ServerSettings) (pathName : String)

/-- The settings as they stand in a file, with the place of the snapshot file under a name. -/
def writeAs : List Char :=
  writeObject [
    writeText "address" s.address,
    writeNumber "store_interval" s.storeInterval,
    writeOptionalText pathName s.fileStoragePath,
    writeMember "restore" (writeBool s.restore),
    writeOptionalText "database_dsn" s.databaseSource,
    writeOptionalText "crypto_key" s.cryptoKey,
    writeOptionalText "trusted_subnet" s.trustedSubnet,
    writeText "log_level" s.logLevel,
    writeOptionalText "metrics_address" s.metricsAddress]

theorem write_eq : s.write = s.writeAs "file_storage_path" := rfl

def placeField : Json.Field ServerSettings :=
  pathField "file_storage_path" ["store_file"] fun fileStoragePath s => { s with fileStoragePath }

def members (h : form.field? pathName = some placeField) : List (Member form) := [
  textMember "address" rfl s.address,
  secondsMember "store_interval" rfl s.storeInterval,
  pathMember pathName "file_storage_path" h s.fileStoragePath,
  flagMember "restore" rfl s.restore,
  optionalTextMember "database_dsn" rfl s.databaseSource,
  pathMember "crypto_key" "crypto_key" rfl s.cryptoKey,
  optionalTextMember "trusted_subnet" rfl s.trustedSubnet,
  textMember "log_level" rfl s.logLevel,
  optionalTextMember "metrics_address" rfl s.metricsAddress]

theorem writeAs_eq (h : form.field? pathName = some placeField) : s.writeAs pathName
    = writeObject ((s.members pathName h).map fun m => writeMember m.name m.text) := rfl

theorem foldl_members (h : form.field? pathName = some placeField)
    (start : ServerSettings) :
    (s.members pathName h).foldl (fun s m => m.change s) start
      = { s with secretKey := start.secretKey } := by
  cases s
  rfl

theorem reads_writeAs (h : form.field? pathName = some placeField) :
    form.reader.Reads (s.writeAs pathName) { s with secretKey := none } := by
  have hnodup : ((s.members pathName h).map (·.field.name)).Nodup :=
    show (["address", "store_interval", "file_storage_path", "restore", "database_dsn",
      "crypto_key", "trusted_subnet", "log_level", "metrics_address"]).Nodup by decide
  have hsome : s.members pathName h ≠ [] := List.cons_ne_nil _ _
  have hread := Form.reads_object hsome hnodup rfl
  rwa [foldl_members, ← writeAs_eq] at hread

end ServerSettings

/-- Settings come back from the file they were written to, all but the secret, on which the text of
the file does not depend; and so they do when the place of the snapshot file stands under its other
name. -/
theorem settings_files_forget_only_the_secret (files : TextFiles) (path : String) :
    (∀ s : AgentSettings, files path = .ok (String.ofList s.write) →
      AgentSettings.load files path = .ok { s with secretKey := none }) ∧
    (∀ s : ServerSettings, files path = .ok (String.ofList s.write) →
      ServerSettings.load files path = .ok { s with secretKey := none }) ∧
    (∀ (s : AgentSettings) (secret : Option String),
      { s with secretKey := secret }.write = s.write) ∧
    (∀ (s : ServerSettings) (secret : Option String),
      { s with secretKey := secret }.write = s.write) ∧
    (∀ s : ServerSettings, s.write = s.writeAs "file_storage_path") ∧
    (∀ s : ServerSettings, files path = .ok (String.ofList (s.writeAs "store_file")) →
      ServerSettings.load files path = .ok { s with secretKey := none }) := by
  refine ⟨fun s hfile => load_of_reads s.reads_write hfile, fun s hfile => ?_,
    fun _ _ => rfl, fun _ _ => rfl, ServerSettings.write_eq, fun s hfile => ?_⟩
  · exact load_of_reads (s.reads_writeAs "file_storage_path" rfl) hfile
  · exact load_of_reads (s.reads_writeAs "store_file" rfl) hfile

/-- An agent that waits for answers longer than any clock counts. -/
def AgentSettings.unusual : AgentSettings :=
  { AgentSettings.default with
    cryptoKey := some ""
    requestTimeout := 0xffffffffffffffff
    secretKey := some "top" }

/-- A server whose snapshot file has a quote in its place. -/
def ServerSettings.unusual : ServerSettings :=
  { ServerSettings.default with
    address := ""
    fileStoragePath := some "C:\\a \"b\".json"
    secretKey := some "top" }

/-- The only text there is, whatever the path. -/
def Settings.TextFiles.single (text : List Char) : TextFiles := fun _ => .ok (String.ofList text)

theorem settings_files_forget_only_the_secret_unusual :
    AgentSettings.load (TextFiles.single AgentSettings.unusual.write) "a.json"
      = .ok { AgentSettings.unusual with secretKey := none } ∧
    ServerSettings.load (TextFiles.single ServerSettings.unusual.write) "b.json"
      = .ok { ServerSettings.unusual with secretKey := none } ∧
    ServerSettings.load (TextFiles.single (ServerSettings.unusual.writeAs "store_file")) "c.json"
      = .ok { ServerSettings.unusual with secretKey := none } := by
  refine ⟨?_, ?_, ?_⟩
  · exact (settings_files_forget_only_the_secret (TextFiles.single AgentSettings.unusual.write)
      "a.json").1 _ rfl
  · exact (settings_files_forget_only_the_secret (TextFiles.single ServerSettings.unusual.write)
      "b.json").2.1 _ rfl
  · exact (settings_files_forget_only_the_secret
      (TextFiles.single (ServerSettings.unusual.writeAs "store_file")) "c.json").2.2.2.2.2 _ rfl

end Telemetry
