import Telemetry.Proofs.Settings.File
import Telemetry.Proofs.Settings.Layers

/-!
# Where each setting comes from

About twenty settings have a line each among the flags, in the overrides, in the form of the file and
where the overrides are laid over it. No line is crossed with another one: each setting follows its own
flag, variable and place in the file, and only the time that an agent waits for answers can be set in
the file alone.
-/

namespace Telemetry

open Json

open Settings CommandLine

/-! ### The agent -/

/-- Each setting of an agent follows its own flag, variable and place in the file. How long it waits
for answers has neither a flag nor a variable. -/
structure AgentSettings.Follows (flag environment : String → Option String)
    (held : List String → Nat → Option Bytes) (s : AgentSettings) : Prop where
  address : Format.text.Chosen (flag "address") (environment "ADDRESS") (held ["address"] 0)
    default.address s.address
  pollInterval : (Format.number "u64").Chosen (flag "poll-interval") (environment "POLL_INTERVAL")
    (held ["poll_interval"] 1) default.pollInterval s.pollInterval
  reportInterval : (Format.number "u64").Chosen (flag "report-interval")
    (environment "REPORT_INTERVAL") (held ["report_interval"] 2) default.reportInterval
    s.reportInterval
  rateLimit : (Format.number "usize").Chosen (flag "rate-limit") (environment "RATE_LIMIT")
    (held ["rate_limit"] 3) default.rateLimit s.rateLimit
  secretKey : Format.text.optional.Chosen (flag "key") (environment "KEY") (held ["secret_key"] 4)
    default.secretKey s.secretKey
  cryptoKey : Format.path.optional.Chosen (flag "crypto-key") (environment "CRYPTO_KEY")
    (held ["crypto_key"] 5) default.cryptoKey s.cryptoKey
  requestTimeout : (Format.number "u64").Chosen none none (held ["request_timeout"] 6)
    default.requestTimeout s.requestTimeout
  logLevel : Format.text.Chosen (flag "log-level") (environment "LOG_LEVEL") (held ["log_level"] 7)
    default.logLevel s.logLevel
  metricsAddress : Format.text.optional.Chosen (flag "metrics-address")
    (environment "METRICS_ADDRESS") (held ["metrics_address"] 8) default.metricsAddress
    s.metricsAddress

namespace AgentOverrides

def ofValues (values : String → Option String) : AgentOverrides where
  address := (values "address").bind Format.text.parse
  pollInterval := (values "poll-interval").bind (Format.number "u64").parse
  reportInterval := (values "report-interval").bind (Format.number "u64").parse
  rateLimit := (values "rate-limit").bind (Format.number "usize").parse
  key := (values "key").bind Format.text.parse
  cryptoKey := (values "crypto-key").bind Format.path.parse
  metricsAddress := (values "metrics-address").bind Format.text.parse
  config := (values "config").bind Format.path.parse
  logLevel := (values "log-level").bind Format.text.parse

theorem distinct_flags : Distinct flags where
  names := by decide
  letters := by decide
  plain := by decide
  noDash := by decide

theorem sets_flags : Sets flags ofValues := by
  intro flag hflag value change hread values
  simp only [flags, List.mem_cons, List.not_mem_nil, or_false] at hflag
  rcases hflag with rfl | rfl | rfl | rfl | rfl | rfl | rfl | rfl | rfl
  · obtain ⟨a, hparse, rfl⟩ := writes_textFlag hread
    simp [ofValues, textFlag, hparse]
  · obtain ⟨a, hparse, rfl⟩ := writes_numberFlag "u64" hread
    simp [ofValues, numberFlag, hparse]
  · obtain ⟨a, hparse, rfl⟩ := writes_numberFlag "u64" hread
    simp [ofValues, numberFlag, hparse]
  · obtain ⟨a, hparse, rfl⟩ := writes_numberFlag "usize" hread
    simp [ofValues, numberFlag, hparse]
  · obtain ⟨a, hparse, rfl⟩ := writes_textFlag hread
    simp [ofValues, textFlag, hparse]
  · obtain ⟨a, hparse, rfl⟩ := writes_pathFlag hread
    simp [ofValues, pathFlag, hparse]
  · obtain ⟨a, hparse, rfl⟩ := writes_textFlag hread
    simp [ofValues, textFlag, hparse]
  · obtain ⟨a, hparse, rfl⟩ := writes_pathFlag hread
    simp [ofValues, pathFlag, hparse]
  · obtain ⟨a, hparse, rfl⟩ := writes_textFlag hread
    simp [ofValues, textFlag, hparse]

end AgentOverrides

namespace AgentSettings

def Holds (held : String → Option Bytes) (s : AgentSettings) : Prop :=
  Follows (fun _ => none) (fun _ => none) (fun names _ => names.head?.bind held) s

/-- A field fills in what it reads under its own name, and leaves the other settings. -/
theorem keeps_form : form.Keeps Holds where
  start := ⟨rfl, rfl, rfl, rfl, rfl, rfl, rfl, rfl, rfl⟩
  change := by
    intro field hfield value rest change hread held s hs
    obtain ⟨h0, h1, h2, h3, h4, h5, h6, h7, h8⟩ := hs
    simp only [form, List.mem_cons, List.not_mem_nil, or_false] at hfield
    rcases hfield with rfl | rfl | rfl | rfl | rfl | rfl | rfl | rfl | rfl <;> first
      | obtain ⟨a, ha, rfl⟩ := fills_textField hread
      | obtain ⟨a, ha, rfl⟩ := fills_secondsField hread
      | obtain ⟨a, ha, rfl⟩ := fills_countField hread
      | obtain ⟨a, ha, rfl⟩ := fills_optionalTextField hread
      | obtain ⟨a, ha, rfl⟩ := fills_pathField hread
    all_goals
      constructor <;> first
        | exact chosen_update_self ha
        | exact chosen_update_of_ne (by decide) ‹_›

theorem skips_form : ∀ field ∈ form.fields, field.change.Skips := by
  have htext (expected : String) := Reader.skips_text expected
  have hnumber (expected : String) := Reader.skips_uint64 expected
  intro field hfield
  simp only [form, List.mem_cons, List.not_mem_nil, or_false] at hfield
  rcases hfield with rfl | rfl | rfl | rfl | rfl | rfl | rfl | rfl | rfl <;> first
    | exact (htext _).map _
    | exact (htext _).optional.map _
    | exact (hnumber _).map _

theorem Follows.congr {flag environment : String → Option String}
    {held held' : List String → Nat → Option Bytes} {s : AgentSettings}
    (h : Follows flag environment held s)
    (hsame : ∀ place field, form.fields[place]? = some field →
      held (field.name :: field.aliases) place = held' (field.name :: field.aliases) place) :
    Follows flag environment held' s where
  address := hsame 0 _ rfl ▸ h.address
  pollInterval := hsame 1 _ rfl ▸ h.pollInterval
  reportInterval := hsame 2 _ rfl ▸ h.reportInterval
  rateLimit := hsame 3 _ rfl ▸ h.rateLimit
  secretKey := hsame 4 _ rfl ▸ h.secretKey
  cryptoKey := hsame 5 _ rfl ▸ h.cryptoKey
  requestTimeout := hsame 6 _ rfl ▸ h.requestTimeout
  logLevel := hsame 7 _ rfl ▸ h.logLevel
  metricsAddress := hsame 8 _ rfl ▸ h.metricsAddress

theorem follows_document {bytes : Bytes} {s : AgentSettings}
    (h : form.reader.document bytes = .ok s) : ∃ outline, IsOutline bytes outline ∧
      Follows (fun _ => none) (fun _ => none) outline.value s := by
  have hnames : form.names.Nodup := by decide
  obtain ⟨outline, houtline, hholds⟩ := form.document_outline skips_form keeps_form hnames h
  exact ⟨outline, houtline, hholds.congr fun place field hfield =>
    form.lookup_assigned hnames hfield outline⟩

end AgentSettings

namespace AgentOverrides

variable {assignments : List (Flag AgentOverrides × String)}
  {environment : List (String × String)}

/-- What is given is laid over the file setting by setting. -/
theorem follows_applyTo {held : List String → Nat → Option Bytes} {base : AgentSettings}
    (hflags : ∀ assignment ∈ assignments, assignment.1 ∈ flags)
    (haccept : Acceptable (effective flags assignments environment))
    (h : AgentSettings.Follows (fun _ => .none) (fun _ => .none) held base) :
    AgentSettings.Follows (valueOf assignments) (fun name => environment.lookup name) held
      ((ofValues (valueOf (effective flags assignments environment))).applyTo base) where
  address := writes_textFlag.chosen_getD distinct_flags hflags haccept
    (List.mem_of_getElem? (i := 0) rfl) h.address
  pollInterval := (writes_numberFlag "u64").chosen_getD distinct_flags hflags haccept
    (List.mem_of_getElem? (i := 1) rfl) h.pollInterval
  reportInterval := (writes_numberFlag "u64").chosen_getD distinct_flags hflags haccept
    (List.mem_of_getElem? (i := 2) rfl) h.reportInterval
  rateLimit := (writes_numberFlag "usize").chosen_getD distinct_flags hflags haccept
    (List.mem_of_getElem? (i := 3) rfl) h.rateLimit
  secretKey := writes_textFlag.chosen_or distinct_flags hflags haccept
    (List.mem_of_getElem? (i := 4) rfl) h.secretKey
  cryptoKey := writes_pathFlag.chosen_or distinct_flags hflags haccept
    (List.mem_of_getElem? (i := 5) rfl) h.cryptoKey
  requestTimeout := h.requestTimeout
  logLevel := writes_textFlag.chosen_getD distinct_flags hflags haccept
    (List.mem_of_getElem? (i := 8) rfl) h.logLevel
  metricsAddress := writes_textFlag.chosen_or distinct_flags hflags haccept
    (List.mem_of_getElem? (i := 6) rfl) h.metricsAddress

theorem lays : Lays flags ofValues AgentSettings.form toSettings config applyTo
    AgentSettings.Follows where
  distinct := distinct_flags
  sets := sets_flags
  config_mem := ⟨some 'c', _, List.mem_of_getElem? (i := 7) rfl⟩
  config_ofValues _ := rfl
  resolve_eq _ _ := rfl
  follows_start := ⟨rfl, rfl, rfl, rfl, rfl, rfl, rfl, rfl, rfl⟩
  follows_document := AgentSettings.follows_document
  follows_applyTo := follows_applyTo

end AgentOverrides

/-! ### The server -/

/-- Each setting of a server follows its own flag, variable and place in the file, where the place of
the snapshot file has two names. -/
structure ServerSettings.Follows (flag environment : String → Option String)
    (held : List String → Nat → Option Bytes) (s : ServerSettings) : Prop where
  address : Format.text.Chosen (flag "address") (environment "ADDRESS") (held ["address"] 0)
    default.address s.address
  storeInterval : (Format.number "u64").Chosen (flag "store-interval")
    (environment "STORE_INTERVAL") (held ["store_interval"] 1) default.storeInterval
    s.storeInterval
  fileStoragePath : Format.path.optional.Chosen (flag "file-storage-path")
    (environment "FILE_STORAGE_PATH") (held ["file_storage_path", "store_file"] 2)
    default.fileStoragePath s.fileStoragePath
  restore : Format.truth.Chosen (flag "restore") (environment "RESTORE") (held ["restore"] 3)
    default.restore s.restore
  databaseSource : Format.text.optional.Chosen (flag "database-dsn") (environment "DATABASE_DSN")
    (held ["database_dsn"] 4) default.databaseSource s.databaseSource
  secretKey : Format.text.optional.Chosen (flag "key") (environment "KEY") (held ["secret_key"] 5)
    default.secretKey s.secretKey
  cryptoKey : Format.path.optional.Chosen (flag "crypto-key") (environment "CRYPTO_KEY")
    (held ["crypto_key"] 6) default.cryptoKey s.cryptoKey
  trustedSubnet : Format.text.optional.Chosen (flag "trusted-subnet")
    (environment "TRUSTED_SUBNET") (held ["trusted_subnet"] 7) default.trustedSubnet
    s.trustedSubnet
  logLevel : Format.text.Chosen (flag "log-level") (environment "LOG_LEVEL") (held ["log_level"] 8)
    default.logLevel s.logLevel
  metricsAddress : Format.text.optional.Chosen (flag "metrics-address")
    (environment "METRICS_ADDRESS") (held ["metrics_address"] 9) default.metricsAddress
    s.metricsAddress

namespace ServerOverrides

def ofValues (values : String → Option String) : ServerOverrides where
  address := (values "address").bind Format.text.parse
  storeInterval := (values "store-interval").bind (Format.number "u64").parse
  fileStoragePath := (values "file-storage-path").bind Format.path.parse
  restore := (values "restore").bind Format.truth.parse
  databaseSource := (values "database-dsn").bind Format.text.parse
  key := (values "key").bind Format.text.parse
  cryptoKey := (values "crypto-key").bind Format.path.parse
  trustedSubnet := (values "trusted-subnet").bind Format.text.parse
  metricsAddress := (values "metrics-address").bind Format.text.parse
  config := (values "config").bind Format.path.parse
  logLevel := (values "log-level").bind Format.text.parse

theorem distinct_flags : Distinct flags where
  names := by decide
  letters := by decide
  plain := by decide
  noDash := by decide

theorem sets_flags : Sets flags ofValues := by
  intro flag hflag value change hread values
  simp only [flags, List.mem_cons, List.not_mem_nil, or_false] at hflag
  rcases hflag with rfl | rfl | rfl | rfl | rfl | rfl | rfl | rfl | rfl | rfl | rfl
  · obtain ⟨a, hparse, rfl⟩ := writes_textFlag hread
    simp [ofValues, textFlag, hparse]
  · obtain ⟨a, hparse, rfl⟩ := writes_numberFlag "u64" hread
    simp [ofValues, numberFlag, hparse]
  · obtain ⟨a, hparse, rfl⟩ := writes_pathFlag hread
    simp [ofValues, pathFlag, hparse]
  · obtain ⟨a, hparse, rfl⟩ := writes_truthFlag hread
    simp [ofValues, truthFlag, hparse]
  · obtain ⟨a, hparse, rfl⟩ := writes_textFlag hread
    simp [ofValues, textFlag, hparse]
  · obtain ⟨a, hparse, rfl⟩ := writes_textFlag hread
    simp [ofValues, textFlag, hparse]
  · obtain ⟨a, hparse, rfl⟩ := writes_pathFlag hread
    simp [ofValues, pathFlag, hparse]
  · obtain ⟨a, hparse, rfl⟩ := writes_textFlag hread
    simp [ofValues, textFlag, hparse]
  · obtain ⟨a, hparse, rfl⟩ := writes_textFlag hread
    simp [ofValues, textFlag, hparse]
  · obtain ⟨a, hparse, rfl⟩ := writes_pathFlag hread
    simp [ofValues, pathFlag, hparse]
  · obtain ⟨a, hparse, rfl⟩ := writes_textFlag hread
    simp [ofValues, textFlag, hparse]

end ServerOverrides

namespace ServerSettings

def Holds (held : String → Option Bytes) (s : ServerSettings) : Prop :=
  Follows (fun _ => none) (fun _ => none) (fun names _ => names.head?.bind held) s

/-- A field fills in what it reads under its own name, and leaves the other settings. -/
theorem keeps_form : form.Keeps Holds where
  start := ⟨rfl, rfl, rfl, rfl, rfl, rfl, rfl, rfl, rfl, rfl⟩
  change := by
    intro field hfield value rest change hread held s hs
    obtain ⟨h0, h1, h2, h3, h4, h5, h6, h7, h8, h9⟩ := hs
    simp only [form, List.mem_cons, List.not_mem_nil, or_false] at hfield
    rcases hfield with rfl | rfl | rfl | rfl | rfl | rfl | rfl | rfl | rfl | rfl <;> first
      | obtain ⟨a, ha, rfl⟩ := fills_textField hread
      | obtain ⟨a, ha, rfl⟩ := fills_secondsField hread
      | obtain ⟨a, ha, rfl⟩ := fills_pathField hread
      | obtain ⟨a, ha, rfl⟩ := fills_flagField hread
      | obtain ⟨a, ha, rfl⟩ := fills_optionalTextField hread
    all_goals
      constructor <;> first
        | exact chosen_update_self ha
        | exact chosen_update_of_ne (by decide) ‹_›

theorem skips_form : ∀ field ∈ form.fields, field.change.Skips := by
  have htext (expected : String) := Reader.skips_text expected
  have hnumber (expected : String) := Reader.skips_uint64 expected
  intro field hfield
  simp only [form, List.mem_cons, List.not_mem_nil, or_false] at hfield
  rcases hfield with rfl | rfl | rfl | rfl | rfl | rfl | rfl | rfl | rfl | rfl <;> first
    | exact (htext _).map _
    | exact (htext _).optional.map _
    | exact (hnumber _).map _
    | exact Reader.skips_boolean.map _

theorem Follows.congr {flag environment : String → Option String}
    {held held' : List String → Nat → Option Bytes} {s : ServerSettings}
    (h : Follows flag environment held s)
    (hsame : ∀ place field, form.fields[place]? = some field →
      held (field.name :: field.aliases) place = held' (field.name :: field.aliases) place) :
    Follows flag environment held' s where
  address := hsame 0 _ rfl ▸ h.address
  storeInterval := hsame 1 _ rfl ▸ h.storeInterval
  fileStoragePath := hsame 2 _ rfl ▸ h.fileStoragePath
  restore := hsame 3 _ rfl ▸ h.restore
  databaseSource := hsame 4 _ rfl ▸ h.databaseSource
  secretKey := hsame 5 _ rfl ▸ h.secretKey
  cryptoKey := hsame 6 _ rfl ▸ h.cryptoKey
  trustedSubnet := hsame 7 _ rfl ▸ h.trustedSubnet
  logLevel := hsame 8 _ rfl ▸ h.logLevel
  metricsAddress := hsame 9 _ rfl ▸ h.metricsAddress

theorem follows_document {bytes : Bytes} {s : ServerSettings}
    (h : form.reader.document bytes = .ok s) : ∃ outline, IsOutline bytes outline ∧
      Follows (fun _ => none) (fun _ => none) outline.value s := by
  have hnames : form.names.Nodup := by decide
  obtain ⟨outline, houtline, hholds⟩ := form.document_outline skips_form keeps_form hnames h
  exact ⟨outline, houtline, hholds.congr fun place field hfield =>
    form.lookup_assigned hnames hfield outline⟩

end ServerSettings

namespace ServerOverrides

variable {assignments : List (Flag ServerOverrides × String)}
  {environment : List (String × String)}

/-- What is given is laid over the file setting by setting. -/
theorem follows_applyTo {held : List String → Nat → Option Bytes} {base : ServerSettings}
    (hflags : ∀ assignment ∈ assignments, assignment.1 ∈ flags)
    (haccept : Acceptable (effective flags assignments environment))
    (h : ServerSettings.Follows (fun _ => .none) (fun _ => .none) held base) :
    ServerSettings.Follows (valueOf assignments) (fun name => environment.lookup name) held
      ((ofValues (valueOf (effective flags assignments environment))).applyTo base) where
  address := writes_textFlag.chosen_getD distinct_flags hflags haccept
    (List.mem_of_getElem? (i := 0) rfl) h.address
  storeInterval := (writes_numberFlag "u64").chosen_getD distinct_flags hflags haccept
    (List.mem_of_getElem? (i := 1) rfl) h.storeInterval
  fileStoragePath := writes_pathFlag.chosen_or distinct_flags hflags haccept
    (List.mem_of_getElem? (i := 2) rfl) h.fileStoragePath
  restore := writes_truthFlag.chosen_getD distinct_flags hflags haccept
    (List.mem_of_getElem? (i := 3) rfl) h.restore
  databaseSource := writes_textFlag.chosen_or distinct_flags hflags haccept
    (List.mem_of_getElem? (i := 4) rfl) h.databaseSource
  secretKey := writes_textFlag.chosen_or distinct_flags hflags haccept
    (List.mem_of_getElem? (i := 5) rfl) h.secretKey
  cryptoKey := writes_pathFlag.chosen_or distinct_flags hflags haccept
    (List.mem_of_getElem? (i := 6) rfl) h.cryptoKey
  trustedSubnet := writes_textFlag.chosen_or distinct_flags hflags haccept
    (List.mem_of_getElem? (i := 7) rfl) h.trustedSubnet
  logLevel := writes_textFlag.chosen_getD distinct_flags hflags haccept
    (List.mem_of_getElem? (i := 10) rfl) h.logLevel
  metricsAddress := writes_textFlag.chosen_or distinct_flags hflags haccept
    (List.mem_of_getElem? (i := 8) rfl) h.metricsAddress

theorem lays : Lays flags ofValues ServerSettings.form toSettings config applyTo
    ServerSettings.Follows where
  distinct := distinct_flags
  sets := sets_flags
  config_mem := ⟨some 'c', _, List.mem_of_getElem? (i := 9) rfl⟩
  config_ofValues _ := rfl
  resolve_eq _ _ := rfl
  follows_start := ⟨rfl, rfl, rfl, rfl, rfl, rfl, rfl, rfl, rfl, rfl⟩
  follows_document := ServerSettings.follows_document
  follows_applyTo := follows_applyTo

end ServerOverrides

/-! ### Both programs -/

/-- Each setting of an agent and of a server comes from its flag, else from its variable, else from
the file that is named by a flag or else by a variable, else it is the default, whatever the order and
the spelling of the flags; and a file that is named and cannot be read is a fault. -/
theorem settings_are_layered :
    Layered AgentOverrides.flags AgentOverrides.none AgentOverrides.toSettings AgentSettings.form
      AgentSettings.Follows ∧
    Layered ServerOverrides.flags ServerOverrides.none ServerOverrides.toSettings
      ServerSettings.form ServerSettings.Follows :=
  ⟨AgentOverrides.lays.layered, ServerOverrides.lays.layered⟩

namespace Settings

/-- A command line with a flag by its letter, one by its name and one with its value attached. -/
def exampleArguments : List String := ["-a", "x:1", "--poll-interval=7", "-l4", "--"]

/-- An environment with a variable whose flag is given, an empty one, and the path of the file. -/
def exampleEnvironment : List (String × String) :=
  [("ADDRESS", "y:2"), ("KEY", ""), ("CONFIG", "agent.json")]

def exampleBase : AgentSettings :=
  { AgentSettings.default with address := "z:3", reportInterval := 4 }

def exampleAssignments : List (Flag AgentOverrides × String) := [
  (AgentOverrides.flags.get ⟨0, by decide⟩, "x:1"),
  (AgentOverrides.flags.get ⟨1, by decide⟩, "7"),
  (AgentOverrides.flags.get ⟨3, by decide⟩, "4")]

theorem spells_example :
    SpellsAll AgentOverrides.flags exampleAssignments exampleArguments := by
  have haddress : Spells (AgentOverrides.flags.get ⟨0, by decide⟩) "x:1" ["-a", "x:1"] := by
    refine .apart (.letter (c := 'a') rfl) ?_
    rintro ⟨c, rest, h⟩
    simp at h
  have hpoll : Spells (AgentOverrides.flags.get ⟨1, by decide⟩) "7" ["--poll-interval=7"] :=
    .attached (.nameEquals "7")
  have hlimit : Spells (AgentOverrides.flags.get ⟨3, by decide⟩) "4" ["-l4"] :=
    .attached (.letterValue (c := 'l') rfl "4" rfl (by decide))
  exact .cons (List.get_mem _ _) haddress <| .cons (List.get_mem _ _) hpoll <|
    .cons (List.get_mem _ _) hlimit .dashes

end Settings

theorem settings_are_layered_example :
    (∃ file, Opens (TextFiles.single exampleBase.write) (some "agent.json") file ∧
      AgentSettings.Follows (valueOf exampleAssignments) (fun name => exampleEnvironment.lookup name)
        (valueIn file) { exampleBase with
          address := "x:1", pollInterval := 7, rateLimit := 4, secretKey := some "" }) ∧
    ∃ reason, ServerOverrides.toSettings
        { ServerOverrides.none with restore := some false, config := some "gone.json" }
        (fun _ => .error .notFound) = .error (.configuration reason) := by
  refine ⟨?_, ?_⟩
  · have hread : CommandLine.read AgentOverrides.flags AgentOverrides.none exampleArguments
        exampleEnvironment = .ok { AgentOverrides.none with
          address := some "x:1", pollInterval := some 7, rateLimit := some 4, key := some "",
          config := some "agent.json" } := rfl
    have hload : AgentSettings.load (TextFiles.single exampleBase.write) "agent.json"
        = .ok { exampleBase with secretKey := none } := load_of_reads exampleBase.reads_write rfl
    have hresolve : AgentOverrides.toSettings { AgentOverrides.none with
          address := some "x:1", pollInterval := some 7, rateLimit := some 4, key := some "",
          config := some "agent.json" } (TextFiles.single exampleBase.write)
        = .ok { exampleBase with
            address := "x:1", pollInterval := 7, rateLimit := 4, secretKey := some "" } := by
      rw [AgentOverrides.toSettings]
      dsimp only
      rw [hload]
      rfl
    obtain ⟨⟨file, hopens⟩, hfollows⟩ :=
      settings_are_layered.1.follows spells_example hread hresolve
    exact ⟨file, hopens, hfollows file hopens⟩
  · have hspells : SpellsAll ServerOverrides.flags
        [(ServerOverrides.flags.get ⟨9, by decide⟩, "gone.json")] ["-c=gone.json"] :=
      .cons (List.get_mem _ _) (.attached (.letterEquals (c := 'c') rfl "gone.json")) .nil
    have hread : CommandLine.read ServerOverrides.flags ServerOverrides.none ["-c=gone.json"]
        [("RESTORE", "false")] = .ok { ServerOverrides.none with
          restore := some false, config := some "gone.json" } := rfl
    exact settings_are_layered.2.refused hspells hread rfl fun _ _ h => by cases h

end Telemetry
