import Telemetry.Settings.Agent
import Telemetry.Settings.Server

/-!
# Command lines

A setting is given by a flag or by an environment variable, and a flag goes before a variable. The
value of a flag is attached to it or is the next argument; what begins with a dash is never taken for
the next argument. A value that waits is checked when the next flag is understood, so that an
argument which is not understood goes before a value which is not.
-/

namespace Telemetry.Settings

/-- Why a command line is refused, or what it asks for in place of running. -/
inductive Usage where
  | unknownArgument
  | malformedValue
  | invalidValue
  | repeatedFlag
  | needlessValue
  | help
deriving DecidableEq, Repr

def Usage.message : Usage → String
  | .unknownArgument => "unknown argument"
  | .malformedValue => "a value is not a number"
  | .invalidValue => "a value is missing or not allowed"
  | .repeatedFlag => "a flag is given twice"
  | .needlessValue => "a flag without a value is given one"
  | .help => "flags set what is not set in the environment or in the file"

structure Flag (σ : Type) where
  short : Option Char
  long : String
  envName : String
  read : String → Except Usage (σ → σ)

/-- A command line as far as it is read. -/
structure Reading (σ : Type) where
  values : σ
  /-- The names of the flags that were given. -/
  given : List String
  /-- The flag whose value is not checked yet, and the value once it is there. -/
  pending : Option (Flag σ × Option String)

namespace CommandLine

variable {σ : Type}

/-- Gives a flag a value. A flag can be given only once. -/
def accept (flag : Flag σ) (value : String) (reading : Reading σ) : Except Usage (Reading σ) :=
  if reading.given.contains flag.long then .error .repeatedFlag
  else (flag.read value).map fun set =>
    { reading with values := set reading.values, given := flag.long :: reading.given }

/-- Checks the value that waits. -/
def settle (reading : Reading σ) : Except Usage (Reading σ) :=
  match reading.pending with
  | none => .ok reading
  | some (_, none) => .error .invalidValue
  | some (flag, some value) => accept flag value { reading with pending := none }

/-- Takes a flag with the value attached to it, or one that waits for its value. -/
def takeFlag (flag : Flag σ) (attached : Option String) (reading : Reading σ) :
    Except Usage (Reading σ) :=
  match settle reading with
  | .error usage => .error usage
  | .ok reading => match attached with
    | some value => accept flag value reading
    | none => .ok { reading with pending := some (flag, none) }

/-- Shows the help once the value that waits is in order. -/
def showHelp (reading : Reading σ) : Except Usage (Reading σ) :=
  match settle reading with
  | .error usage => .error usage
  | .ok _ => .error .help

/-- Takes a flag given by its long name, whose value is attached after an equals sign. -/
def takeLong (flags : List (Flag σ)) (body : List Char) (reading : Reading σ) :
    Except Usage (Reading σ) :=
  let name := String.ofList (body.takeWhile (· ≠ '='))
  let attached := match body.dropWhile (· ≠ '=') with
    | [] => none
    | _ :: value => some (String.ofList value)
  match flags.find? fun flag => flag.long == name with
  | some flag => takeFlag flag attached reading
  | none =>
    if name = "help" then
      if attached.isSome then .error .needlessValue else showHelp reading
    else .error .unknownArgument

/-- Takes a flag given by its letter, whose value is attached with or without an equals sign. -/
def takeShort (flags : List (Flag σ)) (letter : Char) (rest : List Char) (reading : Reading σ) :
    Except Usage (Reading σ) :=
  let attached := match rest with
    | [] => none
    | '=' :: value => some (String.ofList value)
    | value => some (String.ofList value)
  match flags.find? fun flag => flag.short == some letter with
  | some flag => takeFlag flag attached reading
  | none => if letter = 'h' then showHelp reading else .error .unknownArgument

/-- Takes an argument that is no flag: the value of the flag that waits for one. -/
def takeValue (argument : String) (reading : Reading σ) : Except Usage (Reading σ) :=
  match reading.pending with
  | some (flag, none) => .ok { reading with pending := some (flag, some argument) }
  | _ => .error .unknownArgument

def takeArgument (flags : List (Flag σ)) (argument : String) (reading : Reading σ) :
    Except Usage (Reading σ) :=
  match argument.toList with
  | '-' :: '-' :: body => takeLong flags body reading
  | '-' :: letter :: rest => takeShort flags letter rest reading
  | _ => takeValue argument reading

/-- Takes all arguments. After two dashes alone none may follow. -/
def takeArguments (flags : List (Flag σ)) : List String → Reading σ → Except Usage (Reading σ)
  | [], reading => settle reading
  | argument :: arguments, reading =>
    if argument = "--" then
      if arguments.isEmpty then settle reading else .error .unknownArgument
    else match takeArgument flags argument reading with
      | .error usage => .error usage
      | .ok reading => takeArguments flags arguments reading

/-- Takes the environment variables of the flags that were not given. -/
def takeVariables (environment : List (String × String)) :
    List (Flag σ) → Reading σ → Except Usage (Reading σ)
  | [], reading => .ok reading
  | flag :: flags, reading =>
    if reading.given.contains flag.long then takeVariables environment flags reading
    else match environment.lookup flag.envName with
      | none => takeVariables environment flags reading
      | some value => match accept flag value reading with
        | .error usage => .error usage
        | .ok reading => takeVariables environment flags reading

def read (flags : List (Flag σ)) (start : σ) (arguments : List String)
    (environment : List (String × String)) : Except Usage σ :=
  match takeArguments flags arguments ⟨start, [], none⟩ with
  | .error usage => .error usage
  | .ok reading => (takeVariables environment flags reading).map Reading.values

def textFlag (short : Option Char) (long envName : String) (set : String → σ → σ) : Flag σ :=
  ⟨short, long, envName, fun value => .ok (set value)⟩

/-- A flag whose value is a path, which is never empty. -/
def pathFlag (short : Option Char) (long envName : String) (set : String → σ → σ) : Flag σ :=
  ⟨short, long, envName, fun value => if value = "" then .error .invalidValue else .ok (set value)⟩

def numberFlag (short : Option Char) (long envName : String) (set : UInt64 → σ → σ) : Flag σ :=
  ⟨short, long, envName, fun value =>
    match Number.Literal.readNat Number.uint64Max value.toList with
    | .error _ => .error .malformedValue
    | .ok n => .ok (set (UInt64.ofNat n))⟩

def truthFlag (short : Option Char) (long envName : String) (set : Bool → σ → σ) : Flag σ :=
  ⟨short, long, envName, fun value =>
    if value = "true" then .ok (set true)
    else if value = "false" then .ok (set false)
    else .error .invalidValue⟩

end CommandLine

end Telemetry.Settings

namespace Telemetry

open Settings CommandLine

structure AgentOverrides where
  address : Option String
  pollInterval : Option UInt64
  reportInterval : Option UInt64
  rateLimit : Option UInt64
  key : Option String
  cryptoKey : Option String
  metricsAddress : Option String
  config : Option String
  logLevel : Option String
deriving DecidableEq

namespace AgentOverrides

def flags : List (Flag AgentOverrides) := [
  textFlag (some 'a') "address" "ADDRESS" fun v o => { o with address := some v },
  numberFlag (some 'p') "poll-interval" "POLL_INTERVAL" fun v o => { o with pollInterval := some v },
  numberFlag (some 'r') "report-interval" "REPORT_INTERVAL" fun v o =>
    { o with reportInterval := some v },
  numberFlag (some 'l') "rate-limit" "RATE_LIMIT" fun v o => { o with rateLimit := some v },
  textFlag (some 'k') "key" "KEY" fun v o => { o with key := some v },
  pathFlag none "crypto-key" "CRYPTO_KEY" fun v o => { o with cryptoKey := some v },
  textFlag none "metrics-address" "METRICS_ADDRESS" fun v o => { o with metricsAddress := some v },
  pathFlag (some 'c') "config" "CONFIG" fun v o => { o with config := some v },
  textFlag none "log-level" "LOG_LEVEL" fun v o => { o with logLevel := some v }]

def none : AgentOverrides :=
  ⟨.none, .none, .none, .none, .none, .none, .none, .none, .none⟩

def applyTo (o : AgentOverrides) (settings : AgentSettings) : AgentSettings where
  address := o.address.getD settings.address
  pollInterval := o.pollInterval.getD settings.pollInterval
  reportInterval := o.reportInterval.getD settings.reportInterval
  rateLimit := o.rateLimit.getD settings.rateLimit
  secretKey := o.key <|> settings.secretKey
  cryptoKey := o.cryptoKey <|> settings.cryptoKey
  requestTimeout := settings.requestTimeout
  logLevel := o.logLevel.getD settings.logLevel
  metricsAddress := o.metricsAddress <|> settings.metricsAddress

/-- The settings that result: what is given, over the file if one is named, over the defaults. -/
def toSettings (o : AgentOverrides) (files : TextFiles) : Except Failure AgentSettings :=
  match o.config with
  | .none => .ok (o.applyTo AgentSettings.default)
  | some path => (AgentSettings.load files path).map o.applyTo

end AgentOverrides

structure ServerOverrides where
  address : Option String
  storeInterval : Option UInt64
  fileStoragePath : Option String
  restore : Option Bool
  databaseSource : Option String
  key : Option String
  cryptoKey : Option String
  trustedSubnet : Option String
  metricsAddress : Option String
  config : Option String
  logLevel : Option String
deriving DecidableEq

namespace ServerOverrides

def flags : List (Flag ServerOverrides) := [
  textFlag (some 'a') "address" "ADDRESS" fun v o => { o with address := some v },
  numberFlag (some 'i') "store-interval" "STORE_INTERVAL" fun v o =>
    { o with storeInterval := some v },
  pathFlag (some 'f') "file-storage-path" "FILE_STORAGE_PATH" fun v o =>
    { o with fileStoragePath := some v },
  truthFlag (some 'r') "restore" "RESTORE" fun v o => { o with restore := some v },
  textFlag (some 'd') "database-dsn" "DATABASE_DSN" fun v o => { o with databaseSource := some v },
  textFlag (some 'k') "key" "KEY" fun v o => { o with key := some v },
  pathFlag none "crypto-key" "CRYPTO_KEY" fun v o => { o with cryptoKey := some v },
  textFlag (some 't') "trusted-subnet" "TRUSTED_SUBNET" fun v o =>
    { o with trustedSubnet := some v },
  textFlag none "metrics-address" "METRICS_ADDRESS" fun v o => { o with metricsAddress := some v },
  pathFlag (some 'c') "config" "CONFIG" fun v o => { o with config := some v },
  textFlag none "log-level" "LOG_LEVEL" fun v o => { o with logLevel := some v }]

def none : ServerOverrides :=
  ⟨.none, .none, .none, .none, .none, .none, .none, .none, .none, .none, .none⟩

def applyTo (o : ServerOverrides) (settings : ServerSettings) : ServerSettings where
  address := o.address.getD settings.address
  storeInterval := o.storeInterval.getD settings.storeInterval
  fileStoragePath := o.fileStoragePath <|> settings.fileStoragePath
  restore := o.restore.getD settings.restore
  databaseSource := o.databaseSource <|> settings.databaseSource
  secretKey := o.key <|> settings.secretKey
  cryptoKey := o.cryptoKey <|> settings.cryptoKey
  trustedSubnet := o.trustedSubnet <|> settings.trustedSubnet
  logLevel := o.logLevel.getD settings.logLevel
  metricsAddress := o.metricsAddress <|> settings.metricsAddress

/-- The settings that result: what is given, over the file if one is named, over the defaults. -/
def toSettings (o : ServerOverrides) (files : TextFiles) : Except Failure ServerSettings :=
  match o.config with
  | .none => .ok (o.applyTo ServerSettings.default)
  | some path => (ServerSettings.load files path).map o.applyTo

end ServerOverrides

end Telemetry
