import Telemetry.Settings.File
import Telemetry.Net.Subnet

/-!
# Settings of the server

Where the server listens, which store it uses, and whom it lets in.
-/

namespace Telemetry

open Json Settings

inductive StoreChoice where
  | sql (source : String)
  | snapshot (path : String)
  | memory
deriving DecidableEq

/-- The settings of a server. Intervals are whole seconds. -/
structure ServerSettings where
  address : String
  /-- The least time between backups; without any, every change is written. -/
  storeInterval : UInt64
  fileStoragePath : Option String
  restore : Bool
  databaseSource : Option String
  secretKey : Option String
  cryptoKey : Option String
  trustedSubnet : Option String
  logLevel : String
  metricsAddress : Option String
deriving DecidableEq

namespace ServerSettings

def default : ServerSettings where
  address := "localhost:8080"
  storeInterval := 300
  fileStoragePath := none
  restore := true
  databaseSource := none
  secretKey := none
  cryptoKey := none
  trustedSubnet := none
  logLevel := "info"
  metricsAddress := none

def form : Form ServerSettings where
  title := "struct ServerConfig"
  start := default
  fields := [
    textField "address" fun address s => { s with address },
    secondsField "store_interval" fun storeInterval s => { s with storeInterval },
    pathField "file_storage_path" ["store_file"] fun fileStoragePath s =>
      { s with fileStoragePath },
    flagField "restore" fun restore s => { s with restore },
    optionalTextField "database_dsn" fun databaseSource s => { s with databaseSource },
    optionalTextField "secret_key" fun secretKey s => { s with secretKey },
    pathField "crypto_key" [] fun cryptoKey s => { s with cryptoKey },
    optionalTextField "trusted_subnet" fun trustedSubnet s => { s with trustedSubnet },
    textField "log_level" fun logLevel s => { s with logLevel },
    optionalTextField "metrics_address" fun metricsAddress s => { s with metricsAddress }]

/-- The settings as they stand in a file, without the secret. -/
def write (settings : ServerSettings) : List Char :=
  writeObject [
    writeText "address" settings.address,
    writeNumber "store_interval" settings.storeInterval,
    writeOptionalText "file_storage_path" settings.fileStoragePath,
    writeMember "restore" (writeBool settings.restore),
    writeOptionalText "database_dsn" settings.databaseSource,
    writeOptionalText "crypto_key" settings.cryptoKey,
    writeOptionalText "trusted_subnet" settings.trustedSubnet,
    writeText "log_level" settings.logLevel,
    writeOptionalText "metrics_address" settings.metricsAddress]

def load (files : TextFiles) (path : String) : Except Failure ServerSettings :=
  Settings.load form files path

/-- The store to use: a database goes before a snapshot file, and that before memory. -/
def store (settings : ServerSettings) : StoreChoice :=
  match nonEmpty settings.databaseSource with
  | some source => .sql source
  | none => match nonEmpty settings.fileStoragePath with
    | some path => .snapshot path
    | none => .memory

def secret (settings : ServerSettings) : Option String := nonEmpty settings.secretKey

def listenAddress (settings : ServerSettings) : Option String := nonEmpty settings.metricsAddress

def subnet (settings : ServerSettings) : Except Failure (Option Net.Subnet) :=
  match nonEmpty settings.trustedSubnet with
  | none => .ok none
  | some text => (Net.Subnet.parse text).map some

end ServerSettings

end Telemetry
