import Telemetry.Settings.File

/-!
# Settings of the agent

Where the agent reports to, how often it polls and reports, and how it signs and encrypts.
-/

namespace Telemetry

open Json Settings

/-- The settings of an agent. Intervals are whole seconds. -/
structure AgentSettings where
  address : String
  pollInterval : UInt64
  reportInterval : UInt64
  /-- The number of senders of single metrics; without any, reports are sent as batches. -/
  rateLimit : UInt64
  secretKey : Option String
  cryptoKey : Option String
  requestTimeout : UInt64
  logLevel : String
  metricsAddress : Option String
deriving DecidableEq

/-- How often an agent polls and reports, in milliseconds, and with how many senders of single
metrics; without any, reports are sent as batches. -/
structure AgentPlan where
  poll : Nat
  report : Nat
  workers : Nat
  poll_pos : 0 < poll
  report_pos : 0 < report

def AgentPlan.make (address : String) (poll report workers : Nat) : Except Failure AgentPlan :=
  if address = "" then .error (.configuration "address is empty")
  else if positive : 0 < poll ∧ 0 < report then
    .ok ⟨poll, report, workers, positive.1, positive.2⟩
  else .error (.configuration "poll and report intervals must be positive")

namespace AgentSettings

def default : AgentSettings where
  address := "localhost:8080"
  pollInterval := 2
  reportInterval := 10
  rateLimit := 0
  secretKey := none
  cryptoKey := none
  requestTimeout := 5
  logLevel := "info"
  metricsAddress := none

def form : Form AgentSettings where
  title := "struct AgentConfig"
  start := default
  fields := [
    textField "address" fun address s => { s with address },
    secondsField "poll_interval" fun pollInterval s => { s with pollInterval },
    secondsField "report_interval" fun reportInterval s => { s with reportInterval },
    countField "rate_limit" fun rateLimit s => { s with rateLimit },
    optionalTextField "secret_key" fun secretKey s => { s with secretKey },
    pathField "crypto_key" [] fun cryptoKey s => { s with cryptoKey },
    secondsField "request_timeout" fun requestTimeout s => { s with requestTimeout },
    textField "log_level" fun logLevel s => { s with logLevel },
    optionalTextField "metrics_address" fun metricsAddress s => { s with metricsAddress }]

/-- The settings as they stand in a file, without the secret. -/
def write (settings : AgentSettings) : List Char :=
  writeObject [
    writeText "address" settings.address,
    writeNumber "poll_interval" settings.pollInterval,
    writeNumber "report_interval" settings.reportInterval,
    writeNumber "rate_limit" settings.rateLimit,
    writeOptionalText "crypto_key" settings.cryptoKey,
    writeNumber "request_timeout" settings.requestTimeout,
    writeText "log_level" settings.logLevel,
    writeOptionalText "metrics_address" settings.metricsAddress]

def load (files : TextFiles) (path : String) : Except Failure AgentSettings :=
  Settings.load form files path

/-- The plan of an agent with the settings, or why it cannot run. -/
def plan (settings : AgentSettings) : Except Failure AgentPlan :=
  AgentPlan.make settings.address (1000 * settings.pollInterval.toNat)
    (1000 * settings.reportInterval.toNat) settings.rateLimit.toNat

def validate (settings : AgentSettings) : Except Failure Unit := settings.plan.map fun _ => ()

/-- The address of the server as the start of a URL, without slashes at its end. -/
def serverUrl (settings : AgentSettings) : String :=
  let address := (settings.address.toList.reverse.dropWhile (· = '/')).reverse
  if "http://".toList.isPrefixOf address || "https://".toList.isPrefixOf address then
    String.ofList address
  else String.ofList ("http://".toList ++ address)

def secret (settings : AgentSettings) : Option String := nonEmpty settings.secretKey

def listenAddress (settings : AgentSettings) : Option String := nonEmpty settings.metricsAddress

end AgentSettings

end Telemetry
