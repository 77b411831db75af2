import Timetable.Queue.Backoff
import Timetable.Text.Split

/-!
# Settings

The settings of a controller process, read from named variables. Times are nanoseconds.
-/

namespace Timetable

inductive LogFormat
  | json
  | pretty
  deriving DecidableEq

inductive SettingsError
  | badNumber (name raw : String) (cause : Text.NumeralError)
  | badLogFormat (found : String)
  deriving DecidableEq

/-- The texts of an error from the outermost context inward. -/
def SettingsError.chain : SettingsError → List String
  | .badNumber name raw cause =>
    [s!"{name} must be a non-negative integer, got '{raw}'", cause.message]
  | .badLogFormat found =>
    ["invalid CADENCE_LOG_FORMAT", s!"unknown log format '{found}', expected json or pretty"]

structure Settings where
  workers : Nat
  resyncInterval : Option Nat
  missedRunCap : Nat
  backoff : BackoffPolicy
  syncTimeout : Nat
  simulatedRuntime : Nat
  manifestFolder : Option String
  logLevel : String
  logFormat : LogFormat
  deriving DecidableEq

namespace Settings
open Text

/-- A number of 64 bits, blanks around it aside. -/
def readNumber (lookup : String → Option String) (name : String) (default : Nat) :
    Except SettingsError Nat :=
  match lookup name with
  | none => .ok default
  | some raw => (readNat max64 (trim raw.toList)).mapError (.badNumber name raw)

def readLogFormat : Option String → Except SettingsError LogFormat
  | none => .ok .json
  | some raw =>
    match String.ofList (raw.toList.map Char.toLower) with
    | "json" => .ok .json
    | "pretty" => .ok .pretty
    | found => .error (.badLogFormat found)

def read (lookup : String → Option String) : Except SettingsError Settings := do
  let number := readNumber lookup
  let workers ← number "CADENCE_WORKERS" 2
  let resync ← number "CADENCE_RESYNC_INTERVAL_SECS" 30
  let missedRunCap ← number "CADENCE_MISSED_RUN_CAP" 100
  let backoffBase ← number "CADENCE_BACKOFF_BASE_MS" 5
  let backoffMax ← number "CADENCE_BACKOFF_MAX_SECS" 1000
  let syncTimeout ← number "CADENCE_SYNC_TIMEOUT_SECS" 60
  let runtime ← number "CADENCE_SIMULATED_RUNTIME_SECS" 5
  let folder := (lookup "CADENCE_MANIFEST_DIR").filter fun s => !(trim s.toList).isEmpty
  let logLevel := (lookup "CADENCE_LOG_LEVEL").getD "info"
  let logFormat ← readLogFormat (lookup "CADENCE_LOG_FORMAT")
  .ok {
    workers := max workers 1
    resyncInterval := if 0 < resync then some (resync * giga) else none
    missedRunCap
    backoff := ⟨backoffBase * mega, backoffMax * giga⟩
    syncTimeout := syncTimeout * giga
    simulatedRuntime := runtime * giga
    manifestFolder := folder
    logLevel
    logFormat }

end Settings

end Timetable
