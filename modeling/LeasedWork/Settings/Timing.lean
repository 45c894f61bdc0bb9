import LeasedWork.Number.Literal
import LeasedWork.Number.Shortest
import LeasedWork.Settings.Environment
import LeasedWork.Text.Blank
import LeasedWork.Time.Duration

/-!
# Timing of the engine

The intervals that every pool keeps to. Each has a default, can be given by a variable, and is
read off as a duration; a variable that cannot be read leaves the default. Sleeps have a floor, so
that a setting of zero does not make a loop spin.
-/
namespace LeasedWork

open Number (Double)
open Time (Duration)

/-- Intervals of the engine, in seconds. -/
structure Timing where
  /-- The sleep of a loop that found no job. -/
  pollingFrequency : Nat
  /-- The silence after which a lease has expired. -/
  leaseTimeout : Nat
  /-- The period of heartbeats. -/
  beatInterval : Double
  /-- The time between two searches for expired leases. -/
  scanInterval : Nat
  /-- The sleep between two looks at the readiness of the store. -/
  readinessRetry : Nat
  /-- The least time between two log lines that say a loop is alive. -/
  aliveInterval : Nat
  deriving DecidableEq, Inhabited, Repr

namespace Timing

def defaultPollingFrequency : Nat := 2
def defaultLeaseTimeout : Nat := 600
def defaultBeatInterval : Double := Double.ofNat 60
def defaultScanInterval : Nat := 600
def defaultReadinessRetry : Nat := 5
def defaultAliveInterval : Nat := 3600

/-- The intervals that hold where nothing is set. -/
def default : Timing where
  pollingFrequency := defaultPollingFrequency
  leaseTimeout := defaultLeaseTimeout
  beatInterval := defaultBeatInterval
  scanInterval := defaultScanInterval
  readinessRetry := defaultReadinessRetry
  aliveInterval := defaultAliveInterval

/-- A value that is a count between blanks. -/
def secondsOf? (value : String) : Option Nat := Number.count? (Text.trim value.toList)

/-- A value that is a decimal literal between blanks, finite and above zero. -/
def intervalOf? (value : String) : Option Double :=
  (Number.decimal? (Text.trim value.toList)).filter fun d => d.isFinite && d.isPositive

def pollingVariable : String := "TASKHOST_POLLING_FREQUENCY_SECS"
def leaseVariable : String := "TASKHOST_HEARTBEAT_TIMEOUT_SECS"
def beatVariable : String := "TASKHOST_HEARTBEAT_INTERVAL_SECS"
def scanVariable : String := "TASKHOST_EXPIRED_SCAN_INTERVAL_SECS"
def readinessVariable : String := "TASKHOST_READINESS_RETRY_SECS"
def aliveVariable : String := "TASKHOST_ALIVE_LOG_INTERVAL_SECS"

def settingNames : List String :=
  [pollingVariable, leaseVariable, beatVariable, scanVariable, readinessVariable, aliveVariable]

def ofLookup (lookup : String → Option String) : Timing where
  pollingFrequency := ((lookup pollingVariable).bind secondsOf?).getD defaultPollingFrequency
  leaseTimeout := ((lookup leaseVariable).bind secondsOf?).getD defaultLeaseTimeout
  beatInterval := ((lookup beatVariable).bind intervalOf?).getD defaultBeatInterval
  scanInterval := ((lookup scanVariable).bind secondsOf?).getD defaultScanInterval
  readinessRetry := ((lookup readinessVariable).bind secondsOf?).getD defaultReadinessRetry
  aliveInterval := ((lookup aliveVariable).bind secondsOf?).getD defaultAliveInterval

def ofEnvironment (env : Environment) : Timing := ofLookup env.text?

/-- The intervals with their names, as the log shows them. -/
def summary (t : Timing) : String :=
  let count (name : String) (n : Nat) : String :=
    name ++ ": " ++ String.ofList (Text.digitsOf n)
  let beat := String.ofList (t.beatInterval.text Number.Layout.log)
  "HostingConfig \x7b " ++ ", ".intercalate
    [count "polling_frequency_secs" t.pollingFrequency,
     count "heartbeat_timeout_threshold_secs" t.leaseTimeout,
     "heartbeat_interval_secs: " ++ beat,
     count "expired_scan_interval_secs" t.scanInterval,
     count "readiness_retry_secs" t.readinessRetry,
     count "alive_log_interval_secs" t.aliveInterval] ++ " \x7d"

/-- The least sleep of a loop. -/
def sleepFloor : Duration := .ofMillis 100

/-- The sleep of a loop that found no job. -/
def idleSleep (t : Timing) : Duration := (Duration.ofSeconds t.pollingFrequency).max sleepFloor

/-- The configured period of heartbeats; a value that is no duration counts as zero. -/
def beatPeriod (t : Timing) : Duration := (Duration.ofDouble? t.beatInterval).getD .zero

/-- The time between two searches for expired leases. -/
def scanPeriod (t : Timing) : Duration := .ofSeconds t.scanInterval

/-- The sleep between two looks at the readiness of the store. -/
def readinessSleep (t : Timing) : Duration := (Duration.ofSeconds t.readinessRetry).max sleepFloor

/-- The least time between two log lines that say a loop is alive. -/
def alivePeriod (t : Timing) : Duration := .ofSeconds t.aliveInterval

end Timing

end LeasedWork
