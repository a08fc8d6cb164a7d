import MappedMetrics.Duration
import MappedMetrics.FileFormat
import MappedMetrics.Volume

namespace MappedMetrics

structure MetricConfig where
  name : String
  unit : String
  semantics : Semantics
  initial : MetricValue
deriving DecidableEq

structure BridgeConfig where
  capacity : Nat
  /-- The least time between two warnings about a full queue. -/
  interval : Duration
  threadName : String
deriving DecidableEq

/-- A metrics file with its metrics, in order of registration. -/
structure WriterConfig where
  path : String
  format : FileFormat
  queueCapacity : Nat
  interval : Duration
  metrics : List MetricConfig
deriving DecidableEq

def BridgeConfig.standard : BridgeConfig where
  capacity := 1024
  interval := Duration.ofSeconds 10
  threadName := "mmv-writer"

def BridgeConfig.message (config : BridgeConfig) : String :=
  s!"BridgeConfig \x7b capacity: {config.capacity}, " ++
    s!"overflow_warning_interval: {config.interval.message}, " ++
    s!"thread_name: {Text.quoted config.threadName} \x7d"

namespace WriterConfig

/-- No metrics and the standard settings. -/
def ofPath (path : String) (format : FileFormat) : WriterConfig where
  path := path
  format := format
  queueCapacity := BridgeConfig.standard.capacity
  interval := BridgeConfig.standard.interval
  metrics := []

def bridgeConfig (config : WriterConfig) : BridgeConfig :=
  { BridgeConfig.standard with capacity := config.queueCapacity, interval := config.interval }

/-- Checks metrics one after the other, each for its name, for repetition, and for its unit. -/
def validateMetrics (format : FileFormat) : List String → List MetricConfig → Outcome Unit
  | _, [] => .ok ()
  | seen, metric :: rest => do
      format.validateName metric.name
      if seen.contains metric.name then (ConfigurationError.duplicateMetric metric.name).refuse
      else
        let _ ← PhysicalUnit.parse metric.unit
        validateMetrics format (metric.name :: seen) rest

/-- Checks the capacity and then the metrics. -/
def validate (config : WriterConfig) : Outcome Unit :=
  if config.queueCapacity = 0 then (ConfigurationError.invalidConfig .queueCapacity).refuse
  else validateMetrics config.format [] config.metrics

end WriterConfig

end MappedMetrics
