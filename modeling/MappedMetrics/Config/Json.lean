import MappedMetrics.Config
import MappedMetrics.MetricValue.Json
import MappedMetrics.Json.Parser
import MappedMetrics.Json.Printer

namespace MappedMetrics

def FileFormat.ofJson? (value : Json) : Option FileFormat :=
  value.name?.bind FileFormat.ofName?

def Duration.ofJson? (value : Json) : Option Duration := do
  let seconds ← value.numberValue?
  Duration.ofDouble? seconds.toDouble

namespace MetricConfig

def ofJson? (value : Json) : Option MetricConfig := do
  let fields ← value.fields? ["name", "unit", "semantics", "initial"]
  let name ← (fields.get? "name").bind Json.text?
  let unit ← fields.orElse? "unit" "count" Json.text?
  let semantics ← fields.orElse? "semantics" .unspecified Semantics.ofJson?
  let initial ← (fields.get? "initial").bind MetricValue.ofJson?
  some ⟨name, unit, semantics, initial⟩

def toJson (config : MetricConfig) : Json :=
  Json.obj [("name", Json.str config.name), ("unit", Json.str config.unit),
    ("semantics", Json.str config.semantics.name), ("initial", config.initial.toJson)]

end MetricConfig

namespace WriterConfig

def ofJson? (value : Json) : Option WriterConfig := do
  let fields ←
    value.fields? ["path", "variant", "queue_capacity", "overflow_warning_interval", "metrics"]
  let path ← (fields.get? "path").bind Json.text?
  let format ← fields.orElse? "variant" .mmv FileFormat.ofJson?
  let standard := ofPath path format
  let capacity ← fields.orElse? "queue_capacity" (standard.queueCapacity : Int)
    (Json.integer? 0 (2 ^ 64 - 1))
  let interval ← fields.orElse? "overflow_warning_interval" standard.interval Duration.ofJson?
  let metrics ← fields.orElse? "metrics" [] (Json.list? MetricConfig.ofJson?)
  some ⟨path, format, capacity.toNat, interval, metrics⟩

def toJson (config : WriterConfig) : Json :=
  Json.obj [("path", Json.str config.path), ("variant", Json.str config.format.name),
    ("queue_capacity", Json.ofNat config.queueCapacity),
    ("overflow_warning_interval", Json.ofDouble config.interval.toDouble),
    ("metrics", .array (config.metrics.map MetricConfig.toJson))]

/-- The configuration of a JSON text, not yet checked. -/
def ofText? (text : String) : Option WriterConfig :=
  (Json.parse? text).bind ofJson?

def text (config : WriterConfig) : String :=
  config.toJson.compact

def ofFile (volume : Volume) (path : String) : Outcome WriterConfig :=
  match volume.read path with
  | .error flaw => (ConfigFileError.read path flaw).refuse
  | .ok image =>
      match Text.ofUtf8? image.toBytes with
      | none => (ConfigFileError.read path .notText).refuse
      | some text =>
          match ofText? text with
          | none => (ConfigFileError.parse path).refuse
          | some config => do
              config.validate
              pure config

end WriterConfig

end MappedMetrics
