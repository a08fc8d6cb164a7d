import MappedMetrics.UnitMapping.Table

namespace MappedMetrics

inductive Event where
  | mappedUnit (unit canonical : String)
  | unmappedUnit (unit : String)
  | registeredMetric (name unit : String) (shape : Shape) (typeName : String)
  | plannedLayout (path format : String) (length metrics : Nat)
  | publishedFile (path : String) (metrics : Nat)
  | stoppedWriter (path : String)
  | droppedSignals (dropped : UInt64)
  | startedBridge (thread : String) (capacity : Nat)
  | stoppedBridge (applied dropped : UInt64)
  | failedBridge (message : String)
  | leftStoppedWriter
  | failedUpdate (message : String)
  | abandonedUpdate (message : String)
deriving DecidableEq, Repr

def Event.line : Event → String
  | .mappedUnit unit canonical =>
      s!"DEBUG mapped unit to equivalent canonical unit unit={unit} canonical={canonical}"
  | .unmappedUnit unit =>
      s!"WARN no dimension mapping for unit, exporting as a plain count unit={unit}"
  | .registeredMetric name unit shape typeName =>
      s!"DEBUG registered metric metric={name} unit={unit} dimension={shape.name} kind={typeName}"
  | .plannedLayout path format length metrics =>
      s!"DEBUG planned layout path={path} variant={format} length={length} metrics={metrics}"
  | .publishedFile path metrics =>
      s!"INFO metrics file published path={path} metrics={metrics}"
  | .stoppedWriter path => s!"INFO metrics writer stopped path={path}"
  | .droppedSignals dropped =>
      s!"WARN metric update queue full; dropping change signals dropped={dropped}"
  | .startedBridge thread capacity =>
      s!"INFO update bridge started thread={thread} capacity={capacity}"
  | .stoppedBridge applied dropped =>
      s!"INFO update bridge stopped applied={applied} dropped={dropped}"
  | .failedBridge message => s!"ERROR update bridge ended with an error error={message}"
  | .leftStoppedWriter => "DEBUG writer stopped; update bridge exiting"
  | .failedUpdate message =>
      s!"ERROR failed to apply metric update; update bridge exiting error={message}"
  | .abandonedUpdate message =>
      s!"ERROR metric update panicked; update bridge exiting panic={message}"

def PhysicalUnit.classificationEvents (unit : PhysicalUnit) : List Event :=
  match unit.classify with
  | .exact _ => []
  | .equivalent mapping => [.mappedUnit unit.symbol mapping.unit.symbol]
  | .fallback => [.unmappedUnit unit.symbol]

end MappedMetrics
