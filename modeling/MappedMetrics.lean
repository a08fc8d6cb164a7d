import MappedMetrics.Bridge.Schedule
import MappedMetrics.Main
import MappedMetrics.Proofs.BridgeInterleaving
import MappedMetrics.Proofs.BridgeStopping
import MappedMetrics.Proofs.BridgeEffects
import MappedMetrics.Proofs.SignalAccounting
import MappedMetrics.Proofs.StopWaking
import MappedMetrics.Proofs.BatchGrowth
import MappedMetrics.Proofs.SlotPacking
import MappedMetrics.Proofs.SelfDescribingLayout
import MappedMetrics.Proofs.WriteRuns
import MappedMetrics.Proofs.StructureWrites
import MappedMetrics.Proofs.HandlerEncodings
import MappedMetrics.Proofs.SelfDescription
import MappedMetrics.Proofs.LaneStores
import MappedMetrics.Proofs.PackedLayout
import MappedMetrics.Proofs.ValueSlots
import MappedMetrics.Proofs.WriterCalls
import MappedMetrics.Proofs.StartedFiles
import MappedMetrics.Proofs.RegisteredKinds
import MappedMetrics.Proofs.UpdateFrames
import MappedMetrics.Proofs.ValuesAtRest
import MappedMetrics.Proofs.SidecarFiles
import MappedMetrics.Proofs.ReadinessMarks
import MappedMetrics.Proofs.WriterStates
import MappedMetrics.Proofs.FailedCalls
import MappedMetrics.Proofs.WriterInterleaving
import MappedMetrics.Proofs.StopVisibility
import MappedMetrics.Proofs.StopReports
import MappedMetrics.Proofs.SidecarReading
import MappedMetrics.Proofs.InlineWidths
import MappedMetrics.Proofs.ConfiguredWriters
import MappedMetrics.Proofs.PlanningSums
import MappedMetrics.Proofs.BridgeLifecycle
import MappedMetrics.Proofs.JsonText
import MappedMetrics.Proofs.JsonNumbers
import MappedMetrics.Proofs.JsonFloats
import MappedMetrics.Proofs.BinaryRounding
import MappedMetrics.Proofs.ConfigReading
import MappedMetrics.Proofs.DoubleArithmetic
import MappedMetrics.Proofs.ShortestDigits
import MappedMetrics.Proofs.LiteralReading
import MappedMetrics.Proofs.FloatReadings
import MappedMetrics.Proofs.CloseDecimals
import MappedMetrics.Proofs.DoubleRounding
import MappedMetrics.Proofs.SingleReadings
import MappedMetrics.Proofs.SpanReadings
import MappedMetrics.Proofs.RoundingErrors
import MappedMetrics.Proofs.UnitClassification
import MappedMetrics.Proofs.UnitExponents
import MappedMetrics.Proofs.ShortBuffers
import MappedMetrics.Proofs.MultiplierTexts
import MappedMetrics.Proofs.UnitGrammar
import MappedMetrics.Proofs.UnitSymbols
import MappedMetrics.Proofs.DimensionWords
import MappedMetrics.Proofs.TextSlots
import MappedMetrics.Proofs.MappedRanges
import MappedMetrics.Proofs.NumberSlots
import MappedMetrics.Proofs.OverflowWarnings
import MappedMetrics.Proofs.BatchApplication
import MappedMetrics.Proofs.LeastOffsets
import MappedMetrics.Proofs.DurationTexts
import MappedMetrics.Proofs.SidecarKeys
