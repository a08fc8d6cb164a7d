import MappedMetrics.PhysicalUnit

namespace MappedMetrics

/-- The legal shapes: a dimension alone, or the ratio of two. -/
inductive Shape where
  | space
  | time
  | count
  | spacePerTime
  | spacePerCount
  | timePerSpace
  | timePerCount
  | countPerSpace
  | countPerTime
deriving DecidableEq, Repr

namespace Shape

def all : List Shape :=
  [.space, .time, .count, .spacePerTime, .spacePerCount, .timePerSpace, .timePerCount,
    .countPerSpace, .countPerTime]

def numerator : Shape → Dimension
  | .space | .spacePerTime | .spacePerCount => .space
  | .time | .timePerSpace | .timePerCount => .time
  | .count | .countPerSpace | .countPerTime => .count

def denominator : Shape → Option Dimension
  | .space | .time | .count => none
  | .timePerSpace | .countPerSpace => some .space
  | .spacePerTime | .countPerTime => some .time
  | .spacePerCount | .timePerCount => some .count

def name : Shape → String
  | .space => "Space"
  | .time => "Time"
  | .count => "Count"
  | .spacePerTime => "SpacePerTime"
  | .spacePerCount => "SpacePerCount"
  | .timePerSpace => "TimePerSpace"
  | .timePerCount => "TimePerCount"
  | .countPerSpace => "CountPerSpace"
  | .countPerTime => "CountPerTime"

end Shape

/-- The lowest bit of a dimension's scale in the dimension word. -/
def Dimension.scaleShift : Dimension → UInt32
  | .count => 8
  | .time => 12
  | .space => 16

/-- The lowest bit of a dimension's exponent in the dimension word. -/
def Dimension.exponentShift : Dimension → UInt32
  | .count => 20
  | .time => 24
  | .space => 28

/-- A shape with the scale of each of its parts. -/
structure UnitMapping where
  unit : PhysicalUnit
  shape : Shape
  numerator : Scale
  denominator : Option Scale

namespace UnitMapping

def ofScales (shape : Shape) (numerator : Scale) (denominator : Option Scale) : UnitMapping where
  unit :=
    match denominator with
    | some below => (PhysicalUnit.ofScale numerator).per (PhysicalUnit.ofScale below)
    | none => PhysicalUnit.ofScale numerator
  shape := shape
  numerator := numerator
  denominator := denominator

/-- The bits of one scale with an exponent, given as a nibble. -/
def nibbles (scale : Scale) (exponent : UInt32) : UInt32 :=
  (UInt32.ofNat scale.code &&& 0xF) <<< scale.dimension.scaleShift |||
    exponent <<< scale.dimension.exponentShift

/-- The dimension word: a scale and an exponent in four bits each for every dimension, where 15
stands for the exponent minus one. -/
def dimensionWord (mapping : UnitMapping) : UInt32 :=
  match mapping.denominator with
  | some below => nibbles mapping.numerator 1 ||| nibbles below 0xF
  | none => nibbles mapping.numerator 1

end UnitMapping

end MappedMetrics
