namespace MappedMetrics

/-- Sizes of space, in binary powers of a byte. -/
inductive SpaceScale where
  | byte
  | kilobyte
  | megabyte
  | gigabyte
  | terabyte
  | petabyte
  | exabyte
deriving DecidableEq, Repr

namespace SpaceScale

def all : List SpaceScale :=
  [.byte, .kilobyte, .megabyte, .gigabyte, .terabyte, .petabyte, .exabyte]

def code : SpaceScale → Nat
  | .byte => 0
  | .kilobyte => 1
  | .megabyte => 2
  | .gigabyte => 3
  | .terabyte => 4
  | .petabyte => 5
  | .exabyte => 6

/-- The size in bytes. -/
def factor (scale : SpaceScale) : Float :=
  Float.ofNat (1024 ^ scale.code)

def symbol : SpaceScale → String
  | .byte => "B"
  | .kilobyte => "KiB"
  | .megabyte => "MiB"
  | .gigabyte => "GiB"
  | .terabyte => "TiB"
  | .petabyte => "PiB"
  | .exabyte => "EiB"

def name : SpaceScale → String
  | .byte => "Byte"
  | .kilobyte => "Kilobyte"
  | .megabyte => "Megabyte"
  | .gigabyte => "Gigabyte"
  | .terabyte => "Terabyte"
  | .petabyte => "Petabyte"
  | .exabyte => "Exabyte"

end SpaceScale

inductive TimeScale where
  | nanosecond
  | microsecond
  | millisecond
  | second
  | minute
  | hour
deriving DecidableEq, Repr

namespace TimeScale

def all : List TimeScale :=
  [.nanosecond, .microsecond, .millisecond, .second, .minute, .hour]

def code : TimeScale → Nat
  | .nanosecond => 0
  | .microsecond => 1
  | .millisecond => 2
  | .second => 3
  | .minute => 4
  | .hour => 5

/-- The length in seconds. -/
def factor : TimeScale → Float
  | .nanosecond => 1e-9
  | .microsecond => 1e-6
  | .millisecond => 1e-3
  | .second => 1
  | .minute => 60
  | .hour => 3600

def symbol : TimeScale → String
  | .nanosecond => "ns"
  | .microsecond => "us"
  | .millisecond => "ms"
  | .second => "s"
  | .minute => "min"
  | .hour => "h"

def name : TimeScale → String
  | .nanosecond => "Nanosecond"
  | .microsecond => "Microsecond"
  | .millisecond => "Millisecond"
  | .second => "Second"
  | .minute => "Minute"
  | .hour => "Hour"

end TimeScale

inductive CountScale where
  | one
  | ten
  | hundred
  | thousand
  | tenThousand
  | hundredThousand
  | million
  | tenMillion
  | hundredMillion
  | billion
  | tenBillion
  | hundredBillion
  | trillion
deriving DecidableEq, Repr

namespace CountScale

def all : List CountScale :=
  [.one, .ten, .hundred, .thousand, .tenThousand, .hundredThousand, .million, .tenMillion,
    .hundredMillion, .billion, .tenBillion, .hundredBillion, .trillion]

/-- The code is the exponent of ten. -/
def code : CountScale → Nat
  | .one => 0
  | .ten => 1
  | .hundred => 2
  | .thousand => 3
  | .tenThousand => 4
  | .hundredThousand => 5
  | .million => 6
  | .tenMillion => 7
  | .hundredMillion => 8
  | .billion => 9
  | .tenBillion => 10
  | .hundredBillion => 11
  | .trillion => 12

def factor (scale : CountScale) : Float :=
  Float.ofNat (10 ^ scale.code)

def symbol : CountScale → String
  | .one => "count"
  | .ten => "ten"
  | .hundred => "hundred"
  | .thousand => "thousand"
  | .tenThousand => "ten-thousand"
  | .hundredThousand => "hundred-thousand"
  | .million => "million"
  | .tenMillion => "ten-million"
  | .hundredMillion => "hundred-million"
  | .billion => "billion"
  | .tenBillion => "ten-billion"
  | .hundredBillion => "hundred-billion"
  | .trillion => "trillion"

def name : CountScale → String
  | .one => "One"
  | .ten => "Ten"
  | .hundred => "Hundred"
  | .thousand => "Thousand"
  | .tenThousand => "TenThousand"
  | .hundredThousand => "HundredThousand"
  | .million => "Million"
  | .tenMillion => "TenMillion"
  | .hundredMillion => "HundredMillion"
  | .billion => "Billion"
  | .tenBillion => "TenBillion"
  | .hundredBillion => "HundredBillion"
  | .trillion => "Trillion"

end CountScale

inductive Dimension where
  | space
  | time
  | count
deriving DecidableEq, Repr

def Dimension.name : Dimension → String
  | .space => "Space"
  | .time => "Time"
  | .count => "Count"

inductive Scale where
  | space (scale : SpaceScale)
  | time (scale : TimeScale)
  | count (scale : CountScale)
deriving DecidableEq, Repr

namespace Scale

def dimension : Scale → Dimension
  | .space _ => .space
  | .time _ => .time
  | .count _ => .count

def code : Scale → Nat
  | .space scale => scale.code
  | .time scale => scale.code
  | .count scale => scale.code

def factor : Scale → Float
  | .space scale => scale.factor
  | .time scale => scale.factor
  | .count scale => scale.factor

def symbol : Scale → String
  | .space scale => scale.symbol
  | .time scale => scale.symbol
  | .count scale => scale.symbol

def name : Scale → String
  | .space scale => scale.name
  | .time scale => scale.name
  | .count scale => scale.name

end Scale

def Dimension.scales : Dimension → List Scale
  | .space => SpaceScale.all.map .space
  | .time => TimeScale.all.map .time
  | .count => CountScale.all.map .count

def Scale.all : List Scale :=
  Dimension.space.scales ++ (Dimension.time.scales ++ Dimension.count.scales)

end MappedMetrics
