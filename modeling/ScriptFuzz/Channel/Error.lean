/-!
# Failures on a channel
-/

namespace ScriptFuzz

/-- How a line can be malformed. -/
inductive LineFault where
  | duplicateReturn
  | returnWithoutFeed
  | feedWithoutReturn
deriving DecidableEq, Repr

/-- The wording of the fault. -/
def LineFault.message : LineFault → String
  | duplicateReturn => "duplicate CR"
  | returnWithoutFeed => "CR without LF"
  | feedWithoutReturn => "LF without CR"

/-- Why the fields of a layout cannot be scheduled or read. -/
inductive LayoutFault where
  /-- A vector of varying length has no fixed size. -/
  | rangedVector (type : String) (lower upper : UInt64)
  /-- An expression, given by its outline, stands for no field. -/
  | unreadable (outline : String)
  /-- The length of a field is to be taken from one that is no earlier scalar. -/
  | badLengthField (index lengthField : Nat)
  /-- The length of a field is greater than allowed. -/
  | tooLong (length : UInt64) (max : Nat)
deriving DecidableEq, Repr

/-- The wording of the fault. -/
def LayoutFault.message : LayoutFault → String
  | rangedVector type lower upper => s!"cannot read a ranged vector {type}<{lower}-{upper}>"
  | unreadable outline => s!"cannot read {outline} from input"
  | badLengthField index lengthField =>
    s!"field {index} refers to {lengthField}, which is not an earlier scalar"
  | tooLong length max => s!"array length {length} exceeds maximum {max}"

/-- Why bytes cannot be read or written. -/
inductive ChannelError where
  /-- Nothing happened in time. -/
  | timeout (doing : String)
  /-- The peer has closed the channel. -/
  | closed
  /-- There is no channel. -/
  | notConnected
  /-- A line does not end as lines do. -/
  | malformedLine (fault : LineFault)
  /-- A line has more bytes than allowed. -/
  | lineTooLong (max : Nat)
  /-- A source ends before all wanted bytes are read. -/
  | unexpectedEnd (wanted available : Nat)
  /-- The fields of a layout cannot be scheduled or read. -/
  | layout (fault : LayoutFault)
  /-- The medium below the channel has failed. -/
  | transport (reason : String)
deriving DecidableEq, Repr

/-- The wording of the error. -/
def ChannelError.message : ChannelError → String
  | timeout doing => s!"timed out while {doing}"
  | closed => "channel closed by peer"
  | notConnected => "no channel is attached"
  | malformedLine fault => s!"malformed line: {fault.message}"
  | lineTooLong max => s!"line exceeds {max} bytes"
  | unexpectedEnd wanted available =>
    s!"source exhausted: wanted {wanted} byte(s), {available} available"
  | layout fault => fault.message
  | transport reason => s!"transport error: {reason}"

end ScriptFuzz
