import ScriptFuzz.WireType

/-!
# Functions of the host

What a script can ask of its host: to write to the channel, to read from it, and to note a message.
-/

namespace ScriptFuzz

/-- A function that the host offers to scripts. -/
inductive HostFunction where
  /-- Writes a text or bytes as they are. -/
  | out
  /-- Writes an integer of a given width. -/
  | outUInt (width : Width)
  /-- Reads an integer of a given width. -/
  | inUInt (width : Width)
  /-- Notes a message. -/
  | trace
  /-- Writes a text and ends the line. -/
  | writeLine
  /-- Reads a line. -/
  | readLine
deriving DecidableEq, Repr

namespace HostFunction

/-- The widths that have functions of their own. -/
def widths : List Width := [.one, .two, .four, .eight]

/-- The functions that have names. -/
def all : List HostFunction :=
  out :: (widths.map outUInt ++ widths.map inUInt ++ [trace, writeLine, readLine])

/-- The name by which a script calls the function. -/
def name : HostFunction → String
  | out => "out"
  | outUInt width => s!"out{width.bits}"
  | inUInt width => s!"in{width.bits}"
  | trace => "trace"
  | writeLine => "writeln"
  | readLine => "readln"

/-- The function of a given name. -/
def ofName? (name : String) : Option HostFunction := all.find? (·.name == name)

/-- The number of arguments, unless any number will do. -/
def arity? : HostFunction → Option Nat
  | out | outUInt _ | writeLine => some 1
  | inUInt _ | readLine => some 0
  | trace => none

end HostFunction

end ScriptFuzz
