import ScriptFuzz.Bytes.Order

/-!
# Hexadecimal text of bytes
-/

namespace ScriptFuzz

/-- Two lower-case hexadecimal digits for each byte. -/
def hexText (bytes : Bytes) : String :=
  String.ofList <| bytes.flatMap fun b =>
    [Nat.digitChar (b.toNat / 16), Nat.digitChar (b.toNat % 16)]

end ScriptFuzz
