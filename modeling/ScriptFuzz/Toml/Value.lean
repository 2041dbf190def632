/-!
# Values of configuration files

What a TOML document can hold.
-/

namespace ScriptFuzz

/-- A value of a TOML document. -/
inductive Toml where
  | text (value : String)
  | integer (value : Int)
  | boolean (value : Bool)
  /-- A number with a fraction or an exponent, as it is written. -/
  | float (literal : String)
  /-- A date, a time or both, as they are written. -/
  | moment (literal : String)
  | array (items : List Toml)
  | table (entries : List (String × Toml))
deriving Inhabited, Repr

end ScriptFuzz
