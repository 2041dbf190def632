import ScriptFuzz.Expr.Basic
import ScriptFuzz.Text.Quoted

/-!
# Outlines of expressions

An outline shows the whole structure of an expression on one line, in the form in which messages
about expressions that cannot be used quote them.
-/

namespace ScriptFuzz

/-- A record with named fields, as outlines write it. -/
def outlineRecord (name : String) (fields : List (String × String)) : String :=
  let body := ", ".intercalate (fields.map fun field => field.1 ++ ": " ++ field.2)
  name ++ " \x7b " ++ body ++ " \x7d"

/-- The outline of a wire type. -/
def WireType.outline (t : WireType) : String :=
  (if t.signed then "S" else "U") ++ toString t.width.bits

/-- The outline of a constant of the given type. -/
def WireType.constantOutline (t : WireType) (value : Int) : String :=
  (if t.signed then "Signed(" else "Unsigned(") ++ toString value ++ ")"

mutual

/-- What an expression is, without its tag. -/
def Expr.outline : Expr → String
  | .type _ t => "Type(" ++ t.outline ++ ")"
  | .constant _ t value =>
    outlineRecord "Constant" [("ty", t.outline), ("value", t.constantOutline value)]
  | .reference _ name => outlineRecord "Reference" [("name", Text.quoted name)]
  | .property _ name part =>
    outlineRecord "PropertyAccess"
      [("name", Text.quoted name), ("property", Text.quoted part)]
  | .vector _ t lower upper =>
    outlineRecord "Vector"
      [("ty", t.outline), ("lower", toString lower), ("upper", toString upper)]
  | .sequence _ items => "Sequence([" ++ ", ".intercalate (Expr.outlineAll items) ++ "])"
  | .fuzz _ items => "FuzzSequence([" ++ ", ".intercalate (Expr.outlineAll items) ++ "])"

/-- The outlines of nested expressions, with their tags. -/
def Expr.outlineAll : List Expr → List String
  | [] => []
  | e :: es =>
    outlineRecord "Expression"
      [("id", toString e.tag.id), ("fuzzy", toString e.tag.fuzzy), ("kind", e.outline)]
      :: Expr.outlineAll es

end

end ScriptFuzz
