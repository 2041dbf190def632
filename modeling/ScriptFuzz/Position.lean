/-!
# Positions in a source text
-/

namespace ScriptFuzz

/-- A place in a source text. Rows and columns count from one, and a tab is four columns wide. -/
structure Position where
  /-- The row. -/
  row : Nat := 1
  /-- The column. -/
  col : Nat := 1
deriving DecidableEq, Repr, Inhabited

namespace Position

/-- The place behind a character that stands at `p`. -/
def after (p : Position) (c : Char) : Position :=
  if c = '\n' then { row := p.row + 1, col := 1 }
  else if c = '\t' then { p with col := p.col + 4 }
  else { p with col := p.col + 1 }

/-- The place behind a text that starts at `p`. -/
def afterAll (p : Position) (cs : List Char) : Position := cs.foldl after p

/-- The position as it stands in messages: row, colon, column. -/
def text (p : Position) : String := s!"{p.row}:{p.col}"

@[simp] theorem afterAll_nil (p : Position) : p.afterAll [] = p := rfl

@[simp] theorem afterAll_cons (p : Position) (c : Char) (cs : List Char) :
    p.afterAll (c :: cs) = (p.after c).afterAll cs := rfl

@[simp] theorem afterAll_append (p : Position) (cs ds : List Char) :
    p.afterAll (cs ++ ds) = (p.afterAll cs).afterAll ds := by
  simp [afterAll]

end Position

end ScriptFuzz
