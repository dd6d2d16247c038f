import CloudAccess.Console.Style

/-!
# Plain console text

Items as lines without colours: marks of style are taken out, the cells of a row are set apart by
bars, and a tree is indented.
-/

namespace CloudAccess.Console

/-- The words that marks of style are made of. -/
def styleWords : List String :=
  ["bold", "dim", "red", "green", "yellow", "blue", "cyan", "orange1", "white"]

/-- Whether the text between brackets is a mark of style. -/
def isStyle (cs : List Char) : Bool :=
  let body := match cs with
    | '/' :: rest => rest
    | rest => rest
  (Text.fields ' ' body).all fun word => styleWords.contains (String.ofList word)

/-- A text without its marks of style; a mark that was taken out is passed over first. -/
def unstyled (passed : Nat) : List Char → List Char
  | [] => []
  | c :: rest =>
    match passed with
    | n + 1 => unstyled n rest
    | 0 =>
      if c = '[' then
        match Text.cut? ']' rest with
        | some (mark, _) =>
          if isStyle mark then unstyled (mark.length + 1) rest else c :: unstyled 0 rest
        | none => c :: unstyled 0 rest
      else c :: unstyled 0 rest

def plain (s : String) : String := String.ofList (unstyled 0 s.toList)

mutual

def Tree.lines (depth : Nat) : Tree → List String
  | .node label children =>
    (String.ofList (List.replicate (2 * depth) ' ') ++ plain label) ::
      childLines (depth + 1) children

def childLines (depth : Nat) : List Tree → List String
  | [] => []
  | t :: rest => Tree.lines depth t ++ childLines depth rest

end

/-- The lines of an item. -/
def Item.lines : Item → List String
  | .line text => [plain text]
  | .table t => plain t.title :: (t.columns :: t.rows).map fun cells =>
      " | ".intercalate (cells.map plain)
  | .tree t => t.lines 0

end CloudAccess.Console
