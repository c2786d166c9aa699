/-! # Laying out code

Generated code is a list of pieces, most of them lines, and some of those open or close a block.
A line stands two spaces deeper for every block open around it; verbatim text is never indented.
-/

namespace BlockLang.Code

/-- A piece of generated code. How deep a line stands is not part of it: that
follows from the blocks that are open when it is written. -/
inductive Piece where
  | line (text : String)
  | blank
  /-- A line behind which a block begins. -/
  | opening (text : String)
  /-- A line behind the end of a block. -/
  | closing (text : String)
  /-- A line between the end of a block and the beginning of another. -/
  | reopening (text : String)
  /-- Text of its own layout; a newline is added if it does not end in one. -/
  | verbatim (text : String)
  deriving DecidableEq, Repr

def indentation (depth : Nat) : String := String.ofList (List.replicate (2 * depth) ' ')

/-- A line below `depth` open blocks. A line without text has no indentation. -/
def lineAt (depth : Nat) (text : String) : String :=
  if text.isEmpty then "\n" else indentation depth ++ text ++ "\n"

/-- Text ended by a newline, unless it is empty. -/
def ended (text : String) : String :=
  if text.isEmpty || text.toList.getLast? == some '\n' then text else text ++ "\n"

namespace Piece

/-- The number of open blocks behind a piece that stands below `depth` open
blocks. A block that is closed without having been opened counts for nothing. -/
def depthAfter (depth : Nat) : Piece → Nat
  | line _ | blank | verbatim _ => depth
  | opening _ => depth + 1
  | closing _ => depth - 1
  | reopening _ => depth - 1 + 1

def render (depth : Nat) : Piece → String
  | line text | opening text => lineAt depth text
  | closing text | reopening text => lineAt (depth - 1) text
  | blank => "\n"
  | verbatim text => ended text

end Piece

/-- The texts of pieces, each laid out below the blocks that those before it
have left open. -/
def renderFrom (depth : Nat) : List Piece → List String
  | [] => []
  | piece :: rest => piece.render depth :: renderFrom (piece.depthAfter depth) rest

def render (pieces : List Piece) : String := String.join (renderFrom 0 pieces)

def block (before : String) (pieces : List Piece) (behind : String) : List Piece :=
  .opening before :: pieces ++ [.closing behind]

end BlockLang.Code
