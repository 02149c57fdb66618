import Cookbook.Text.Lines

/-!
Paths as they are written. A path keeps its text exactly, since messages show it; what the text says
is its pieces between slashes. A piece that is empty or `.` names nothing of its own, except a `.` at
the very start.
-/

namespace Cookbook

structure Path where
  text : String
deriving DecidableEq, Inhabited, Repr

namespace Path

def isAbsolute (p : Path) : Bool := p.text.front? = some '/'

def endsInSlash (p : Path) : Bool := p.text.back? = some '/'

/-- The second path as seen from the first: an absolute path stands for itself, and no slash is
doubled. -/
def join (p q : Path) : Path :=
  if q.isAbsolute then q
  else if p.text = "" then q
  else if p.endsInSlash then ⟨p.text ++ q.text⟩
  else ⟨p.text ++ "/" ++ q.text⟩

def joinName (p : Path) (name : String) : Path := p.join ⟨name⟩

def joinNames (p : Path) (names : List String) : Path := names.foldl joinName p

/-- The stretches between slashes, empty ones too. -/
def pieces (p : Path) : List String := (Text.fields '/' p.text.toList).map String.ofList

def isIdle (piece : String) : Bool := piece = "" || piece = "."

/-- What the path names last, unless that is a step up or nothing. -/
def name (p : Path) : String :=
  match (p.pieces.filter fun piece => !isIdle piece).getLast? with
  | some piece => if piece = ".." then "" else piece
  | none => ""

/-- The path that names the given pieces. -/
def ofPieces (absolute : Bool) (pieces : List String) : Path :=
  ⟨(if absolute then "/" else "") ++ String.intercalate "/" pieces⟩

/-- The pieces of every path above the one with the given pieces, nearest first. Both the given and
the resulting pieces come last to first. -/
def piecesAbove (absolute : Bool) : List String → List (List String)
  | [] => []
  | piece :: rest =>
      if isIdle piece && (absolute || piece = "" || !rest.isEmpty) then piecesAbove absolute rest
      else trimmedPieces rest :: piecesAbove absolute rest
where
  /-- The pieces without idle ones at the end, but with a `.` that opens a relative path. -/
  trimmedPieces : List String → List String
    | [] => []
    | piece :: rest =>
        if isIdle piece && (absolute || piece = "" || !rest.isEmpty) then trimmedPieces rest
        else piece :: rest

/-- The folders that the path passes through, nearest first. The last one is the folder the path
starts from, written as the empty text or as `/`. -/
def above (p : Path) : List Path :=
  let pieces := if p.isAbsolute then p.pieces.tail else p.pieces
  (piecesAbove p.isAbsolute pieces.reverse).map fun up => ofPieces p.isAbsolute up.reverse

def parent? (p : Path) : Option Path := p.above.head?

/-- The path without slashes at its end, unless it is all slashes. -/
def withoutLastSlash (p : Path) : Path :=
  match (p.text.toList.reverse.dropWhile (· = '/')).reverse with
  | [] => p
  | kept => ⟨String.ofList kept⟩

/-- The steps a walk along the path takes. A slash at the end is a last step `.`, which asks that
there be a folder. -/
def steps (p : Path) : List String :=
  p.pieces.filter (· ≠ "") ++ if p.endsInSlash then ["."] else []

end Path

end Cookbook
