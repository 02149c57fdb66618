import Cookbook.Text.Substitute

/-!
Working-copy blocks. A working copy keeps each line with a placeholder as a comment and writes the
filled-in lines below it, between two sentinel lines:

    //  >>> WORKING_COPY >>>
    //  version $AGP_VERSION
    version "8.1.0"
    //  <<< WORKING_COPY <<<

Wrapping writes such blocks and unwrapping takes them away. Both go through the lines once and keep
track of where in a block they are.
-/

namespace Cookbook

inductive CommentStyle
  | gradle
  | properties
deriving DecidableEq, Repr

namespace CommentStyle

/-- What turns a line into a comment when written before it. -/
def mark : CommentStyle → String
  | gradle => "//  "
  | properties => "#  "

def comment (style : CommentStyle) (line : String) : String := style.mark ++ line

/-- The line without the mark of a comment, if it starts with it. -/
def uncomment (style : CommentStyle) (line : String) : String :=
  if style.mark.toList.isPrefixOf line.toList then
    String.ofList (line.toList.drop style.mark.length)
  else line

def opening (style : CommentStyle) : String := style.comment ">>> WORKING_COPY >>>"

def closing (style : CommentStyle) : String := style.comment "<<< WORKING_COPY <<<"

end CommentStyle

/-- Where a line stands. -/
inductive Block
  | outside
  /-- Right after the opening sentinel, where the line is kept as a comment. -/
  | kept
  /-- After the kept line, up to the closing sentinel. -/
  | generated
deriving DecidableEq, Repr

namespace Block

/-- Runs through lines from a place in or outside of a block, and gathers what each line leaves. -/
def run (step : Block → String → Block × List String) : Block → List String → List String
  | _, [] => []
  | block, line :: lines =>
      let (next, written) := step block line
      written ++ run step next lines

/-- What wrapping makes of a line. Outside of blocks, a line with the marker gets a block of its own;
among generated lines it is generated anew, so that several markers of one line fill in one after
another. The line after the opening sentinel is never looked at. -/
def wrapLine (style : CommentStyle) (marker : String) (generate : String → List String) :
    Block → String → Block × List String
  | .kept, line => (.generated, [line])
  | .generated, line =>
      if line = style.closing then (.outside, [line])
      else if Text.mentions line marker then (.generated, generate line)
      else (.generated, [line])
  | .outside, line =>
      if line = style.opening then (.kept, [line])
      else if Text.mentions line marker then
        (.outside,
          style.opening :: style.comment line :: generate line ++ [style.closing])
      else (.outside, [line])

/-- What unwrapping makes of a line: the kept one comes back, the rest of the block goes. -/
def unwrapLine (style : CommentStyle) : Block → String → Block × List String
  | .outside, line =>
      if line = style.opening then (.kept, []) else (.outside, [line])
  | .kept, line =>
      if line = style.closing then (.outside, []) else (.generated, [style.uncomment line])
  | .generated, line =>
      if line = style.closing then (.outside, []) else (.generated, [])

def wrap (style : CommentStyle) (marker : String) (generate : String → List String)
    (lines : List String) : List String :=
  run (wrapLine style marker generate) .outside lines

def unwrap (style : CommentStyle) (lines : List String) : List String :=
  run (unwrapLine style) .outside lines

end Block

end Cookbook
