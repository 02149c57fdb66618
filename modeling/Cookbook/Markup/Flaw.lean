/-!
What makes a marked-up text unreadable.
-/

namespace Cookbook.Markup

inductive Flaw
  | unfinished (what : String)
  | emptyDocumentType
  | unexpectedClosing (name : String)
  | unfinishedReference
  | unknownReference (name : String)
deriving DecidableEq, Repr

def Flaw.message : Flaw → String
  | unfinished what => "the input ends inside or breaks off " ++ what
  | emptyDocumentType => "the document type is empty"
  | unexpectedClosing name => "no element '" ++ name ++ "' is open here"
  | unfinishedReference => "a reference has no ';'"
  | unknownReference name => "the reference '" ++ name ++ "' names no character"

end Cookbook.Markup
