import Cookbook.Text.Lines

/-!
Keywords under which recipes are listed: `category/keyword`, or a bare keyword in the category of the
others.
-/

namespace Cookbook

structure Keyword where
  category : String
  name : String
deriving DecidableEq, Repr

namespace Keyword

def defaultCategory : String := "Others"

def parse? (text : String) : Option Keyword :=
  match (Text.fields '/' text.toList).map String.ofList with
  | [name] => some ⟨defaultCategory, name⟩
  | [category, name] => some ⟨category, name⟩
  | _ => none

end Keyword

end Cookbook
