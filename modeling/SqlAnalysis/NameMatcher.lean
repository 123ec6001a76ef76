import SqlAnalysis.Text.Case
import SqlAnalysis.Text.Composition

/-!
When two names are the same. With regard to case names are compared as they are; without it, by
their composed and folded forms.
-/

namespace SqlAnalysis

structure NameMatcher where
  caseSensitive : Bool := true
deriving Repr, DecidableEq, Inhabited

namespace NameMatcher

def folded (name : String) : String := String.ofList (Text.fold (Text.composed name.toList))

/-- Names match exactly when their keys agree. -/
def key (m : NameMatcher) (name : String) : String := if m.caseSensitive then name else folded name

def same (m : NameMatcher) (a b : String) : Bool := m.key a == m.key b

def sameAll (m : NameMatcher) (as bs : List String) : Bool := as.map m.key == bs.map m.key

end NameMatcher

end SqlAnalysis
