/-
# `Ssa.Text.Ends` — how a text begins and ends
-/

namespace Ssa

/-- Whether a text begins with another. -/
def begins (start s : String) : Bool := start.toList.isPrefixOf s.toList

/-- Whether a text ends in another. -/
def endsIn (tail s : String) : Bool := tail.toList.isSuffixOf s.toList

end Ssa
