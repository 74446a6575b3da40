namespace InputRelay

/-- A finite vocabulary: every member has a name, by which it is written and read. -/
class Named (α : Type) where
  all : List α
  name : α → String

namespace Named

variable {α : Type} [Named α]

def ofName? (s : String) : Option α :=
  (all : List α).find? (fun a ↦ name a == s)

end Named

end InputRelay
