namespace InputRelay

/-- A number as it is written. It is a whole number only without fraction and exponent. -/
structure Numeral where
  negative : Bool := false
  whole : Nat
  fraction : List (Fin 10) := []
  exponent : Option Int := none
deriving DecidableEq, Repr

/-- What a string literal stands for. Its escapes may leave a surrogate without a partner, and
then it stands for no text. -/
inductive Literal
  | text (s : String)
  | unpaired
deriving DecidableEq, Repr

/-- The members of an object are kept in order, with repetitions. -/
inductive Json
  | null
  | bool (b : Bool)
  | number (n : Numeral)
  | string (s : Literal)
  | array (items : List Json)
  | object (members : List (Literal × Json))
deriving Repr

namespace Numeral

def ofInt (i : Int) : Numeral where
  negative := decide (i < 0)
  whole := i.natAbs

def toInt? (n : Numeral) : Option Int :=
  if n.fraction ≠ [] ∨ n.exponent ≠ none ∨ n.negative ∧ n.whole = 0 then none
  else some (if n.negative then -n.whole else n.whole)

theorem toInt?_ofInt (i : Int) : (ofInt i).toInt? = some i := by
  have hi : (if i < 0 then -(i.natAbs : Int) else i.natAbs) = i := by split <;> omega
  have h : ¬(i < 0 ∧ i.natAbs = 0) := by omega
  simp only [ofInt, toInt?, ne_eq, not_true_eq_false, false_or, decide_eq_true_eq, h, if_false, hi]

end Numeral

end InputRelay
