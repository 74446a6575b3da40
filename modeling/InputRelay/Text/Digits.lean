namespace InputRelay.Text

/-- The value of a digit in a base of at most sixteen; letters of either case serve above nine. -/
def digitValue? (base : Nat) (c : Char) : Option Nat :=
  let value :=
    if '0' ≤ c ∧ c ≤ '9' then c.toNat - '0'.toNat
    else if 'a' ≤ c ∧ c ≤ 'f' then c.toNat - 'a'.toNat + 10
    else if 'A' ≤ c ∧ c ≤ 'F' then c.toNat - 'A'.toNat + 10
    else 16
  if value < base then some value else none

def isDigit (base : Nat) (c : Char) : Bool :=
  (digitValue? base c).isSome

/-- The number that a run of digits writes; a character that is no digit counts as zero. -/
def numberOf (base : Nat) (s : List Char) : Nat :=
  s.foldl (fun n c ↦ n * base + (digitValue? base c).getD 0) 0

def decimalDigit (c : Char) : Fin 10 :=
  Fin.ofNat 10 ((digitValue? 10 c).getD 0)

def digitsOf (base n : Nat) : List Char :=
  Nat.toDigits base n

def padLeft (width : Nat) (fill : Char) (s : List Char) : List Char :=
  List.replicate (width - s.length) fill ++ s

def padRight (width : Nat) (fill : Char) (s : List Char) : List Char :=
  s ++ List.replicate (width - s.length) fill

theorem length_padLeft {width : Nat} {fill : Char} {s : List Char} (h : s.length ≤ width) :
    (padLeft width fill s).length = width := by
  simp [padLeft]
  omega

end InputRelay.Text
