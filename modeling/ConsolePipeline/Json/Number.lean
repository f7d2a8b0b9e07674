namespace ConsolePipeline.Json

/-!
# JSON numbers

A number is kept as it was written. Whether it is too large is decided in doubles, and each step of
reading it as one rounds: of its digits as many leading ones count as fit 64 bits, the others only
move the point; the digits that count become the nearest double; and that is multiplied by the
double nearest to the power of ten. So a decimal just below the largest double may be refused, and
one just above it may pass.

* `Number` — a decimal as it was written.
* `nearestDouble` — a natural number, rounded to the precision of a double.
* `leadingDigits` — the digits that count.
* `Number.overflows` — numbers too large for a double.
-/

/-- The quotient `n / d`, rounded to the nearest natural number; a tie goes to the even one. -/
def roundQuotient (n d : Nat) : Nat :=
  let q := n / d
  let twice := 2 * (n % d)
  if d < twice ∨ (twice = d ∧ q % 2 = 1) then q + 1 else q

/-- The double nearest to a natural number, with a tie to the even one, if there were doubles of any
    size: 53 significant bits are kept. -/
def nearestDouble (n : Nat) : Nat :=
  if n < 1 <<< 53 then n
  else
    let step := 1 <<< (n.log2 - 52)
    roundQuotient n step * step

/-- What rounds to a double from here on is infinite: half a step past the largest finite one. -/
def doubleLimit : Nat :=
  (1 <<< 1024) - (1 <<< 970)

/-- The largest exponent of a power of ten that is a double. -/
def maxTenExponent : Nat := 308

/-- The leading decimal digits of a number, as many as fit 64 bits, and how many are left out. -/
def leadingDigits (n : Nat) : Nat × Nat :=
  if n < 1 <<< 64 then (n, 0)
  else
    let (kept, dropped) := leadingDigits (n / 10)
    (kept, dropped + 1)
termination_by n
decreasing_by omega

/-- A decimal `± digits * 10 ^ exponent`, as it was written. -/
structure Number where
  negative : Bool
  digits : Nat
  exponent : Int
  /-- Written without fraction and without exponent. -/
  plain : Bool
  deriving DecidableEq, Repr, Inhabited

namespace Number

def ofNat (n : Nat) : Number :=
  ⟨false, n, 0, true⟩

def ofInt (i : Int) : Number :=
  ⟨i < 0, i.natAbs, 0, true⟩

/-- The number as a natural one; a sign, a fraction or an exponent rules that out, `-0` included. -/
def nat? (n : Number) : Option Nat :=
  if n.plain && !n.negative then some n.digits else none

/-- The number as an integer; a fraction or an exponent rules that out. -/
def int? (n : Number) : Option Int :=
  if n.plain then some (if n.negative then -n.digits else n.digits) else none

/-- Whether reading the number as a double comes out infinite. Division by a power of ten never
    does, nor does any multiple of zero. -/
def overflows (n : Number) : Bool :=
  let (kept, dropped) := leadingDigits n.digits
  let exponent := n.exponent + dropped
  if kept = 0 ∨ exponent < 0 then false
  else if maxTenExponent < exponent then true
  else doubleLimit ≤ nearestDouble kept * nearestDouble (Nat.pow 10 exponent.toNat)

@[simp] theorem nat?_ofNat (n : Nat) : (ofNat n).nat? = some n := rfl

end Number

end ConsolePipeline.Json
