import Stencil.Number.Binary64

/-!
# Shortest decimal text of a number

A number is written with the fewest decimal digits that read back to it, positionally if its
leading digit stands between the fourth place after the point and the sixteenth before it, and
with a power of ten otherwise.

Every finite magnitude is a whole number of units, each a power of ten (`magnitude` units of
`10 ^ unit`). The decimals that read back form an interval around it, which reaches halfway to the
neighbours and includes its ends when the significand is even (`readsBack`). Grids of powers of
ten are tried from the coarsest to the finest, which is the unit and holds the number itself, so
the search always ends with a decimal that reads back (`readsBack_shortest`).
-/

namespace Stencil.Binary64

/-! ## Exact decimal expansion -/

/-- Units that one step of the significand is worth. -/
def step (x : Binary64) : Nat :=
  match x.exponent with
  | .ofNat q => Nat.pow 2 q
  | .negSucc p => Nat.pow 5 (p + 1)

/-- Exponent of the power of ten that is the unit. -/
def unit (x : Binary64) : Int := min x.exponent 0

/-- Magnitude of a finite number in units. -/
def magnitude (x : Binary64) : Nat := x.significand * x.step

theorem step_pos (x : Binary64) : 0 < x.step := by
  unfold step
  split
  · exact Nat.two_pow_pos _
  · exact Nat.pow_pos (by decide)

/-! ## Decimals that read back -/

/-- Distance to the lower end of the interval, in quarters of a step. Below a power of two the
neighbour is half as far away. -/
def lowerGap (x : Binary64) : Nat :=
  if x.fractionField = 0 ∧ 1 < x.exponentField then 1 else 2

/-- Whether a magnitude of `n` units reads back to the number. -/
def readsBack (x : Binary64) (n : Nat) : Bool :=
  let low := (4 * x.significand - x.lowerGap) * x.step
  let high := (4 * x.significand + 2) * x.step
  if x.significand % 2 = 0 then low ≤ 4 * n && 4 * n ≤ high else low < 4 * n && 4 * n < high

/-- A number reads back from its own magnitude. -/
theorem readsBack_magnitude (x : Binary64) : x.readsBack x.magnitude = true := by
  have pos := x.step_pos
  have same : 4 * x.magnitude = 4 * x.significand * x.step := (Nat.mul_assoc ..).symm
  have high : 4 * x.significand * x.step < (4 * x.significand + 2) * x.step :=
    Nat.mul_lt_mul_of_pos_right (by omega) pos
  unfold readsBack
  simp only [same]
  split
  · -- Both ends belong to the interval.
    have low : (4 * x.significand - x.lowerGap) * x.step ≤ 4 * x.significand * x.step :=
      Nat.mul_le_mul_right _ (Nat.sub_le ..)
    simp only [Bool.and_eq_true, decide_eq_true_eq]
    exact ⟨low, Nat.le_of_lt high⟩
  · -- An odd significand is not zero, so the lower end lies strictly below.
    next odd =>
    have gap : 0 < x.lowerGap := by
      unfold lowerGap
      split <;> decide
    have low : (4 * x.significand - x.lowerGap) * x.step < 4 * x.significand * x.step :=
      Nat.mul_lt_mul_of_pos_right (by omega) pos
    simp only [Bool.and_eq_true, decide_eq_true_eq]
    exact ⟨low, high⟩

/-! ## Search over the grids -/

/-- Neighbour of the number on the grid of `10 ^ g` units that reads back. Of two the nearer one
is taken, and of two equally near ones the even one. -/
def onGrid? (x : Binary64) (g : Nat) : Option Nat :=
  let d := x.magnitude / Nat.pow 10 g
  match x.readsBack (d * Nat.pow 10 g), x.readsBack ((d + 1) * Nat.pow 10 g) with
  | false, false => none
  | true, false => some d
  | false, true => some (d + 1)
  | true, true =>
    match compare (2 * x.magnitude) ((2 * d + 1) * Nat.pow 10 g) with
    | .lt => some d
    | .gt => some (d + 1)
    | .eq => some (if d % 2 = 0 then d else d + 1)

theorem readsBack_of_onGrid? {x : Binary64} {g d : Nat} (h : x.onGrid? g = some d) :
    x.readsBack (d * Nat.pow 10 g) = true := by
  unfold onGrid? at h
  simp only at h
  split at h
  · cases h
  · next lower _ => exact Option.some.inj h ▸ lower
  · next _ upper => exact Option.some.inj h ▸ upper
  · next lower upper =>
    split at h
    · exact Option.some.inj h ▸ lower
    · exact Option.some.inj h ▸ upper
    · obtain rfl := Option.some.inj h
      split
      · exact lower
      · exact upper

/-- Decimal on the coarsest grid up to `10 ^ g` units that has one: its multiple and its grid. -/
def shortestFrom (x : Binary64) : Nat → Nat × Nat
  | 0 => (x.magnitude, 0)
  | g + 1 =>
    match x.onGrid? (g + 1) with
    | some d => (d, g + 1)
    | none => shortestFrom x g

/-- Shortest decimal that reads back, as a multiple of a grid. -/
def shortest (x : Binary64) : Nat × Nat := x.shortestFrom ((Nat.toDigits 10 x.magnitude).length - 1)

theorem readsBack_shortestFrom (x : Binary64) (g : Nat) :
    x.readsBack ((x.shortestFrom g).1 * Nat.pow 10 (x.shortestFrom g).2) = true := by
  induction g with
  | zero => exact (Nat.mul_one x.magnitude).symm ▸ x.readsBack_magnitude
  | succ g ih =>
    rw [shortestFrom]
    split
    · next found => exact readsBack_of_onGrid? found
    · exact ih

theorem readsBack_shortest (x : Binary64) :
    x.readsBack (x.shortest.1 * Nat.pow 10 x.shortest.2) = true :=
  readsBack_shortestFrom x _

/-! ## Text -/

/-- Digits with a point before the digit number `point`, which may lie outside of them. -/
def positional (digits : List Char) (point : Int) : List Char :=
  if point ≤ 0 then '0' :: '.' :: (List.replicate (-point).toNat '0' ++ digits)
  else
    let whole := (digits.take point.toNat).rightpad point.toNat '0'
    let fraction := digits.drop point.toNat
    whole ++ '.' :: (if fraction = [] then ['0'] else fraction)

/-- Digits with a point after the first one and a power of ten, of two digits at least. -/
def scientific (digits : List Char) (point : Int) : List Char :=
  let power := point - 1
  let fraction := digits.drop 1
  digits.take 1 ++ (if fraction = [] then [] else '.' :: fraction) ++
    'e' :: (if power < 0 then '-' else '+') :: (Nat.toDigits 10 power.natAbs).leftpad 2 '0'

/-- Text of the magnitude of a finite number that is not zero. -/
def magnitudeText (x : Binary64) : List Char :=
  let (d, g) := x.shortest
  let all := Nat.toDigits 10 d
  let digits := (all.reverse.dropWhile (· == '0')).reverse
  let point : Int := all.length + g + x.unit
  if -4 < point ∧ point ≤ 16 then positional digits point else scientific digits point

/-- Text of a number. -/
def text (x : Binary64) : String :=
  let unsigned :=
    if x.isInfinite then "inf" else if x.isZero then "0.0" else String.ofList x.magnitudeText
  if x.isNaN then "nan" else if x.negative then "-" ++ unsigned else unsigned

example : text ⟨0x3FB999999999999A⟩ = "0.1" ∧ text ⟨0x4341C37937E08000⟩ = "1e+16" ∧
    text ⟨0x3E60000000000000⟩ = "2.9802322387695312e-08" ∧ text ⟨0x8000000000000000⟩ = "-0.0" := by
  decide +kernel

end Stencil.Binary64
