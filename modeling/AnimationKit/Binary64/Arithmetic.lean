import AnimationKit.Binary64.Rounding

/-!
Arithmetic: each operation rounds its exact result once.
-/
namespace AnimationKit.Binary64

def mul : Binary64 → Binary64 → Binary64
  | .signed n a _, .signed m b _ =>
    if a = topRank ∨ b = topRank then
      if a = 0 ∨ b = 0 then .nan else infinity (n != m)
    else ofUnits (n != m) (units a * units b) one
  | _, _ => .nan

def div : Binary64 → Binary64 → Binary64
  | .signed n a _, .signed m b _ =>
    if a = topRank then
      if b = topRank then .nan else infinity (n != m)
    else if b = topRank then .signed (n != m) 0 (Nat.zero_le _)
    else if b = 0 then
      if a = 0 then .nan else infinity (n != m)
    else ofUnits (n != m) (units a * one) (units b)
  | _, _ => .nan

/-- The exact value of a finite datum in units of 2^-1074. -/
def signedUnits (negative : Bool) (rank : Nat) : Int :=
  if negative then -(units rank : Int) else units rank

/-- A difference of zero is negative only for `-0 - 0`. -/
def sub : Binary64 → Binary64 → Binary64
  | .signed n a ha, .signed m b hb =>
    if a = topRank then
      if b = topRank ∧ n = m then .nan else .signed n a ha
    else if b = topRank then .signed (!m) b hb
    else
      let difference := signedUnits n a - signedUnits m b
      if difference = 0 then .signed (n && !m && a == 0) 0 (Nat.zero_le _)
      else ofUnits (decide (difference < 0)) difference.natAbs 1
  | _, _ => .nan

/-- The nearest whole number, halves going away from zero. -/
def round : Binary64 → Binary64
  | .nan => .nan
  | .signed n a h =>
    if a = topRank then .signed n a h
    else ofUnits n ((2 * units a + one) / (2 * one) * one) 1

end AnimationKit.Binary64
