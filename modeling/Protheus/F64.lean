import Protheus.Json
import Protheus.RustStd

/-!
`f64` with its infinities and NaN.  A finite float is the exact rational it stands
for (the two zeros are one); how a result is rounded to a float is left to `round`.
-/

namespace Protheus

inductive F64 where
  | finite (q : ℚ)
  | inf (negative : Bool)
  | nan
  deriving DecidableEq

namespace F64

def neg : F64 → F64
  | finite q => finite (-q)
  | inf s => inf !s
  | nan => nan

/-- Whether the sign is negative. -/
def isNegative : F64 → Bool
  | finite q => q < 0
  | inf s => s
  | nan => false

section Arithmetic

variable (round : ℚ → F64)

def add : F64 → F64 → F64
  | finite a, finite b => round (a + b)
  | finite _, inf s => inf s
  | inf s, finite _ => inf s
  | inf s, inf t => if s = t then inf s else nan
  | _, _ => nan

def sub (a b : F64) : F64 := add round a b.neg

def mul : F64 → F64 → F64
  | finite a, finite b => round (a * b)
  | nan, _ => nan
  | _, nan => nan
  | a, b => if a = finite 0 ∨ b = finite 0 then nan else inf (a.isNegative != b.isNegative)

def div : F64 → F64 → F64
  | finite a, finite b =>
    if b = 0 then if a = 0 then nan else inf (a < 0) else round (a / b)
  | inf s, finite b => inf (s != decide (b < 0))
  | finite _, inf _ => finite 0
  | _, _ => nan

end Arithmetic

/-- `<`, which no NaN satisfies. -/
def lt : F64 → F64 → Bool
  | finite a, finite b => a < b
  | finite _, inf s => !s
  | inf s, finite _ => s
  | inf s, inf t => s && !t
  | _, _ => false

/-- `f64::max`, which prefers a number to a NaN. -/
def max : F64 → F64 → F64
  | nan, b => b
  | a, nan => a
  | a, b => if a.lt b then b else a

/-- `f64::clamp`, which keeps a NaN. -/
def clamp (a lo hi : F64) : F64 := if a.lt lo then lo else if hi.lt a then hi else a

/-- `Value::from`: only a finite float is a number. -/
def toJson : F64 → Json
  | finite q => Json.ofRat q
  | _ => .null

end F64

/-- Float arithmetic whose results are all finite, and floats that pass through text. -/
structure Floats where
  /-- The float a result is rounded to. -/
  round : ℚ → ℚ
  /-- The float that is read where a float was printed. -/
  reread : ℚ → ℚ

namespace Floats

/-- Numbers that are neither rounded nor changed by printing them. -/
def exact : Floats := ⟨id, id⟩

/-- Floats of 64 bits that go through the text of `serde_json`. -/
def binary64 : Floats := ⟨RustStd.roundF64, RustStd.rereadF64⟩

variable (floats : Floats)

def add (a b : ℚ) : ℚ := floats.round (a + b)

def mul (a b : ℚ) : ℚ := floats.round (a * b)

@[simp] theorem exact_round (q : ℚ) : exact.round q = q := rfl

@[simp] theorem exact_reread (q : ℚ) : exact.reread q = q := rfl

@[simp] theorem exact_add (a b : ℚ) : exact.add a b = a + b := rfl

@[simp] theorem exact_mul (a b : ℚ) : exact.mul a b = a * b := rfl

@[simp] theorem reread_exact (j : Json) : j.reread exact.reread = j := Json.reread_id j

end Floats

end Protheus
