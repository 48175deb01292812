import Ferrex.Lib.Text

/-
  Durations from the environment: whole seconds, with a
  default for what is no number, and for some a cap.

  Main declarations:
    * `parseU64`, `parseSecs`
    * `envDuration`
-/

------------------------------------------------------------
-- Numbers
------------------------------------------------------------

namespace Ferrex

namespace Daemon

inductive IntErrorKind
| empty
| invalidDigit
| posOverflow
deriving DecidableEq

def IntErrorKind.display : IntErrorKind → String
| .empty => "cannot parse integer from empty string"
| .invalidDigit => "invalid digit found in string"
| .posOverflow => "number too large to fit in target type"

/- The digits from the left, with checked arithmetic. -/
def parseDigits : Nat → List Char → Except IntErrorKind Nat
| acc, [] => .ok acc
| acc, c :: cs =>
    if 48 ≤ c.toNat ∧ c.toNat ≤ 57 then
      if acc * 10 + (c.toNat - 48) < 2 ^ 64 then
        parseDigits (acc * 10 + (c.toNat - 48)) cs
      else
        .error .posOverflow
    else
      .error .invalidDigit

/- A `u64` may have a plus sign, but not a sign alone. -/
def parseU64 (text : String) : Except IntErrorKind Nat :=
  match text.toList with
  | [] => .error .empty
  | ['+'] => .error .invalidDigit
  | '+' :: cs => parseDigits 0 cs
  | cs => parseDigits 0 cs

------------------------------------------------------------
-- Seconds
------------------------------------------------------------

/-
  The seconds and the warning that is logged; `quoted` is the
  debug form of a text.
-/
def parseSecs
    (quoted : String → String)
    (raw : Option String)
    (default : Nat)
    (cap : Option Nat) : Nat × Option String :=
  match raw with
  | none => (default, none)
  | some raw =>
      match parseU64 (Text.trim raw) with
      | .ok 0 =>
          (default,
            some ("rejected value " ++ quoted raw ++
              ", using " ++ toString default))
      | .error kind =>
          (default,
            some ("rejected value " ++ quoted raw ++ " (" ++
              kind.display ++ "), using " ++ toString default))
      | .ok secs =>
          match cap with
          | some cap =>
              if cap < secs then
                (cap,
                  some (toString secs ++
                    " is above the cap, using " ++ toString cap))
              else
                (secs, none)
          | none => (secs, none)

/- Nanoseconds, as instants are counted here. -/
def nanosPerSec : Nat := 1000000000

def envDuration
    (quoted : String → String)
    (raw : Option String)
    (defaultSecs : Nat)
    (capSecs : Option Nat) : Nat :=
  (parseSecs quoted raw defaultSecs capSecs).1 * nanosPerSec

end Daemon

end Ferrex
