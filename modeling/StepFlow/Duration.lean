import StepFlow.Binary64.Shortest

/-!
# Durations

Spans of time in whole nanoseconds.
-/

namespace StepFlow

abbrev Duration := Nat

namespace Duration

def ofSeconds (n : Nat) : Duration := n * 1000000000

def ofMillis (n : Nat) : Duration := n * 1000000

/-- The whole milliseconds. -/
def toMillis (d : Duration) : Nat := d / 1000000

/-- The whole milliseconds as a 64-bit word, beyond which they wrap around. -/
def toMillisWord (d : Duration) : Nat := d.toMillis % Nat.pow 2 64

/-- The longest span that a timer follows: thirty years of 365 days. -/
def timerLimit : Duration := ofSeconds (30 * 365 * 86400)

/-- What a timer makes of a span: it goes off after `timerLimit` at the latest. -/
def onTimer (d : Duration) : Duration := min d timerLimit

/-- The seconds as a double: the whole ones and the fraction, each rounded, and their sum. -/
def toBinary64 (d : Duration) : Binary64 :=
  let whole := Binary64.ofInt (d / 1000000000 : Nat)
  let fraction := ((Binary64.ofInt (d % 1000000000 : Nat)).div (.ofInt 1000000000)).getD .zero
  (whole.add fraction).getD whole

/-- The seconds in decimal. -/
def secondsText (d : Duration) : String := (toBinary64 d).renderPlain

end Duration

end StepFlow
