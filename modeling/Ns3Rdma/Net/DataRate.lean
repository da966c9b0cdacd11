import Mathlib.Algebra.Order.Floor.Semifield
import Mathlib.Data.Rat.Floor
import Ns3Rdma.Net.Packet

/-! # Data rates

A rate is a number of bits per second. The operators compute with doubles, read here as
exact rationals, and truncate when the result is stored. -/

namespace Ns3Rdma

namespace DataRate

/-- `operator*`, with a double on either side. -/
def mul (d : Nat) (c : ℚ) : Nat := ⌊(d : ℚ) * c⌋₊

/-- `operator/` and `operator/=`. -/
def div (d : Nat) (c : ℚ) : Nat := ⌊(d : ℚ) / c⌋₊

/-- Seconds needed to send so many bytes. The source divides doubles, and `Seconds ()` then truncates
the time to a nanosecond; nothing here depends on the last nanosecond of a time. -/
def calculateTxTime (d : Nat) (bytes : Nat) : ℚ := bytes * 8 / d

theorem mul_natCast (d : Nat) (n : Nat) : mul d n = d * n := by
  rw [mul, ← Nat.cast_mul, Nat.floor_natCast]

theorem div_natCast (d : Nat) (n : Nat) : div d n = d / n :=
  Nat.floor_div_eq_div d n

/-- Scaling a rate down and truncating does not raise it. -/
theorem mul_le (d : Nat) {c : ℚ} (hc : c ≤ 1) : mul d c ≤ d := by
  have hscaled : (d : ℚ) * c ≤ d := mul_le_of_le_one_right (Nat.cast_nonneg d) hc
  calc
    ⌊(d : ℚ) * c⌋₊ ≤ ⌊(d : ℚ)⌋₊ := Nat.floor_mono hscaled
    _ = d := Nat.floor_natCast d

end DataRate

/-- `Seconds (x)`, in nanoseconds. -/
def seconds (x : ℚ) : Nat := ⌊x * 1000000000⌋₊

/-- `MicroSeconds (x)`, in nanoseconds. -/
def microSeconds (x : Nat) : Nat := x * 1000

end Ns3Rdma
