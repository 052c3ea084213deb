namespace SccDispatch

structure Duration where
  seconds : UInt64 := 0
  nanos : UInt32 := 0
  deriving DecidableEq, Repr

namespace Duration

/-- Whole microseconds, as far as a word holds them. -/
def micros (d : Duration) : UInt64 :=
  UInt64.ofNat (1000000 * d.seconds.toNat + d.nanos.toNat / 1000)

/-- In nanoseconds. -/
def total (d : Duration) : Nat := 1000000000 * d.seconds.toNat + d.nanos.toNat

/-- The span from an earlier time; nothing if it is a later one. -/
def since (d earlier : Duration) : Duration :=
  let nanos := d.total - earlier.total
  ⟨UInt64.ofNat (nanos / 1000000000), UInt32.ofNat (nanos % 1000000000)⟩

end Duration

end SccDispatch
