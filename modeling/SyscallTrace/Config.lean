/-!
# Configuration of the detection

The two choices that detecting the columns of a trace leaves open.
-/

namespace SyscallTrace

structure Config where
  /-- A timestamp of more seconds than this counts from the epoch, any other one from the previous
  call. The default is a moment in June 2013. -/
  epochThreshold : Int := 1371488434
  /-- Traces with abbreviated structures are refused. -/
  requireVerbose : Bool := true
  deriving DecidableEq

end SyscallTrace
