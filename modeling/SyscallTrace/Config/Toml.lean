import SyscallTrace.Catalog.Toml
import SyscallTrace.Config
import SyscallTrace.Decimal

/-!
# Configurations from TOML

A configuration file may set the two choices of a `Config`. Keys with other names do not count.
-/

namespace SyscallTrace

/-- Reads a configuration. The threshold fits a signed word of 64 bits. -/
def Config.ofToml? (t : Text) : Option Config := do
  match ← (← Toml.parse? t).parts? ["epoch-threshold".toList, "require-verbose".toList] with
  | [threshold, verbose] =>
    let threshold ← Toml.optional? (·.integer?.filter Decimal.fitsInt64) threshold
    let verbose ← Toml.optional? Toml.Value.boolean? verbose
    let standard : Config := {}
    some ⟨threshold.getD standard.epochThreshold, verbose.getD standard.requireVerbose⟩
  | _ => none

end SyscallTrace
