import Arbor.Format
import Arbor.Grammar
import Arbor.Session

/-!
# Configurations

What can be chosen about parsing and output. The caps on a session may be switched
off, which a configuration writes as zero. The bounds of the grammar always hold.
-/

namespace Arbor

/-- A configuration; the one without any choices made has the values given here. -/
structure Config where
  /-- The most trees on the build stack, or zero for any number. -/
  maxStackDepth : Nat := 1024
  /-- The most entries of the symbol table, or zero for any number. -/
  maxSymbols : Nat := 1024
  maxNesting : Nat := 256
  maxDepth : Nat := 512
  format : Format := .treeviz
  showValues : Bool := true
  deriving DecidableEq

namespace Config

/-- The cap that a number stands for. -/
def cap (n : Nat) : Option Nat := if n = 0 then none else some n

def limits (c : Config) : Limits := ⟨cap c.maxStackDepth, cap c.maxSymbols⟩

def bounds (c : Config) : Bounds := ⟨c.maxNesting, c.maxDepth⟩

end Config

end Arbor
