import LittleComputer.Assembly.Listing
import LittleComputer.CommandLine.Outcome

/-!
# Assembling from the command line

Assembling a source prints its listing and, if that is asked for, its labels.
-/

namespace LittleComputer.CommandLine

structure AssembleOptions where
  /-- Whether the source has to set its address. -/
  strict : Bool := false
  /-- Whether labels are shown. -/
  symbols : Bool := false
deriving DecidableEq, Repr

/-- Assemble a source that has to set its address if that is strict. -/
def assembleSource (strict : Bool) (source : String) : Except Assembly.Error Program :=
  Assembly.assemble { requireOrigin := strict } source

/-- What is reported about an assembled program. -/
def assembled (p : Program) : Log :=
  ⟨.info, some "Assembled program",
    [("origin", .number p.origin.toNat), ("words", .number p.words.length)]⟩

def assemble (options : AssembleOptions) (source : String) : Outcome :=
  match assembleSource options.strict source with
  | .error e => .ofError source e
  | .ok p =>
    let symbols := if options.symbols then [.text "\n", .text p.symbolTable] else []
    { outputs := .log (assembled p) :: .text p.listing :: symbols }

end LittleComputer.CommandLine
