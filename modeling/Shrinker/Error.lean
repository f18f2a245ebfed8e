import Shrinker.Bytecode.Codec
import Shrinker.Lens.Record
import Shrinker.Options.Basic
import Shrinker.Program.Broken

namespace Shrinker

open Bytecode Program

inductive Error where
  | decode (cause : DecodeError)
  | lens (cause : Lens.RecordError)
  | options (cause : Options.OptionsError)
  | brokenProgram (cause : BrokenProgram)
  | analysis (name : String) (cause : Error)
  | alreadyTraced
  deriving DecidableEq, Repr

namespace Error

def message : Error → String
  | decode cause => "Malformed instruction: " ++ cause.message
  | lens cause => "Lens error: " ++ cause.message
  | options cause => "Configuration error: " ++ cause.message
  | brokenProgram cause => cause.message
  | analysis name cause => s!"Analysis '{name}' failed: " ++ cause.message
  | alreadyTraced => "Enqueuer has already traced this program"

end Error

end Shrinker
