import Sprig.Diagnostic
import Sprig.Eval
import Sprig.Program.Grammar

/-!
# Running a script
-/

namespace Sprig

namespace Script

/-- How a script ended: whether all went well, the console after it, and the report if not. -/
structure Outcome where
  success : Bool
  console : Console
  report : Option Report

def run (fuel : Nat) (source : String) (filename : Option String) (console : Console) : Outcome :=
  let failed (f : Fault) (console : Console) : Outcome := ⟨false, console, f.diagnostic.about source filename⟩
  match Program.ofSource source with
  | .error f => failed f console
  | .ok p =>
    match (Machine.start console).run fuel p.scopes p.body with
    | .ok () m => ⟨true, m.console, none⟩
    | .error (.fault f) m => failed f m.console
    | .error .outOfFuel m => ⟨false, m.console, none⟩

end Script

end Sprig
