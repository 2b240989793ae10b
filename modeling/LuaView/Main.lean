import LuaView.Command.Run

/-!
# The command

Connects a run to the files and streams of the system.
-/

namespace LuaView
namespace Command

/-- The fault that an error of the system stands for. -/
def faultOf : IO.Error → FileFault
  | .noFileOrDirectory .. => .notFound
  | .inappropriateType _ code _ => if code = 20 then .notDirectory else .isDirectory
  | error => .other error.toString

/-- Do a job; what it prints is given back. -/
def perform (job : Job) : IO (Except Failure String) := do
  match ← (IO.FS.readBinFile job.input).toBaseIO with
  | .error error => return .error (.reading job.input (faultOf error))
  | .ok content =>
      match job.markup content with
      | .error failure => return .error failure
      | .ok markup =>
          match job.output with
          | none => return .ok (markup ++ "\n")
          | some path =>
              match ← (IO.FS.writeFile path markup).toBaseIO with
              | .error error => return .error (.writing path (faultOf error))
              | .ok _ => return .ok ""

/-- Print a report and give back the status to exit with. -/
def deliver (report : Report) : IO UInt32 := do
  IO.print report.stdout
  IO.eprint report.stderr
  return UInt32.ofNat report.exit

end Command
end LuaView

open LuaView.Command in
def main (args : List String) : IO UInt32 := do
  match readArguments args with
  | .error failure => deliver (Report.failure failure)
  | .ok none => deliver (Report.success (usage ++ "\n"))
  | .ok (some job) =>
      match ← perform job with
      | .error failure => deliver (Report.failure failure)
      | .ok stdout => deliver (Report.success stdout)
