import LuaView.Command.Arguments

/-!
# A run of the program

A run takes the arguments and a disk and leaves a report and a disk.  The result is written only
after everything that can fail has succeeded, so a failed run changes nothing and prints nothing
but its message.
-/

namespace LuaView
namespace Command

/-- What a run leaves behind besides the disk. -/
structure Report where
  exit : Nat
  stdout : String
  stderr : String
deriving DecidableEq, Repr

namespace Report

/-- The run went well. -/
def success (stdout : String) : Report := ⟨0, stdout, ""⟩

def failure (failure : Failure) : Report := ⟨1, "", "error: " ++ failure.message ++ "\n"⟩

end Report

namespace Job

/-- The output for the content of the input. -/
def markup (job : Job) (content : ByteArray) : Except Failure String :=
  match String.fromUTF8? content with
  | none => .error (.reading job.input .notText)
  | some source =>
      match parse source job.settings.limit with
      | .error error => .error (.rendering job.input error)
      | .ok chunk => .ok (chunk.render job.format job.settings)

/-- Read the input, render it, and write the output to its place. -/
def run (job : Job) (disk : Disk) : Except Failure (String × Disk) := do
  let content ← (disk.read job.input).mapError (.reading job.input)
  let markup ← job.markup content
  match job.output with
  | none => return (markup ++ "\n", disk)
  | some path =>
      let disk ← (disk.write path markup.toUTF8).mapError (.writing path)
      return ("", disk)

end Job

/-- A whole run. -/
def run (args : List String) (disk : Disk) : Report × Disk :=
  match readArguments args with
  | .error failure => (Report.failure failure, disk)
  | .ok none => (Report.success (usage ++ "\n"), disk)
  | .ok (some job) =>
      match job.run disk with
      | .error failure => (Report.failure failure, disk)
      | .ok (stdout, disk) => (Report.success stdout, disk)

end Command
end LuaView
