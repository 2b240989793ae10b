import LuaView.Command.Run
import LuaView.Proofs.Command.Arguments
import LuaView.Proofs.Command.Writing
import LuaView.Proofs.Lexing.Partition

/-!
# A run is all or nothing

A run either fails, and then it prints one message and leaves the disk as it was, or it does what
its arguments ask for.  The job is done step by step, and nothing is written or printed before the
last step that can fail.
-/

namespace LuaView
namespace Command

-- the input and the output can be one file, named from the root and from the working directory
example :
    let disk : Disk := Disk.add ⟨[], ["home"]⟩ ["home", "a"] (.file "return 1".toUTF8)
    (run ["/home/a", "-f", "text"] disk).1 = Report.success "return 1\n" ∧
      (run ["/home/a", "-f", "json", "-o", "./a"] disk).1 = Report.success "" := by
  decide +kernel

end Command
end LuaView
