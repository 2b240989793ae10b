import LuaView.Proofs.Command.Paths

/-!
# What a write changes

A write that succeeds puts the content where the path leads to, and nothing else on the disk is
changed: all directories stay directories, so a path leads to the same place as before, and the
content is read back from there.
-/

namespace LuaView
namespace Disk

variable {disk : Disk}
variable {target : Place}

/-! ## One node -/

/-- The disk has the content where the path leads to, and everything else is as it was before. -/
structure IsWritten (disk : Disk) (path : String) (content : ByteArray) (after : Disk) : Prop where
  holds : after.read path = .ok content
  unmoved : after.workingDirectory = disk.workingDirectory
  unchanged : ∃ target, after.walk (after.start path) (parts path) = .ok target ∧
    ∀ other ≠ target, after.lookup? other = disk.lookup? other

end Disk
end LuaView
