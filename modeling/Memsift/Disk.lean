/-!
# Disks

What the library asks of the place where files are kept.
-/

namespace Memsift

/-- Access to files by their paths. -/
structure Disk (m : Type → Type) where
  /-- Whether there is a file or a folder. -/
  contains : String → m Bool
  /-- The content of a file. -/
  read? : String → m (Option ByteArray)
  /-- Replaces a file, or makes it; whether that worked. -/
  write : String → ByteArray → m Bool
  /-- Adds to the end of a file, which is made together with the folders on its path; whether that worked. -/
  append : String → ByteArray → m Bool

end Memsift
