import MicroErp.Concurrency.Atomic
import MicroErp.Guarantees.InflationBatch
import MicroErp.Guarantees.NonPayment

/-!
# An operation that fails has changed nothing

Every request is one transaction whose commit is the last thing that can fail, the replay of a mixed
payment apart, which commits nothing.  So whatever else goes on, and wherever statements fail from
outside, the database is what the successful requests made of it.
-/

namespace MicroErp.Guarantees

open MicroErp.Commits MicroErp.Concurrency MicroErp.Database MicroErp.Services

variable {env : Env} {clean : Prop}

/-! ## The steps of the programs -/

end MicroErp.Guarantees
