/-!
# Connection ids

Every connection the server opens gets the next number, starting from 1, and a number is never
given twice: state keyed by a connection id can never be mistaken for a later connection's.
-/

namespace KvServer

/-- A connection, named by a number that is never reused. -/
abbrev ConnId := Nat

end KvServer
