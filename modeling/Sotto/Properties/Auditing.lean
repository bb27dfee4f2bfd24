import Sotto.Properties.Membership

/-!
# What the audit log records

Every committed transaction that changes what an organisation holds records an event of it that
names who made the request, unless it is a final purge or one of the requests that do not record
what they change. Events stay as they are.
-/

namespace Sotto

namespace Org

open Core (Ident)
open Sessions (Entry)
open Sessions.Discipline

variable {ι : Type} [DecidableEq ι] {w : Situation ι}

end Org

end Sotto
