import Sotto.Library.Interleaved
import Sotto.Properties.Membership

/-!
# The quotas of the free tier

A request judges the tier of an organisation, and counts what it holds, under its lock, and so in
every run what it adds leaves the organisation within its quota. The count is left out for the id of
a project that is in use. If that project is purged with its organisation before the request inserts
its own, the organisation goes over its quota.
-/

namespace Sotto

namespace Org

open Core (Ident Bytes)
open Server (Role freeMaxOrgProjects)
open Sessions (Entry)
open Sessions.Discipline

variable {ι : Type} [DecidableEq ι] {w : Situation ι}

/-- What is left of a request once a command of it has returned. -/
abbrev Rest (α : Type) : Type 1 :=
  Except Server.Error α → Prog (Sessions.Command.Reply (D := Db) (Δ := Change) (K := Lock)
    (ε := Server.Error)) (Except Server.Error Unit)

abbrev Task : Type 1 := Sessions.Task Db Change Lock Server.Error Call Unit

section Schedule

variable {handler : Call → Session Unit} {i : Bool} {db : Db} {log : List (Entry Db Lock Call)}
  {op : Call} {g : Stage Change Lock} {t : Task}
  {G : List (Entry Db Lock Call) → Prop} {α : Type}

/-- From where two sessions are, their turns lead to a log. -/
abbrev Turns (handler : Call → Session Unit) (i : Bool) (db : Db) (log : List (Entry Db Lock Call))
    (t t' : Task) (G : List (Entry Db Lock Call) → Prop) : Prop :=
  discipline.Leads Server.Error.internal handler i db log t t' G

end Schedule

end Org

end Sotto
