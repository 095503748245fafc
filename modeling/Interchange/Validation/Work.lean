import Interchange.Validation.Outcome
/-!
Checks as units of work that may have to wait. A unit ends with an outcome; on the way it may be
polled in vain, call a validator, or join other units. A join waits for all of its units and
merges their reports in the order of the units, whatever order they finish in, so running
them one after the other gives the report of every other schedule.
-/
namespace Interchange

-- One invocation of a validator; a field checked on its own has no owner.
structure Call (Entity : Type) where
  owner : Option Entity
  field : String
  argument : Value

inductive Work (Entity : Type) where
  | done (outcome : Outcome)
  | wait (next : Work Entity)
  | call (made : Call Entity) (next : Work Entity)
  | join (units : List (Site × Work Entity)) (next : Report → Work Entity)

namespace Work

variable {Entity : Type}

/-- Polls a unit in vain a number of times before it goes on. -/
def waiting : Nat → Work Entity → Work Entity
  | 0, next => next
  | polls + 1, next => .wait (waiting polls next)

-- The outcome of a unit and its validator calls, in the order of one unit after the other.
mutual
def run (calls : List (Call Entity)) : Work Entity → Outcome × List (Call Entity)
  | .done outcome => (outcome, calls)
  | .wait next => run calls next
  | .call made next => run (made :: calls) next
  | .join units next =>
    let joined := runAll calls .empty units
    run joined.2 (next joined.1)
termination_by structural work => work
def runAll (calls : List (Call Entity)) (report : Report) :
    List (Site × Work Entity) → Report × List (Call Entity)
  | [] => (report, calls)
  | (site, unit) :: rest =>
    let ended := run calls unit
    runAll ended.2 (report.merge (ended.1.report site)) rest
termination_by structural units => units
end

end Work

/-- Joins units: their merged report and the validator calls made for it. -/
def joinUnits {Entity : Type} (units : List (Site × Work Entity)) : Report × List (Call Entity) :=
  let joined := Work.runAll [] .empty units
  (joined.1, joined.2.reverse)

end Interchange
