import RequestQuery.Plan

/-!
# Events

What the library reports of its work: requests compiled, requests turned down, and statements run.
An event is a list of named texts, the name of the event itself under `message`.
-/

namespace RequestQuery

/-- Something to report. -/
inductive Event where
  | compiled (resource : String) (plan : Plan)
  | rejected (resource : String) (reason : Rejection)
  | queried (dialect : Sql.Dialect) (statement : Sql.Statement)

namespace Event

/-- The event of compiling a request for a resource. -/
def ofOutcome (resource : String) : Except Rejection Plan → Event
  | .ok plan => .compiled resource plan
  | .error reason => .rejected resource reason

/-- The word for a shape. -/
def shapeWord : Plan.Shape → String
  | .collection => "Collection"
  | .entity => "Entity"

/-- The text of an optional number. -/
def optional : Option UInt32 → String
  | none => "None"
  | some n => s!"Some({n.toNat})"

/-- The fields of an event. -/
def fields : Event → List (String × String)
  | compiled resource plan =>
    [("message", "restq.compile"),
      ("resource", resource),
      ("shape", shapeWord plan.shape),
      ("filtered", toString plan.predicate.isSome),
      ("sort", toString plan.sort.length),
      ("limit", optional plan.limit),
      ("expand", plan.eager?.getD ""),
      ("count", toString plan.wantCount)]
  | rejected resource reason =>
    [("message", "restq.reject"),
      ("resource", resource),
      ("code", reason.code),
      ("param", reason.param),
      ("error", reason.message)]
  | queried dialect statement =>
    [("message", "restq.query"),
      ("dialect", dialect.name),
      ("sql", statement.text),
      ("params", toString statement.params.length)]

end Event

end RequestQuery
