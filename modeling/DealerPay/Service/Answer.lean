import DealerPay.Json.Printer
import DealerPay.Json.Reader
import DealerPay.Pay.Milestone
import DealerPay.Pay.Preview
import DealerPay.Plan.Basic
import DealerPay.Service.Endpoint
import DealerPay.Service.Request
import DealerPay.Service.Settings

/-!
# Answers

What the service answers to a request.

* `Call` is a request as it comes in, `Body` what it carries, `Response` the answer.
* `answer` finds the endpoint, reads the body and does what is asked for, noting it down.

A body that cannot be read is answered with all of its faults, a plan that is refused with the
refusal. Where arithmetic has no result, or an answer cannot be written, the answer says no more than
that something went wrong. What an answer repeats of the request may be something that is read but
not written: half of a character, or an infinity.
-/

namespace DealerPay.Service

open Journal (Noted Entry)

/-! ## Calls and responses -/

/-- What a request carries. -/
inductive Body where
  /-- Nothing. -/
  | absent
  /-- Data. -/
  | data (v : Value)
  /-- A text that should be data. -/
  | text (s : String)
deriving Repr

/-- A request as it comes in. -/
structure Call where
  /-- The word for the method. -/
  method : String
  /-- The path. -/
  path : String
  /-- What it carries. -/
  body : Body
deriving Repr

/-- An answer. -/
structure Response where
  /-- The number that says how it went. -/
  status : Nat
  /-- What it carries. -/
  body : Value
deriving Repr

namespace Response

/-- An answer that says what is wrong with the call. -/
def detail (status : Nat) (v : Value) : Response := ⟨status, .object [("detail", v)]⟩

/-- There is nothing at the path. -/
def notFound : Response := detail 404 (.text "Not Found")

/-- There is something at the path, but not for this method. -/
def methodNotAllowed : Response := detail 405 (.text "Method Not Allowed")

/-- The body cannot be told apart from its text. -/
def unparsed : Response := detail 400 (.text "There was an error parsing the body")

/-- An answer that says why something was not done. -/
def notOk (status : Nat) (error : String) (more : Fields) : Response :=
  ⟨status, .object ([("ok", .bool false), ("error", .text error)] ++ more)⟩

/-- Something went wrong that is not the caller's to know. -/
def internal : Response := notOk 500 "Internal error" []

/-- An answer as it is sent. -/
def sent (r : Response) : Response := if Json.isWritable r.body then r else internal

/-- The answer to a request that could be done. -/
def ok (body : Value) : Response := sent ⟨200, body⟩

/-- The body has these faults. They are told only where all that was found in their places can be
written as well. -/
def faulty (faults : List Fault) : Response :=
  if faults.all fun f => Json.isWritable f.found then
    detail 422 (.list (faults.map Fault.toValue))
  else internal

/-- A plan is refused. -/
def rejected (e : PlanError) : Response :=
  sent (notOk 422 e.detail
    ([("index", match e.position with | some i => .int i | none => .null)]
      ++ match e.consultant with | some name => [("consultant", .text name)] | none => []))

/-- There are more consultants than are looked at together. -/
def tooMany (count : Nat) (most : Int) : Response :=
  notOk 413
    ("Too many consultants (" ++ toString count ++ " > " ++ toString most ++ ")") []

end Response

/-! ## Bodies -/

/-- The name under which the service notes things down. -/
def author : String := "main"

/-- The name of the body in the place of a fault. -/
def bodyStep : Step := .field "body"

/-- How deep lists and objects may stand inside each other in a body. -/
def deepestBody : Nat := 960

/-- The data that the text of a body spells, or the answer where it spells none. -/
def Body.parse (s : String) : Except Response Value :=
  match (Text.reread? (Text.points s)).map (Json.parsePoints deepestBody) with
  | some (.ok v) => .ok v
  | some (.error (.malformedAt position)) =>
    .error (.faulty [⟨[bodyStep, .item position], .malformedData, .null⟩])
  | _ => .error .unparsed

/-- The data of a body, or the answer where there is none. The absent value is data; only an empty
body is missing. -/
def Body.value (b : Body) : Except Response Value :=
  let missing := Response.faulty [⟨[bodyStep], .missing, .null⟩]
  match b with
  | .absent => .error missing
  | .data v => .ok v
  | .text s => if s.isEmpty then .error missing else Body.parse s

/-- The answer that goes on with what a body reads as. -/
def withBody {α : Type} (b : Body) (read : Value → Reading α) (next : α → Noted Response) :
    Noted Response :=
  match b.value with
  | .error r => pure r
  | .ok v =>
    match (read v).within bodyStep with
    | .accepted a => next a
    | .refused first rest => pure (.faulty (first :: rest))
    | .halted _ => pure .internal

/-! ## Plans -/

/-- What is noted down of a plan that is refused. -/
def rejectionNote (path : String) (e : PlanError) : Entry :=
  ⟨author, .info, "Rejected pay plan at " ++ path ++ ": " ++ e.message⟩

/-- The answer where a plan is refused. -/
def reject (path : String) (e : PlanError) : Noted Response :=
  ⟨.rejected e, [rejectionNote path e]⟩

/-- The answer that goes on with the plan of these rules. -/
def withPlan (s : Settings) (path : String) (rules : List Rule) (next : Plan → Noted Response) :
    Noted Response := do
  match ← Plan.start s.strict rules with
  | .ok p => next p
  | .error e => reject path e

/-- The answer with a result, if there is one. -/
def ofResult {ε α : Type} (f : α → Value) : Except ε α → Response
  | .ok a => .ok (f a)
  | .error _ => .internal

/-! ## What can be asked for -/

namespace Answer

/-- The pay for a period. -/
def calculate (s : Settings) (path : String) (a : Assignment) : Noted Response :=
  withPlan s path a.rules fun p => do
    return ofResult Breakdown.toValue (← p.run a.deals)

/-- The pay for one deal. -/
def preview (s : Settings) (path : String) (r : PreviewRequest) : Noted Response :=
  withPlan s path r.rules fun p =>
    pure (ofResult (fun d => .object [("commission", .ofDecimal d)]) (p.preview r.deal))

/-- What is answered to a projection: the breakdown, an estimate beside it, and the milestones. -/
def projectionReport (r : ProjectionRequest) (b : Breakdown) : Except Failure Value := do
  let estimate ← simpleEstimate (.ofDecimal r.projection.units) (.ofDecimal r.average)
  let milestones ← b.milestones
  return .object
    [("breakdown", b.toValue),
     ("simple_estimate", .ofDecimal estimate),
     ("milestones", .list (milestones.map .text))]

/-- The pay for a number of units. -/
def project (s : Settings) (path : String) (r : ProjectionRequest) : Noted Response :=
  withPlan s path r.rules fun p => do
    match ← p.runProjection r.projection with
    | .ok b => return ofResult id (projectionReport r b)
    | .error _ => return .internal

/-- Whether a plan is accepted, and what is to be said of it. -/
def validate (s : Settings) (path : String) (r : CheckRequest) : Noted Response :=
  withPlan s path r.rules fun p =>
    pure (.ok (.object
      [("ok", .bool true),
       ("warnings", .list (p.warnings.map .text)),
       ("plan", .list p.toValues)]))

/-- What is noted down of a rollup. -/
def rollupNote (count : Nat) : Entry :=
  ⟨author, .info, "Rollup evaluated " ++ toString count ++ " consultant(s)"⟩

/-- The pay of several consultants, if they are not too many. -/
def rollup (s : Settings) (path : String) (r : RollupRequest) : Noted Response :=
  if s.maxRollup < r.consultants.length then
    pure (.tooMany r.consultants.length s.maxRollup)
  else do
    match ← DealerPay.rollup .together s.strict r.consultants with
    | .ok paid =>
      Noted.note [rollupNote paid.length]
      return .ok (.object (paid.map fun (name, b) => (name, b.toValue)))
    | .error (.plan e) => reject path e
    | .error (.failure _) => return .internal

/-- The standard rule of a kind. -/
def standardRule (kind : String) : Response :=
  match Rule.standardNamed (.text kind) with
  | .ok r => .ok r.toValue
  | .error e => .detail 404 (.text e.detail)

end Answer

/-! ## Calls -/

/-- What an endpoint answers to a body. -/
def Endpoint.answer (s : Settings) (b : Body) (e : Endpoint) : Noted Response :=
  match e with
  | .health => pure (.ok (.object [("ok", .bool true)]))
  | .calculate =>
    withBody b (Assignment.ofValue .request Assignment.calculationName) (Answer.calculate s e.path)
  | .preview => withBody b (PreviewRequest.ofValue .request) (Answer.preview s e.path)
  | .project => withBody b (ProjectionRequest.ofValue .request) (Answer.project s e.path)
  | .validate => withBody b (CheckRequest.ofValue .request) (Answer.validate s e.path)
  | .rollup => withBody b (RollupRequest.ofValue .request) (Answer.rollup s e.path)
  | .standard kind => pure (Answer.standardRule kind)

/-- What the service answers to a call. -/
def answer (s : Settings) (c : Call) : Noted Response :=
  match Endpoint.ofPath? c.path with
  | none => pure .notFound
  | some e => if c.method = e.method.text then e.answer s c.body else pure .methodNotAllowed

end DealerPay.Service
