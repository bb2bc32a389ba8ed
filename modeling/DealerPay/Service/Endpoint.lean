/-!
# Endpoints

The addresses of the service.

* `Endpoint` lists what can be asked for, `Endpoint.ofPath?` finds it by its path `Endpoint.path`.
* `Method` is the way in which a request is made; each endpoint answers one.
-/

namespace DealerPay.Service

/-- What can be asked for. -/
inductive Endpoint where
  /-- Whether the service is there. -/
  | health
  /-- The pay for a period. -/
  | calculate
  /-- The pay for one deal. -/
  | preview
  /-- The pay for a number of units. -/
  | project
  /-- Whether a plan is accepted. -/
  | validate
  /-- The pay of several consultants. -/
  | rollup
  /-- The standard rule of a kind. -/
  | standard (kind : String)
deriving DecidableEq, Repr

/-- The methods that the service answers. -/
inductive Method where
  /-- Asks for what is there. -/
  | get
  /-- Hands over a body. -/
  | post
deriving DecidableEq, Repr

/-- The word for a method. -/
def Method.text : Method → String
  | get => "GET"
  | post => "POST"

namespace Endpoint

/-- The method that an endpoint answers. -/
def method : Endpoint → Method
  | health => .get
  | standard _ => .get
  | _ => .post

/-- What the path of a standard rule starts with. -/
def standardPath : String := "/api/payplan/defaults/"

/-- The path of an endpoint. -/
def path : Endpoint → String
  | health => "/health"
  | calculate => "/api/payplan/calculate"
  | preview => "/api/payplan/preview"
  | project => "/api/payplan/project"
  | validate => "/api/payplan/validate"
  | rollup => "/api/payplan/rollup"
  | standard kind => standardPath ++ kind

/-- The endpoints whose path is fixed. -/
def fixed : List Endpoint := [health, calculate, preview, project, validate, rollup]

/-- The characters of a path without a line break at its end. -/
def withoutBreak (path : List Char) : List Char :=
  if path.getLast? = some '\n' then path.dropLast else path

/-- The kind at the end of the path of a standard rule: one more part, which is not empty. -/
def kindOf? (path : List Char) : Option String :=
  let front := standardPath.toList
  if front.isPrefixOf path then
    let kind := path.drop front.length
    if kind.isEmpty || kind.contains '/' then none else some (String.ofList kind)
  else none

/-- The endpoint at a path. A line break behind a fixed path is not part of it. -/
def ofPath? (path : String) : Option Endpoint :=
  let cs := path.toList
  match fixed.find? fun e => e.path.toList == withoutBreak cs with
  | some e => some e
  | none => (kindOf? cs).map standard

/-- A fixed path leads to its endpoint. -/
theorem ofPath?_path_of_mem_fixed : ∀ e ∈ fixed, ofPath? e.path = some e := by
  decide +kernel

end Endpoint

end DealerPay.Service
