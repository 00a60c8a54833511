import RecordDispatch.Gate

/-!
# The routes of the HTTP server

The server answers health probes, takes the operator's requests to pause and
to resume everything, and gives out the metrics.  A path that is not served is
not found, and a served path answers one method, besides which `HEAD` asks for
an answer without its body where `GET` is served.
-/

namespace RecordDispatch.Server

/-- The routes. -/
inductive Route
  | index
  | readiness
  | liveness
  | pause
  | resume
  | metrics
deriving DecidableEq

/-- The path of a route. -/
def Route.path : Route → String
  | .index => "/"
  | .readiness => "/_readiness"
  | .liveness => "/_liveness"
  | .pause => "/_pause"
  | .resume => "/_resume"
  | .metrics => "/metrics"

/-- Whether a route is asked by `POST`; the others are asked by `GET`. -/
def Route.isPost : Route → Bool
  | .pause => true
  | .resume => true
  | _ => false

/-- The routes of a server, with or without metrics. -/
def routes (withMetrics : Bool) : List Route :=
  [.index, .readiness, .liveness, .pause, .resume] ++ if withMetrics then [.metrics] else []

/-- A request target without the origin that may stand before the path. -/
def withoutOrigin (target : String) : List Char :=
  match target.splitOn "://" with
  | scheme :: rest :: more =>
    if scheme.toList.all Char.isAlphanum && !scheme.isEmpty then
      (("://".intercalate (rest :: more)).toList).dropWhile fun c => c != '/' && c != '?'
    else target.toList
  | _ => target.toList

/-- The path of a request target.  It is a slash where none is written. -/
def pathOf (target : String) : String :=
  match (withoutOrigin target).takeWhile fun c => c != '?' && c != '#' with
  | [] => "/"
  | path => String.ofList path

/-- An answer of the server. -/
structure Response where
  status : Nat
  /-- The methods that the path answers, if it does not answer this one. -/
  allow : Option String := none
  body : String := ""
deriving DecidableEq

/-- What the server tells. -/
inductive Event
  | pauseRequested
  | resumeRequested
  | answered (method path : String) (status : Nat)

open Report in
instance : Reported Event where
  line?
    | .pauseRequested => some
      { level := .info, source := "server", message := "Global pause requested over HTTP" }
    | .resumeRequested => some
      { level := .info, source := "server", message := "Global resume requested over HTTP" }
    | .answered _ _ _ => none
  measurements
    | .answered method path status =>
      let labels := [("method", method), ("path", path), ("status", toString status)]
      [.count ⟨"http_requests_total", labels⟩ 1,
        .observe ⟨"http_requests_duration_seconds", labels⟩]
    | _ => []

/-- What a route answers, given the text of the metrics. -/
def Route.body (metrics : String) : Route → String
  | .index => "partition dispatcher service"
  | .readiness => "partition dispatcher service"
  | .liveness => "ok"
  | .pause => "pausing"
  | .resume => "resuming"
  | .metrics => metrics

/-- What asking a route does to the gate. -/
def Route.effect (g : Gate) : Route → Gate × List Event
  | .pause => (g.requestPause, [.pauseRequested])
  | .resume => (g.requestResume, [.resumeRequested])
  | _ => (g, [])

/-- Answer a request for a route. -/
def Route.respond (r : Route) (metrics method : String) (g : Gate) :
    Gate × Response × List Event :=
  let asked := if r.isPost then "POST" else "GET"
  if method = asked then
    let (g, events) := r.effect g
    (g, { status := 200, body := r.body metrics }, events)
  else if method = "HEAD" && !r.isPost then (g, { status := 200 }, [])
  else
    let allow := if r.isPost then "POST" else "GET,HEAD"
    (g, { status := 405, allow := some allow }, [])

/-- Answer a request. -/
def respond (withMetrics : Bool) (metrics method target : String) (g : Gate) :
    Gate × Response × List Event :=
  let path := pathOf target
  let (g, response, events) :=
    match (routes withMetrics).find? fun r => r.path = path with
    | some r => r.respond metrics method g
    | none => (g, { status := 404 }, [])
  (g, response, events ++ [.answered method path response.status])

end RecordDispatch.Server
