/-
Running managed code and serving its requests.
-/
import Strands.Step.Dispatch
import Strands.Step.Stop

namespace Strands

variable {W : Type}

namespace Request

/-- Serve a request: answer it, or begin with what it takes to answer it. -/
def serve (client : Client W) (sight : Sight) (s : Shared W) :
    Request → Progress W
  | view future =>
    { shared := s
      frames :=
        match s.futures.get? future with
        | some { kept := false, .. } | none => [.deliver .unknown]
        | some f => [.deliver (.view f.view)] }
  | wait future =>
    { shared := s
      frames := if s.hasHandle future then [.awaitFuture future] else [.deliver .unknown] }
  | waitAtMost future milliseconds =>
    { shared := s
      frames :=
        if s.hasHandle future then [.awaitFutureAtMost future milliseconds]
        else [.deliver .unknown] }
  | forget future =>
    { shared := s.modifyFuture future Future.forget
      frames := [.deliver (.flag (s.isPending future && !sight.mentions future))] }
  | call receiver strand method args =>
    { shared := s
      frames := [.running (.call receiver args) (client.call receiver strand method args)] }
  | query object => { shared := s, frames := [.query object .client] }
  | keep object =>
    { shared := { s with kept := s.kept ++ [object] }, frames := [.deliver .done] }
  | drop object =>
    { shared := { s with kept := s.kept.erase object }, frames := [.deliver .done] }
  | registerListener listener =>
    { shared := { s with registry := s.registry.register listener }
      frames := [.deliver .done] }
  | deregisterListener listener =>
    { shared := { s with registry := s.registry.deregister listener }
      frames := [.deliver .done] }
  | listeners => { shared := s, frames := [.deliver (.objects s.registry.listeners)] }
  | handlerCount => { shared := s, frames := [.deliver (.number s.registry.handlers.length)] }
  | inFlight => { shared := s, frames := [.deliver (.number s.gauges.inFlight)] }
  | queued => { shared := s, frames := [.deliver (.number s.gauges.queued)] }
  | groupCount => { shared := s, frames := [.deliver (.number s.gauges.groups)] }
  | isShutDown => { shared := s, frames := [.deliver (.flag s.gauges.isShutDown)] }
  | sweep =>
    let swept := s.sweep sight.isAlive
    { shared := swept, frames := [.deliver (.number (s.table.size - swept.table.size))] }
  | gracefulStop => { shared := s, frames := [.takeHandlers false] }
  | stop => { shared := s, frames := [.takeHandlers true] }
  | shutdown => { shared := s, frames := [.shutdown, .deliver .done] }
  | takeHandle =>
    if s.handles = 0 then { shared := s, frames := [.deliver (.flag false)] }
    else { shared := { s with handles := s.handles + 1 }, frames := [.deliver (.flag true)] }
  | dropHandle => { shared := s, frames := [.dropHandle, .deliver .done] }

end Request

namespace Role

def ended (client : Client W) (s : Shared W) (result : Except Panic Outcome) :
    Role W → Progress W
  | task job =>
    { shared := s
      frames := [.settle job.future (job.task.conclude (Outcome.ofEnd result)), .leave] }
  | continuation =>
    { shared := s
      frames :=
        match result with
        | .ok _ => [.deliver .done]
        | .error panic => [.deliver (.panicked panic)] }
  | handler stopping =>
    let report := stopping.report.afterHandler (Outcome.ofEnd result)
    { shared := s, frames := [.runHandlers { stopping with report }] }
  | query object site =>
    match result with
    | .ok _ => site.answered s object (client.typeOf object s.world)
    | .error panic => { shared := s, frames := site.panicked object panic }
  | call _ _ =>
    { shared := s
      frames :=
        match result with
        | .ok outcome => [.deliver (.outcome (some outcome))]
        | .error panic => [.deliver (.panicked panic)] }
  | thread => { shared := s }
  | callback _ => { shared := s }
  | continued => { shared := s }

end Role

namespace Code

def step (client : Client W) (sight : Sight) (late : Bool) (s : Shared W) (role : Role W) :
    Code W → Option (Progress W)
  | finish outcome => some (role.ended client s (.ok outcome))
  | panic payload => some (role.ended client s (.error payload))
  | act update next =>
    some
      { shared := { s with world := update s.world }
        frames := [.running role (next s.world)] }
  | await ready next =>
    if ready s.gauges s.world then some { shared := s, frames := [.running role next] } else none
  | awaitAtMost _ ready next =>
    if ready s.world then some { shared := s, frames := [.running role (next true)] }
    else if late then some { shared := s, frames := [.running role (next false)] }
    else none
  | ask request next =>
    let served := request.serve client sight s
    some { served with frames := served.frames ++ [.waiting role next] }
  | create spec callback next =>
    some
      { shared := s.addFuture spec (.client callback)
        frames := [.deliver (.future s.futures.nextId), .waiting role next] }
  | schedule place work future next =>
    some
      { shared := s
        frames :=
          [if s.hasHandle future then
              .claim { place, task := .work work, future, asker := .client future }
            else .deliver .unknown,
            .letGo place.held, .waiting role next] }
  | invoke mode invocation callback next =>
    some
      { shared := s
        frames := invocation.dispatch mode callback ++ [.waiting role next] }
  | resolve receiver method args parent continuation next =>
    some
      { shared := s
        frames :=
          [.query receiver
              (.omitted { receiver, method, args, parent, next := .client continuation }),
            .letGo (.ofObject receiver ++ .ofParent parent),
            .waiting role next] }
  | addHandler handler next =>
    some
      { shared := { s with registry := s.registry.addHandler handler }
        frames := [.running role next] }
  | spawn thread next =>
    some { shared := s, frames := [.running role next], spawned := [thread] }

end Code
end Strands
