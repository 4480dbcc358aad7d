import TexelFlow.Error

/-!
# The lifecycle of an engine

    uninitialized --compile--> compiled --prepare--> ready <--finish-- running
                                                       \-----begin------>

An engine that failed has to compile again; nothing may be compiled while a run is in progress. Any
phase may fail.
-/

namespace TexelFlow

/-- Where an engine stands. -/
inductive Phase where
  /-- Nothing is compiled. -/
  | uninitialized
  /-- A graph is compiled. -/
  | compiled
  /-- Everything a run needs is prepared. -/
  | ready
  /-- A run is in progress. -/
  | running
  /-- The device failed. -/
  | failed
  deriving DecidableEq, Repr

/-- What happens to an engine. -/
inductive Event where
  /-- A graph is compiled. -/
  | compile
  /-- A run is prepared. -/
  | prepare
  /-- A run begins. -/
  | begin
  /-- A run finishes. -/
  | finish
  /-- The device fails. -/
  | fail
  deriving DecidableEq, Repr

/-- Name of an event in messages. -/
def Event.action : Event → String
  | .compile => "compile"
  | .prepare => "prepare"
  | .begin => "run"
  | .finish => "finish a run"
  | .fail => "fail"

namespace Phase

/-- Name of a phase. -/
def name : Phase → String
  | .uninitialized => "uninitialized"
  | .compiled => "compiled"
  | .ready => "ready"
  | .running => "running"
  | .failed => "failed"

/-- **The phase after** an event. -/
def after (p : Phase) (e : Event) : Outcome Phase :=
  match p, e with
  | _, .fail => .ok .failed
  | .running, .compile => .error (.order .running)
  | _, .compile => .ok .compiled
  | .compiled, .prepare => .ok .ready
  | .ready, .prepare => .ok .ready
  | .ready, .begin => .ok .running
  | .running, .finish => .ok .ready
  | .failed, e => .error (.order (.failed e.action))
  | .uninitialized, e => .error (.order (.uncompiled e.action))
  | p, e => .error (.order (.misplaced e.action p.name))

/-- The phase after an operation gave an error: a failure of the device fails the engine, any other
error ends a run. -/
def afterError (p : Phase) (deviceFailed : Bool) : Phase :=
  if deviceFailed then .failed else if p = .running then .ready else p

/-- Whether there is a compiled graph to prepare or run. -/
def isCompiled : Phase → Bool
  | .compiled => true
  | .ready => true
  | .running => true
  | _ => false

end Phase

end TexelFlow
