import TableMachine.History.Timestamp
import TableMachine.Table.Policy

/-!
# Configuration of a machine

A machine is configured with the policies for compiling its table, with a sink that takes its
messages, and with a clock that is read when a transition is executed. Sink and clock are functions
on the world that the machine's guards and actions work in.
-/

namespace TableMachine

/-- Where messages go: each level says how a message changes the world. -/
structure Sink (ω : Type) where
  /-- What needs attention. -/
  warning : String → ω → ω
  /-- What happened. -/
  info : String → ω → ω
  /-- What may help to understand it. -/
  debug : String → ω → ω := fun _ w => w

/-- The sink that drops every message. -/
def Sink.silent {ω : Type} : Sink ω where
  warning _ w := w
  info _ w := w

/-- How a machine works. -/
structure Config (ω : Type) where
  /-- The policies for compiling its table. -/
  compile : CompileOptions := {}
  /-- Where its messages go. -/
  sink : Sink ω := .silent
  /-- How it tells the time. -/
  clock : ω → Timestamp := fun _ => .epoch

namespace Config

/-- The long form of a configuration, of which only the policies can be shown. -/
def inspect {ω : Type} (c : Config ω) : String :=
  "FsmConfig \x7b compile: " ++ c.compile.inspect ++ ", .. \x7d"

end Config

/-- The long form of a sink, of which nothing can be shown. -/
def Sink.inspect {ω : Type} (_ : Sink ω) : String :=
  "Logger \x7b .. \x7d"

end TableMachine
