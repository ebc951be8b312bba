import TableMachine.Behaviour.Action
import TableMachine.Behaviour.Guard
import TableMachine.Scripted.Alphabet
import TableMachine.Scripted.World

/-!
# Scripted guards and actions

Guards and actions as data, with the behaviour that each of them stands for. The environment of
scripted effects is a name.
-/

namespace TableMachine.Scripted

/-- The scripted actions. -/
inductive ActionScript where
  /-- Writes a line. -/
  | log (label : String)
  /-- Writes a line that names the event. -/
  | logEvent (label : String)
  /-- Sets a flag. -/
  | setFlag (flag : String) (value : Bool)
  /-- Fails. -/
  | fail (message : String)
  /-- Fails on its first runs and succeeds after that. -/
  | failFirst (counter : Nat) (message : String) (times : Nat)
  /-- Fails on events that carry a number. -/
  | failOnPayload (message : String)
  /-- Writes a line that names the event and the environment. -/
  | effect (label : String)
  /-- Fails with the environment's name. -/
  | effectFail (message : String)
deriving DecidableEq

/-- The scripted guards. -/
inductive GuardScript where
  /-- Always gives one answer. -/
  | constant (answer : Bool)
  /-- Gives a flag as the answer. -/
  | flag (name : String)
  /-- Allows a number of checks and refuses after that. -/
  | budget (counter : Nat) (checks : Nat)
deriving DecidableEq

/-- Success after a line is written. -/
def done (line : String) (w : World) : Attempt World :=
  (.ok (), w.write line)

/-- How lines show an answer. -/
def answerText (b : Bool) : String :=
  if b then "true" else "false"

/-- What a scripted action does. -/
def ActionScript.action : ActionScript → Action NamedEvent String World
  | .log label => .plain fun _ w => done ("do " ++ label) w
  | .logEvent label => .plain fun event w => done ("do " ++ label ++ " " ++ event.text) w
  | .setFlag flag value => .plain fun _ w =>
    done ("set " ++ flag ++ "=" ++ answerText value) (w.setFlag flag value)
  | .fail message => .plain fun _ w => (.error (.failed message), w)
  | .failFirst counter message times => .plain fun _ w =>
    if w.count counter < times then (.error (.failed message), w.countUp counter)
    else done ("ok " ++ message) w
  | .failOnPayload message => .plain fun event w =>
    match event.payload? with
    | some (.some n) => (.error (.failed (message ++ " " ++ toString n)), w)
    | _ => (.ok (), w)
  | .effect label => .effect fun event environment w =>
    done ("effect " ++ label ++ " " ++ event.text ++ " @" ++ environment) w
  | .effectFail message => .effect fun _ environment w =>
    (.error (.failed (message ++ " @" ++ environment)), w)

/-- Gives an answer after writing it on a line. -/
def answer (name : String) (b : Bool) (w : World) : Bool × World :=
  (b, w.write ("guard " ++ name ++ "=" ++ answerText b))

/-- What a scripted guard does. -/
def GuardScript.guard : GuardScript → Guard World
  | .constant b => ⟨answer "const" b⟩
  | .flag name => ⟨fun w => answer name (w.flag name) w⟩
  | .budget counter checks => ⟨fun w =>
    answer "budget" (w.count counter < checks) (w.countUp counter)⟩

end TableMachine.Scripted
