import TableMachine.Document.Printer
import TableMachine.Document.Reader
import TableMachine.History.Basic

/-!
# Exported histories

A history is exported as a record with one field that lists its transitions, each as a record of its
states, its event and its time. `History.ofText?` reads such an export back.
-/

namespace TableMachine

variable {σ ε : Type} [Exported σ] [Exported ε]

instance : Exported Timestamp where
  document t := .text t.text
  ofDocument? d := d.asText?.bind Timestamp.ofText?

instance : Exported (TransitionRecord σ ε) where
  document r := .record [
    ("from", Exported.document r.source),
    ("to", Exported.document r.target),
    ("event", Exported.document r.event),
    ("timestamp", Exported.document r.timestamp)]
  ofDocument? d := do
    some {
      source := ← (← d.field? "from") |> Exported.ofDocument?
      target := ← (← d.field? "to") |> Exported.ofDocument?
      event := ← (← d.field? "event") |> Exported.ofDocument?
      timestamp := ← (← d.field? "timestamp") |> Exported.ofDocument? }

instance : Exported (History σ ε) where
  document h := .record [("transitions", .list (h.records.map Exported.document))]
  ofDocument? d := do
    let items ← (← d.field? "transitions").asList?
    some { records := ← items.mapM Exported.ofDocument? }

namespace History

/-- The text of an exported history. -/
def toText (h : History σ ε) : String :=
  (Exported.document h).toText

/-- Reads an exported history. -/
def ofText? (s : String) : Option (History σ ε) :=
  (Document.ofText? s).bind Exported.ofDocument?

end History

end TableMachine
