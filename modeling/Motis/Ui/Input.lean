/-! What the input fields share: the focus, and the delay of their requests. -/

namespace Motis.Ui

/-- The messages of `Widgets.Input`, whose model is the focus. -/
inductive InputMsg where | focus | blur | click
  deriving DecidableEq, Repr

/-- `Input.update` -/
def inputUpdate : InputMsg → Bool → Bool
  | .focus, _ => true
  | .blur, _ => false
  | .click, model => model

/-- The debounce library: its messages change its state only, and lead to commands. -/
structure Debounce where
  State : Type
  Msg : Type
  Cmd : Type
  init : State
  update : Msg → State → State × Cmd

/-- No delay. -/
def Debounce.immediate : Debounce where
  State := Unit
  Msg := Unit
  Cmd := Unit
  init := ()
  update _ s := (s, ())

end Motis.Ui
