import Workflow.Engine.Resolution

/-!
# Running commands

Operations act on the view and the context of the run, and through them on the world. Commands run in
order up to the first that fails; what a failing command did stays done.
-/

namespace Workflow

/-- Computations with a view and a context. -/
abbrev CommandM := StateT Context FieldM

/-- Runs a computation on a view of its own. -/
def ViewM.onFresh {α : Type} (key : StateKey) (m : ViewM α) : EngineM (Except EngineError α) :=
  return (← m.run.run (View.fresh key)).1

namespace Op

variable (engine : Engine) (start : Start)

/-- Invokes a process known by name on a view of its own. -/
def invokeNamed (process : String) (key : StateKey) (action : String) (context : Context) :
    EngineM (Except EngineError Unit) :=
  match engine.processes.lookup process with
  | some p => ViewM.onFresh key (p.invokeWith engine start action context)
  | none => return .error (.processNotBound key.kind process)

/-- The answer to an operation. -/
def run : (op : Op) → CommandM op.Reply
  | .key => return (← getThe View).key
  | .context => getThe Context
  | .entity => (ViewM.entity.run : FieldM _)
  | .storedState => (ViewM.storedState.run : FieldM _)
  | .memoizedState => (ViewM.memoizedState.run : FieldM _)
  | .refresh => (ViewM.refresh.run : FieldM _)
  | .setField field value => ((ViewM.setField field value).run : FieldM _)
  | .lock => ((ViewM.lock engine).run : FieldM _)
  | .unlock => ((ViewM.unlock engine).run : FieldM _)
  | .isLocked => ((ViewM.isLocked engine).run : FieldM _)
  | .insert name value => modifyThe Context fun c => c.insert name value
  | .writeBehind field value => do
    let k := (← getThe View).key
    ((CallM.setField { k with field := field } value).run : EngineM _)
  | .removeEntity => do
    let k := (← getThe View).key
    modifyThe World fun w => w.remove k.kind k.id
  | .invoke process target action data => do
    let user := (← getThe Context).user
    (invokeNamed engine start process target action ⟨user, data, none⟩ : EngineM _)
  | .write note => (EngineM.record (.note note) : EngineM _)

end Op

variable (engine : Engine) (start : Start)

def Program.run {α : Type} : Program α → CommandM α
  | .pure a => return a
  | .call op next => do (next (← op.run engine start)).run

/-- Runs commands in order up to the first that fails. -/
def Command.runAll : List Command → CommandM (Option CommandFailure)
  | [] => return none
  | c :: cs => do
    (EngineM.record (.command c.name (← getThe View).key (← getThe Context)) : EngineM _)
    match ← c.body.run engine start with
    | .ok () => Command.runAll cs
    | .error m => return some ⟨c.name, m⟩

end Workflow
