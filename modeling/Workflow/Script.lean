import Workflow.Program
import Workflow.Guard.Parser

/-!
# Scripts

Commands given as lists of steps. The first error ends the command with the error's text.
-/

namespace Workflow

inductive ScriptStep
  | setField (field : String) (value : Json)
  | setState (value : String)
  | insert (name : String) (value : Json)
  /-- Writes a value of the context, or `null`, into a field. -/
  | contextToField (name field : String)
  | increment (field : String) (amount : Int)
  | writeBehind (field : String) (value : Json)
  | removeEntity
  | refresh
  | lock
  | unlock
  | log
  | fail (message : String)
  | failUnless (guard message : String)
  | invoke (process action : String) (id field : Option String) (data : Table)

namespace ScriptStep

open BodyM

def run (command : String) : ScriptStep → BodyM Unit
  | .setField field value => do orFail (← perform (.setField field value))
  | .setState value => do
    let key ← perform .key
    orFail (← perform (.setField key.field (.str value)))
  | .insert name value => perform (.insert name value)
  | .contextToField name field => do
    let context ← perform .context
    orFail (← perform (.setField field ((context.get? name).getD .null)))
  | .increment field amount => do
    let e ← orFail (← perform .entity)
    let n := ((e.get? field).bind Json.asInt?).getD 0
    orFail (← perform (.setField field (.int (n + amount))))
  | .writeBehind field value => do orFail (← perform (.writeBehind field value))
  | .removeEntity => perform .removeEntity
  | .refresh => do
    let _ ← orFail (← perform .refresh)
  | .lock => do
    let taken ← orFail (← perform .lock)
    perform (.write (.acquired command taken))
  | .unlock => do orFail (← perform .unlock)
  | .log => do
    let key ← perform .key
    let stored ← perform .storedState
    let memoized ← perform .memoizedState
    let locked ← perform .isLocked
    perform (.write (.observed command key stored memoized locked (← perform .context)))
  | .fail message => throw message
  | .failUnless guard message => do
    let g ← orFail ((Guard.parse guard).mapError EngineError.invalidGuard)
    let e ← orFail (← perform .entity)
    let context ← perform .context
    if g.eval (.of e context.user) then return else throw message
  | .invoke process action id field data => do
    let key ← perform .key
    let target : StateKey := ⟨key.kind, id.getD key.id, field.getD key.field⟩
    let outcome ← perform (.invoke process target action data)
    perform (.write (.invoked command action outcome))

end ScriptStep

def Command.ofScript (name : String) (steps : List ScriptStep) : Command :=
  ⟨name, (steps.forM (ScriptStep.run name) : BodyM Unit)⟩

end Workflow
