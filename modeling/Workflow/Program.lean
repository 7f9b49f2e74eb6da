import Workflow.Note

/-!
# Programs of commands

A command acts on the field it is run for only through operations, each of which gets an answer. Its
program is the tree of what it does next for every answer, so that statements about all commands are
statements about all trees.
-/

namespace Workflow

/-- What a command may do. -/
inductive Op
  | key
  | context
  /-- The entity as the view of the run remembers it. -/
  | entity
  | storedState
  | memoizedState
  | refresh
  | setField (field : String) (value : Json)
  | lock
  | unlock
  | isLocked
  /-- Adds to the data of the context. -/
  | insert (name : String) (value : Json)
  /-- Writes a field in the store without the view taking notice. -/
  | writeBehind (field : String) (value : Json)
  | removeEntity
  /-- Asks for an action of a process, on a field of its own choice, for the caller of the context. -/
  | invoke (process : String) (key : StateKey) (action : String) (data : Table)
  | write (note : Note)

/-- What is answered to an operation. -/
abbrev Op.Reply : Op → Type
  | key => StateKey
  | context => Context
  | entity | refresh => Except EngineError Entity
  | storedState | memoizedState => Except EngineError String
  | setField .. | writeBehind .. | unlock | invoke .. => Except EngineError Unit
  | lock | isLocked => Except EngineError Bool
  | insert .. | removeEntity | write .. => Unit

inductive Program (α : Type)
  | pure (a : α)
  | call (op : Op) (next : op.Reply → Program α)

namespace Program

def bind {α β : Type} : Program α → (α → Program β) → Program β
  | pure a, f => f a
  | call op next, f => call op fun r => (next r).bind f

instance : Monad Program where
  pure := Program.pure
  bind := Program.bind

/-- A single operation. -/
def perform (op : Op) : Program op.Reply :=
  call op .pure

end Program

/-- A command by its name and what it does; it ends well or with the text of an error. -/
structure Command where
  name : String
  body : Program (Except String Unit)

/-- What commands are written in: operations, one after the other, until one ends with a text. -/
abbrev BodyM := ExceptT String Program

namespace BodyM

def perform (op : Op) : BodyM op.Reply :=
  ExceptT.lift (Program.perform op)

/-- The answer of an operation; an error ends the command with its text. -/
def orFail {α : Type} : Except EngineError α → BodyM α
  | .ok a => pure a
  | .error e => throw e.message

end BodyM

end Workflow
