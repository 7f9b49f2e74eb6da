import Workflow.BoundProcess
import Workflow.Config.Load
import Workflow.Definition.Build
import Workflow.Engine.Pending

/-!
# Demonstration

A locker is locked and unlocked; two invoices are approved, sent and paid, of which the second exceeds
the limit of the card. What is shown are the events of the engine, read by one subscriber.
-/

namespace Workflow.Demo

/-! ## Commands -/

open BodyM

def logTransition : Command := ⟨"log_transition", .pure (.ok ())⟩

def notifyAccounts : Command := ⟨"notify_accounts", .pure (.ok ())⟩

def sendEmail : Command where
  name := "send_email"
  body := show BodyM Unit from do
    orFail (← perform (.setField "emailed" (.bool true)))
    perform (.insert "email_channel" (.str "smtp"))

def cardLimit : Binary64 := .ofNat 1000

def chargeCard : Command where
  name := "charge_card"
  body := show BodyM Unit from do
    let e ← orFail (← perform .entity)
    let amount := ((e.get? "amount").bind Json.asBinary64?).getD (.ofNat 0)
    if cardLimit.lt amount then
      throw ("amount " ++ amount.positional ++ " exceeds card limit " ++ cardLimit.positional)
    orFail (← perform (.setField "charged" (.num (.float amount))))
    if let some reference := (← perform .context).get? "reference" then
      orFail (← perform (.setField "payment_reference" reference))

def registry : Registry :=
  [logTransition, sendEmail, chargeCard, notifyAccounts].foldl Registry.addCommand .empty

/-! ## Processes -/

def moving (action : String) (sources : List String) (target : String) : TransitionDefinition :=
  { TransitionDefinition.blank with action := action, sources := sources, target := some target }

def lockerDefinition : ProcessDefinition :=
  { ProcessDefinition.blank with
    name := "locker"
    transitions := [moving "lock" ["open"] "locked", moving "unlock" ["locked"] "open"] }

def paymentsDefinition : ProcessDefinition :=
  { ProcessDefinition.blank with
    name := "payments"
    permissions := ["user.is_accountant"]
    transitions :=
      [{ moving "pay" ["sent"] "paid" with
          inProgress := some "paying"
          failed := some "payment_failed"
          conditions := ["ctx.amount > 0"]
          sideEffects := ["charge_card"]
          callbacks := ["log_transition"]
          failureCallbacks := ["notify_accounts"] }] }

def invoiceDefinition : ProcessDefinition where
  name := "invoice"
  conditions := ["ctx.is_available"]
  permissions := []
  transitions :=
    [{ moving "approve" ["draft"] "approved" with callbacks := ["log_transition"] },
     { moving "void" ["draft", "approved"] "void" with permissions := ["user.is_staff"] },
     { moving "send" ["approved"] "sent" with
        inProgress := some "sending"
        failed := some "send_failed"
        sideEffects := ["send_email"]
        callbacks := ["log_transition"] },
     { TransitionDefinition.blank with
        action := "remind"
        sources := ["sent"]
        permissions := ["user.is_staff"]
        sideEffects := ["send_email"] }]
  nested := [paymentsDefinition]

/-- The processes, each bound to the field `status` of its kind. -/
def demoBindings : Except EngineError Bindings := do
  let locker ← lockerDefinition.build registry
  let invoice ← invoiceDefinition.build registry
  return (Bindings.empty.bind "locker" "status" locker).bind "invoice" "status" invoice

/-! ## Entities and callers -/

def locker : Entity := ⟨"locker", "l-1", [("status", .str "open")]⟩

def invoice (id : String) (amount : Nat) : Entity :=
  ⟨"invoice", id, [("amount", .int amount), ("is_available", .bool true), ("status", .str "draft")]⟩

def staff : Caller := ⟨"u-staff", [("is_staff", .bool true)]⟩

def accountant : Caller := ⟨"u-acct", [("is_accountant", .bool true)]⟩

/-! ## The run -/

/-- Why a demonstration ends early. -/
inductive Failure
  | engine (cause : EngineError)
  /-- The subscriber fell behind. -/
  | lagged (lost : Nat)
deriving DecidableEq, Repr

def Failure.message : Failure → String
  | engine cause => cause.message
  | lagged lost => "channel lagged by " ++ toString lost

/-- Computations that show events, the latest first, and may end early. -/
abbrev DemoM := ExceptT Failure (StateT (List Event) EngineM)

def subscriber : String := "demo"

/-- How deep transitions may start one another, and how many jobs the pool may run at once. -/
def depth : Nat := 100

variable (engine : Engine) (bindings : Bindings)

def ofEngine {α : Type} (m : EngineM α) : DemoM α :=
  liftM m

/-- Runs a computation on the view of a bound process, which it keeps for the next one. -/
def onBound {α : Type} (b : BoundProcess) (m : Process → ViewM α) : DemoM (α × BoundProcess) := do
  match ← ofEngine ((m b.process).run.run b.view) with
  | (.ok a, view) => return (a, { b with view := view })
  | (.error e, _) => throw (.engine e)

def openBound (kind id : String) : DemoM BoundProcess :=
  match bindings.openOn kind id kind with
  | .ok b => return b
  | .error e => throw (.engine e)

def invoke (b : BoundProcess) (action : String) (user : Option Caller) (context : Context) :
    DemoM Unit := do
  let _ ← onBound b (Process.invoke engine depth action user context)

def isFinal : EventKind → Bool
  | .completed | .failed _ => true
  | _ => false

/-- Shows events up to the one that says that the action is over, at most as many as the bound. -/
def showUntil (action : String) : Nat → DemoM Unit
  | 0 => ofEngine EngineM.tooDeep
  | bound + 1 => do
    match (← getThe World).bus.receive? subscriber with
    | none => ofEngine EngineM.tooDeep
    | some (.lagged lost, _) => throw (.lagged lost)
    | some (.event e, bus) =>
      modifyThe World fun w => { w with bus := bus }
      modifyThe (List Event) fun shown => e :: shown
      if e.action = action ∧ isFinal e.kind then return else showUntil action bound

/-- Lets the pool finish its work and shows the events of the action. -/
def settle (action : String) : DemoM Unit := do
  let _ ← ofEngine (EngineM.settlePool engine (Transition.execute engine depth) depth)
  showUntil action ((← getThe World).bus.log.length + 1)

/-- Locks the locker, tries to lock it again, and unlocks it. -/
def runLocker : DemoM Unit := do
  invoke engine (← openBound bindings "locker" locker.id) "lock" none .empty
  settle engine "lock"
  let again ← openBound bindings "locker" locker.id
  try invoke engine again "lock" none .empty catch _ => pure ()
  invoke engine (← openBound bindings "locker" locker.id) "unlock" none .empty
  settle engine "unlock"

def runInvoice (id : String) : DemoM Unit := do
  for action in ["approve", "send"] do
    invoke engine (← openBound bindings "invoice" id) action (some staff) .empty
    settle engine action
  let b ← openBound bindings "invoice" id
  let (_, b) ← onBound b (Process.availableActions engine (some staff))
  let (_, b) ← onBound b (Process.availableActions engine (some accountant))
  let context := Context.empty.insert "reference" (.str ("pay-" ++ id))
  invoke engine b "pay" (some accountant) context
  settle engine "pay"
  let _ ← onBound b fun _ => ViewM.storedState

def runAll : DemoM Unit := do
  runLocker engine bindings
  runInvoice engine bindings "inv-1"
  runInvoice engine bindings "inv-2"

def executor : ExecutorMode → Executor
  | .inline => .inline
  | .blockingPool => .pool

def world (config : Config) : World :=
  { World.start (executor config.executor)
      ((EventBus.new config.eventCapacity).subscribe subscriber) with
    entities :=
      ((EntityStore.empty.insert locker).insert (invoice "inv-1" 250)).insert (invoice "inv-2" 5000) }

/-- The events shown, and why the demonstration ended early if it did. -/
structure Outcome where
  events : List Event
  failure : Option Failure
deriving Repr

/-- Runs the demonstration, none if transitions start one another too deep. -/
def run (config : Config) : Option Outcome :=
  match demoBindings with
  | .error e => some ⟨[], some (.engine e)⟩
  | .ok bindings =>
    (EngineM.outcome ((runAll ⟨config, []⟩ bindings).run.run []) (world config)).1.map fun (r, shown) =>
      ⟨shown.reverse, match r with | .ok () => none | .error e => some e⟩

/--
The configuration of a demonstration. One that cannot be used is replaced by the standard one, unless it
is that of a file.
-/
def config (env : Environment) (files : Files) : Except LoadError Config :=
  match Config.load env files with
  | .ok c => .ok c
  | .error e => if (env Config.fileVariable).isSome then .error e else .ok Config.standard

end Workflow.Demo
