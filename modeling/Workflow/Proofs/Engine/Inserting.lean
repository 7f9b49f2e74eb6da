import Workflow.Proofs.Engine.Concluding

/-!
# What commands insert

All that a command does to its context is to insert data. So the data that a called command finds are those that the
first one has found, with what all those before it have inserted, in the order of their calls.
-/

namespace Workflow

/-- The members are inserted one after the other. -/
def Table.insertAll (table : Table) (members : List (String × Json)) : Table :=
  members.foldl (fun table m => insert m.1 m.2 table) table

namespace Context

def insertAll (c : Context) (members : List (String × Json)) : Context :=
  { c with data := c.data.insertAll members }

variable (c : Context) (members members' : List (String × Json)) (failure : Option CommandFailure)

theorem insertAll_append : c.insertAll (members ++ members') = (c.insertAll members).insertAll members' := by
  simp [insertAll, Table.insertAll]

theorem after_insertAll : (c.after failure).insertAll members = (c.insertAll members).after failure := by
  cases failure <;> rfl

end Context

variable (engine : Engine) (start : Start) {α : Type}

/-! ## Programs -/

/-- What the operation inserts. -/
def Op.inserts : Op → List (String × Json)
  | insert name value => [(name, value)]
  | _ => []

theorem Op.extend_eq (op : Op) (c : Context) : op.extend c = c.insertAll op.inserts := by
  cases op <;> rfl

/-- What is inserted by the operations that the program comes to. -/
def Program.inserts : Program α → Context → View → World → List (String × Json)
  | .pure _, _, _, _ => []
  | .call op next, c, v, w =>
    op.inserts ++ match (op.run engine start).outcome c v w with
      | (some ((reply, c'), v'), w') => (next reply).inserts c' v' w'
      | (none, _) => []

variable {engine start}

theorem Op.run_inserts {op : Op} {c c' : Context} {v v' : View} {w w' : World} {reply : op.Reply}
    (h : (op.run engine start).outcome c v w = (some ((reply, c'), v'), w')) : c' = c.insertAll op.inserts :=
  ((op.run_extends c v w trivial).1 _ _ h).trans (op.extend_eq c)

theorem Program.run_inserts {p : Program α} {c c' : Context} {v v' : View} {w w' : World} {a : α}
    (h : (p.run engine start).outcome c v w = (some ((a, c'), v'), w')) :
    c' = c.insertAll (p.inserts engine start c v w) := by
  induction p generalizing c v w with
  | pure a =>
      cases h
      rfl
  | call op next ih =>
      rw [run] at h
      cases ho : (op.run engine start).outcome c v w with
      | mk r w₁ =>
          cases r with
          | none => cases (CommandM.outcome_bind_none ho).symm.trans h
          | some r =>
              rw [CommandM.outcome_bind_some ho] at h
              rw [inserts, ho, Context.insertAll_append, ← Op.run_inserts ho]
              exact ih _ h

/-! ## Calls -/

variable (engine start) in
/-- What is inserted from the call of the command to its end. -/
def Turn.inserts (turn : Turn) : List (String × Json) :=
  turn.command.body.inserts engine start turn.stage.context turn.stage.view turn.world

theorem Turn.Ends.context {turn : Turn} {result : Except String Unit} {left : Stage}
    (h : turn.Ends engine start result left) :
    left.context = turn.stage.context.insertAll (turn.inserts engine start) :=
  Program.run_inserts h

/-- A call of a command, and the failure of which its context is to tell. -/
structure Told where
  turn : Turn
  failure : Option CommandFailure

namespace Told

def moment (t : Told) : Moment :=
  t.turn.moment

variable (engine start) in
def inserts (ts : List Told) : List (String × Json) :=
  ts.flatMap fun t => t.turn.inserts engine start

variable (engine start) in
/-- Each call finds in its context the data from before the first, with what was inserted in the calls before, and the
failure of which it is to be told. -/
def Flow : Context → List Told → Prop
  | _, [] => True
  | c, t :: ts => t.turn.stage.context = c.after t.failure ∧ Flow (c.insertAll (t.turn.inserts engine start)) ts

theorem inserts_append (ts ts' : List Told) :
    inserts engine start (ts ++ ts') = inserts engine start ts ++ inserts engine start ts' :=
  List.flatMap_append

theorem flow_append {c : Context} {ts ts' : List Told} : Flow engine start c (ts ++ ts') ↔
    Flow engine start c ts ∧ Flow engine start (c.insertAll (inserts engine start ts)) ts' := by
  induction ts generalizing c with
  | nil => simp [Flow, inserts, Context.insertAll, Table.insertAll]
  | cons t ts ih =>
      rw [List.cons_append, Flow, Flow, ih, and_assoc, ← Context.insertAll_append]
      rfl

/-- What a call finds, wherever it stands. -/
theorem Flow.context {c : Context} {before behind : List Told} {t : Told}
    (h : Flow engine start c (before ++ t :: behind)) :
    t.turn.stage.context = (c.insertAll (inserts engine start before)).after t.failure :=
  (flow_append.1 h).2.1

end Told

/-- Commands that are all told of the same failure hand on what they insert. -/
theorem Performs.flow {cs : List Command} {s s' : Stage} {turns : List Turn} {fault failure : Option CommandFailure}
    {c : Context} (h : Performs engine start cs s turns fault s') (hs : s.context = c.after failure) :
    let told := turns.map (⟨·, failure⟩)
    Told.Flow engine start c told ∧ s'.context = (c.insertAll (Told.inserts engine start told)).after failure := by
  have hturn {command : Command} {s s' : Stage} {result : Except String Unit} {c : Context}
      (h : Turn.Ends engine start ⟨command, s⟩ result s') (hs : s.context = c.after failure) :
      s'.context = (c.insertAll (Turn.inserts engine start ⟨command, s⟩)).after failure := by
    rw [h.context, hs, Context.after_insertAll]
  induction h generalizing c with
  | done s => exact ⟨trivial, hs⟩
  | failed h =>
      refine ⟨⟨hs, trivial⟩, (hturn h hs).trans ?_⟩
      simp [Told.inserts]
  | passed h hrest ih =>
      obtain ⟨hflow, hleft⟩ := ih (hturn h hs)
      refine ⟨⟨hs, hflow⟩, hleft.trans ?_⟩
      rw [← Context.insertAll_append]
      rfl

end Workflow
