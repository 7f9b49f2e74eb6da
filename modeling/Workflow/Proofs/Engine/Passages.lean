import Mathlib.Data.List.Chain
import Workflow.Proofs.Engine.Course
import Workflow.Proofs.Engine.Inserting
import Workflow.Proofs.Engine.Lulls

/-!
# Passages

An invocation passes through the transition that it starts, and through those that follow in its chain. Where the
commands start no others, each transition gets the context as the one before it has left it, be it at once or through
a job that waits.
-/

namespace Workflow

/-- A transition that was started: the calls of its side effects, the failure of one of them, and the calls of the
commands that follow. -/
structure Passage where
  transition : Transition
  effects : List Turn
  failure : Option CommandFailure
  followed : List Turn

namespace Passage

/-- No command was called yet. -/
def ofStart (t : Transition) : Passage :=
  ⟨t, [], none, []⟩

/-- The calls in their order. Side effects are told of no failure, and what follows of the one that they came to. -/
def told (p : Passage) : List Told :=
  p.effects.map (⟨·, none⟩) ++ p.followed.map (⟨·, p.failure⟩)

/-- The one transition goes on with the other. -/
def Leads (p q : Passage) : Prop :=
  p.failure = none ∧ p.transition.next = some q.transition.action

variable (engine : Engine) (start : Start)

/-- All calls are those of side effects up to the first that fails, and those of the commands that follow; where a
call of a store has failed in between, these are missing. -/
inductive Performed : Passage → Prop
  | begun (t : Transition) : Performed (.ofStart t)
  | halted {t : Transition} {effects : List Turn} {failure : Option CommandFailure} {s s' : Stage}
    (heffects : Performs engine start t.sideEffects s effects failure s') : Performed ⟨t, effects, failure, []⟩
  | over {t : Transition} {effects followed : List Turn} {failure fault : Option CommandFailure}
    {s s' begun left : Stage} (heffects : Performs engine start t.sideEffects s effects failure s')
    (hfollowed : Performs engine start (t.followUps failure) begun followed fault left) :
    Performed ⟨t, effects, failure, followed⟩

/-- Passages through transitions of a tree, of which each goes on with the next, from one of the action on. -/
structure Itinerary (root : Process) (action : String) (ps : List Passage) : Prop where
  within : ∀ p ∈ ps, p.transition ∈ root.allTransitions ∧ p.Performed engine start
  first : ∀ p ∈ ps.head?, p.transition.action = action
  linked : ps.IsChain Leads

end Passage

/-- An invocation in the midst of a call: the process and the action that it was made for, the context of its first
transition, what its commands start transitions with, the ledger when the call began, and what the invocation had come
to before that. -/
structure Venture where
  engine : Engine
  start : Start
  root : Process
  action : String
  origin : Context
  base : Ledger
  calls : List Moment
  transitions : List Transition

namespace Venture

variable (r : Venture)

/-- The context behind these passages. -/
def here (ps : List Passage) : Context :=
  r.origin.insertAll (Told.inserts r.engine r.start (ps.flatMap Passage.told))

/-- All that was called and started in this call belongs to the passages, and so does what was before. -/
structure Journey (ps : List Passage) (l : Ledger) : Prop
    extends Passage.Itinerary r.engine r.start r.root r.action ps where
  flow : Told.Flow r.engine r.start r.origin (ps.flatMap Passage.told)
  calls : ∃ new, l.calls = r.base.calls ++ new ∧ (ps.flatMap Passage.told).map Told.moment = r.calls ++ new
  transitions : ∃ new, l.transitions = r.base.transitions ++ new ∧ ps.map Passage.transition = r.transitions ++ new
  starts : r.base.starts ≤ l.starts

/-- No job of the invocation waits. -/
structure On (ps : List Passage) (l : Ledger) : Prop extends r.Journey ps l where
  pending : l.pending = r.base.pending

/-- The passage through the last transition waits in a job. -/
def Waits (ps : List Passage) (l : Ledger) : Prop :=
  ∃ qs t k n, ps = qs ++ [.ofStart t] ∧ l.pending.Perm (t.job k (r.here ps) (some r.root) n :: r.base.pending) ∧
    n + 1 = l.starts ∧ r.base.starts ≤ n

def Over (l : Ledger) : Prop :=
  ∃ ps, r.Journey ps l ∧ (l.pending = r.base.pending ∨ r.Waits ps l)

/-- The transition may be the next. -/
structure Next (ps : List Passage) (t : Transition) : Prop where
  mem : t ∈ r.root.allTransitions
  first : ps = [] → t.action = r.action
  linked : ∀ p ∈ ps.getLast?, p.Leads (.ofStart t)

/-- The transition with the number is the last that was started. -/
structure Begun (ps : List Passage) (t : Transition) (n : Nat) (l : Ledger) : Prop
    extends r.On (ps ++ [.ofStart t]) l where
  number : n + 1 = l.starts
  since : r.base.starts ≤ n

def exits : Exits (View × World) :=
  ⟨fun _ s => r.Over s.2.ledger, fun w => r.Over w.ledger⟩

variable {r} {ps : List Passage} {p q : Passage} {t : Transition} {l l' : Ledger} {failure : Option CommandFailure}

theorem On.over (h : r.On ps l) : r.Over l :=
  ⟨ps, h.toJourney, .inl h.pending⟩

theorem Begun.over {n : Nat} (h : r.Begun ps t n l) : r.Over l :=
  h.toOn.over

/-! ## Steps of a journey -/

theorem here_append (ps : List Passage) (p : Passage) :
    r.here (ps ++ [p]) = (r.here ps).insertAll (Told.inserts r.engine r.start p.told) := by
  simp [here, Told.inserts_append, Context.insertAll_append]

theorem here_ofStart (ps : List Passage) (t : Transition) : r.here (ps ++ [.ofStart t]) = r.here ps := by
  simp [here, Passage.ofStart, Passage.told]

theorem here_withoutFailure (h : r.origin.failure = none) (ps : List Passage) :
    (r.here ps).withoutFailure = r.here ps := by
  rw [Context.withoutFailure, ← h]
  rfl

theorem Journey.starting (h : r.Journey ps l) (ht : r.Next ps t) (hcalls : l'.calls = l.calls)
    (htransitions : l'.transitions = l.transitions ++ [t]) (hstarts : l.starts ≤ l'.starts) :
    r.Journey (ps ++ [.ofStart t]) l' where
  within p hp := by
    rcases List.mem_append.1 hp with hp | hp
    · exact h.within p hp
    · obtain rfl := List.mem_singleton.1 hp
      exact ⟨ht.mem, .begun t⟩
  first p hp := by
    cases ps with
    | nil =>
        cases hp
        exact ht.first rfl
    | cons q qs => exact h.first p hp
  linked := by
    refine List.isChain_append.2 ⟨h.linked, .singleton _, fun p hp q hq => ?_⟩
    cases hq
    exact ht.linked p hp
  flow := by simpa [Passage.ofStart, Passage.told] using h.flow
  calls := by
    obtain ⟨new, hnew, htold⟩ := h.calls
    exact ⟨new, hcalls.trans hnew, by simpa [Passage.ofStart, Passage.told] using htold⟩
  transitions := by
    obtain ⟨new, hnew, hpassed⟩ := h.transitions
    exact ⟨new ++ [t], by rw [htransitions, hnew, List.append_assoc], by simp [hpassed, Passage.ofStart]⟩
  starts := h.starts.trans hstarts

theorem On.starting (h : r.On ps l) (ht : r.Next ps t) :
    r.Begun ps t l.starts ⟨l.calls, l.transitions ++ [t], l.pending, l.starts + 1⟩ where
  toJourney := h.toJourney.starting ht rfl rfl (Nat.le_succ _)
  pending := h.pending
  number := rfl
  since := h.starts

/-- The transition is left to a job. -/
theorem Begun.waits {n : Nat} {jobs : List Job} (h : r.Begun ps t n l) (k : StateKey)
    (hjobs : jobs.Perm (t.job k (r.here ps) (some r.root) n :: l.pending)) : r.Over { l with pending := jobs } := by
  rw [h.pending, ← here_ofStart ps t] at hjobs
  exact ⟨ps ++ [.ofStart t], ⟨h.toItinerary, h.flow, h.calls, h.transitions, h.toJourney.starts⟩,
    .inr ⟨ps, t, k, n, rfl, hjobs, h.number, h.since⟩⟩

/-- More commands of the last transition were called. -/
theorem Journey.going (h : r.Journey (ps ++ [p]) l) (ht : q.transition = p.transition)
    (hq : q.Performed r.engine r.start) {more : List Told} (htold : q.told = p.told ++ more)
    (hflow : Told.Flow r.engine r.start (r.here (ps ++ [p])) more) :
    r.Journey (ps ++ [q]) (l.call (more.map Told.moment)) where
  within p' hp' := by
    rcases List.mem_append.1 hp' with hp' | hp'
    · exact h.within p' (List.mem_append_left _ hp')
    · obtain rfl := List.mem_singleton.1 hp'
      exact ⟨ht ▸ (h.within p (List.mem_append_right _ (List.mem_singleton_self p))).1, hq⟩
  first p' hp' := by
    cases ps with
    | nil =>
        cases hp'
        exact ht ▸ h.first p rfl
    | cons => exact h.first p' hp'
  linked := by
    obtain ⟨hlinked, -, hlast⟩ := List.isChain_append.1 h.linked
    refine List.isChain_append.2 ⟨hlinked, .singleton _, fun p' hp' q' hq' => ?_⟩
    cases hq'
    obtain ⟨hfailure, hnext⟩ := hlast p' hp' p rfl
    exact ⟨hfailure, ht ▸ hnext⟩
  flow := by
    have hbefore := h.flow
    rw [List.flatMap_append, List.flatMap_singleton] at hbefore ⊢
    rw [htold, ← List.append_assoc]
    refine Told.flow_append.2 ⟨hbefore, ?_⟩
    rw [here, List.flatMap_append, List.flatMap_singleton] at hflow
    exact hflow
  calls := by
    obtain ⟨new, hnew, hcalls⟩ := h.calls
    refine ⟨new ++ more.map Told.moment, by rw [Ledger.call, hnew, List.append_assoc], ?_⟩
    rw [← List.append_assoc, ← hcalls]
    simp [htold]
  transitions := by
    obtain ⟨new, hnew, hpassed⟩ := h.transitions
    exact ⟨new, hnew, by simpa [ht] using hpassed⟩
  starts := h.starts

/-- The side effects of the last transition were performed. -/
theorem Journey.affecting {effects : List Turn} {s s' : Stage} (h : r.Journey (ps ++ [.ofStart t]) l)
    (heffects : Performs r.engine r.start t.sideEffects s effects failure s') (hs : s.context = r.here ps) :
    let qs := ps ++ [⟨t, effects, failure, []⟩]
    r.Journey qs (l.call (effects.map Turn.moment)) ∧ s'.context = r.here qs := by
  intro qs
  have hclean : s.context = (r.here ps).after none := hs
  obtain ⟨hflow, hleft⟩ := heffects.flow hclean
  have htold : Passage.told ⟨t, effects, failure, []⟩ = effects.map (⟨·, none⟩) := by simp [Passage.told]
  refine ⟨?_, ?_⟩
  · have hgoing := h.going (q := ⟨t, effects, failure, []⟩) rfl (.halted heffects)
      (htold.trans (List.nil_append _).symm) (here_ofStart (r := r) ps t ▸ hflow)
    rwa [List.map_map] at hgoing
  · rw [here_append, htold]
    exact hleft

/-- Behind the side effects, the commands that follow were performed. -/
theorem Journey.following {effects followed : List Turn} {fault : Option CommandFailure} {s s' begun left : Stage}
    (h : r.Journey (ps ++ [⟨t, effects, failure, []⟩]) l)
    (heffects : Performs r.engine r.start t.sideEffects s effects failure s')
    (hfollowed : Performs r.engine r.start (t.followUps failure) begun followed fault left)
    (hbegun : begun.context = (r.here (ps ++ [⟨t, effects, failure, []⟩])).after failure) :
    let qs := ps ++ [⟨t, effects, failure, followed⟩]
    r.Journey qs (l.call (followed.map Turn.moment)) ∧ left.context = (r.here qs).after failure := by
  intro qs
  obtain ⟨hflow, hleft⟩ := hfollowed.flow hbegun
  have htold : Passage.told ⟨t, effects, failure, followed⟩ =
      Passage.told ⟨t, effects, failure, []⟩ ++ followed.map (⟨·, failure⟩) := by simp [Passage.told]
  refine ⟨?_, ?_⟩
  · have hgoing := h.going (q := ⟨t, effects, failure, followed⟩) rfl (.over heffects hfollowed)
      htold hflow
    rwa [List.map_map] at hgoing
  · rw [hleft, here_append, here_append, htold, Told.inserts_append, Context.insertAll_append]

end Venture

/-! ## Running -/

theorem EngineM.meets_outcome {α : Type} {m : EngineM α} {a : α} {w w' : World} (h : m.outcome w = (some a, w'))
    {X : Exits World} : Meets (fun s => s = w) m (fun a' s => a' = a ∧ s = w') X := by
  rintro _ rfl
  refine ⟨fun a' s' ho => ?_, fun w' ho => ?_⟩
  · cases h.symm.trans ho
    exact ⟨rfl, rfl⟩
  · cases h.symm.trans ho

theorem ViewM.meets_outcome {α : Type} {x : ViewM α} {a : α} {v v' : View} {w w' : World}
    (h : x.outcome v w = (some (.ok a, v'), w')) {X : Exits (View × World)} :
    Meets (fun s => s = (v, w)) x (fun a' s => a' = a ∧ s = (v', w')) X :=
  (outcome_meets x (v, w)).mono (fun _ h => h)
    (fun _ _ ho => by cases h.symm.trans ho; exact ⟨rfl, rfl⟩)
    (fun _ _ ho => by cases h.symm.trans ho) fun _ ho => by cases h.symm.trans ho

theorem World.ledger_blame (w : World) (k : StateKey) (action : String) (onFailurePath : Bool)
    (fault : Option CommandFailure) : (w.blame k action onFailurePath fault).ledger = w.ledger := by
  cases fault <;> rfl

namespace Venture

/-- What starts transitions keeps to the journey. -/
def Starts (r : Venture) (start : Start) : Prop :=
  ∀ ps t, r.Next ps t → Meets (fun s => r.On ps s.2.ledger) (start t (r.here ps) (some r.root))
    (fun _ s => r.Over s.2.ledger) r.exits

variable {r : Venture} {ps : List Passage} {t : Transition} {failure : Option CommandFailure} {α : Type}

/-- What is known of the invocation outlasts a lull, and what comes up then is one of its ends. -/
theorem lulls {J : Ledger → Prop} (hJ : ∀ l, J l → r.Over l) {x : ViewM α} (hx : x.Lulls) :
    Meets (fun s => J s.2.ledger) x (fun _ s => J s.2.ledger) r.exits :=
  (hx.keeps (C := fun _ => False)).mono (fun _ h => h) (fun _ _ h => h) (fun _ _ h => hJ _ h) fun _ => False.elim

/-! ## Jobs -/

/-- The commands that follow, with all that a transition does before it goes on with another. -/
theorem concludes {effects : List Turn} {s s' : Stage} {start : Start} (hobeys : t.Obeys (·.isInvoke = false))
    (heffects : Performs r.engine r.start t.sideEffects s effects failure s') (phase : Phase) (kind : EventKind)
    (number : Option Nat) :
    let qs := ps ++ [⟨t, effects, failure, []⟩]
    Meets (fun s => r.On qs s.2.ledger) (do
        t.conclude r.engine (t.settles failure) phase kind number
        t.runCallbacks r.engine start (t.followUps failure) failure.isSome ((r.here qs).after failure))
      (fun c s => ∃ followed, r.On (ps ++ [⟨t, effects, failure, followed⟩]) s.2.ledger ∧
        c = (r.here (ps ++ [⟨t, effects, failure, followed⟩])).after failure) r.exits := by
  intro qs
  refine .bind (lulls (fun _ => On.over) (t.conclude_lulls r.engine _ _ _ _)) fun _ => .point fun s₁ hs₁ => ?_
  have hcs : ∀ c ∈ t.followUps failure, c.body.All (·.isInvoke = false) := by
    cases failure with
    | none => exact hobeys.callbacks
    | some f => exact hobeys.failureCallbacks
  let begun : Stage := ⟨(r.here qs).after failure, s₁.1, s₁.2⟩
  obtain ⟨followed, fault, left, hfollowed, hrun, hledger⟩ :=
    Command.runAll_calls r.engine start r.start (t.followUps failure) hcs begun
  obtain ⟨hjourney, hleft⟩ := hs₁.toJourney.following heffects hfollowed rfl
  refine (ViewM.meets_outcome (t.runCallbacks_outcome r.engine start hrun failure.isSome)).post fun c s₂ h => ?_
  obtain ⟨rfl, rfl⟩ := h
  refine ⟨followed, ?_, hleft⟩
  rw [World.ledger_blame, hledger]
  exact ⟨hjourney, hs₁.pending⟩

theorem candidates_next (user : Option Caller) (action : String) :
    Meets (fun s => r.On ps s.2.ledger) (r.root.candidates r.engine ⟨user, some action⟩)
      (fun us s => r.On ps s.2.ledger ∧ ∀ u, us = [u] → u ∈ r.root.allTransitions ∧ u.action = action) r.exits := by
  have hreading : Reading fun s => r.On ps s.2.ledger := ViewM.Lulls.reading (r.On ps)
  have hcovers := Exits.covers_of_isOfStore hreading fun _ => False
  exact (r.root.candidates_picks hreading r.engine user action hcovers).mono (fun _ h => h)
    (fun _ _ h => ⟨h.1, fun u hu => ⟨(h.2 u hu).1, (h.2 u hu).2.1⟩⟩) (fun _ _ h => h.2.over) fun _ => False.elim

section

variable {start : Start} (hclean : r.origin.failure = none) (hstart : r.Starts start)

include hclean hstart

/-- The next transition starts in the context that the callbacks have left. -/
theorem chain_flows {effects followed : List Turn} {next : String} (hnext : t.next = some next) :
    let qs := ps ++ [⟨t, effects, none, followed⟩]
    Meets (fun s => r.On qs s.2.ledger) (t.chain r.engine start next (r.here qs) (some r.root))
      (fun _ s => r.Over s.2.ledger) r.exits := by
  intro qs
  have hproceed : Meets (fun s => r.On qs s.2.ledger) (t.proceed r.engine start next (r.here qs) r.root)
      (fun _ s => r.Over s.2.ledger) r.exits := by
    refine .bind (candidates_next _ next) fun us => ?_
    split
    · rename_i u
      refine .point fun s hs => ?_
      obtain ⟨hmem, rfl⟩ := hs.2 u rfl
      have hlast : ∀ p ∈ qs.getLast?, p.Leads (.ofStart u) := by
        rintro p hp
        obtain rfl : (⟨t, effects, none, followed⟩ : Passage) = p := by simpa [qs] using hp
        exact ⟨rfl, hnext⟩
      rw [here_withoutFailure hclean]
      exact (hstart qs u ⟨hmem, by simp [qs], hlast⟩).pre fun _ h => h ▸ hs.1
    · exact (lulls (fun _ => On.over) (t.report_lulls _)).mono (fun _ h => h.1) (fun _ _ h => h.over)
        (fun _ _ h => h) fun _ h => h
  refine .point fun s hs => ?_
  have hchain := t.chain_steps (Q := fun w => r.Over w.ledger) (E := r.exits.error) s
    (hproceed.pre fun _ h => h ▸ hs) fun _ _ h => h
  exact hchain.post fun _ _ h => h.2

variable (hobeys : t.Obeys (·.isInvoke = false))

include hobeys

theorem complete_flows {effects : List Turn} {s s' : Stage}
    (heffects : Performs r.engine r.start t.sideEffects s effects none s') (number : Option Nat) :
    let qs := ps ++ [⟨t, effects, none, []⟩]
    Meets (fun s => r.On qs s.2.ledger) (t.complete r.engine start (r.here qs) (some r.root) number)
      (fun _ s => r.Over s.2.ledger) r.exits := by
  intro qs
  rw [Transition.complete, Transition.succeed_eq]
  refine .bind (concludes hobeys heffects .completed .completed number) fun c => .pick fun followed => ?_
  refine .point fun s₁ h => ?_
  obtain ⟨hs₁, hc⟩ := h
  change c = r.here _ at hc
  subst hc
  split
  · rename_i next hnext
    exact (chain_flows hclean hstart hnext).pre fun _ h => h ▸ hs₁
  · exact .pure fun _ h => h ▸ hs₁.over

theorem run_flows (k : StateKey) (n : Nat) :
    Meets (fun w => r.On (ps ++ [.ofStart t]) w.ledger)
      ((t.job k (r.here ps) (some r.root) n).run r.engine start) (fun _ w => r.Over w.ledger)
      (.only fun w => r.Over w.ledger) := by
  refine .point fun w hw => ?_
  obtain ⟨effects, failure, s', heffects, hrun, hledger⟩ := Command.runAll_calls r.engine start r.start
    t.sideEffects hobeys.sideEffects ⟨r.here ps, .fresh k, w⟩
  obtain ⟨hjourney, hcontext⟩ := hw.toJourney.affecting heffects rfl
  have hon : r.On (ps ++ [⟨t, effects, failure, []⟩]) s'.world.ledger := hledger ▸ ⟨hjourney, hw.pending⟩
  have hended {m : ViewM Unit} (hm : Meets (fun s => r.On (ps ++ [⟨t, effects, failure, []⟩]) s.2.ledger) m
      (fun _ s => r.Over s.2.ledger) r.exits) :
      Meets (fun w => w = s'.world) (ViewM.onFresh k m) (fun _ w => r.Over w.ledger)
        (.only fun w => r.Over w.ledger) := by
    refine ((ViewM.onFresh_meets hm).pre fun w (h : w = s'.world) => h ▸ hon).post fun r w ⟨_, h⟩ => ?_
    cases r <;> exact h
  refine .bindKnown (m := EngineM) (EngineM.meets_outcome hrun) ?_
  rw [hcontext]
  cases failure with
  | none => exact hended (complete_flows hclean hstart hobeys heffects _)
  | some f =>
      refine hended ?_
      rw [Transition.fail_eq, ← bind_assoc]
      exact .bind (concludes hobeys heffects .failed (.failed f.message) _) fun _ =>
        .pick fun _ => .pure fun _ h => h.1.over

theorem runDetached_flows (k : StateKey) (n : Nat) :
    Meets (fun w => r.On (ps ++ [.ofStart t]) w.ledger)
      ((t.job k (r.here ps) (some r.root) n).runDetached r.engine start) (fun _ w => r.Over w.ledger)
      (.only fun w => r.Over w.ledger) := by
  refine .bind (m := EngineM) (run_flows hclean hstart hobeys k n) fun result => ?_
  cases result with
  | ok _ => exact .pure fun _ h => h
  | error e => exact EngineM.modify_meets fun _ h => h

/-! ## Starts -/

/-- A job that is refused leaves the transition as it was begun. -/
def Handed (r : Venture) (ps : List Passage) (t : Transition) (n : Nat) : Except DispatchError Unit → Ledger → Prop
  | .error (.rejected _) => r.Begun ps t n
  | _ => r.Over

theorem handTo_flows (k : StateKey) (n : Nat) (executor : Executor) :
    Meets (fun w => r.Begun ps t n w.ledger)
      ((t.job k (r.here ps) (some r.root) n).handTo r.engine start executor)
      (fun result w => r.Handed ps t n result w.ledger) (.only fun w => r.Over w.ledger) := by
  induction executor with
  | inline =>
      refine .bind (m := EngineM) ((run_flows hclean hstart hobeys k n).pre fun _ h => h.toOn) fun result => ?_
      cases result <;> exact .pure fun _ h => h
  | detaching =>
      exact .bind (m := EngineM) ((runDetached_flows hclean hstart hobeys k n).pre fun _ h => h.toOn) fun _ =>
        .pure fun _ h => h
  | queue =>
      exact .bind (m := EngineM) (M := fun _ (w : World) => r.Over w.ledger)
        (EngineM.modify_meets fun w h => h.waits k (w.toScene.pending_queued _)) fun _ => .pure fun _ h => h
  | pool =>
      exact .bind (m := EngineM) (M := fun _ (w : World) => r.Over w.ledger)
        (EngineM.modify_meets fun w h => h.waits k (w.toScene.pending_pooled _)) fun _ => .pure fun _ h => h
  | rejecting reason => exact .pure fun _ h => h
  | varying first rest ihfirst =>
      exact .bind (m := EngineM) (M := fun _ (w : World) => r.Begun ps t n w.ledger) (EngineM.modify_meets fun w h => h)
        fun _ => ihfirst

theorem handOver_flows (n : Nat) (previous : Option String) :
    Meets (fun s => r.Begun ps t n s.2.ledger)
      (t.handOver r.engine start (r.here ps) (some r.root) n previous) (fun _ s => r.Over s.2.ledger) r.exits := by
  refine .point fun s hs => .bindKnown (ViewM.key_meets s) ?_
  refine .bind (M := fun result s => r.Handed ps t n result s.2.ledger) ?_ fun result => ?_
  · refine (ViewM.ofEngine_meets fun v => ?_).pre fun _ h => h ▸ hs
    refine .bind (m := EngineM) EngineM.get_meets fun w => .point fun _ ⟨hw, h⟩ => ?_
    cases hw
    exact (handTo_flows hclean hstart hobeys s.1.key n w.executor).pre fun _ heq => heq ▸ h
  · match result with
    | .ok () => exact .pure fun _ h => h
    | .error (.continuation e) => exact .throw fun _ h => h
    | .error (.rejected reason) =>
        exact .bind (lulls (fun _ => Begun.over) (t.abort_lulls r.engine previous reason _)) fun _ =>
          .throw fun _ h => h.over

omit hclean hstart hobeys in
theorem claim_flows (ht : r.Next ps t) (context : Context) :
    Meets (fun s => r.On ps s.2.ledger) (t.claim r.engine context) (fun n s => r.Begun ps t n s.2.ledger)
      r.exits := by
  have hlulls {α : Type} {x : ViewM α} (hx : x.Lulls) :
      Meets (fun s => r.On ps s.2.ledger) x (fun _ s => r.On ps s.2.ledger) r.exits := lulls (fun _ => On.over) hx
  have hrecord : Meets (fun s => r.On ps s.2.ledger) (t.recordStart context)
      (fun n s => r.Begun ps t n s.2.ledger) r.exits := by
    refine .point fun s hs => .bindKnown (ViewM.getView_meets s) (.bindKnown (ViewM.getWorld_meets s) ?_)
    obtain ⟨v, w⟩ := s
    refine .bindKnown (a := w.starts) (t := (v, w.takeOff v.key)) ?_ ?_
    · refine ViewM.ofEngine_meets fun v' => .point fun _ h => ?_
      cases h
      exact (EngineM.takeOff_meets v.key w).post fun _ _ h => ⟨h.1, h.2 ▸ rfl⟩
    · refine .bind (M := fun _ s => r.Begun ps t w.starts s.2.ledger) ?_ fun _ => .pure fun _ h => h
      refine ViewM.ofEngine_meets fun v' => EngineM.modify_meets fun _ h => ?_
      cases h
      rw [World.ledger_started]
      exact hs.starting ht
  refine .bind (hlulls (ViewM.isLocked_lulls r.engine)) fun locked => ?_
  extract_lets go rest
  have hrest (free : Bool) : Meets (fun s => r.On ps s.2.ledger) (rest free)
      (fun n s => r.Begun ps t n s.2.ledger) r.exits := by
    cases free with
    | true =>
        refine .bind hrecord fun n => .bind (lulls (fun _ => Begun.over) (t.report_lulls _)) fun _ => ?_
        exact .pure fun _ h => h
    | false =>
        refine .bind (hlulls (t.report_lulls _)) fun _ => ?_
        exact .bind (M := fun _ _ => False) (.throw fun _ h => h.over) fun _ => .absurd
  split
  · exact .bind (.pure fun _ h => h) hrest
  · exact .bind (hlulls (ViewM.lock_lulls r.engine)) hrest

end

theorem execute_starts (hclean : r.origin.failure = none) (hobeys : r.root.Obeys (·.isInvoke = false)) (depth : Nat) :
    r.Starts (Transition.execute r.engine depth) := by
  induction depth with
  | zero => exact fun ps t _ => ViewM.ofEngine_meets fun v => EngineM.tooDeep_meets fun w h => h.over
  | succ depth ih =>
      intro ps t ht
      -- Only the chain starts transitions one level deeper, for the commands of the tree start none.
      rw [Transition.execute, Transition.executeWith_eq]
      refine .bind (claim_flows ht _) fun n => .bind (lulls (fun _ => Begun.over) t.enter_lulls) fun previous => ?_
      exact handOver_flows hclean ih (hobeys t ht.mem) n previous

theorem invoke_flows (hclean : r.origin.failure = none) (hobeys : r.root.Obeys (·.isInvoke = false)) (depth : Nat) :
    Meets (fun s => r.On [] s.2.ledger)
      (r.root.invokeWith r.engine (Transition.execute r.engine depth) r.action r.origin)
      (fun _ s => r.Over s.2.ledger) r.exits := by
  refine .bind (candidates_next _ r.action) fun us => ?_
  split
  · rename_i u
    refine .point fun s hs => ?_
    obtain ⟨hmem, haction⟩ := hs.2 u rfl
    refine .bind ((execute_starts hclean hobeys depth [] u ⟨hmem, fun _ => haction, nofun⟩).pre
      fun _ h => h ▸ hs.1) fun _ => ?_
    exact .bind (lulls (fun _ h => h) ViewM.refresh_lulls) fun _ => .pure fun _ h => h
  · exact .throw fun _ h => h.1.over
  · exact .throw fun _ h => h.1.over

end Venture

end Workflow
