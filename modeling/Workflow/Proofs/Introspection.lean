import Workflow.Proofs.Engine.Launching

/-!
# What is listed and what is invoked

Whoever lists the transitions of a process and whoever asks for those of one action get the same ones, and so does
an invocation: it starts the one that is listed for its action, and is refused where there is none or more than one.
-/

namespace Workflow

namespace Inquiry

variable (user : Option Caller) (action field : String) (held : Bool) (e : Entity)

theorem finds_some (t : Transition) : (Inquiry.mk user (some action)).finds field held e t =
    ((Inquiry.mk user none).finds field held e t && t.action == action) := by
  simp [finds, wants, Bool.and_comm]

mutual

/-- The filter by action comes first in a walk, but might as well come last. -/
theorem listing_some (p : Process) : (Inquiry.mk user (some action)).listing field held e p =
    ((Inquiry.mk user none).listing field held e p).filter (·.action == action) := by
  match p with
  | ⟨name, conditions, permissions, transitions, nested⟩ =>
      unfold listing
      split
      · rw [List.filter_append, List.filter_filter, listingIn_some]
        refine congrArg (· ++ _) ?_
        exact List.filter_congr fun t _ => (finds_some ..).trans (Bool.and_comm ..)
      · rfl

theorem listingIn_some (ps : List Process) : (Inquiry.mk user (some action)).listingIn field held e ps =
    ((Inquiry.mk user none).listingIn field held e ps).filter (·.action == action) := by
  match ps with
  | [] => rfl
  | p :: ps => rw [listingIn, listingIn, List.filter_append, listing_some, listingIn_some]

end

end Inquiry

namespace Process

section

variable {engine : Engine} {k : StateKey} {e : Entity} {held : Bool} {v : View} {w : World} {state : String}
  (hs : Answering engine k e held (v, w)) (hstate : e.get? k.field = some (.str state)) (p : Process)

include hs hstate

theorem availableActions_lists (user : Option Caller) : ∃ v' w', (p.availableActions engine user).outcome v w =
    (some (.ok (Names.ofList (((Inquiry.mk user none).listing k.field held e p).map Transition.action)), v'), w') ∧
      Answering engine k e held (v', w') := by
  obtain ⟨v', w', hcandidates, hsurveying⟩ := p.candidates_lists hs hstate ⟨user, none⟩
  refine ⟨v', w', ?_, hsurveying.toAnswering⟩
  rw [availableActions, ViewM.outcome_bind_ok hcandidates]
  rfl

variable {action : String} {user : Option Caller} {t : Transition} (depth : Nat) (context : Context)

omit hs hstate in
theorem invoke_outcome {ts : List Transition} {v' : View} {w' : World} :
    (p.candidates engine ⟨user, some action⟩).outcome v w = (some (.ok ts, v'), w') →
    (p.invoke engine depth action user context).outcome v w = (match ts with
      | [t] => do
        Transition.execute engine depth t (context.withUser user) (some p)
        let _ ← ViewM.refresh
      | [] => throw (.notAllowed action .noMatch)
      | ts => throw (.notAllowed action (.ambiguous ts.length)) : ViewM Unit).outcome v' w' :=
  fun h => ViewM.outcome_bind_ok h _

theorem invoke_unlisted (hnone : (Inquiry.mk user (some action)).listing k.field held e p = []) :
    ((p.invoke engine depth action user context).outcome v w).1.map Prod.fst =
      some (.error (.notAllowed action .noMatch)) := by
  obtain ⟨v', w', hcandidates, -⟩ := p.candidates_lists hs hstate ⟨user, some action⟩
  rw [hnone] at hcandidates
  rw [p.invoke_outcome depth context hcandidates]
  rfl

theorem invoke_ambiguous (hmany : 2 ≤ ((Inquiry.mk user (some action)).listing k.field held e p).length) :
    ((p.invoke engine depth action user context).outcome v w).1.map Prod.fst =
      some (.error (.notAllowed action
        (.ambiguous ((Inquiry.mk user (some action)).listing k.field held e p).length))) := by
  obtain ⟨v', w', hcandidates, -⟩ := p.candidates_lists hs hstate ⟨user, some action⟩
  rw [p.invoke_outcome depth context hcandidates]
  match hlisted : (Inquiry.mk user (some action)).listing k.field held e p with
  | [] | [_] => simp [hlisted] at hmany
  | _ :: _ :: _ => rfl

/-- What is listed alone is started, and nothing that may come of that is told as not allowed. -/
theorem invoke_launches (hone : (Inquiry.mk user (some action)).listing k.field held e p = [t]) :
    Meets (fun s => s = (v, w)) (p.invoke engine (depth + 1) action user context)
      (fun _ s => w.Launched t k (context.withUser user) s.2)
      ⟨fun err s => err.isNotAllowed = false ∧ w.Launched t k (context.withUser user) s.2,
        w.Launched t k (context.withUser user)⟩ := by
  obtain ⟨v', w', hcandidates, hsurveying⟩ := p.candidates_lists hs hstate ⟨user, some action⟩
  have ht : t ∈ (Inquiry.mk user (some action)).listing k.field held e p := hone ▸ List.mem_singleton_self t
  rw [hone] at hcandidates
  unfold invoke invokeWith
  refine .bindKnown (ViewM.known_meets hcandidates) ?_
  refine .bind (Transition.execute_surveyed hsurveying ht) fun _ => ?_
  refine .bind (ViewM.reread_meets World.Launched.viewing ?_) fun _ => .pure fun _ h => h
  exact fun v w call e he h _ => ⟨EngineError.isNotAllowed_of_isOfStore he, h.later (List.suffix_cons _ _)⟩

variable (action user) in
/-- The two refusals of an invocation are read off what is listed for its action. -/
theorem invoke_refusals :
    let found := (Inquiry.mk user (some action)).listing k.field held e p
    let result := ((p.invoke engine (depth + 1) action user context).outcome v w).1.map Prod.fst
    (result = some (.error (.notAllowed action .noMatch)) ↔ found = []) ∧
      ∀ n, result = some (.error (.notAllowed action (.ambiguous n))) ↔ 2 ≤ n ∧ found.length = n := by
  intro found result
  match hfound : (Inquiry.mk user (some action)).listing k.field held e p with
  | [] =>
      have hresult : result = _ := p.invoke_unlisted hs hstate (depth + 1) context hfound
      rw [hresult, show found = [] from hfound]
      exact ⟨⟨fun _ => rfl, fun _ => rfl⟩, fun n => ⟨nofun, fun ⟨htwo, hlen⟩ => by simp at hlen; omega⟩⟩
  | [t] =>
      rw [show found = [t] from hfound]
      have hallowed (reason : Refusal) : result ≠ some (.error (.notAllowed action reason)) := fun hresult => by
        obtain ⟨_, hnot, -⟩ := ViewM.outcome_error (p.invoke_launches hs hstate depth context hfound) rfl hresult
        cases hnot
      exact ⟨⟨fun h => absurd h (hallowed _), nofun⟩,
        fun n => ⟨fun h => absurd h (hallowed _), fun ⟨htwo, hlen⟩ => by simp at hlen; omega⟩⟩
  | t :: u :: ts =>
      have htwo : 2 ≤ found.length := by simp [found, hfound]
      have hresult : result = _ := p.invoke_ambiguous hs hstate (depth + 1) context htwo
      rw [hresult]
      refine ⟨⟨nofun, fun h => ?_⟩, fun n => ⟨fun h => ?_, ?_⟩⟩
      · rw [h] at htwo
        simp at htwo
      · cases h
        exact ⟨htwo, rfl⟩
      · rintro ⟨-, rfl⟩
        rfl

/--
Let the stores answer, the lock being held or free, and let the entity that the view remembers, or is about to, have
a text for its state. Then what is listed for an action is that part of all that is listed which has its name, in
the same order, and the available actions are the names of all that is listed. An invocation finds no match exactly
for a name that is not among these, and several exactly as they are listed; it starts what is listed alone. Whoever
lists leaves it such a moment, with the same entity.
-/
theorem introspection_agrees (user : Option Caller) :
    let listed := (Inquiry.mk user none).listing k.field held e p
    let names := Names.ofList (listed.map Transition.action)
    (∃ v' w', EngineM.outcome ((p.available engine ⟨user, none⟩ .all).run v) w =
      (some (listed.map .ok, v'), w') ∧ Answering engine k e held (v', w')) ∧
    (∃ v' w', (p.availableActions engine user).outcome v w = (some (.ok names, v'), w') ∧
      Answering engine k e held (v', w')) ∧
    ∀ action,
      (∃ v' w', EngineM.outcome ((p.available engine ⟨user, some action⟩ .all).run v) w =
        (some ((listed.filter (·.action == action)).map .ok, v'), w') ∧ Answering engine k e held (v', w')) ∧
      ∀ depth context,
        let invoked := (p.invoke engine (depth + 1) action user context).outcome v w
        (invoked.1.map Prod.fst = some (.error (.notAllowed action .noMatch)) ↔ action ∉ names) ∧
        (∀ n, invoked.1.map Prod.fst = some (.error (.notAllowed action (.ambiguous n))) ↔
          2 ≤ n ∧ (listed.filter (·.action == action)).length = n) ∧
        ∀ t, listed.filter (·.action == action) = [t] → w.Launched t k (context.withUser user) invoked.2 := by
  intro listed names
  refine ⟨?_, p.availableActions_lists hs hstate user, fun action => ⟨?_, fun depth context => ?_⟩⟩
  · obtain ⟨v', w', hlists, hsurveying⟩ := p.available_lists hs hstate ⟨user, none⟩
    exact ⟨v', w', hlists, hsurveying.toAnswering⟩
  · obtain ⟨v', w', hlists, hsurveying⟩ := p.available_lists hs hstate ⟨user, some action⟩
    rw [Inquiry.listing_some] at hlists
    exact ⟨v', w', hlists, hsurveying.toAnswering⟩
  · have hnames : action ∉ names ↔ listed.filter (·.action == action) = [] := by
      simp [names, List.filter_eq_nil_iff]
    obtain ⟨hnone, hmany⟩ := p.invoke_refusals hs hstate action user depth context
    rw [Inquiry.listing_some] at hnone hmany
    refine ⟨hnone.trans hnames.symm, hmany, fun t ht => ?_⟩
    rw [← Inquiry.listing_some] at ht
    exact ViewM.outcome_world (p.invoke_launches hs hstate depth context ht) (fun _ _ h => h.2) rfl

end

/-- The clerk can shred in one way and file in three. -/
theorem filing_agrees :
    let k : StateKey := ⟨"letter", "1", "state"⟩
    let user : Option Caller := some ⟨"clerk", []⟩
    let w := Filing.world
    Answering ⟨.standard, []⟩ k Filing.letter false (.fresh k, w) ∧
    Filing.letter.get? "state" = some (.str "draft") ∧
    (∃ v' w', (Filing.process.availableActions ⟨.standard, []⟩ user).outcome (.fresh k) w =
      (some (.ok ["file", "shred"], v'), w')) ∧
    ((Filing.process.invoke ⟨.standard, []⟩ 1 "burn" user .empty).outcome (.fresh k) w).1.map Prod.fst =
      some (.error (.notAllowed "burn" .noMatch)) ∧
    ((Filing.process.invoke ⟨.standard, []⟩ 1 "file" user .empty).outcome (.fresh k) w).1.map Prod.fst =
      some (.error (.notAllowed "file" (.ambiguous 3))) ∧
    w.Launched { Filing.file "bin" with action := "shred" } k (Context.empty.withUser user)
      ((Filing.process.invoke ⟨.standard, []⟩ 1 "shred" user .empty).outcome (.fresh k) w).2 := by
  intro k user w
  have hs : Answering ⟨.standard, []⟩ k Filing.letter false (.fresh k, w) :=
    ⟨rfl, rfl, ⟨Filing.letter, rfl, rfl⟩, rfl⟩
  have hstate : Filing.letter.get? k.field = some (.str "draft") := rfl
  obtain ⟨-, ⟨v', w', hnames, -⟩, hactions⟩ := introspection_agrees hs hstate Filing.process user
  refine ⟨hs, hstate, ⟨v', w', hnames⟩, ?_, ?_, ?_⟩
  · exact ((hactions "burn").2 0 .empty).1.2 (by decide +kernel)
  · exact (((hactions "file").2 0 .empty).2.1 3).2 ⟨by decide, rfl⟩
  · exact ((hactions "shred").2 0 .empty).2.2 _ rfl

end Process

end Workflow
