import Workflow.Proofs.Availability
import Workflow.Proofs.Refusals
import Workflow.Proofs.Rejections

/-!
# Looking around and launching

While the stores answer, what is listed for a field can be asked for at any time, and stays what it is. A start
that finds the lock free has it at once; the journal tells of this start before any other, whatever comes of it.
-/

namespace Workflow

/-! ## Looking around -/

/-- The stores answer for the field, and since an earlier world questions were asked and nothing else was done. -/
structure Surveying (engine : Engine) (k : StateKey) (e : Entity) (held : Bool) (earlier : World)
    (s : View × World) : Prop extends Answering engine k e held s where
  asked : earlier.Asked s.2

namespace Surveying

variable {engine : Engine} {k : StateKey} {e : Entity} {held : Bool} {w : World}

theorem reading : Reading (Surveying engine k e held w) where
  struck call h := ⟨Answering.reading.struck call h.1, (Asking.reading.struck call ⟨h.key, h.asked⟩).asked⟩
  asked he h := ⟨Answering.reading.asked he h.1, (Asking.reading.asked he ⟨h.key, h.asked⟩).asked⟩
  remembered hnone he h := ⟨Answering.reading.remembered hnone he h.1, h.asked⟩

theorem facing {s : View × World} (h : Surveying engine k e held w s) : Facing engine k.field held s :=
  ⟨by rw [h.key], by rw [h.key, h.lock]⟩

end Surveying

namespace Process

variable {engine : Engine} {k : StateKey} {e : Entity} {held : Bool} {v : View} {w : World} {state : String}
  (hs : Answering engine k e held (v, w)) (hstate : e.get? k.field = some (.str state)) (q : Inquiry) (p : Process)

include hs hstate

theorem available_lists : ∃ v' w', EngineM.outcome ((p.available engine q .all).run v) w =
    (some ((q.listing k.field held e p).map .ok, v'), w') ∧ Surveying engine k e held w (v', w') := by
  have hcovers : (Exits.mk (fun _ _ => False) fun _ => False).Covers (Surveying engine k e held w) :=
    (Answering.covers hstate).within fun _ h => h.1
  obtain ⟨hends, hcut⟩ := p.available_tallies Surveying.reading engine q hcovers (fun _ h => h.facing) .all v w
    ⟨hs, .refl w⟩
  cases ho : EngineM.outcome ((p.available engine q .all).run v) w with
  | mk r w' =>
      cases r with
      | none => exact (hcut w' ho).elim
      | some r =>
          obtain ⟨hs', herrors, htally⟩ := hends r w' ho
          refine ⟨r.2, w', ?_, hs'⟩
          rcases htally with ⟨err, herr⟩ | hread
          · exact (herrors err herr).elim
          · rw [← Appetite.taken_all, Appetite.taken, ← hread e hs'.allows, List.reverse_reverse]

theorem candidates_lists : ∃ v' w', (p.candidates engine q).outcome v w =
    (some (.ok (q.listing k.field held e p), v'), w') ∧ Surveying engine k e held w (v', w') := by
  have hcovers : (Exits.mk (fun _ _ => False) fun _ => False).Covers (Surveying engine k e held w) :=
    (Answering.covers hstate).within fun _ h => h.1
  obtain ⟨hends, hcut⟩ := p.candidates_finds Surveying.reading engine q hcovers (fun _ h => h.facing) v w
    ⟨hs, .refl w⟩
  cases ho : (p.candidates engine q).outcome v w with
  | mk r w' =>
      match r with
      | none => exact (hcut w' ho).elim
      | some (.error err, v') => exact (hends _ w' ho).elim
      | some (.ok ts, v') =>
          obtain ⟨hs', hlisted⟩ := hends _ w' ho
          rw [hlisted e hs'.allows]
          exact ⟨v', w', rfl, hs'⟩

end Process

/-! ## Launching -/

/-- Of all that was started since an earlier world, this transition was the first, on this field and in this context. -/
def World.Launched (earlier : World) (t : Transition) (k : StateKey) (context : Context) (w : World) : Prop :=
  ∃ later s scene before, w.journal = later ++ ⟨.started s, scene⟩ :: before ++ earlier.journal ∧
    (∀ m ∈ before, m.entry.starts? = none) ∧ s.transition = t ∧ s.key = k ∧ s.context = context

namespace World

variable {w₀ w w' : World} {t : Transition} {k : StateKey} {context : Context}

theorem Launched.later (h : w₀.Launched t k context w) (hjournal : w.journal <:+ w'.journal) :
    w₀.Launched t k context w' := by
  obtain ⟨later, s, scene, before, heq, hs⟩ := h
  obtain ⟨more, hmore⟩ := hjournal
  exact ⟨more ++ later, s, scene, before, by rw [← hmore, heq]; simp, hs⟩

/-- Questions start nothing. -/
theorem Asked.launched (hasked : w₀.Asked w) (h : w.Launched t k context w') : w₀.Launched t k context w' := by
  obtain ⟨later, s, scene, before, heq, hbefore, hs⟩ := h
  obtain ⟨moments, hmoments, hquestions⟩ := hasked.journal
  refine ⟨later, s, scene, before ++ moments, by rw [heq, hmoments]; simp, fun m hm => ?_, hs⟩
  rcases List.mem_append.1 hm with hm | hm
  · exact hbefore m hm
  · have hquestion := hquestions m hm
    revert hquestion
    cases m.entry <;> simp [Entry.isQuestion, Entry.starts?]

theorem Launched.viewing : Viewing fun s => w₀.Launched t k context s.2 where
  struck _ h := h
  remarked _ h := h.later (List.suffix_cons _ _)
  reread _ h := h

end World

/-- What holds however the computation ends holds of the world that it leaves. -/
theorem ViewM.outcome_world {α : Type} {x : ViewM α} {P : View × World → Prop} {Q : World → Prop}
    {E : EngineError → View × World → Prop} (h : Meets P x (fun _ s => Q s.2) ⟨E, Q⟩)
    (hE : ∀ e s, E e s → Q s.2) {v : View} {w : World} (hs : P (v, w)) : Q (x.outcome v w).2 := by
  obtain ⟨hends, hcut⟩ := h v w hs
  cases ho : x.outcome v w with
  | mk r w' =>
      match r with
      | none => exact hcut w' ho
      | some (.ok _, v') => exact hends _ w' ho
      | some (.error e, v') => exact hE e _ (hends _ w' ho)

theorem ViewM.outcome_error {α : Type} {x : ViewM α} {P : View × World → Prop} {Q : α → View × World → Prop}
    {X : Exits (View × World)} (h : Meets P x Q X) {v : View} {w : World} (hs : P (v, w)) {e : EngineError}
    (he : (x.outcome v w).1.map Prod.fst = some (.error e)) : ∃ s, X.error e s := by
  obtain ⟨⟨r, v'⟩, ho, rfl⟩ := Option.map_eq_some_iff.1 he
  exact ⟨_, (h v w hs).1 _ _ (Prod.ext ho rfl)⟩

theorem ViewM.known_meets {α : Type} {X : Exits (View × World)} {x : ViewM α} {v v' : View} {w w' : World} {a : α}
    (h : x.outcome v w = (some (.ok a, v'), w')) :
    Meets (fun s => s = (v, w)) x (fun a' s => a' = a ∧ s = (v', w')) X := by
  rintro _ _ ⟨⟩
  refine ⟨fun p w₁ ho => ?_, fun w₁ ho => ?_⟩
  · cases h.symm.trans ho
    exact ⟨rfl, rfl⟩
  · cases h.symm.trans ho

/-- A start that has its lock: the journal grows, and no error says that something is not allowed. -/
abbrev Exits.underway (w : World) : Exits (View × World) :=
  ⟨fun e s => e.isNotAllowed = false ∧ w.journal <:+ s.2.journal, fun w' => w.journal <:+ w'.journal⟩

namespace Transition

variable {engine : Engine} {depth : Nat} {t : Transition} {context : Context} {root : Option Process}

/-- All that comes behind the claim of a transition. -/
theorem rest_grows (n : Nat) (s : View × World) :
    Meets (fun s' => s' = s) (t.enter >>= t.handOver engine (execute engine depth) context root n)
      (fun _ s' => s.2.journal <:+ s'.2.journal) (.underway s.2) := by
  let I := anyCourse engine (.any _) (fun _ => True) fun _ => trivial
  let leg : Leg := ⟨⟨n, s.1.key⟩, t, [.locked]⟩
  have hL : Course.Lasting (s.2.journal <:+ ·.journal) := fun _ _ hjournal h => h.trans hjournal
  have hengine : engine.Obeys I.allows := fun _ _ _ _ c _ => c.body.all_true
  have hown : I.Own (s.2.journal <:+ ·.journal) [leg] s.1.key s :=
    ⟨rfl, trivial, trivial, ⟨List.suffix_rfl, .inr trivial⟩, .inr trivial⟩
  have henter : Meets (fun s' => I.Own (s.2.journal <:+ ·.journal) [leg] s.1.key s' ∧ I.Informed s') t.enter _ _ :=
    Course.enter_meets leg hL
  refine .bind (M := fun _ s' => ∃ c : Option Change,
    I.Own (s.2.journal <:+ ·.journal) [leg.after (c.map (Change.kind .inProgress)).toList] s.1.key s') ?_
    fun previous => .pick fun c => ?_
  · refine henter.mono (by rintro _ rfl; exact ⟨hown, .inr trivial⟩) (fun _ _ h => h) (fun e s' h => ?_) fun _ h => h.2
    obtain ⟨_, -, -, hsick⟩ := h
    exact ⟨EngineError.isNotAllowed_of_isOfStore hsick.ofStore, hsick.own.base.lasts.1⟩
  · refine (Course.handOver_meets (Course.execute_minds hengine depth) hengine hL (leg.after _)
      (fun c _ => c.body.all_true) ⟨⟨c⟩, rfl⟩ (fun _ _ _ _ c _ => c.body.all_true) trivial trivial previous).mono
      (fun _ h => h) (fun _ _ h => h.base.lasts.1) (fun e s' h => ⟨h.allowed, ?_⟩) fun _ h => h.2
    rcases h.left with ⟨hown, -⟩ | ⟨_, -, -, hsick⟩
    · exact hown.base.lasts.1
    · exact hsick.own.base.lasts.1

/-- A start that finds the lock free is told before whatever may come of it. -/
theorem execute_launches {v : View} {w : World} (hfaults : w.faults = [])
    (hfree : w.locks.isHeld (v.key.lockKey engine.config.lockPrefix) = false) :
    Meets (fun s => s = (v, w)) (execute engine (depth + 1) t context root)
      (fun _ s => w.Launched t v.key context s.2)
      ⟨fun e s => e.isNotAllowed = false ∧ w.Launched t v.key context s.2, w.Launched t v.key context⟩ := by
  have hclaim := t.claim_outcome engine hfaults hfree context
  have hlaunched : w.Launched t v.key context (w.claimed engine t v context) :=
    ⟨[_], _, _, [_], rfl, List.forall_mem_singleton.2 rfl, rfl, rfl, rfl⟩
  rw [execute, executeWith_eq]
  refine .bindKnown (ViewM.known_meets hclaim) ?_
  exact (rest_grows w.starts (v, _)).mono (fun _ h => h) (fun _ _ => hlaunched.later)
    (fun _ _ h => ⟨h.1, hlaunched.later h.2⟩) fun _ => hlaunched.later

/-- What is found while one looks around finds the lock free. -/
theorem execute_surveyed {k : StateKey} {e : Entity} {held : Bool} {q : Inquiry} {p : Process} {v : View} {w w₁ : World}
    (hs : Surveying engine k e held w (v, w₁)) (ht : t ∈ q.listing k.field held e p) :
    Meets (fun s => s = (v, w₁)) (execute engine (depth + 1) t context root)
      (fun _ s => w.Launched t k context s.2)
      ⟨fun err s => err.isNotAllowed = false ∧ w.Launched t k context s.2, w.Launched t k context⟩ := by
  have hfree : w₁.locks.isHeld (v.key.lockKey engine.config.lockPrefix) = false := by
    rw [hs.key, hs.lock]
    cases held with
    | true => exact absurd ht (by rw [Inquiry.listing_held]; exact List.not_mem_nil)
    | false => rfl
  have hlaunches : Meets (fun s => s = (v, w₁)) (execute engine (depth + 1) t context root) _ _ :=
    execute_launches hs.faults hfree
  rw [hs.key] at hlaunches
  exact hlaunches.mono (fun _ h => h) (fun _ _ => hs.asked.launched) (fun _ _ h => ⟨h.1, hs.asked.launched h.2⟩)
    fun _ => hs.asked.launched

end Transition

end Workflow
