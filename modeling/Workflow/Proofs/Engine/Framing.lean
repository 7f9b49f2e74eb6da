import Workflow.Proofs.Engine.Locality
import Workflow.Proofs.Engine.Watching

/-!
# The frame of a field

Where commands write no field and leave locks alone, all that an engine does for a field is to lock and unlock
it, to write it and to tell of it. It is a watch on that one field which says that all else is as it was.
-/

namespace Workflow

/-- Nothing is written or removed, no lock is touched and no transition started. -/
def Op.Harmless : Op → Prop
  | setField .. | writeBehind .. | removeEntity | lock | unlock | invoke .. => False
  | _ => True

namespace Op.Harmless

variable {op : Op} (h : op.Harmless)

include h

theorem isPlain : op.isPlain = true := by
  cases op <;> first | rfl | exact h.elim

theorem writes?_eq_none : op.writes? = none := by
  cases op <;> first | rfl | exact h.elim

end Op.Harmless

/-- From the one world to the other there are changes only of the field `K`, its lock, its events and the jobs
that wait for it, and nothing recorded is lost. -/
structure World.Framed (lockPrefix : String) (K : StateKey) (w w' : World) : Prop
    extends World.Confined lockPrefix (· = K) w w' where
  fields : ∀ k, k ≠ K → w'.entities.getField k = w.entities.getField k
  stored : ∀ kind id, w'.entities.contains kind id = w.entities.contains kind id
  journal : w.journal <:+ w'.journal

namespace World.Framed

variable {p : String} {K : StateKey} {w w' w'' : World}

theorem refl (w : World) : w.Framed p K w :=
  ⟨.still, fun _ _ => rfl, fun _ _ => rfl, List.suffix_rfl⟩

theorem trans (h : w.Framed p K w') (h' : w'.Framed p K w'') : w.Framed p K w'' where
  toConfined := h.toConfined.trans h'.toConfined
  fields k hk := (h'.fields k hk).trans (h.fields k hk)
  stored kind id := (h'.stored kind id).trans (h.stored kind id)
  journal := h.journal.trans h'.journal

theorem still (hconfined : w.Confined p (· = K) w') (hjournal : w.journal <:+ w'.journal)
    (hentities : w'.entities = w.entities := by rfl) : w.Framed p K w' :=
  ⟨hconfined, fun _ _ => by rw [hentities], fun _ _ => by rw [hentities], hjournal⟩

theorem quiet {engine : Engine} (h : Quiet engine K w w') : w.Framed engine.config.lockPrefix K w' := by
  have hjournal : w.journal <:+ w'.journal := by
    obtain heq | ⟨e, -, heq⟩ := h.journal
    · exact heq ▸ List.suffix_rfl
    · exact heq ▸ List.suffix_cons _ _
  refine still ?_ hjournal h.entities
  cases h with
  | struck call => exact (w.struck_alters call).confined
  | remarked e => exact (w.record_alters e).confined
  | told action kind => exact (w.emit_alters action kind).confined
  | locked => exact (w.lock_alters _).confined
  | unlocked => exact w.unlock_alters.confined
  | tookOff => exact .still
  | started s => exact (w.record_alters _).confined
  | landed number => exact (w.land_alters _).confined

theorem write {value : Json} {entities : EntityStore} (h : w.entities.setField K value = .ok entities) :
    w.Framed p K (w.write entities K value) where
  toConfined :=
    have halters : w.Alters p K _ (w.write entities { K with field := K.field } value) := w.write_alters h
    halters.confined
  fields _ hk := EntityStore.getField_setField_of_ne h hk.symm
  stored := EntityStore.isSome_find?_setField h
  journal := List.suffix_cons _ _

theorem rewrite {value : String} {entities : EntityStore}
    (h : w.entities.setField K (.str value) = .ok entities) : w.Framed p K (w.rewrite entities K value) :=
  (write h).trans (.still .still List.suffix_rfl)

theorem emit (w : World) (action : String) (kind : EventKind) : w.Framed p K (w.emit ⟨K, action, kind⟩) :=
  .still (w.emit_alters action kind).confined (List.suffix_cons _ _)

theorem queued {job : Job} (h : job.key = K) : w.Framed p K { w with queue := w.queue ++ [job] } :=
  .still (w.push_alters h).confined List.suffix_rfl

theorem pooled {job : Job} (h : job.key = K) : w.Framed p K { w with pool := w.pool ++ [job] } := by
  refine .still ⟨fun _ _ _ => rfl, fun _ _ => rfl, fun _ _ => rfl, fun k hk => ?_⟩ List.suffix_rfl
  have hperm : ({ w with pool := w.pool ++ [job] } : World).pending.Perm (job :: w.pending) := by
    simp [Scene.pending, ← List.append_assoc]
  rw [waiting_of_perm hperm, if_neg fun heq => hk (heq.symm.trans h)]

theorem taken {job : Job} {queue pool : List Job} (h : w.pending.Perm (job :: (queue ++ pool))) :
    w.Framed p job.key { w with queue := queue, pool := pool } :=
  .still (.taken h) List.suffix_rfl

end World.Framed

/-- The watch over all but the field `K`, for transitions whose commands are harmless. -/
def framing (engine : Engine) (K : StateKey) (w₀ : World) : Watch engine where
  holds := w₀.Framed engine.config.lockPrefix K
  keys := (· = K)
  serves _ t := t.Obeys Op.Harmless
  allows _ := Op.Harmless
  keeps _ := True
  sees _ _ := True
  legit _ _ := True
  calm := False
  faultless := nofun
  obeys h := h
  invoked h := h.elim
  writes _ _ := trivial
  recalled _ _ := trivial
  fresh _ := Watch.unasked
  seen _ _ := trivial
  read _ _ := ⟨trivial, trivial⟩
  quiet hk hquiet h := h.trans (hk ▸ .quiet hquiet)
  queued hk h := h.trans (.queued hk)
  pooled hk h := h.trans (.pooled hk)
  switched _ h := h.trans (.still .still List.suffix_rfl)
  wrote _ hop hwrites := absurd (hwrites.symm.trans hop.writes?_eq_none) (Option.some_ne_none _)
  removed _ h := h.elim
  changed _ _ hk _ _ _ hset h := by
    subst hk
    exact (h.trans (.rewrite hset)).trans (.emit _ _ _)
  lost hk _ hset _ h := by
    subst hk
    exact h.trans (.rewrite hset)

namespace framing

variable {engine : Engine} {K : StateKey} {w₀ : World}

/-- The watch is on one field only, and on no job that waits. -/
theorem base {w : World} (h : w₀.Framed engine.config.lockPrefix K w) : (framing engine K w₀).Base w := by
  refine ⟨h, fun _ _ hkeys => ?_⟩
  have hsame : (⟨"", "", "a"⟩ : StateKey) = ⟨"", "", "b"⟩ := (hkeys _).trans (hkeys _).symm
  simp at hsame

theorem eye {s s' : View × World} (hkey : s.1.key = K) (h : s' = s) : (framing engine K s.2).Eye K s' := by
  subst h
  exact ⟨⟨base (.refl _), hkey, trivial⟩, trivial⟩

end framing

end Workflow
