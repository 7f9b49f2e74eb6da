import Workflow.Engine.Resolution
import Workflow.Proofs.Engine.Reading

/-!
# What resolution finds

The transitions of a tree that are open on an entity are listed in pre-order; a node whose guards fail hides
all that is below it. Unless it meets an error, resolution finds what is listed for the entity that the view
remembers.
-/

namespace Workflow

/-! ## Open transitions -/

/-- Whether all permissions are given. Without a caller they are not asked for. -/
def Permission.allGiven (user : Option Caller) (e : Entity) (ps : List Permission) : Bool :=
  match user with
  | none => true
  | some caller => ps.all fun p => p.check e caller

def Condition.allHold (e : Entity) (cs : List Condition) : Bool :=
  cs.all fun c => c.check e

def Process.isOpen (user : Option Caller) (e : Entity) (p : Process) : Bool :=
  Permission.allGiven user e p.permissions && Condition.allHold e p.conditions

def Entity.isIn (e : Entity) (field : String) (states : List String) : Bool :=
  match e.get? field with
  | some (.str state) => states.contains state
  | _ => false

def Transition.isOpen (user : Option Caller) (field : String) (e : Entity) (t : Transition) : Bool :=
  e.isIn field t.sources && (Permission.allGiven user e t.permissions && Condition.allHold e t.conditions)

namespace Inquiry

variable (q : Inquiry) (field : String) (held : Bool) (e : Entity)

/-- Nothing is found while the lock of the field is held. -/
def finds (t : Transition) : Bool :=
  q.wants t && (!held && t.isOpen q.user field e)

mutual

def listing : Process → List Transition
  | ⟨name, conditions, permissions, transitions, nested⟩ =>
    if Process.isOpen q.user e ⟨name, conditions, permissions, transitions, nested⟩ then
      transitions.filter (q.finds field held e) ++ listingIn nested
    else []

def listingIn : List Process → List Transition
  | [] => []
  | p :: ps => listing p ++ listingIn ps

end

variable {q field held e}

mutual

theorem mem_of_mem_listing {p : Process} {t : Transition} (h : t ∈ q.listing field held e p) :
    t ∈ p.allTransitions ∧ q.finds field held e t = true := by
  match p with
  | ⟨name, conditions, permissions, transitions, nested⟩ =>
      unfold listing at h
      split at h
      · simp only [Process.allTransitions, List.mem_append]
        rcases List.mem_append.1 h with h | h
        · obtain ⟨hmem, hfinds⟩ := List.mem_filter.1 h
          exact ⟨.inl hmem, hfinds⟩
        · obtain ⟨hmem, hfinds⟩ := mem_of_mem_listingIn h
          exact ⟨.inr hmem, hfinds⟩
      · exact absurd h List.not_mem_nil

theorem mem_of_mem_listingIn {ps : List Process} {t : Transition} (h : t ∈ q.listingIn field held e ps) :
    t ∈ Process.allTransitionsIn ps ∧ q.finds field held e t = true := by
  match ps with
  | [] => exact absurd h List.not_mem_nil
  | p :: ps =>
      simp only [Process.allTransitionsIn, List.mem_append]
      rcases List.mem_append.1 h with h | h
      · obtain ⟨hmem, hfinds⟩ := mem_of_mem_listing h
        exact ⟨.inl hmem, hfinds⟩
      · obtain ⟨hmem, hfinds⟩ := mem_of_mem_listingIn h
        exact ⟨.inr hmem, hfinds⟩

end

end Inquiry

theorem Entity.isIn_iff {e : Entity} {field : String} {states : List String} :
    e.isIn field states = true ↔ ∃ state ∈ states, e.get? field = some (.str state) := by
  unfold isIn
  split <;> simp_all

/-! ## Answers -/

/-- The view remembers this entity, or none yet. -/
def View.Allows (v : View) (e : Entity) : Prop :=
  ∀ e', v.memo = some e' → e' = e

/-- What is known of every entity that the view allows is known from then on. -/
theorem Reading.allowed {P : View × World → Prop} (hP : Reading P) (φ : Entity → Prop) :
    Reading fun s => P s ∧ ∀ e, s.1.Allows e → φ e where
  struck call h := ⟨hP.struck call h.1, h.2⟩
  asked he h := ⟨hP.asked he h.1, h.2⟩
  remembered hnone he h := by
    refine ⟨hP.remembered hnone he h.1, fun e _ => h.2 e fun e' hsome => ?_⟩
    exact absurd (hnone.symm.trans hsome) nofun

theorem View.allows_iff {v : View} {e e' : Entity} (h : v.memo = some e) : v.Allows e' ↔ e = e' :=
  ⟨fun hallows => hallows e h, fun heq _ hsome => heq ▸ Option.some.inj (hsome.symm.trans h)⟩

variable {P : View × World → Prop} {X : Exits (View × World)}

namespace ViewM

variable (hP : Reading P)

include hP

theorem askConditions_meets (v : View) (e : Entity) (cs : List Condition) {C : World → Prop} :
    Meets (fun w => P (v, w)) (EngineM.askConditions e cs)
      (fun yes w => P (v, w) ∧ yes = Condition.allHold e cs) (.only C) := by
  induction cs with
  | nil => exact .pure fun _ h => ⟨h, rfl⟩
  | cons c cs ih =>
      refine .bind (M := fun _ w => P (v, w)) (EngineM.modify_meets fun w h => hP.asked rfl h) fun _ => ?_
      cases hc : c.check e with
      | true => exact ih.post fun _ _ h => ⟨h.1, by simp [h.2, Condition.allHold, hc]⟩
      | false => exact .pure fun _ h => ⟨h, by simp [Condition.allHold, hc]⟩

theorem askPermissions_meets (v : View) (e : Entity) (caller : Caller) (ps : List Permission)
    {C : World → Prop} :
    Meets (fun w => P (v, w)) (EngineM.askPermissions e caller ps)
      (fun yes w => P (v, w) ∧ yes = Permission.allGiven (some caller) e ps) (.only C) := by
  induction ps with
  | nil => exact .pure fun _ h => ⟨h, rfl⟩
  | cons p ps ih =>
      refine .bind (M := fun _ w => P (v, w)) (EngineM.modify_meets fun w h => hP.asked rfl h) fun _ => ?_
      cases hp : p.check e caller with
      | true => exact ih.post fun _ _ h => ⟨h.1, by simp [h.2, Permission.allGiven, hp]⟩
      | false => exact .pure fun _ h => ⟨h, by simp [Permission.allGiven, hp]⟩

variable (hX : X.Takes P)

include hX

theorem conditionsHold_meets (cs : List Condition) :
    Meets P (conditionsHold cs)
      (fun yes s => P s ∧ ∀ e, s.1.Allows e → yes = Condition.allHold e cs) X := by
  unfold conditionsHold
  split
  · rename_i hempty
    obtain rfl := List.isEmpty_iff.1 hempty
    exact .pure fun _ h => ⟨h, fun _ _ => rfl⟩
  · refine .bind (entity_meets hP hX) fun e => ofEngine_meets fun v => ?_
    refine (Meets.assume (P := fun w => P (v, w)) fun (hmemo : v.memo = some e) => ?_).pre
      fun w h => ⟨h.2, h.1⟩
    refine (askConditions_meets hP v e cs).post fun yes w h => ⟨h.1, fun e' he' => ?_⟩
    rw [h.2, (View.allows_iff hmemo).1 he']

theorem permissionsHold_meets (user : Option Caller) (ps : List Permission) :
    Meets P (permissionsHold user ps)
      (fun yes s => P s ∧ ∀ e, s.1.Allows e → yes = Permission.allGiven user e ps) X := by
  unfold permissionsHold
  split
  · exact .pure fun _ h => ⟨h, fun _ _ => rfl⟩
  split
  · rename_i hempty
    obtain rfl := List.isEmpty_iff.1 hempty
    exact .pure fun _ h => ⟨h, fun _ _ => rfl⟩
  · refine .bind (entity_meets hP hX) fun e => ofEngine_meets fun v => ?_
    refine (Meets.assume (P := fun w => P (v, w)) fun (hmemo : v.memo = some e) => ?_).pre
      fun w h => ⟨h.2, h.1⟩
    refine (askPermissions_meets hP v e _ ps).post fun yes w h => ⟨h.1, fun e' he' => ?_⟩
    rw [h.2, (View.allows_iff hmemo).1 he']

/-- Permissions are asked first. -/
theorem guardsHold_meets (user : Option Caller) (ps : List Permission) (cs : List Condition) :
    Meets P (do if ← permissionsHold user ps then conditionsHold cs else return false)
      (fun yes s => P s ∧
        ∀ e, s.1.Allows e → yes = (Permission.allGiven user e ps && Condition.allHold e cs)) X := by
  refine .bind (permissionsHold_meets hP hX user ps) fun permitted => ?_
  have hP' := hP.allowed fun e => permitted = Permission.allGiven user e ps
  cases permitted with
  | true =>
      refine (conditionsHold_meets hP' (fun v w call e he h => hX v w call e he h.1) cs).post ?_
      exact fun _ s h => ⟨h.1.1, fun e he => by rw [h.2 e he, ← h.1.2 e he, Bool.true_and]⟩
  | false => exact .pure fun s h => ⟨h.1, fun e he => by rw [← h.2 e he, Bool.false_and]⟩

end ViewM

/-! ## Resolution -/

/-- The errors that questions may come upon are among the exits, and go on to be when more is asked. -/
structure Exits.Covers (X : Exits (View × World)) (P : View × World → Prop) : Prop where
  takes : X.Takes P
  stateless : ∀ e s, e.isOfStore = true → P s → s.1.memo.isSome → (¬ ∃ state, s.1.Recalls state) →
    X.error e s
  reading : ∀ e, Reading (X.error e)

theorem Exits.Covers.within {P' : View × World → Prop} (hX : X.Covers P) (h : ∀ s, P' s → P s) :
    X.Covers P' where
  takes v w call e he hs := hX.takes v w call e he (h _ hs)
  stateless e s he hs := hX.stateless e s he (h s hs)
  reading := hX.reading

/-- An error may also be known to leave a state as it was. -/
theorem Exits.Covers.keeping (hX : X.Covers P) (hP : Reading P) :
    (Exits.mk (fun e s => X.error e s ∧ P s) X.cut).Covers P where
  takes v w call e he hs hsick := ⟨hX.takes v w call e he hs hsick, hP.failing call e hs⟩
  stateless e s he hs hsome hno := ⟨hX.stateless e s he hs hsome hno, hs⟩
  reading e := {
    struck := fun call h => ⟨(hX.reading e).struck call h.1, hP.struck call h.2⟩
    asked := fun he h => ⟨(hX.reading e).asked he h.1, hP.asked he h.2⟩
    remembered := fun hnone he h => ⟨(hX.reading e).remembered hnone he h.1, hP.remembered hnone he h.2⟩ }

theorem Exits.covers_of_isOfStore (hP : Reading P) (C : World → Prop) :
    (Exits.mk (fun e s => e.isOfStore = true ∧ P s) C).Covers P where
  takes _ _ call e he hs _ := ⟨he, hP.failing call e hs⟩
  stateless _ _ he hs _ _ := ⟨he, hs⟩
  reading _ := {
    struck := fun call h => ⟨h.1, hP.struck call h.2⟩
    asked := fun he h => ⟨h.1, hP.asked he h.2⟩
    remembered := fun hnone he h => ⟨h.1, hP.remembered hnone he h.2⟩ }

/-- What is asked about: a field, the lock of which is held or free. -/
def Facing (engine : Engine) (field : String) (held : Bool) (s : View × World) : Prop :=
  s.1.key.field = field ∧ s.2.locks.isHeld (s.1.key.lockKey engine.config.lockPrefix) = held

theorem Reading.facing (hP : Reading P) (engine : Engine) (field : String) (held : Bool) :
    Reading fun s => P s ∧ Facing engine field held s where
  struck call h := ⟨hP.struck call h.1, h.2⟩
  asked he h := ⟨hP.asked he h.1, h.2⟩
  remembered hnone he h := ⟨hP.remembered hnone he h.1, h.2⟩

section

variable {engine : Engine} {field : String} {held : Bool} (hP : Reading P) (hX : X.Covers P)

include hP hX

theorem Process.isValid_meets (user : Option Caller) (p : Process) :
    Meets P (p.isValid user) (fun yes s => P s ∧ ∀ e, s.1.Allows e → yes = p.isOpen user e) X :=
  ViewM.guardsHold_meets hP hX.takes user _ _

variable (hfacing : ∀ s, P s → Facing engine field held s)

include hfacing

theorem Transition.isValid_meets (user : Option Caller) (t : Transition) :
    Meets P (t.isValid engine user)
      (fun yes s => P s ∧ ∀ e, s.1.Allows e → yes = (!held &&
        (Permission.allGiven user e t.permissions && Condition.allHold e t.conditions))) X := by
  refine .bind (ViewM.isLocked_answers hP engine hX.takes) fun locked => ?_
  refine (Meets.assume (φ := locked = held) (P := P) fun hlocked => ?_).pre
    fun s h => ⟨h.2.trans (hfacing s h.1).2, h.1⟩
  subst hlocked
  cases locked with
  | true => exact .pure fun _ h => ⟨h, fun _ _ => rfl⟩
  | false => exact ViewM.guardsHold_meets hP hX.takes user _ _

theorem Transition.isAvailable_meets (user : Option Caller) (t : Transition) :
    Meets P (t.isAvailable engine user)
      (fun yes s => P s ∧ ∀ e, s.1.Allows e → yes = (!held && t.isOpen user field e)) X := by
  refine .bind (ViewM.memoizedState_meets hP hX.takes hX.stateless) fun state => ?_
  have hin {s : View × World} (hs : P s ∧ s.1.Recalls state) {e : Entity} (he : s.1.Allows e) :
      e.isIn field t.sources = t.sources.contains state := by
    obtain ⟨e', hmemo, hstate⟩ := hs.2
    obtain rfl := he e' hmemo
    rw [(hfacing s hs.1).1] at hstate
    rw [Entity.isIn, hstate]
  cases hmem : t.sources.contains state with
  | true =>
      refine (Transition.isValid_meets (hP.recalls state) (hX.within fun _ h => h.1)
        (fun s h => hfacing s h.1) user t).post fun yes s h => ⟨h.1.1, fun e he => ?_⟩
      rw [h.2 e he, Transition.isOpen, hin h.1 he, hmem, Bool.true_and]
  | false =>
      refine .pure fun s h => ⟨h.1, fun e he => ?_⟩
      rw [Transition.isOpen, hin h he, hmem, Bool.false_and, Bool.and_false]

end

/-! ## Readers -/

namespace Appetite

variable {more : Appetite}

/-- What a reader has seen in the end, the latest first, if these items follow what it has seen already. -/
def read (more : Appetite) : List Item → List Item → List Item
  | [], seen => seen
  | item :: items, seen => if more seen then read more items (item :: seen) else seen

theorem read_of_done {seen : List Item} (h : more seen = false) (items : List Item) :
    more.read items seen = seen := by
  cases items with
  | nil => rfl
  | cons item items => rw [read, h, if_neg Bool.false_ne_true]

theorem read_append (items items' seen : List Item) :
    more.read (items ++ items') seen = more.read items' (more.read items seen) := by
  induction items generalizing seen with
  | nil => rfl
  | cons item items ih =>
      cases h : more seen with
      | true => rw [List.cons_append, read, read, h, if_pos rfl, if_pos rfl, ih]
      | false => simp only [read_of_done h]

/-- A reader that goes on as long as it meets no error reads transitions to the end. -/
theorem read_oks (h : ∀ ts : List Transition, more (ts.map .ok) = true) (ts us : List Transition) :
    more.read (ts.map .ok) (us.map .ok) = (ts.reverse ++ us).map .ok := by
  induction ts generalizing us with
  | nil => rfl
  | cons t ts ih =>
      rw [List.map_cons, read, h, if_pos rfl, List.reverse_cons, List.append_assoc]
      exact ih (t :: us)

theorem untilError_oks (ts : List Transition) : untilError (ts.map .ok) = true := by
  cases ts <;> rfl

end Appetite

/-- What was seen so far, the latest first: what the reader takes of what is listed for the entity, or an
error. -/
def Item.Tally (X : Exits (View × World)) (more : Appetite) (listed : Entity → List Transition)
    (seen : List Item) (s : View × World) : Prop :=
  (∀ e, .error e ∈ seen → X.error e s) ∧
    ((∃ e, .error e ∈ seen) ∨ ∀ e, s.1.Allows e → seen = more.read ((listed e).map .ok) [])

namespace Item.Tally

variable {more : Appetite} {listed listed' : Entity → List Transition} {seen : List Item} {s : View × World}

theorem imp (h : Item.Tally X more listed seen s) (hlisted : ∀ e, s.1.Allows e → listed' e = listed e) :
    Item.Tally X more listed' seen s :=
  ⟨h.1, h.2.imp_right fun h e he => by rw [hlisted e he, ← h e he]⟩

/-- What comes later is not seen by a reader that has seen enough. -/
theorem done (h : Item.Tally X more listed seen s) (hmore : more seen = false)
    (later : Entity → List Transition) : Item.Tally X more (fun e => listed e ++ later e) seen s := by
  refine ⟨h.1, h.2.imp_right fun h e he => ?_⟩
  rw [List.map_append, Appetite.read_append, ← h e he, Appetite.read_of_done hmore]

theorem found (h : Item.Tally X more listed seen s) (hmore : more seen = true) {t : Transition}
    (hlisted : ∀ e, s.1.Allows e → listed' e = listed e ++ [t]) :
    Item.Tally X more listed' (.ok t :: seen) s := by
  refine ⟨fun e he => h.1 e (by simpa using he), h.2.imp (fun ⟨e, he⟩ => ⟨e, List.mem_cons_of_mem _ he⟩) ?_⟩
  intro h e he
  rw [hlisted e he, List.map_append, Appetite.read_append, ← h e he, List.map_singleton, Appetite.read, hmore,
    if_pos rfl, Appetite.read]

theorem failed (h : Item.Tally X more listed seen s) {e : EngineError} (he : X.error e s) :
    Item.Tally X more listed' (.error e :: seen) s := by
  refine ⟨fun e' he' => ?_, .inl ⟨e, List.mem_cons_self ..⟩⟩
  cases List.mem_cons.1 he' with
  | inl heq => cases heq; exact he
  | inr he' => exact h.1 e' he'

theorem reading (hP : Reading P) (hX : X.Covers P) (more : Appetite) (listed : Entity → List Transition)
    (seen : List Item) : Reading fun s => P s ∧ Item.Tally X more listed seen s where
  struck call h := ⟨hP.struck call h.1, fun e he => (hX.reading e).struck call (h.2.1 e he), h.2.2⟩
  asked hq h := ⟨hP.asked hq h.1, fun e he => (hX.reading e).asked hq (h.2.1 e he), h.2.2⟩
  remembered hnone hfound h := by
    refine ⟨hP.remembered hnone hfound h.1, fun e he => (hX.reading e).remembered hnone hfound (h.2.1 e he),
      h.2.2.imp_right fun h e _ => h e fun e' hsome => ?_⟩
    exact absurd (hnone.symm.trans hsome) nofun

end Item.Tally

/-! ## The walk -/

namespace Inquiry

variable {engine : Engine} {q : Inquiry} {more : Appetite} {field : String} {held : Bool}

theorem walkOwn_meets (hP : Reading P) (hX : X.Covers P)
    (hfacing : ∀ s, P s → Facing engine field held s) (ts : List Transition)
    (listed : Entity → List Transition) (seen : List Item) :
    Meets (fun s => P s ∧ Item.Tally X more listed seen s) (q.walkOwn engine more ts seen)
      (fun items s => P s ∧ Item.Tally X more (fun e => listed e ++ ts.filter (q.finds field held e)) items s)
      (.only X.cut) := by
  induction ts generalizing listed seen with
  | nil => exact .pure fun _ h => ⟨h.1, h.2.imp fun _ _ => List.append_nil _⟩
  | cons t ts ih =>
      have hlater (seen) := ih (fun e => listed e ++ [t].filter (q.finds field held e)) seen
      simp only [List.append_assoc, ← List.filter_append, List.singleton_append] at hlater
      unfold walkOwn
      split
      · rename_i hdone
        exact .pure fun _ h => ⟨h.1, h.2.done (by simpa using hdone) _⟩
      rename_i hmore
      split
      · rename_i hwants
        refine (hlater seen).pre fun _ h => ⟨h.1, h.2.imp fun e _ => ?_⟩
        simp [finds, Bool.eq_false_iff.2 (by simpa using hwants : ¬ q.wants t = true)]
      · rename_i hwants
        have hfinds {e : Entity} {yes : Bool} (h : yes = (!held && t.isOpen q.user field e)) :
            q.finds field held e t = yes := by
          rw [finds, h, (by simpa using hwants : q.wants t = true), Bool.true_and]
        have hreading := Item.Tally.reading hP hX more listed seen
        refine .bind ((t.isAvailable_meets hreading ((hX.within fun _ h => h.1).keeping hreading)
          (fun s h => hfacing s h.1) q.user).run fun _ h => h) fun r => ?_
        split
        · refine (hlater _).pre fun s h => ⟨h.1.1, h.1.2.found (by simpa using hmore) fun e he => ?_⟩
          rw [List.filter_cons_of_pos (hfinds (h.2 e he)), List.filter_nil]
        · refine (hlater _).pre fun s h => ⟨h.1.1, h.1.2.imp fun e he => ?_⟩
          rw [List.filter_cons_of_neg (by rw [hfinds (h.2 e he)]; nofun), List.filter_nil, List.append_nil]
        · exact (hlater _).pre fun s h => ⟨h.2.1, h.2.2.failed h.1⟩

mutual

theorem walk_meets {P : View × World → Prop} (hP : Reading P) (hX : X.Covers P)
    (hfacing : ∀ s, P s → Facing engine field held s) (p : Process) (listed : Entity → List Transition)
    (seen : List Item) :
    Meets (fun s => P s ∧ Item.Tally X more listed seen s) (q.walk engine more p seen)
      (fun items s => P s ∧ Item.Tally X more (fun e => listed e ++ q.listing field held e p) items s)
      (.only X.cut) := by
  match p with
  | ⟨name, conditions, permissions, transitions, nested⟩ =>
      unfold walk
      have hreading := Item.Tally.reading hP hX more listed seen
      refine .bind ((Process.isValid_meets hreading ((hX.within fun _ h => h.1).keeping hreading)
        q.user _).run fun _ h => h) fun r => ?_
      split
      · exact .pure fun s h => ⟨h.2.1, h.2.2.failed h.1⟩
      · refine .pure fun s h => ⟨h.1.1, h.1.2.imp fun e he => ?_⟩
        rw [listing, if_neg (by rw [← h.2 e he]; nofun), List.append_nil]
      · -- What the guards have answered is kept in mind up to the end of the walk.
        have hopen := hP.allowed fun e => true = Process.isOpen q.user e
          ⟨name, conditions, permissions, transitions, nested⟩
        refine .bind ((walkOwn_meets hopen (hX.within fun _ h => h.1) (fun s h => hfacing s h.1)
          transitions listed seen).pre fun s h => ⟨⟨h.1.1, h.2⟩, h.1.2⟩) fun own => ?_
        refine (walkNested_meets hopen (hX.within fun _ h => h.1) (fun s h => hfacing s h.1) nested
          _ own).post fun items s h => ⟨h.1.1, h.2.imp fun e he => ?_⟩
        rw [listing, if_pos (h.1.2 e he).symm, List.append_assoc]

theorem walkNested_meets {P : View × World → Prop} (hP : Reading P)
    (hX : X.Covers P) (hfacing : ∀ s, P s → Facing engine field held s) (ps : List Process)
    (listed : Entity → List Transition) (seen : List Item) :
    Meets (fun s => P s ∧ Item.Tally X more listed seen s) (q.walkNested engine more ps seen)
      (fun items s => P s ∧ Item.Tally X more (fun e => listed e ++ q.listingIn field held e ps) items s)
      (.only X.cut) := by
  match ps with
  | [] => exact .pure fun _ h => ⟨h.1, h.2.imp fun _ _ => List.append_nil _⟩
  | p :: ps =>
      unfold walkNested
      split
      · rename_i hdone
        exact .pure fun _ h => ⟨h.1, h.2.done (by simpa using hdone) _⟩
      · refine .bind (walk_meets hP hX hfacing p listed seen) fun first => ?_
        refine (walkNested_meets hP hX hfacing ps _ first).post fun items s h =>
          ⟨h.1, h.2.imp fun e _ => ?_⟩
        rw [listingIn, List.append_assoc]

end

end Inquiry

namespace Item

theorem eq_map_of_mapM {items : List Item} {ts : List Transition} (h : items.mapM id = .ok ts) :
    items = ts.map .ok := by
  induction items generalizing ts with
  | nil =>
      cases h
      rfl
  | cons item items ih =>
      rw [List.mapM_cons] at h
      cases item with
      | error e => cases h
      | ok t =>
          cases hrest : items.mapM id with
          | error e =>
              rw [hrest] at h
              cases h
          | ok rest =>
              rw [hrest] at h
              cases h
              rw [List.map_cons, ← ih hrest]

theorem mem_of_mapM_error {items : List Item} {e : EngineError} (h : items.mapM id = .error e) :
    .error e ∈ items := by
  induction items with
  | nil => cases h
  | cons item items ih =>
      rw [List.mapM_cons] at h
      cases item with
      | error e' =>
          cases h
          exact List.mem_cons_self ..
      | ok t =>
          cases hrest : items.mapM id with
          | error e' =>
              rw [hrest] at h
              cases h
              exact List.mem_cons_of_mem _ (ih hrest)
          | ok rest =>
              rw [hrest] at h
              cases h

end Item

/-- The transition is all that is listed for its action, on the entity that the view remembers and with the
lock free. -/
def Process.Picks (p : Process) (user : Option Caller) (v : View) (t : Transition) : Prop :=
  ∃ e, v.memo = some e ∧ (Inquiry.mk user (some t.action)).listing v.key.field false e p = [t]

theorem Process.picks_reading (p : Process) (user : Option Caller) (t : Transition) :
    Reading fun s => p.Picks user s.1 t where
  struck _ h := h
  asked _ h := h
  remembered hnone _ h := by
    obtain ⟨_, hsome, -⟩ := h
    exact absurd (hnone.symm.trans hsome) nofun

theorem Inquiry.fits_of_finds {q : Inquiry} {held : Bool} {v : View} {e : Entity} {t : Transition}
    (hmemo : v.memo = some e) (h : q.finds v.key.field held e t = true) : t.Fits v := by
  simp only [finds, Transition.isOpen, Bool.and_eq_true, Entity.isIn_iff] at h
  obtain ⟨-, -, ⟨state, hstate, hvalue⟩, -⟩ := h
  exact ⟨state, hstate, e, hmemo, hvalue⟩

theorem Process.Picks.fits {p : Process} {user : Option Caller} {v : View} {t : Transition}
    (h : p.Picks user v t) : t.Fits v := by
  obtain ⟨e, hmemo, hlisted⟩ := h
  have ht : t ∈ (Inquiry.mk user (some t.action)).listing v.key.field false e p :=
    hlisted ▸ List.mem_singleton_self t
  exact Inquiry.fits_of_finds hmemo (Inquiry.mem_of_mem_listing ht).2

/-- A view for which something is listed remembers an entity: on one without fields nothing is open. -/
theorem Inquiry.remembers {q : Inquiry} {field : String} {held : Bool} {p : Process} {v : View}
    {ts : List Transition} {t : Transition} (hlisted : ∀ e, v.Allows e → ts = q.listing field held e p)
    (ht : t ∈ ts) : ∃ e, v.memo = some e ∧ ts = q.listing field held e p := by
  cases hmemo : v.memo with
  | some e => exact ⟨e, rfl, hlisted e ((View.allows_iff hmemo).2 rfl)⟩
  | none =>
      have hblank := hlisted ⟨"", "", []⟩ fun e he => nomatch hmemo.symm.trans he
      rw [hblank] at ht
      have hfinds := (mem_of_mem_listing ht).2
      simp [finds, Transition.isOpen, Entity.isIn, Entity.get?, Table.get?] at hfinds

namespace Process

variable {field : String} {held : Bool} (hP : Reading P) (engine : Engine) (q : Inquiry) (p : Process)

include hP

theorem available_tallies (hX : X.Covers P) (hfacing : ∀ s, P s → Facing engine field held s)
    (more : Appetite) :
    Meets P (p.available engine q more)
      (fun items s => P s ∧ Item.Tally X more (fun e => q.listing field held e p) items.reverse s)
      (.only X.cut) := by
  refine .bind ((Inquiry.walk_meets hP hX hfacing p (fun _ => []) []).pre
    fun s h => ⟨h, nofun, .inr fun _ _ => rfl⟩) fun items => .pure fun s h => ⟨h.1, ?_⟩
  rw [List.reverse_reverse]
  exact h.2

/-- The candidates are those that are listed for the entity of the view. -/
theorem candidates_finds (hX : X.Covers P) (hfacing : ∀ s, P s → Facing engine field held s) :
    Meets P (p.candidates engine q)
      (fun ts s => P s ∧ ∀ e, s.1.Allows e → ts = q.listing field held e p) X := by
  refine .bind (.liftExcept (p.available_tallies hP engine q hX hfacing .untilError)) fun items => ?_
  refine .ofExcept (.pure fun s h => ?_)
  cases hall : items.mapM id with
  | error e => exact h.2.1 e (List.mem_reverse.2 (Item.mem_of_mapM_error hall))
  | ok ts =>
      have hitems := Item.eq_map_of_mapM hall
      refine ⟨h.1, fun e he => ?_⟩
      rcases h.2.2 with ⟨e', he'⟩ | hlisted
      · simp [hitems] at he'
      · have hread := Appetite.read_oks Appetite.untilError_oks (q.listing field held e p) []
        rw [List.append_nil, List.map_reverse] at hread
        have hmap := List.reverse_inj.1 ((hlisted e he).trans hread)
        rw [hitems] at hmap
        exact (List.map_inj_right fun _ _ h => by cases h; rfl).1 hmap

/-- The candidates are transitions of the process that fit the view. -/
theorem candidates_meets (hX : ∀ e s, e.isOfStore = true → P s → X.error e s) :
    Meets P (p.candidates engine q) (fun ts s => P s ∧ ∀ t ∈ ts, t ∈ p.allTransitions ∧ t.Fits s.1) X := by
  refine .point fun s hs => ?_
  let held := s.2.locks.isHeld (s.1.key.lockKey engine.config.lockPrefix)
  have hreading := hP.facing engine s.1.key.field held
  refine (p.candidates_finds hreading engine q (Exits.covers_of_isOfStore hreading X.cut) fun _ h => h.2).mono
    (by rintro _ rfl; exact ⟨hs, rfl, rfl⟩) (fun ts s' h => ⟨h.1.1, fun t ht => ?_⟩)
    (fun e s h => hX e s h.1 h.2.1) fun _ h => h
  obtain ⟨e, hmemo, hts⟩ := Inquiry.remembers h.2 ht
  rw [hts] at ht
  obtain ⟨hmem, hfinds⟩ := Inquiry.mem_of_mem_listing ht
  exact ⟨hmem, Inquiry.fits_of_finds hmemo (by rw [h.1.2.1]; exact hfinds)⟩

/-- A single candidate is picked, and the lock was free. -/
theorem candidates_picks (user : Option Caller) (action : String) (hX : X.Covers P) :
    Meets P (p.candidates engine ⟨user, some action⟩)
      (fun ts s => P s ∧ ∀ t, ts = [t] → t ∈ p.allTransitions ∧ t.action = action ∧ p.Picks user s.1 t ∧
        s.2.locks.isHeld (s.1.key.lockKey engine.config.lockPrefix) = false) X := by
  refine .point fun s hs => ?_
  let held := s.2.locks.isHeld (s.1.key.lockKey engine.config.lockPrefix)
  refine ((p.candidates_finds (hP.facing engine s.1.key.field held) engine _ (hX.within fun _ h => h.1)
    fun _ h => h.2).pre (by rintro _ rfl; exact ⟨hs, rfl, rfl⟩)).post fun ts s' h => ⟨h.1.1, fun t ht => ?_⟩
  have htmem : t ∈ ts := ht ▸ List.mem_singleton_self t
  obtain ⟨e, hmemo, hts⟩ := Inquiry.remembers h.2 htmem
  obtain ⟨hmem, hfinds⟩ := Inquiry.mem_of_mem_listing (hts ▸ htmem)
  simp only [Inquiry.finds, Inquiry.wants, Bool.and_eq_true, Bool.not_eq_true', beq_iff_eq] at hfinds
  obtain ⟨rfl, hfree, -⟩ := hfinds
  refine ⟨hmem, rfl, ⟨e, hmemo, ?_⟩, h.1.2.2.trans hfree⟩
  rw [h.1.2.1, ← hfree, ← hts, ht]

end Process

end Workflow
