import Workflow.Proofs.Engine.Resolving

/-!
# Available transitions

While the stores answer and the remembered entity has a text for its state, a walk of a process comes to an end
without an error. It finds nothing behind a held lock, and else, in pre-order, the transitions that are open
together with all nodes above them. A reader that wants fewer gets the first of these.
-/

namespace Workflow

/-! ## Trees in pre-order -/

namespace Process

mutual

/-- The transitions of a tree, those of a node before those below it, each with the nodes from the root down to
its own. -/
def placed (above : List Process) : Process → List (List Process × Transition)
  | ⟨name, conditions, permissions, transitions, nested⟩ =>
    let nodes := above ++ [⟨name, conditions, permissions, transitions, nested⟩]
    transitions.map (nodes, ·) ++ placedIn nodes nested

def placedIn (above : List Process) : List Process → List (List Process × Transition)
  | [] => []
  | p :: ps => placed above p ++ placedIn above ps

end

end Process

namespace Inquiry

variable (q : Inquiry) (field : String) (e : Entity)

/-- The transition is asked for and open, and so are all nodes above it. -/
def admits (placed : List Process × Transition) : Bool :=
  placed.1.all (Process.isOpen q.user e) && (q.wants placed.2 && placed.2.isOpen q.user field e)

/-- The transitions of a tree that are admitted, in pre-order. -/
def admitted (p : Process) : List Transition :=
  ((p.placed []).filter (q.admits field e)).map Prod.snd

variable {q field e}

theorem filter_node {nodes : List Process} (ts : List Transition) :
    ((ts.map (nodes, ·)).filter (q.admits field e)).map Prod.snd =
      if nodes.all (Process.isOpen q.user e) then ts.filter (q.finds field false e) else [] := by
  rw [List.filter_map, List.map_map, show Prod.snd ∘ (nodes, ·) = id from rfl, List.map_id]
  cases hnodes : nodes.all (Process.isOpen q.user e) with
  | true =>
      refine List.filter_congr fun t _ => ?_
      simp [admits, finds, hnodes]
  | false =>
      refine List.filter_eq_nil_iff.2 fun t _ => ?_
      simp [admits, hnodes]

mutual

/-- A closed node above hides the whole tree. -/
theorem filter_placed (above : List Process) (p : Process) :
    ((p.placed above).filter (q.admits field e)).map Prod.snd =
      if above.all (Process.isOpen q.user e) then q.listing field false e p else [] := by
  match p with
  | ⟨name, conditions, permissions, transitions, nested⟩ =>
      rw [Process.placed, List.filter_append, List.map_append, filter_node, filter_placedIn, listing]
      simp only [List.all_append, List.all_cons, List.all_nil, Bool.and_true]
      cases above.all (Process.isOpen q.user e) with
      | false => rfl
      | true => split <;> simp_all

theorem filter_placedIn (above ps : List Process) :
    ((Process.placedIn above ps).filter (q.admits field e)).map Prod.snd =
      if above.all (Process.isOpen q.user e) then q.listingIn field false e ps else [] := by
  match ps with
  | [] => simp [Process.placedIn, listingIn]
  | p :: ps =>
      rw [Process.placedIn, List.filter_append, List.map_append, filter_placed, filter_placedIn, listingIn]
      split <;> rfl

end

theorem listing_free (p : Process) : q.listing field false e p = q.admitted field e p :=
  (filter_placed [] p).symm

theorem listing_held (p : Process) : q.listing field true e p = [] :=
  List.eq_nil_iff_forall_not_mem.2 fun t ht => by simpa [finds] using (mem_of_mem_listing ht).2

end Inquiry

/-! ## Stores that answer -/

/-- The stores answer for a field: its entity is there, the view remembers `e` or is about to, and the lock is
held or not. -/
structure Answering (engine : Engine) (k : StateKey) (e : Entity) (held : Bool) (s : View × World) : Prop where
  faults : s.2.faults = []
  key : s.1.key = k
  there : ∃ stored, s.2.entities.find? k.kind k.id = some stored ∧ s.1.memo.getD stored = e
  lock : s.2.locks.isHeld (k.lockKey engine.config.lockPrefix) = held

namespace Answering

variable {engine : Engine} {k : StateKey} {e : Entity} {held : Bool} {s : View × World}

theorem healthy (h : Answering engine k e held s) : Healthy s := by
  obtain ⟨stored, hstored, -⟩ := h.there
  exact ⟨h.faults, by rw [h.key, hstored]; rfl⟩

theorem allows (h : Answering engine k e held s) : s.1.Allows e := by
  intro e' hmemo
  obtain ⟨stored, -, rfl⟩ := h.there
  rw [hmemo, Option.getD_some]

theorem recalls (h : Answering engine k e held s) (hmemo : s.1.memo.isSome) {state : String}
    (hstate : e.get? k.field = some (.str state)) : s.1.Recalls state := by
  obtain ⟨e', he'⟩ := Option.isSome_iff_exists.1 hmemo
  refine ⟨e', he', ?_⟩
  rw [h.allows e' he', h.key, hstate]

theorem reading : Reading (Answering engine k e held) where
  struck call h := ⟨by rw [World.struck, h.faults]; rfl, h.key, h.there, h.lock⟩
  asked _ h := ⟨h.faults, h.key, h.there, h.lock⟩
  remembered hnone hfound h := by
    -- What is remembered from now on is what a look at the store would have given.
    refine ⟨h.faults, h.key, ?_, h.lock⟩
    obtain ⟨stored, hstored, he⟩ := h.there
    rw [← h.key, hfound] at hstored
    cases hstored
    refine ⟨_, h.key ▸ hfound, ?_⟩
    rw [← he, hnone]
    rfl

/-- No question meets an error. -/
theorem covers {state : String} (hstate : e.get? k.field = some (.str state)) :
    (Exits.mk (fun _ _ => False) fun _ => False).Covers (Answering engine k e held) where
  takes _ _ _ _ _ h hsick := hsick h.healthy
  stateless _ _ _ h hmemo hno := hno ⟨state, h.recalls hmemo hstate⟩
  reading _ := ⟨fun _ h => h, fun _ h => h, fun _ _ h => h⟩

end Answering

/-! ## Readers -/

namespace Appetite

/-- What a reader takes of the items that there are. -/
def taken (more : Appetite) (items : List Item) : List Item :=
  (more.read items []).reverse

theorem taken_all (ts : List Transition) : all.taken (ts.map .ok) = ts.map .ok := by
  have hmore : ∀ ts : List Transition, all (ts.map .ok) = true := fun _ => rfl
  have hread := read_oks hmore ts []
  rw [List.map_nil, List.append_nil, List.map_reverse] at hread
  rw [taken, hread, List.reverse_reverse]

theorem read_atMost (n : Nat) (items seen : List Item) :
    (atMost n).read items seen = (items.take (n - seen.length)).reverse ++ seen := by
  induction items generalizing seen with
  | nil => simp [read]
  | cons item items ih =>
      by_cases hlt : seen.length < n
      · have hmore : atMost n seen = true := decide_eq_true hlt
        have hleft : n - seen.length = n - (seen.length + 1) + 1 := by omega
        rw [read, hmore, if_pos rfl, ih, List.length_cons, hleft, List.take_succ_cons, List.reverse_cons,
          List.append_assoc, List.singleton_append]
      · rw [read_of_done (by simpa [atMost] using hlt), Nat.sub_eq_zero_of_le (by omega), List.take_zero,
          List.reverse_nil, List.nil_append]

theorem taken_atMost (n : Nat) (ts : List Transition) :
    (atMost n).taken (ts.map .ok) = (ts.take n).map .ok := by
  rw [taken, read_atMost, List.append_nil, List.reverse_reverse, List.length_nil, Nat.sub_zero, List.map_take]

end Appetite

/-! ## The walk -/

namespace Process

variable {engine : Engine} {q : Inquiry} {p : Process} {v : View} {w : World}

theorem available_takes {k : StateKey} {e : Entity} {held : Bool} {state : String}
    (hs : Answering engine k e held (v, w)) (hstate : e.get? k.field = some (.str state)) (more : Appetite) :
    ∃ v' w', EngineM.outcome ((p.available engine q more).run v) w =
      (some (more.taken ((q.listing k.field held e p).map .ok), v'), w') := by
  have hfacing (s) (h : Answering engine k e held s) : Facing engine k.field held s :=
    ⟨by rw [h.key], by rw [h.key, h.lock]⟩
  obtain ⟨hvalue, hcut⟩ := p.available_tallies Answering.reading engine q (Answering.covers hstate) hfacing more v w hs
  cases ho : EngineM.outcome ((p.available engine q more).run v) w with
  | mk r w' =>
      cases r with
      | none => exact (hcut w' ho).elim
      | some r =>
          obtain ⟨hs', herrors, htally⟩ := hvalue r w' ho
          refine ⟨r.2, w', ?_⟩
          rcases htally with ⟨err, herr⟩ | hread
          · exact (herrors err herr).elim
          · rw [Appetite.taken, ← hread e hs'.allows, List.reverse_reverse]

/-- A held lock leaves nothing available. Behind a free one, all admitted transitions of the tree are available,
in pre-order, and those who ask for less get the first of them. -/
theorem available_admits {stored : Entity} {state : String} (hfaults : w.faults = [])
    (hstored : w.entities.find? v.key.kind v.key.id = some stored)
    (hstate : (v.memo.getD stored).get? v.key.field = some (.str state)) :
    let found := if w.locks.isHeld (v.key.lockKey engine.config.lockPrefix) then [] else
      q.admitted v.key.field (v.memo.getD stored) p
    (∃ v' w', EngineM.outcome ((p.available engine q .all).run v) w = (some (found.map .ok, v'), w')) ∧
    ∀ n, ∃ v' w', EngineM.outcome ((p.available engine q (.atMost n)).run v) w =
      (some ((found.take n).map .ok, v'), w') := by
  intro found
  have hfound : q.listing v.key.field (w.locks.isHeld (v.key.lockKey engine.config.lockPrefix))
      (v.memo.getD stored) p = found := by
    cases hheld : w.locks.isHeld (v.key.lockKey engine.config.lockPrefix) with
    | true => simp only [found, hheld, if_true, Inquiry.listing_held]
    | false => simp only [found, hheld, Bool.false_eq_true, if_false, Inquiry.listing_free]
  have hs : Answering engine v.key (v.memo.getD stored)
      (w.locks.isHeld (v.key.lockKey engine.config.lockPrefix)) (v, w) :=
    ⟨hfaults, rfl, ⟨stored, hstored, rfl⟩, rfl⟩
  have htakes := available_takes (q := q) (p := p) hs hstate
  rw [hfound] at htakes
  refine ⟨?_, fun n => ?_⟩
  · rw [← Appetite.taken_all]
    exact htakes .all
  · rw [← Appetite.taken_atMost]
    exact htakes (.atMost n)

namespace Filing

def file (target : String) : Transition :=
  ⟨"file", ["draft"], .moves target none none, none, [], [], [], [], []⟩

/-- Filed at the root, in a drawer that is shut with the box in it, and in a folder of the clerk. -/
def process : Process :=
  ⟨"office", [], [], [file "cabinet", { file "bin" with action := "shred" }],
    [⟨"drawer", [.named "shut" fun _ => false], [], [file "drawer"], [⟨"box", [], [], [file "box"], []⟩]⟩,
      ⟨"desk", [], [.named "clerk" fun _ caller => caller.id == "clerk"], [],
        [⟨"folder", [], [], [file "folder", { file "tray" with sources := ["signed"] }, file "cabinet"], []⟩]⟩]⟩

def letter : Entity :=
  ⟨"letter", "1", [("state", .str "draft")]⟩

def world : World :=
  { World.start .inline (.new 16) with entities := ⟨[letter]⟩ }

end Filing

/-- The clerk can file at the root and twice in the folder, nobody in the drawer and its box. -/
theorem filing_admits :
    Filing.world.faults = [] ∧ Filing.world.entities.find? "letter" "1" = some Filing.letter ∧
    Filing.letter.get? "state" = some (.str "draft") ∧
    ∃ v' w', EngineM.outcome ((Filing.process.available ⟨.standard, []⟩ ⟨some ⟨"clerk", []⟩, some "file"⟩ .all).run
        (.fresh ⟨"letter", "1", "state"⟩)) Filing.world =
      (some ([.ok (Filing.file "cabinet"), .ok (Filing.file "folder"), .ok (Filing.file "cabinet")], v'), w') := by
  have hstored : Filing.world.entities.find? "letter" "1" = some Filing.letter := rfl
  refine ⟨rfl, hstored, rfl, ?_⟩
  exact (available_admits (v := .fresh ⟨"letter", "1", "state"⟩) rfl hstored rfl).1

end Process

end Workflow
