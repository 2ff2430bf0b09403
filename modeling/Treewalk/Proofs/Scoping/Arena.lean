import Mathlib.Order.Bounds.Defs
import Treewalk.Proofs.Evaluation.Safety
import Treewalk.Proofs.Scoping.Balance

/-!
The arena of frames. Whatever happens to a store, the global frame stays outermost, all other frames
lie within older ones, and bindings that have been released are empty. No more bindings are kept
than there have been frames open at once.
-/

namespace Treewalk.Store

/-- What can happen to a store. An operation that is refused leaves it as the run leaves it. -/
inductive Step : Store → Store → Prop
  | push {store : Store} {parent : FrameId} : parent < store.frames.size →
      Step store (store.push parent).2
  | pop {store later : Store} {frame : FrameId} : store.pop frame = .ok later → Step store later
  | define (world : World) (frame : FrameId) (name : Token) (value : Value) :
      Step world.store (Run.last (Run.define frame name value world)).store
  | assign (world : World) (frame : FrameId) (name : Token) (value : Value) :
      Step world.store (Run.last (Run.assign frame name value world)).store
  | get (world : World) (frame : FrameId) (name : Token) :
      Step world.store (Run.last (Run.lookup frame name world)).store
  | defineGlobal {store : Store} (name : Symbol) (value : Value) :
      Step store (store.defineGlobal name value)

/-- A store with all that it has been, the latest first. -/
inductive History : Store → List Store → Prop
  | new : History .new [.new]
  | step {store later : Store} {past : List Store} : History store past → Step store later →
      History later (later :: past)

structure Arena (store : Store) : Prop where
  global : ∃ frame, store.frames[FrameId.global]? = some frame ∧ frame.parent = none
  inner : ∀ id frame, store.frames[id]? = some frame → id ≠ FrameId.global →
    ∃ parent, frame.parent = some parent ∧ parent < id
  pool_empty : ∀ bindings ∈ store.pool, bindings = {}

/-- The bindings that have been made, whether they are in use or wait for it. -/
def made (store : Store) : Nat :=
  store.frames.size + store.pool.length

variable {store later : Store}

theorem map_parent_modify (store : Store) (home : FrameId) (change : Bindings → Bindings)
    (id : FrameId) : ((store.modify home change).frames[id]?).map Frame.parent =
      (store.frames[id]?).map Frame.parent := by
  rw [frames_modify]
  split
  · rw [Option.map_map]
    rfl
  · rfl

/-! What a step comes to. -/

theorem last_changeStore (change : Store → Except Stop Store) (world : World) :
    (Run.last (Run.changeStore change world)).store =
      (change world.store).toOption.getD world.store := by
  rw [Run.changeStore_apply]
  cases change world.store <;> rfl

/-- Frames are opened and released, and variables of one frame change; nothing else happens. -/
theorem Step.outcome (h : Step store later) :
    (∃ parent < store.frames.size, later = (store.push parent).2) ∨
      (∃ frame, store.pop frame = .ok later) ∨ later = store ∨
      ∃ home change, later = store.modify home change := by
  cases h with
  | @push _ parent hparent => exact .inl ⟨parent, hparent, rfl⟩
  | @pop _ _ frame hpop => exact .inr (.inl ⟨frame, hpop⟩)
  | define world frame name value =>
      rw [Run.define, last_changeStore]
      cases hdefine : world.store.define frame name value with
      | ok later => exact .inr (.inr (.inr ⟨_, _, of_define hdefine⟩))
      | error reason => exact .inr (.inr (.inl rfl))
  | assign world frame name value =>
      rw [Run.assign, last_changeStore]
      cases hassign : world.store.assign frame name value with
      | ok later =>
          obtain ⟨home, hlater⟩ := of_assign hassign
          exact .inr (.inr (.inr ⟨home, _, hlater⟩))
      | error reason => exact .inr (.inr (.inl rfl))
  | get world frame name =>
      rw [Run.lookup_apply]
      cases world.store.get frame name <;> exact .inr (.inr (.inl rfl))
  | defineGlobal name value => exact .inr (.inr (.inr ⟨_, _, rfl⟩))

/-! The arena stays one. -/

namespace Arena

theorem new : Store.new.Arena where
  global := ⟨_, rfl, rfl⟩
  inner id frame hframe hid := by
    obtain ⟨hlt, -⟩ := Array.getElem?_eq_some_iff.mp hframe
    exact absurd (Nat.lt_one_iff.mp hlt) hid
  pool_empty := by simp [Store.new]

theorem size_pos (h : store.Arena) : 0 < store.frames.size := by
  obtain ⟨frame, hframe, -⟩ := h.global
  exact (Array.getElem?_eq_some_iff.mp hframe).1

/-- It does not matter which variables there are. -/
theorem congr (h : store.Arena) (hparents : ∀ id : FrameId,
      (later.frames[id]?).map Frame.parent = (store.frames[id]?).map Frame.parent)
    (hpool : ∀ bindings ∈ later.pool, bindings = {}) : later.Arena where
  global := by
    obtain ⟨frame, hframe, hparent⟩ := h.global
    have heq := hparents FrameId.global
    rw [hframe, Option.map_some, Option.map_eq_some_iff] at heq
    obtain ⟨frame', hframe', heq⟩ := heq
    exact ⟨frame', hframe', heq.trans hparent⟩
  inner id frame' hframe' hid := by
    have heq := (hparents id).symm
    rw [hframe', Option.map_some, Option.map_eq_some_iff] at heq
    obtain ⟨frame, hframe, heq⟩ := heq
    rw [← heq]
    exact h.inner id frame hframe hid
  pool_empty := hpool

theorem push (h : store.Arena) {parent : FrameId} (hparent : parent < store.frames.size) :
    (store.push parent).2.Arena where
  global := by
    obtain ⟨frame, hframe, hnone⟩ := h.global
    refine ⟨frame, ?_, hnone⟩
    have hne : FrameId.global ≠ store.frames.size := Nat.ne_of_lt h.size_pos
    rw [frames_push, if_neg hne]
    exact hframe
  inner id frame hframe hid := by
    rw [frames_push] at hframe
    split at hframe
    · next heq =>
        cases hframe
        exact ⟨parent, rfl, heq ▸ hparent⟩
    · exact h.inner id frame hframe hid
  pool_empty bindings hmem := h.pool_empty bindings (List.mem_of_mem_tail hmem)

theorem pop {frame : FrameId} (h : store.Arena) (hpop : store.pop frame = .ok later) :
    later.Arena := by
  obtain ⟨hsize, hinner, rfl⟩ := of_pop hpop
  refine ⟨?_, ?_, List.forall_mem_cons.mpr ⟨rfl, h.pool_empty⟩⟩
  · obtain ⟨outermost, hframe, hnone⟩ := h.global
    refine ⟨outermost, ?_, hnone⟩
    rw [Array.getElem?_pop, if_pos, hframe]
    rw [hsize]
    exact Nat.pos_of_ne_zero hinner
  · intro id found hframe hid
    rw [Array.getElem?_pop] at hframe
    split at hframe
    · exact h.inner id found hframe hid
    · contradiction

theorem step (h : store.Arena) (hstep : Step store later) : later.Arena := by
  rcases hstep.outcome with
    ⟨parent, hparent, rfl⟩ | ⟨frame, hpop⟩ | rfl | ⟨home, change, rfl⟩
  · exact h.push hparent
  · exact h.pop hpop
  · exact h
  · exact h.congr (map_parent_modify store home change) h.pool_empty

/-- The parents of open frames are open, so the way outwards ends at the global frame. -/
theorem exists_path (h : store.Arena) {frame : FrameId} (hframe : frame < store.frames.size) :
    ∃ path, store.Path frame path := by
  induction frame using Nat.strongRecOn with
  | ind frame ih =>
      have hfound := Array.getElem?_eq_getElem hframe
      by_cases hglobal : frame = FrameId.global
      · subst hglobal
        obtain ⟨outermost, houtermost, hnone⟩ := h.global
        exact ⟨_, .outermost houtermost hnone⟩
      · obtain ⟨parent, hparent, hlt⟩ := h.inner frame _ hfound hglobal
        obtain ⟨path, hpath⟩ := ih parent hlt (Nat.lt_trans hlt hframe)
        exact ⟨_, .inner hfound hparent hlt hpath⟩

end Arena

/-- The stores that come up while programs run are arenas. -/
theorem Reachable.arena (h : store.Reachable) : store.Arena := by
  induction h with
  | new => exact .new
  | defineGlobal name value _ ih => exact ih.congr (map_parent_modify _ _ _) ih.pool_empty
  | push _ hparent ih => exact ih.push hparent
  | pop _ hpop ih => exact ih.pop hpop
  | evaluate frame value _ ih =>
      have hvalue : Run.Grows frame [] (value.evaluate frame) := value.evaluate_grows frame
      obtain ⟨_, -, hgrows⟩ := hvalue _ ih.size_pos
      exact ih.congr hgrows.parent_eq (hgrows.pool ih.pool_empty)
  | execute rounds frame statement _ ih =>
      obtain ⟨_, -, hgrows⟩ := statement.execute_grows rounds frame _ ih.size_pos
      exact ih.congr hgrows.parent_eq (hgrows.pool ih.pool_empty)

/-! The pool. -/

theorem made_push (store : Store) (parent : FrameId) :
    (store.push parent).2.made = max store.made (store.frames.size + 1) := by
  have hpool : (store.push parent).2.pool.length = store.pool.length - 1 := List.length_tail
  rw [made, made, size_frames_push, hpool]
  omega

theorem made_pop {frame : FrameId} (hpop : store.pop frame = .ok later) :
    later.made = store.made ∧ later.frames.size < store.frames.size := by
  obtain ⟨hsize, -, rfl⟩ := of_pop hpop
  simp only [made, Array.size_pop, List.length_cons]
  omega

/-- Bindings are made only where more frames are open than bindings have been made. -/
theorem Step.made_eq (h : Step store later) : later.made = max store.made later.frames.size := by
  have hle : store.frames.size ≤ store.made := Nat.le_add_right _ _
  rcases h.outcome with ⟨parent, -, rfl⟩ | ⟨frame, hpop⟩ | rfl | ⟨home, change, rfl⟩
  · rw [made_push, size_frames_push]
  · obtain ⟨hmade, hsize⟩ := made_pop hpop
    omega
  · omega
  · have hmade : (store.modify home change).made = store.made := by
      rw [made, size_frames_modify]
      rfl
    rw [hmade, size_frames_modify]
    omega

namespace History

variable {past : List Store}

theorem arena (h : History store past) : store.Arena := by
  induction h with
  | new => exact .new
  | step _ hstep ih => exact ih.step hstep

/-- As many bindings have been made as frames have been open at once. -/
theorem made_isGreatest (h : History store past) :
    IsGreatest {size | ∃ earlier ∈ past, earlier.frames.size = size} store.made := by
  induction h with
  | new =>
      refine ⟨⟨_, List.mem_singleton_self _, rfl⟩, ?_⟩
      rintro size ⟨earlier, hmem, rfl⟩
      rw [List.mem_singleton.mp hmem]
      exact Nat.le_refl _
  | @step store later past _ hstep ih =>
      obtain ⟨⟨earlier, hmem, hsize⟩, hbound⟩ := ih
      rw [hstep.made_eq]
      constructor
      · rcases Nat.le_total store.made later.frames.size with hle | hle
        · exact ⟨later, List.mem_cons_self, (Nat.max_eq_right hle).symm⟩
        · exact ⟨earlier, List.mem_cons_of_mem _ hmem, hsize.trans (Nat.max_eq_left hle).symm⟩
      · rintro size ⟨other, hother, rfl⟩
        rcases List.mem_cons.mp hother with rfl | hother
        · exact Nat.le_max_right _ _
        · exact Nat.le_trans (hbound ⟨other, hother, rfl⟩) (Nat.le_max_left _ _)

/-- Whatever has happened to a store, its global frame is outermost and every other frame lies
within an older one, so the ways outwards stay among the open frames and no lookup fails but for an
unknown name. Released bindings are empty, and so is every frame that is opened. The open frames
and the released bindings are together as many as frames have been open at once. -/
theorem arena_closed (h : History store past) :
    store.Arena ∧
      (∀ frame < store.frames.size, (∃ path, store.Path frame path) ∧
        ∀ (name : Token) (value : Value) (fault : Fault),
          store.get frame name ≠ .error (.fault fault) ∧
            store.assign frame name value ≠ .error (.fault fault)) ∧
      (∀ parent < store.frames.size,
        (store.push parent).2.frames[(store.push parent).1]? = some ⟨some parent, {}⟩) ∧
      IsGreatest {size | ∃ earlier ∈ past, earlier.frames.size = size}
        (store.frames.size + store.pool.length) := by
  refine ⟨h.arena, fun frame hframe => ?_, fun parent _ => ?_, h.made_isGreatest⟩
  · have hopen : store.Open frame := h.arena.exists_path hframe
    refine ⟨hopen, fun name value fault => ⟨fun hget => ?_, fun hassign => ?_⟩⟩
    · exact hopen.get_ordinary name _ hget fault rfl
    · exact hopen.assign_ordinary name value _ hassign fault rfl
  · exact frames_push_self h.arena.pool_empty parent

end History

def someName : Token :=
  ⟨.identifier, ⟨0, 17, "a"⟩, none, 1⟩

/-- A variable has been declared in the inner frame. -/
def declared : Store :=
  (Run.last (Run.define 1 someName .nil opened)).store

/-- The frame has been released, and its bindings wait for another. -/
def released : Store :=
  ⟨declared.frames.pop, [{}]⟩

theorem History.arena_closed_released :
    declared.bindsAt someName.lexeme 1 = true ∧
      History released [released, declared, opened.store, .new] ∧
      (released.push FrameId.global).2.frames[1]? = some ⟨some FrameId.global, {}⟩ ∧
      IsGreatest {size | ∃ earlier ∈ [released, declared, opened.store, .new],
        earlier.frames.size = size} (1 + 1) := by
  have hopened : History opened.store [opened.store, .new] := .step .new (.push Nat.one_pos)
  have hdeclared : History declared [declared, opened.store, .new] :=
    .step hopened (.define opened 1 someName .nil)
  have hreleased : History released [released, declared, opened.store, .new] :=
    .step hdeclared (.pop (rfl : declared.pop 1 = .ok released))
  obtain ⟨-, -, hpush, hgreatest⟩ := hreleased.arena_closed
  exact ⟨rfl, hreleased, hpush FrameId.global Nat.one_pos, hgreatest⟩

end Treewalk.Store
