import Treewalk.Store

/-!
Paths: the frames on the way from a frame outwards. A name means what the first frame on the path
binds it to, and a path stays as it is while frames behind it are opened and released and
bindings change.
-/

namespace Treewalk

theorem Bindings.binds_eq_isSome (bindings : Bindings) (name : Symbol) :
    bindings.binds name = (bindings.get? name).isSome := by
  rw [binds, get?, Option.isSome_map, Bool.eq_iff_iff, List.any_eq_true, List.find?_isSome]

namespace Store

variable {store later : Store} {id : FrameId} {ids : List FrameId}

@[simp] theorem frames_modify (store : Store) (home : FrameId) (change : Bindings → Bindings)
    (id : FrameId) :
    (store.modify home change).frames[id]? =
      if home = id then
        (store.frames[id]?).map fun old => { old with bindings := change old.bindings }
      else store.frames[id]? := by
  simp only [modify, Array.getElem?_modify]

@[simp] theorem size_frames_modify (store : Store) (home : FrameId)
    (change : Bindings → Bindings) :
    (store.modify home change).frames.size = store.frames.size := by
  simp [modify]

@[simp] theorem push_fst (store : Store) (parent : FrameId) :
    (store.push parent).1 = store.frames.size := rfl

@[simp] theorem size_frames_push (store : Store) (parent : FrameId) :
    (store.push parent).2.frames.size = store.frames.size + 1 := by
  simp [push]

@[simp] theorem frames_push (store : Store) (parent id : FrameId) :
    (store.push parent).2.frames[id]? =
      if id = store.frames.size then some ⟨some parent, store.pool.headD {}⟩
      else store.frames[id]? := by
  simp only [push, Array.getElem?_push]

theorem frames_push_self {store : Store} (hpool : ∀ bindings ∈ store.pool, bindings = {})
    (parent : FrameId) :
    (store.push parent).2.frames[store.frames.size]? = some ⟨some parent, {}⟩ := by
  have hempty : store.pool.headD {} = {} := by
    cases hrest : store.pool with
    | nil => rfl
    | cons first rest => exact hpool first (by simp [hrest])
  rw [frames_push, if_pos rfl, hempty]

theorem pop_eq_ok {size : Nat} (hsize : store.frames.size = size + 1) (hinner : size ≠ 0) :
    ∃ released : Bindings, store.pop size =
      .ok ⟨store.frames.pop, released.clear :: store.pool⟩ := by
  obtain ⟨frame, hframe⟩ : ∃ frame, store.frames.back? = some frame := by
    rw [Array.back?_eq_getElem?]
    exact ⟨_, Array.getElem?_eq_getElem (by omega)⟩
  refine ⟨frame.bindings, ?_⟩
  simp only [pop, hframe]
  rw [if_pos ⟨hsize.symm, hinner⟩]

/-- Only the innermost frame is released, and never the global one. -/
theorem of_pop {frame : FrameId} (h : store.pop frame = .ok later) :
    store.frames.size = frame + 1 ∧ frame ≠ FrameId.global ∧
      later = ⟨store.frames.pop, {} :: store.pool⟩ := by
  unfold pop at h
  split at h
  · contradiction
  · split at h
    · next hinner =>
        cases h
        exact ⟨hinner.1.symm, hinner.2, rfl⟩
    · contradiction

theorem of_assign {frame : FrameId} {name : Token} {value : Value}
    (h : store.assign frame name value = .ok later) :
    ∃ home, later = store.modify home (·.replace name.lexeme value) := by
  unfold assign at h
  split at h
  · contradiction
  · contradiction
  · next home _ =>
      cases h
      exact ⟨home, rfl⟩

theorem of_define {frame : FrameId} {name : Token} {value : Value}
    (h : store.define frame name value = .ok later) :
    later = store.modify frame (·.add name.lexeme value) := by
  unfold define at h
  split at h
  · contradiction
  · split at h
    · contradiction
    · cases h
      rfl

/-- The frames on the way from a frame outwards. -/
inductive Path (store : Store) : FrameId → List FrameId → Prop
  | outermost {id : FrameId} {frame : Frame} : store.frames[id]? = some frame →
      frame.parent = none → Path store id [id]
  | inner {id parent : FrameId} {frame : Frame} {ids : List FrameId} :
      store.frames[id]? = some frame → frame.parent = some parent → parent < id →
      Path store parent ids → Path store id (id :: ids)

theorem Path.exists_cons (h : store.Path id ids) : ∃ outer, ids = id :: outer := by
  cases h with
  | outermost _ _ => exact ⟨[], rfl⟩
  | inner _ _ _ _ => exact ⟨_, rfl⟩

theorem Path.mem_self (h : store.Path id ids) : id ∈ ids := by
  obtain ⟨outer, rfl⟩ := h.exists_cons
  simp

theorem Path.tail {other next : FrameId} {outer : List FrameId}
    (h : store.Path id (other :: next :: outer)) : store.Path next (next :: outer) := by
  generalize hids : other :: next :: outer = ids at h
  cases h with
  | outermost _ _ => simp at hids
  | inner _ _ _ hparent =>
      cases hids
      obtain ⟨_, heq⟩ := hparent.exists_cons
      cases heq
      exact hparent

theorem Path.le (h : store.Path id ids) : ∀ other ∈ ids, other ≤ id := by
  induction h with
  | outermost _ _ => simp
  | inner _ _ hlt _ ih =>
      intro other hother
      rcases List.mem_cons.mp hother with rfl | hother
      · exact Nat.le_refl _
      · exact Nat.le_of_lt (Nat.lt_of_le_of_lt (ih other hother) hlt)

theorem Path.lt_size (h : store.Path id ids) : ∀ other ∈ ids, other < store.frames.size := by
  have hid : id < store.frames.size := by
    cases h with
    | outermost hframe _ | inner hframe _ _ _ => exact (Array.getElem?_eq_some_iff.mp hframe).1
  exact fun other hother => Nat.lt_of_le_of_lt (h.le other hother) hid

/-- The way outwards leads to older and older frames. -/
theorem Path.pairwise (h : store.Path id ids) : ids.Pairwise (· > ·) := by
  induction h with
  | outermost _ _ => exact List.pairwise_singleton _ _
  | inner _ _ hlt hparent ih =>
      exact List.pairwise_cons.mpr
        ⟨fun other hother => Nat.lt_of_le_of_lt (hparent.le other hother) hlt, ih⟩

theorem Path.nodup (h : store.Path id ids) : ids.Nodup := by
  induction h with
  | outermost _ _ => simp
  | inner _ _ hlt hparent ih =>
      refine List.nodup_cons.mpr ⟨?_, ih⟩
      intro hmem
      exact Nat.lt_irrefl _ (Nat.lt_of_le_of_lt (hparent.le _ hmem) hlt)

/-- A path depends on the parents of its frames only. -/
theorem Path.congr (h : store.Path id ids)
    (hparents : ∀ other ∈ ids, (later.frames[other]?).map Frame.parent =
      (store.frames[other]?).map Frame.parent) : later.Path id ids := by
  have hframe {other : FrameId} {frame : Frame} (hother : other ∈ ids)
      (hold : store.frames[other]? = some frame) :
      ∃ frame', later.frames[other]? = some frame' ∧ frame'.parent = frame.parent := by
    have heq := hparents other hother
    rw [hold, Option.map_some, Option.map_eq_some_iff] at heq
    exact heq
  induction h with
  | outermost hold hparent =>
      obtain ⟨frame', hnew, heq⟩ := hframe (by simp) hold
      exact .outermost hnew (heq.trans hparent)
  | inner hold hparent hlt _ ih =>
      obtain ⟨frame', hnew, heq⟩ := hframe (by simp) hold
      refine .inner hnew (heq.trans hparent) hlt (ih ?_ ?_)
      · exact fun other hother => hparents other (List.mem_cons_of_mem _ hother)
      · exact fun hother => hframe (List.mem_cons_of_mem _ hother)

theorem Path.modify (h : store.Path id ids) (home : FrameId) (change : Bindings → Bindings) :
    (store.modify home change).Path id ids := by
  apply h.congr
  intro other _
  rw [frames_modify]
  split
  · rw [Option.map_map]
    rfl
  · rfl

theorem Path.push (h : store.Path id ids) (parent : FrameId) :
    (store.push parent).2.Path id ids := by
  apply h.congr
  intro other hother
  have hlt := h.lt_size other hother
  rw [frames_push, if_neg (Nat.ne_of_lt hlt)]

theorem Path.push_inner (h : store.Path id ids) :
    (store.push id).2.Path store.frames.size (store.frames.size :: ids) := by
  have hframe : (store.push id).2.frames[store.frames.size]? =
      some ⟨some id, store.pool.headD {}⟩ := by
    rw [frames_push, if_pos rfl]
  exact .inner hframe rfl (h.lt_size id h.mem_self) (h.push id)

def bindsAt (store : Store) (name : Symbol) (id : FrameId) : Bool :=
  (store.frames[id]?).any (·.bindings.binds name)

theorem resolveWithin_of_path (h : store.Path id ids) (name : Symbol) (steps : Nat)
    (hsteps : id < steps) :
    store.resolveWithin name steps id = .ok (ids.find? (store.bindsAt name)) := by
  induction h generalizing steps with
  | @outermost id frame hframe hparent =>
      cases steps with
      | zero => exact absurd hsteps (Nat.not_lt_zero id)
      | succ steps =>
          simp only [resolveWithin, hframe, hparent, List.find?_cons, List.find?_nil, bindsAt,
            Option.any_some]
          cases frame.bindings.binds name <;> rfl
  | @inner id parent frame ids hframe hparent hlt _ ih =>
      cases steps with
      | zero => exact absurd hsteps (Nat.not_lt_zero id)
      | succ steps =>
          have hrest := ih steps (Nat.lt_of_lt_of_le hlt (Nat.le_of_lt_succ hsteps))
          simp only [resolveWithin, hframe, hparent, hrest, List.find?_cons, bindsAt,
            Option.any_some]
          cases frame.bindings.binds name <;> rfl

/-- A name has its meaning in the first frame on the path that binds it. -/
theorem resolve_of_path (h : store.Path id ids) (name : Symbol) :
    store.resolve id name = .ok (ids.find? (store.bindsAt name)) :=
  resolveWithin_of_path h name (id + 1) (Nat.lt_succ_self id)

end Store

end Treewalk
