import Treewalk.Proofs.Evaluation.Tracking
import Treewalk.Proofs.Scoping.Laws
import Treewalk.Proofs.Scoping.Static
import Treewalk.Proofs.Tree.Renaming

/-!
The store while a block is executed of which a variable has been renamed. The frame of the block
binds the other name to the same value, and what is looked up within the block is found in the same
frame.
-/

namespace Treewalk

/-! Bindings with another name. -/

namespace Bindings

def rename (x y : Symbol) (bindings : Bindings) : Bindings :=
  ⟨bindings.entries.map fun entry => if entry.1.same x then (y, entry.2) else entry⟩

variable {x y : Symbol} {bindings : Bindings} {name : Symbol}

theorem get?_eq_none_iff :
    bindings.get? name = none ↔ ∀ entry ∈ bindings.entries, entry.1.same name = false := by
  simp [get?]

theorem get?_rename (bindings : Bindings) (x y name : Symbol) : (bindings.rename x y).get? name =
    (bindings.entries.find? fun entry => (if entry.1.same x then y else entry.1).same name).map
      Prod.snd := by
  rw [get?, rename, List.find?_map, Option.map_map]
  have hkey : ((fun entry : Symbol × Value => entry.1.same name) ∘
      fun entry : Symbol × Value => if entry.1.same x then (y, entry.2) else entry) =
      fun entry => (if entry.1.same x then y else entry.1).same name := by
    funext entry
    simp only [Function.comp_apply]
    split <;> rfl
  rw [hkey]
  congr 1
  funext entry
  simp only [Function.comp_apply]
  split <;> rfl

theorem get?_rename_of_ne (hx : name.same x = false) (hy : name.same y = false) :
    (bindings.rename x y).get? name = bindings.get? name := by
  rw [get?_rename, get?]
  congr 2
  funext entry
  split
  · next hentry =>
      rw [Symbol.same_comm y, hy, Symbol.same_comm, Symbol.same_congr hentry, hx]
  · rfl

theorem get?_rename_self (hfree : bindings.get? y = none) :
    (bindings.rename x y).get? y = bindings.get? x := by
  rw [get?_eq_none_iff] at hfree
  rw [get?_rename, get?]
  congr 1
  apply List.find?_congr
  intro entry hentry
  split
  · next hsame => rw [Symbol.same_self, hsame]
  · next hsame => rw [hfree entry hentry, Bool.eq_false_iff.mpr hsame]

theorem rename_of_free (hfree : bindings.get? x = none) : bindings.rename x y = bindings := by
  rw [get?_eq_none_iff] at hfree
  rw [rename, List.map_congr_left (g := id), List.map_id]
  intro entry hentry
  simp [hfree entry hentry]

theorem rename_replace_of_ne (hx : name.same x = false) (hy : name.same y = false)
    (value : Value) :
    (bindings.replace name value).rename x y = (bindings.rename x y).replace name value := by
  simp only [rename, replace, List.map_map]
  congr 1
  apply List.map_congr_left
  intro entry _
  simp only [Function.comp_apply]
  by_cases hsame : entry.1.same x = true
  · have hother : entry.1.same name = false := by
      rw [Symbol.same_comm, Symbol.same_congr hsame, hx]
    simp [hsame, hother, Symbol.same_comm y, hy]
  · by_cases hother : entry.1.same name = true <;> simp [hsame, hother]

theorem rename_replace_self (hsame : name.same x = true) (hfree : bindings.get? y = none)
    (value : Value) :
    (bindings.replace name value).rename x y = (bindings.rename x y).replace y value := by
  rw [get?_eq_none_iff] at hfree
  simp only [rename, replace, List.map_map]
  congr 1
  apply List.map_congr_left
  intro entry hentry
  simp only [Function.comp_apply, Symbol.same_congr hsame]
  by_cases hx : entry.1.same x = true
  · simp [hx]
  · simp [hx, hfree entry hentry]

theorem rename_add (bindings : Bindings) (x y name : Symbol) (value : Value) :
    (bindings.add name value).rename x y =
      (bindings.rename x y).add (if name.same x then y else name) value := by
  simp only [rename, add, List.map_append, List.map_singleton]
  split <;> rfl

end Bindings

/-! Stores in which one frame binds another name. -/

namespace Store

/-- The store with `y` in place of `x` in one frame. -/
def rename (home : FrameId) (x y : Symbol) (store : Store) : Store :=
  store.modify home (·.rename x y)

def Moved (home : FrameId) (x y : Symbol) (left right : Store) : Prop :=
  right = left.rename home x y

variable {store later : Store} {home frame id : FrameId} {x y : Symbol}

theorem ext_frames {left right : Store} (hframes : ∀ id : Nat, left.frames[id]? = right.frames[id]?)
    (hpool : left.pool = right.pool) : left = right := by
  obtain ⟨frames, pool⟩ := left
  obtain ⟨frames', pool'⟩ := right
  cases hpool
  exact congrArg (Store.mk · pool) (Array.ext_getElem? hframes)

theorem modify_comm (store : Store) (hne : home ≠ id) (change change' : Bindings → Bindings) :
    (store.modify home change).modify id change' =
      (store.modify id change').modify home change := by
  refine ext_frames (fun other => ?_) rfl
  simp only [frames_modify]
  by_cases hother : home = other
  · subst hother
    simp [Ne.symm hne]
  · simp [hother]

theorem modify_modify (store : Store) (home : FrameId) (change change' : Bindings → Bindings) :
    (store.modify home change).modify home change' =
      store.modify home fun bindings => change' (change bindings) := by
  refine ext_frames (fun other => ?_) rfl
  simp only [frames_modify]
  split
  · rw [Option.map_map]
    rfl
  · rfl

/-- Changes are the same if they do the same to the bindings that there are. -/
theorem modify_congr {change change' : Bindings → Bindings}
    (h : ∀ frame, store.frames[home]? = some frame →
      change frame.bindings = change' frame.bindings) :
    store.modify home change = store.modify home change' := by
  refine ext_frames (fun other => ?_) rfl
  simp only [frames_modify]
  split
  · next hother =>
      subst hother
      cases hframe : store.frames[home]? with
      | none => rfl
      | some frame => simp [h frame hframe]
  · rfl

theorem rename_push (hhome : home < store.frames.size) (parent : FrameId) :
    (store.push parent).2.rename home x y = ((store.rename home x y).push parent).2 := by
  refine ext_frames (fun other => ?_) rfl
  have hne : home ≠ store.frames.size := Nat.ne_of_lt hhome
  rw [rename, frames_modify, frames_push, frames_push, rename, size_frames_modify, frames_modify]
  by_cases hother : other = store.frames.size
  · subst hother
    simp only [hne, if_false, if_true]
    rfl
  · simp only [hother, if_false]

theorem pop_rename (hhome : store.frames.size = home + 1) :
    (store.rename home x y).frames.pop = store.frames.pop := by
  apply Array.ext_getElem?
  intro other
  rw [Array.getElem?_pop, Array.getElem?_pop, rename, size_frames_modify, frames_modify]
  split
  · next hother =>
      rw [hhome, Nat.add_sub_cancel] at hother
      rw [if_neg (Nat.ne_of_gt hother)]
  · rfl

theorem rename_pop (store : Store) (home : FrameId) (x y : Symbol) :
    (⟨(store.rename home x y).frames.pop, {} :: (store.rename home x y).pool⟩ : Store) =
      rename home x y ⟨store.frames.pop, {} :: store.pool⟩ := by
  refine ext_frames (fun other => ?_) rfl
  simp only [rename, frames_modify, Array.getElem?_pop, size_frames_modify]
  by_cases hother : other < store.frames.size - 1
  · rw [if_pos hother, if_pos hother]
  · rw [if_neg hother, if_neg hother, Option.map_none, ite_self]

end Store

/-! Within the block. -/

namespace Store

variable {store later : Store} {home frame : FrameId} {x y : Symbol} {hidden : Bool}

/-- The way outwards leads to the frame of the block, which binds `x`. It is told whether a frame
before binds `x` as well. The name `y` is bound neither there nor in newer frames. -/
structure Inside (x y : Symbol) (home : FrameId) (hidden : Bool) (frame : FrameId)
    (store : Store) : Prop where
  outwards : ∃ inner outer, store.Path frame (inner ++ home :: outer) ∧
    inner.any (store.bindsAt x) = hidden
  binds : store.bindsAt x home = true
  free : ∀ id, home ≤ id → store.bindsAt y id = false
  pool_empty : ∀ bindings ∈ store.pool, bindings = {}

/-- In a frame, one name is in the renamed store what another is without. -/
structure Follows (home : FrameId) (x y : Symbol) (store : Store) (name other : Symbol)
    (id : FrameId) : Prop where
  valueAt_eq : (store.rename home x y).valueAt other id = store.valueAt name id
  replace_eq : store.bindsAt name id = true → ∀ value : Value,
    (store.modify id (·.replace name value)).rename home x y =
      (store.rename home x y).modify id (·.replace other value)

theorem valueAt_eq_none_iff {name : Symbol} {id : FrameId} :
    store.valueAt name id = none ↔ store.bindsAt name id = false := by
  rw [bindsAt_eq_isSome, Option.isSome_eq_false_iff, Option.isNone_iff_eq_none]

theorem get?_eq_none {name : Symbol} {id : FrameId} (h : store.bindsAt name id = false)
    {found : Frame} (hfound : store.frames[id]? = some found) :
    found.bindings.get? name = none := by
  rw [← valueAt_eq_none_iff, valueAt, hfound] at h
  exact h

theorem valueAt_rename_of_ne {id : FrameId} (hne : home ≠ id) (name : Symbol) :
    (store.rename home x y).valueAt name id = store.valueAt name id := by
  rw [rename, valueAt_modify, if_neg hne]

theorem follows_elsewhere {id : FrameId} (hne : home ≠ id) (name : Symbol) :
    store.Follows home x y name name id where
  valueAt_eq := valueAt_rename_of_ne hne name
  replace_eq _ _ := modify_comm store (Ne.symm hne) _ _

theorem follows_of_ne {name : Symbol} (hx : name.same x = false) (hy : name.same y = false)
    (id : FrameId) : store.Follows home x y name name id := by
  by_cases hid : home = id
  · subst hid
    refine ⟨?_, fun _ value => ?_⟩
    · simp only [rename, valueAt_modify, if_true, Bindings.get?_rename_of_ne hx hy]
      rfl
    · rw [rename, rename, modify_modify, modify_modify]
      exact modify_congr fun _ _ => Bindings.rename_replace_of_ne hx hy value
  · exact follows_elsewhere hid name

theorem follows_home {name : Symbol} (hsame : name.same x = true)
    (hfree : store.bindsAt y home = false) : store.Follows home x y name y home where
  valueAt_eq := by
    rw [rename, valueAt_modify, if_pos rfl, valueAt_congr hsame, valueAt]
    cases hframe : store.frames[home]? with
    | none => rfl
    | some found => exact Bindings.get?_rename_self (get?_eq_none hfree hframe)
  replace_eq _ value := by
    rw [rename, rename, modify_modify, modify_modify]
    exact modify_congr fun found hfound =>
      Bindings.rename_replace_self hsame (get?_eq_none hfree hfound) value

theorem bindsAt_congr {name other : Symbol} (h : name.same other = true) (store : Store) :
    store.bindsAt name = store.bindsAt other := by
  funext id
  rw [bindsAt_eq_isSome, bindsAt_eq_isSome, valueAt_congr h]

/-- The frames to which a lookup comes: to the first that binds the name, or to all. -/
theorem Inside.exists_front (h : Inside x y home hidden frame store) {name : Token}
    (hname : name.lexeme.same y = false) :
    ∃ front back, store.Path frame (front ++ back) ∧
      ((back = [] ∧ name.within x y hidden = name) ∨
        front.any (store.bindsAt name.lexeme) = true) ∧
      ∀ id ∈ front, store.Follows home x y name.lexeme (name.within x y hidden).lexeme id := by
  obtain ⟨inner, outer, hpath, hinner⟩ := h.outwards
  by_cases hx : name.lexeme.same x = true
  · cases hidden with
    | true =>
        refine ⟨inner, home :: outer, hpath, .inr ?_, fun id hid => follows_elsewhere ?_ _⟩
        · rwa [bindsAt_congr hx]
        · exact fun heq => hpath.not_mem_inner (heq ▸ hid)
    | false =>
        refine ⟨inner ++ [home], outer, by simpa using hpath, .inr ?_, fun id hid => ?_⟩
        · simp [bindsAt_congr hx, h.binds]
        · rw [Token.within, if_neg Bool.false_ne_true, Token.renamed_of_same hx]
          rcases List.mem_append.mp hid with hmem | hmem
          · -- neither name is bound between
            have hlt : home < id :=
              (List.pairwise_append.mp hpath.pairwise).2.2 id hmem home List.mem_cons_self
            have hnone : store.bindsAt name.lexeme id = false := by
              rw [bindsAt_congr hx]
              exact Bool.eq_false_iff.mpr (List.any_eq_false.mp hinner id hmem)
            refine ⟨?_, fun hbinds => absurd hbinds (by simp [hnone])⟩
            rw [valueAt_rename_of_ne (Nat.ne_of_lt hlt),
              valueAt_eq_none_iff.mpr (h.free id (Nat.le_of_lt hlt)),
              valueAt_eq_none_iff.mpr hnone]
          · rw [List.mem_singleton] at hmem
            subst hmem
            exact follows_home hx (h.free id (Nat.le_refl id))
  · rw [Bool.not_eq_true] at hx
    rw [Token.within_of_ne hx]
    exact ⟨inner ++ home :: outer, [], by simpa using hpath, .inl ⟨rfl, rfl⟩,
      fun id _ => follows_of_ne hx hname id⟩

/-- A name and what it becomes are found in the same frame, or there is no such variable. -/
theorem Inside.find?_rename (h : Inside x y home hidden frame store) {name : Token}
    (hname : name.lexeme.same y = false) :
    ∃ path, store.Path frame path ∧
      ((path.find? (store.bindsAt name.lexeme) = none ∧
          path.find? ((store.rename home x y).bindsAt name.lexeme) = none ∧
          name.within x y hidden = name) ∨
        ∃ id, path.find? (store.bindsAt name.lexeme) = some id ∧
          path.find? ((store.rename home x y).bindsAt (name.within x y hidden).lexeme) = some id ∧
          store.Follows home x y name.lexeme (name.within x y hidden).lexeme id) := by
  obtain ⟨front, back, hpath, hstop, hfollows⟩ := h.exists_front hname
  have hfront : front.find? ((store.rename home x y).bindsAt (name.within x y hidden).lexeme) =
      front.find? (store.bindsAt name.lexeme) := by
    apply List.find?_congr
    intro id hid
    rw [bindsAt_eq_isSome, bindsAt_eq_isSome, (hfollows id hid).valueAt_eq]
  refine ⟨front ++ back, hpath, ?_⟩
  rw [List.find?_append, List.find?_append, List.find?_append, hfront]
  cases hfound : front.find? (store.bindsAt name.lexeme) with
  | some id => exact .inr ⟨id, rfl, rfl, hfollows id (List.mem_of_find?_eq_some hfound)⟩
  | none =>
      rcases hstop with ⟨rfl, hsame⟩ | hbinds
      · rw [hsame, hfound] at hfront
        exact .inl ⟨rfl, by rw [hfront]; rfl, hsame⟩
      · obtain ⟨id, hid, hbinds⟩ := List.any_eq_true.mp hbinds
        exact absurd hbinds (List.find?_eq_none.mp hfound id hid)

theorem Inside.get_rename (h : Inside x y home hidden frame store) {name : Token}
    (hname : name.lexeme.same y = false) :
    store.get frame name = (store.rename home x y).get frame (name.within x y hidden) := by
  obtain ⟨path, hpath, hfind⟩ := h.find?_rename hname
  have hpath' : (store.rename home x y).Path frame path := hpath.modify home _
  rw [get_of_path hpath, get_of_path hpath', found_eq, found_eq]
  rcases hfind with ⟨hnone, hnone', hsame⟩ | ⟨id, hsome, hsome', hfollows⟩
  · rw [hsame, hnone, hnone']
    rfl
  · obtain ⟨value, hvalue⟩ : ∃ value, store.valueAt name.lexeme id = some value := by
      have hbinds := List.find?_some hsome
      rwa [bindsAt_eq_isSome, Option.isSome_iff_exists] at hbinds
    rw [hsome, hsome', Option.bind_some, Option.bind_some, hfollows.valueAt_eq, hvalue]
    rfl

theorem Inside.assign_rename (h : Inside x y home hidden frame store) {name : Token}
    (hname : name.lexeme.same y = false) (value : Value) :
    Run.Agrees (Moved home x y) (store.assign frame name value)
      ((store.rename home x y).assign frame (name.within x y hidden) value) := by
  obtain ⟨path, hpath, hfind⟩ := h.find?_rename hname
  have hpath' : (store.rename home x y).Path frame path := hpath.modify home _
  rw [assign_of_path hpath, assign_of_path hpath']
  rcases hfind with ⟨hnone, hnone', hsame⟩ | ⟨id, hsome, hsome', hfollows⟩
  · rw [hsame, hnone, hnone']
    exact .error _
  · rw [hsome, hsome']
    exact .ok (hfollows.replace_eq (List.find?_some hsome) value).symm

/-- In the frame of the block, only other names are declared behind. -/
theorem Inside.define_rename (h : Inside x y home hidden frame store) {name : Token}
    (hx : frame = home → name.lexeme.same x = false) (hy : name.lexeme.same y = false)
    (value : Value) :
    Run.Agrees (Moved home x y) (store.define frame name value)
      ((store.rename home x y).define frame name value) := by
  obtain ⟨inner, outer, hpath, -⟩ := h.outwards
  have hframe := hpath.lt_size frame hpath.mem_self
  have hframe' : frame < (store.rename home x y).frames.size := by
    rwa [rename, size_frames_modify]
  have hfollows : store.Follows home x y name.lexeme name.lexeme frame := by
    by_cases hid : home = frame
    · exact follows_of_ne (hx hid.symm) hy frame
    · exact follows_elsewhere hid name.lexeme
  rw [define_of_lt hframe, define_of_lt hframe', bindsAt_eq_isSome, bindsAt_eq_isSome,
    hfollows.valueAt_eq]
  split
  · exact .error _
  · refine .ok ?_
    by_cases hid : home = frame
    · subst hid
      rw [Moved, rename, rename, modify_modify, modify_modify]
      refine modify_congr fun found _ => ?_
      rw [Bindings.rename_add, if_neg (by simp [hx rfl])]
    · exact modify_comm store hid _ _

/-! The way to the block stays. -/

theorem Inside.home_lt (h : Inside x y home hidden frame store) : home < store.frames.size := by
  obtain ⟨inner, outer, hpath, -⟩ := h.outwards
  exact hpath.lt_size home (by simp)

theorem Inside.size_pos (h : Inside x y home hidden frame store) :
    0 < store.frames.size :=
  Nat.zero_lt_of_lt h.home_lt

theorem Grows.bindsAt_eq {added : List Symbol} (h : Grows frame added store later)
    (name : Symbol) {id : FrameId}
    (hadded : id = frame → ∀ other ∈ added, other.same name = false) :
    later.bindsAt name id = store.bindsAt name id := by
  have hlater := h.outline_eq id
  cases houtline : store.outline id with
  | none =>
      rw [houtline, Option.map_none] at hlater
      rw [Store.bindsAt, Store.bindsAt, Option.map_eq_none_iff.mp houtline,
        Option.map_eq_none_iff.mp hlater]
  | some outline =>
      rw [houtline, Option.map_some] at hlater
      rw [bindsAt_of_outline houtline, bindsAt_of_outline hlater]
      split
      · next hid =>
          have hnone : added.any (·.same name) = false := by
            simpa using hadded hid
          rw [List.any_append, hnone, Bool.or_false]
      · rfl

theorem Grows.unbound {added : List Symbol} (h : Grows frame added store later) {name : Symbol}
    (hadded : ∀ other ∈ added, other.same name = false) {id : FrameId}
    (hunbound : store.bindsAt name id = false) : later.bindsAt name id = false := by
  rw [h.bindsAt_eq name fun _ => hadded, hunbound]

theorem Inside.grow (h : Inside x y home hidden frame store) {added : List Symbol}
    (hgrows : Grows frame added store later)
    (hx : frame = home ∨ hidden = true ∨ ∀ name ∈ added, name.same x = false)
    (hy : ∀ name ∈ added, name.same y = false) : Inside x y home hidden frame later where
  outwards := by
    obtain ⟨inner, outer, hpath, hinner⟩ := h.outwards
    refine ⟨inner, outer, hgrows.path hpath, ?_⟩
    by_cases hhidden : hidden = true
    · rw [hhidden, List.any_eq_true] at hinner ⊢
      obtain ⟨id, hid, hbinds⟩ := hinner
      exact ⟨id, hid, hgrows.bindsAt hbinds⟩
    · -- if names are added to a frame before that of the block, `x` is not among them
      rw [← hinner, Bool.eq_iff_iff, List.any_eq_true, List.any_eq_true]
      refine exists_congr fun id => and_congr_right fun hid => ?_
      rw [hgrows.bindsAt_eq x fun hframe => ?_]
      rcases hx with rfl | hhidden' | hx
      · exact absurd (hframe ▸ hid) hpath.not_mem_inner
      · exact absurd hhidden' hhidden
      · exact hx
  binds := hgrows.bindsAt h.binds
  free id hid := hgrows.unbound hy (h.free id hid)
  pool_empty := hgrows.pool h.pool_empty

theorem Inside.grow_of_nil (h : Inside x y home hidden frame store)
    (hgrows : Grows frame [] store later) : Inside x y home hidden frame later :=
  h.grow hgrows (.inr (.inr nofun)) nofun

/-- A declaration in a newer frame hides the variable of the block. -/
theorem Inside.declare (h : Inside x y home hidden frame store) (hframe : frame ≠ home)
    {name : Symbol} (hgrows : Grows frame [name] store later) (hx : name.same x = true)
    (hy : name.same y = false) : Inside x y home true frame later where
  outwards := by
    obtain ⟨inner, outer, hpath, -⟩ := h.outwards
    refine ⟨inner, outer, hgrows.path hpath, List.any_eq_true.mpr ⟨frame, ?_, ?_⟩⟩
    · have hmem := hpath.mem_self
      obtain ⟨rest, hrest⟩ := hpath.exists_cons
      cases inner with
      | nil => exact absurd (List.cons.inj hrest).1.symm hframe
      | cons id inner =>
          rw [(List.cons.inj hrest).1]
          exact List.mem_cons_self
    · rw [← bindsAt_congr hx]
      exact hgrows.bindsAt_of_mem (hpath.lt_size frame hpath.mem_self) List.mem_cons_self
  binds := hgrows.bindsAt h.binds
  free id hid := hgrows.unbound (List.forall_mem_singleton.mpr hy) (h.free id hid)
  pool_empty := hgrows.pool h.pool_empty

/-- The statements behind one that declares `x` in a newer frame mean another variable. -/
theorem Inside.executed (h : Inside x y home hidden frame store) {statement : Stmt}
    (hnames : ∀ name ∈ statement.names, name.lexeme.same y = false)
    (hdeclares : frame = home → statement.declares x = false)
    (hgrows : Grows frame (statement.declares?.toList.map Token.lexeme) store later) :
    Inside x y home (hidden || statement.declares x) frame later := by
  cases hname : statement.declares? with
  | none =>
      have hnone : statement.declares x = false := by
        rw [Stmt.declares, hname]
        rfl
      rw [hname] at hgrows
      rw [hnone, Bool.or_false]
      exact h.grow_of_nil hgrows
  | some name =>
      have hsome : statement.declares x = name.lexeme.same x := by
        rw [Stmt.declares, hname]
        rfl
      have hother := hnames name (Stmt.mem_names_of_declares? hname)
      rw [hname] at hgrows
      rw [hsome] at hdeclares ⊢
      cases hx : name.lexeme.same x with
      | true =>
          rw [Bool.or_true]
          refine h.declare (fun hframe => ?_) hgrows hx hother
          exact absurd (hdeclares hframe) (by simp [hx])
      | false =>
          rw [Bool.or_false]
          exact h.grow hgrows (.inr (.inr (List.forall_mem_singleton.mpr hx)))
            (List.forall_mem_singleton.mpr hother)

theorem bindsAt_push (hpool : ∀ bindings ∈ store.pool, bindings = {}) (parent : FrameId)
    (name : Symbol) (id : FrameId) :
    (store.push parent).2.bindsAt name id = store.bindsAt name id := by
  by_cases hid : id = store.frames.size
  · subst hid
    rw [bindsAt, bindsAt, frames_push_self hpool, Array.getElem?_eq_none (Nat.le_refl _)]
    rfl
  · rw [bindsAt, bindsAt, frames_push, if_neg hid]

theorem bindsAt_of_size_le {id : FrameId} (h : store.frames.size ≤ id) (name : Symbol) :
    store.bindsAt name id = false := by
  rw [bindsAt, Array.getElem?_eq_none h]
  rfl

theorem Inside.push (h : Inside x y home hidden frame store) :
    Inside x y home hidden store.frames.size (store.push frame).2 where
  outwards := by
    obtain ⟨inner, outer, hpath, hinner⟩ := h.outwards
    have hnew : store.bindsAt x store.frames.size = false :=
      bindsAt_of_size_le (Nat.le_refl _) x
    refine ⟨store.frames.size :: inner, outer, hpath.push_inner, ?_⟩
    rw [List.any_cons, bindsAt_push h.pool_empty, hnew, Bool.false_or,
      funext (bindsAt_push h.pool_empty frame x), hinner]
  binds := by rw [bindsAt_push h.pool_empty, h.binds]
  free id hid := by rw [bindsAt_push h.pool_empty, h.free id hid]
  pool_empty bindings hmem := h.pool_empty bindings (List.mem_of_mem_tail hmem)

/-- Within the block, the stores differ in the name of its variable. -/
structure Renamed (x y : Symbol) (home : FrameId) (hidden : Bool) (frame : FrameId)
    (left right : Store) : Prop where
  inside : left.Inside x y home hidden frame
  moved : left.Moved home x y right

/-! The block begins. -/

/-- The frame of the block, of which the variable has not been declared yet. -/
structure Fresh (x y : Symbol) (home : FrameId) (store : Store) : Prop where
  isOpen : store.Open home
  unbound : store.bindsAt x home = false
  free : ∀ id, home ≤ id → store.bindsAt y id = false
  pool_empty : ∀ bindings ∈ store.pool, bindings = {}

theorem Fresh.of_push (hopen : store.Open frame) (hpool : ∀ bindings ∈ store.pool, bindings = {}) :
    Fresh x y store.frames.size (store.push frame).2 where
  isOpen := hopen.push
  unbound := by rw [bindsAt_push hpool, bindsAt_of_size_le (Nat.le_refl _)]
  free id hid := by rw [bindsAt_push hpool, bindsAt_of_size_le hid]
  pool_empty bindings hmem := hpool bindings (List.mem_of_mem_tail hmem)

theorem Fresh.grow (h : Fresh x y home store) {added : List Symbol}
    (hgrows : Grows home added store later) (hx : ∀ name ∈ added, name.same x = false)
    (hy : ∀ name ∈ added, name.same y = false) : Fresh x y home later where
  isOpen := h.isOpen.grow hgrows
  unbound := hgrows.unbound hx h.unbound
  free id hid := hgrows.unbound hy (h.free id hid)
  pool_empty := hgrows.pool h.pool_empty

theorem Fresh.moved (h : Fresh x y home store) : store.Moved home x y store := by
  have hsame : store.modify home (·.rename x y) = store.modify home id :=
    modify_congr fun _ hfound => Bindings.rename_of_free (get?_eq_none h.unbound hfound)
  have hid : store.modify home id = store := by
    refine ext_frames (fun other => ?_) rfl
    rw [frames_modify]
    split
    · exact Option.map_id'
    · rfl
  rw [Moved, rename, hsame, hid]

theorem Fresh.inside (h : Fresh x y home store) {name : Symbol}
    (hgrows : Grows home [name] store later) (hx : name.same x = true)
    (hy : name.same y = false) : Inside x y home false home later where
  outwards := by
    obtain ⟨path, hpath⟩ := h.isOpen
    obtain ⟨outer, rfl⟩ := hpath.exists_cons
    exact ⟨[], outer, hgrows.path hpath, rfl⟩
  binds := by
    obtain ⟨path, hpath⟩ := h.isOpen
    rw [← bindsAt_congr hx]
    exact hgrows.bindsAt_of_mem (hpath.lt_size home hpath.mem_self) List.mem_cons_self
  free id hid := hgrows.unbound (List.forall_mem_singleton.mpr hy) (h.free id hid)
  pool_empty := hgrows.pool h.pool_empty

theorem Fresh.define (h : Fresh x y home store) {name : Token} (hx : name.lexeme.same x = true)
    (hy : name.lexeme.same y = false) (value : Value) :
    ∃ left right, store.define home name value = .ok left ∧
      store.define home (name.renamed x y) value = .ok right ∧
      Renamed x y home false home left right := by
  obtain ⟨path, hpath⟩ := h.isOpen
  have hhome : home < store.frames.size := hpath.lt_size home hpath.mem_self
  have hname : store.bindsAt name.lexeme home = false := by
    rw [bindsAt_congr hx, h.unbound]
  have hdefine : store.define home name value =
      .ok (store.modify home (·.add name.lexeme value)) := by
    rw [define_of_lt hhome, hname]
    rfl
  have hdefine' : store.define home (name.renamed x y) value =
      .ok (store.modify home (·.add y value)) := by
    rw [define_of_lt hhome, Token.renamed_of_same hx, h.free home (Nat.le_refl home)]
    rfl
  refine ⟨_, _, hdefine, hdefine', h.inside (grows_of_define hdefine) hx hy, ?_⟩
  rw [Moved, rename, modify_modify]
  refine modify_congr fun found hfound => ?_
  rw [Bindings.rename_add, if_pos hx, Bindings.rename_of_free (get?_eq_none h.unbound hfound)]

/-- As long as the variable has not been declared, nothing differs. -/
structure Begins (x y : Symbol) (home : FrameId) (left right : Store) : Prop where
  fresh : left.Fresh x y home
  eq : right = left

theorem Begins.moved {left right : Store} (h : Begins x y home left right) :
    left.Moved home x y right := by
  obtain ⟨hfresh, rfl⟩ := h
  exact hfresh.moved

end Store

end Treewalk
