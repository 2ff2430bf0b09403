import Mathlib.Data.List.Find
import Treewalk.Proofs.Naming
import Treewalk.Proofs.Scoping.Arena

/-!
The laws of the store: what each operation changes of what can be looked up, from whichever frame.
Frames may share outer frames without one lying within the other, so the laws speak of two frames
with a path each.
-/

namespace Treewalk

namespace Bindings

variable (bindings : Bindings) (name : Symbol) (value : Value) (other : Symbol)

theorem get?_replace : (bindings.replace name value).get? other =
    if name.same other then (bindings.get? other).map fun _ => value
    else bindings.get? other := by
  have hkey : ((fun entry : Symbol × Value => entry.1.same other) ∘
      fun entry : Symbol × Value => if entry.1.same name then (entry.1, value) else entry) =
      fun entry => entry.1.same other := by
    funext entry
    simp only [Function.comp_apply]
    split <;> rfl
  rw [get?, get?, replace, List.find?_map, hkey]
  cases hfound : bindings.entries.find? (·.1.same other) with
  | none => simp
  | some entry =>
      -- What is found has the other name, so it is replaced if that is the same.
      have hother := List.find?_some hfound
      have hsame : entry.1.same name = name.same other := by
        rw [Symbol.same_comm]
        exact Symbol.same_congr hother name
      simp only [Option.map_some, hsame]
      split <;> rfl

theorem get?_add : (bindings.add name value).get? other =
    (bindings.get? other).or (if name.same other then some value else none) := by
  rw [get?, get?, add, List.find?_append, List.find?_singleton]
  cases bindings.entries.find? (·.1.same other) with
  | some entry => rfl
  | none => split <;> rfl

end Bindings

namespace Store

variable {store later : Store} {frame : FrameId} {path : List FrameId}

/-- What a frame itself binds a name to. -/
def valueAt (store : Store) (name : Symbol) (id : FrameId) : Option Value :=
  (store.frames[id]?).bind (·.bindings.get? name)

theorem bindsAt_eq_isSome (store : Store) (name : Symbol) (id : FrameId) :
    store.bindsAt name id = (store.valueAt name id).isSome := by
  rw [bindsAt, valueAt]
  cases store.frames[id]? with
  | none => rfl
  | some frame => exact frame.bindings.binds_eq_isSome name

/-- The value that a name has on a path. -/
def found (store : Store) (path : List FrameId) (name : Symbol) : Option Value :=
  path.findSome? (store.valueAt name)

/-- It is the value in the first frame that binds the name. -/
theorem find?_eq_none_or (store : Store) (path : List FrameId) (name : Symbol) :
    (path.find? (store.bindsAt name) = none ∧ store.found path name = none) ∨
      ∃ home value, path.find? (store.bindsAt name) = some home ∧
        store.valueAt name home = some value ∧ store.found path name = some value := by
  induction path with
  | nil => exact .inl ⟨rfl, rfl⟩
  | cons id path ih =>
      rw [found, List.findSome?_cons, List.find?_cons, bindsAt_eq_isSome]
      cases hvalue : store.valueAt name id with
      | none => exact ih
      | some value => exact .inr ⟨id, value, rfl, hvalue, rfl⟩

theorem found_eq (store : Store) (path : List FrameId) (name : Symbol) :
    store.found path name =
      (path.find? (store.bindsAt name)).bind (store.valueAt name) := by
  rcases store.find?_eq_none_or path name with
    ⟨hnone, hfound⟩ | ⟨home, value, hhome, hvalue, hfound⟩
  · rw [hnone, hfound]
    rfl
  · rw [hhome, hfound, Option.bind_some, hvalue]

theorem found_append (store : Store) (inner outer : List FrameId) (name : Symbol) :
    store.found (inner ++ outer) name = (store.found inner name).or (store.found outer name) :=
  List.findSome?_append

/-- A lookup depends on what the frames of the path bind the name to. -/
theorem found_congr {name other : Symbol}
    (h : ∀ id ∈ path, later.valueAt other id = store.valueAt name id) :
    later.found path other = store.found path name := by
  induction path with
  | nil => rfl
  | cons id path ih =>
      have hrest := ih fun id hid => h id (List.mem_cons_of_mem _ hid)
      rw [found, found, List.findSome?_cons, List.findSome?_cons, h id List.mem_cons_self]
      cases store.valueAt name id with
      | none => exact hrest
      | some value => rfl

theorem get_of_path (h : store.Path frame path) (name : Token) :
    store.get frame name = (store.found path name.lexeme).elim
      (.error (name.blame (.undefinedVariable name.lexeme.spelling))) .ok := by
  rw [get, resolve_of_path h]
  rcases store.find?_eq_none_or path name.lexeme with
    ⟨hnone, hfound⟩ | ⟨home, value, hhome, hvalue, hfound⟩
  · rw [hnone, hfound]
    rfl
  · rw [valueAt] at hvalue
    simp only [hhome, hfound, hvalue, Option.elim_some]

/-- A lookup stays what it is where all frames of a path keep what they bind the name to. -/
theorem get_congr (h : store.Path frame path) (hlater : later.Path frame path) {name : Token}
    (hvalues : ∀ id ∈ path, later.valueAt name.lexeme id = store.valueAt name.lexeme id) :
    later.get frame name = store.get frame name := by
  rw [get_of_path hlater, get_of_path h, found_congr hvalues]

/-! Variables that change. -/

theorem valueAt_modify (store : Store) (home : FrameId) (change : Bindings → Bindings)
    (name : Symbol) (id : FrameId) : (store.modify home change).valueAt name id =
      if home = id then (store.frames[id]?).bind fun old => (change old.bindings).get? name
      else store.valueAt name id := by
  rw [valueAt, frames_modify]
  split
  · rw [Option.bind_map]
    rfl
  · rfl

theorem valueAt_replace (store : Store) (home : FrameId) (name : Symbol) (value : Value)
    (other : Symbol) (id : FrameId) :
    (store.modify home (·.replace name value)).valueAt other id =
      if home = id ∧ name.same other then (store.valueAt other id).map fun _ => value
      else store.valueAt other id := by
  rw [valueAt_modify]
  by_cases hid : home = id
  · rw [if_pos hid, valueAt]
    cases store.frames[id]? with
    | none => simp
    | some old => simp [Bindings.get?_replace, hid]
  · rw [if_neg hid, if_neg fun h => hid h.1]

theorem valueAt_add (store : Store) (home : FrameId) (name : Symbol) (value : Value)
    (other : Symbol) (id : FrameId) (hhome : home < store.frames.size) :
    (store.modify home (·.add name value)).valueAt other id =
      if home = id ∧ name.same other then (store.valueAt other id).or (some value)
      else store.valueAt other id := by
  rw [valueAt_modify]
  by_cases hid : home = id
  · subst hid
    rw [if_pos rfl, valueAt, Array.getElem?_eq_getElem hhome]
    by_cases hsame : name.same other <;> simp [Bindings.get?_add, hsame]
  · rw [if_neg hid, if_neg fun h => hid h.1]

/-- The frame is on the path, and no frame before it binds the name. -/
def Exposes (store : Store) (path : List FrameId) (home : FrameId) (name : Symbol) : Prop :=
  ∃ inner outer, path = inner ++ home :: outer ∧ ∀ id ∈ inner, store.bindsAt name id = false

variable {other : FrameId} {path' : List FrameId} {name name' : Token} {value : Value}

/-! The laws, for a name that is looked up from one frame while something happens in another. -/

theorem get_eq_error_iff (h : store.Path frame path) (name : Token) :
    store.get frame name = .error (name.blame (.undefinedVariable name.lexeme.spelling)) ↔
      path.find? (store.bindsAt name.lexeme) = none := by
  rw [get_of_path h]
  rcases store.find?_eq_none_or path name.lexeme with
    ⟨hnone, hfound⟩ | ⟨home, value, hhome, -, hfound⟩
  · simp [hnone, hfound]
  · simp [hhome, hfound]

theorem exists_get_iff (h : store.Path frame path) (name : Token) :
    (∃ value, store.get frame name = .ok value) ↔
      path.find? (store.bindsAt name.lexeme) ≠ none := by
  rw [get_of_path h]
  rcases store.find?_eq_none_or path name.lexeme with
    ⟨hnone, hfound⟩ | ⟨home, value, hhome, -, hfound⟩
  · simp [hnone, hfound]
  · simp [hhome, hfound]

theorem assign_of_path (h : store.Path frame path) (name : Token) (value : Value) :
    store.assign frame name value = (path.find? (store.bindsAt name.lexeme)).elim
      (.error (name.blame (.undefinedVariable name.lexeme.spelling)))
      fun home => .ok (store.modify home (·.replace name.lexeme value)) := by
  rw [assign, resolve_of_path h]
  cases path.find? (store.bindsAt name.lexeme) <;> rfl

theorem assign_eq_error_iff (h : store.Path frame path) (name : Token) (value : Value) :
    store.assign frame name value =
        .error (name.blame (.undefinedVariable name.lexeme.spelling)) ↔
      path.find? (store.bindsAt name.lexeme) = none := by
  rw [assign_of_path h]
  cases path.find? (store.bindsAt name.lexeme) <;> simp

theorem exists_assign_iff (h : store.Path frame path) (name : Token) (value : Value) :
    (∃ later, store.assign frame name value = .ok later) ↔
      path.find? (store.bindsAt name.lexeme) ≠ none := by
  rw [assign_of_path h]
  cases path.find? (store.bindsAt name.lexeme) <;> simp

theorem define_of_lt (h : frame < store.frames.size) (name : Token) (value : Value) :
    store.define frame name value =
      if store.bindsAt name.lexeme frame then
        .error (name.blame (.duplicateVariable name.lexeme.spelling))
      else .ok (store.modify frame (·.add name.lexeme value)) := by
  rw [define, bindsAt, Array.getElem?_eq_getElem h]
  rfl

theorem find?_replace (store : Store) (home : FrameId) (name : Symbol) (value : Value)
    (path : List FrameId) (other : Symbol) :
    path.find? ((store.modify home (·.replace name value)).bindsAt other) =
      path.find? (store.bindsAt other) := by
  apply List.find?_congr
  intro id _
  rw [bindsAt_eq_isSome, bindsAt_eq_isSome, valueAt_replace]
  split
  · exact Option.isSome_map
  · rfl

theorem get_of_assign (h : store.Path frame path) (h' : store.Path other path')
    (hassign : store.assign frame name value = .ok later) (name' : Token) :
    later.get other name' =
      if name.lexeme.same name'.lexeme ∧ path'.find? (store.bindsAt name'.lexeme) =
          path.find? (store.bindsAt name.lexeme) then .ok value
      else store.get other name' := by
  rw [assign_of_path h] at hassign
  cases hhome : path.find? (store.bindsAt name.lexeme) with
  | none =>
      rw [hhome] at hassign
      contradiction
  | some home =>
      rw [hhome] at hassign
      cases hassign
      rw [get_of_path (h'.modify home _), get_of_path h', found_eq, find?_replace, found_eq]
      -- The name has its meaning in the same frame as before.
      cases hhome' : path'.find? (store.bindsAt name'.lexeme) with
      | none => simp
      | some home' =>
          have hbinds := List.find?_some hhome'
          rw [bindsAt_eq_isSome, Option.isSome_iff_exists] at hbinds
          obtain ⟨old, hold⟩ := hbinds
          simp only [Option.bind_some, valueAt_replace, hold, Option.some.injEq]
          by_cases hboth : home = home' ∧ name.lexeme.same name'.lexeme
          · rw [if_pos hboth, if_pos ⟨hboth.2, hboth.1.symm⟩]
            rfl
          · rw [if_neg hboth, if_neg fun hsame => hboth ⟨hsame.2.symm, hsame.1⟩]

theorem valueAt_congr {name other : Symbol} (h : name.same other = true) (store : Store) :
    store.valueAt name = store.valueAt other := by
  funext id
  have hget (bindings : Bindings) : bindings.get? name = bindings.get? other := by
    simp only [Bindings.get?, Symbol.same_congr h]
  simp only [valueAt, hget]

theorem define_ok (hframe : frame < store.frames.size)
    (hdefine : store.define frame name value = .ok later) :
    store.bindsAt name.lexeme frame = false ∧
      later = store.modify frame (·.add name.lexeme value) := by
  rw [define_of_lt hframe] at hdefine
  split at hdefine
  · contradiction
  · next hbinds =>
      cases hdefine
      exact ⟨Bool.eq_false_iff.mpr hbinds, rfl⟩

theorem valueAt_of_define (hframe : frame < store.frames.size)
    (hdefine : store.define frame name value = .ok later) (other : Symbol) (id : FrameId) :
    later.valueAt other id =
      if frame = id ∧ name.lexeme.same other then some value else store.valueAt other id := by
  obtain ⟨hbinds, rfl⟩ := define_ok hframe hdefine
  rw [valueAt_add _ _ _ _ _ _ hframe]
  split
  · next hboth =>
      obtain ⟨rfl, hsame⟩ := hboth
      rw [bindsAt_eq_isSome, valueAt_congr hsame, Option.isSome_eq_false_iff,
        Option.isNone_iff_eq_none] at hbinds
      rw [hbinds]
      rfl
  · rfl

theorem Path.not_mem_inner {inner outer : List FrameId}
    (h : store.Path other (inner ++ frame :: outer)) : frame ∉ inner := by
  have hdisjoint := (List.nodup_append.mp h.nodup).2.2
  exact fun hmem => hdisjoint frame hmem frame List.mem_cons_self rfl

/-- A new variable is what its name means wherever its frame is exposed. -/
theorem get_of_define (hframe : frame < store.frames.size) (h' : store.Path other path')
    (hdefine : store.define frame name value = .ok later)
    (hsame : name.lexeme.same name'.lexeme = true)
    (hexposes : store.Exposes path' frame name.lexeme) : later.get other name' = .ok value := by
  have hvalues := valueAt_of_define hframe hdefine name'.lexeme
  obtain ⟨inner, outer, rfl, hinner⟩ := hexposes
  have hnone : later.found inner name'.lexeme = none := by
    rw [found, List.findSome?_eq_none_iff]
    intro id hid
    have hne : frame ≠ id := fun heq => h'.not_mem_inner (heq ▸ hid)
    have hfree := hinner id hid
    rw [bindsAt_eq_isSome, valueAt_congr hsame, Option.isSome_eq_false_iff,
      Option.isNone_iff_eq_none] at hfree
    rw [hvalues, if_neg fun heq => hne heq.1, hfree]
  obtain ⟨-, rfl⟩ := define_ok hframe hdefine
  rw [get_of_path (h'.modify frame _), found_append, hnone, found, List.findSome?_cons, hvalues,
    if_pos ⟨rfl, hsame⟩]
  rfl

theorem get_of_define_hidden (hframe : frame < store.frames.size) (h' : store.Path other path')
    (hdefine : store.define frame name value = .ok later)
    (hhidden : ¬ (name.lexeme.same name'.lexeme = true ∧
      store.Exposes path' frame name.lexeme)) :
    later.get other name' = store.get other name' := by
  have hvalues := valueAt_of_define hframe hdefine name'.lexeme
  have hlater : later.Path other path' := by
    obtain ⟨-, rfl⟩ := define_ok hframe hdefine
    exact h'.modify frame _
  by_cases hsame : name.lexeme.same name'.lexeme = true
  · by_cases hmem : frame ∈ path'
    · -- A frame before the changed one binds the name, and the lookup ends there.
      obtain ⟨inner, outer, rfl⟩ := List.append_of_mem hmem
      obtain ⟨id, hid, hbinds⟩ : ∃ id ∈ inner, store.bindsAt name.lexeme id = true := by
        by_contra hfree
        push Not at hfree
        refine hhidden ⟨hsame, inner, outer, rfl, fun id hid => ?_⟩
        exact Bool.eq_false_iff.mpr (hfree id hid)
      have hinner : later.found inner name'.lexeme = store.found inner name'.lexeme := by
        apply found_congr
        intro id hid
        have hne : frame ≠ id := fun heq => h'.not_mem_inner (heq ▸ hid)
        rw [hvalues, if_neg fun heq => hne heq.1]
      have hfound : (store.found inner name'.lexeme).isSome = true := by
        rw [bindsAt_eq_isSome, valueAt_congr hsame] at hbinds
        exact List.findSome?_isSome_iff.mpr ⟨id, hid, hbinds⟩
      obtain ⟨old, hold⟩ := Option.isSome_iff_exists.mp hfound
      rw [get_of_path hlater, get_of_path h', found_append, found_append, hinner, hold]
      rfl
    · apply get_congr h' hlater
      intro id hid
      have hne : frame ≠ id := fun heq => hmem (heq ▸ hid)
      rw [hvalues, if_neg fun heq => hne heq.1]
  · apply get_congr h' hlater
    intro id _
    rw [hvalues, if_neg fun heq => hsame heq.2]

theorem valueAt_push_of_lt {id : FrameId} (hid : id < store.frames.size) (parent : FrameId)
    (name : Symbol) : (store.push parent).2.valueAt name id = store.valueAt name id := by
  rw [valueAt, valueAt, frames_push, if_neg (Nat.ne_of_lt hid)]

theorem get_push (h : store.Path frame path) (parent : FrameId) (name : Token) :
    (store.push parent).2.get frame name = store.get frame name :=
  get_congr h (h.push parent) fun id hid => valueAt_push_of_lt (h.lt_size id hid) parent _

/-- A new frame shows what its parent shows. -/
theorem get_push_inner (h : store.Path frame path)
    (hpool : ∀ bindings ∈ store.pool, bindings = {}) (name : Token) :
    (store.push frame).2.get (store.push frame).1 name = store.get frame name := by
  have hnew : (store.push frame).2.valueAt name.lexeme store.frames.size = none := by
    rw [valueAt, frames_push_self hpool]
    rfl
  have hrest : (store.push frame).2.found path name.lexeme = store.found path name.lexeme :=
    found_congr fun id hid => valueAt_push_of_lt (h.lt_size id hid) frame _
  rw [push_fst, get_of_path h.push_inner, get_of_path h, found, List.findSome?_cons, hnew]
  exact congrArg (Option.elim · _ _) hrest

theorem frames_of_pop (hpop : store.pop frame = .ok later) {id : FrameId}
    (hid : id < later.frames.size) : later.frames[id]? = store.frames[id]? := by
  obtain ⟨-, -, rfl⟩ := of_pop hpop
  rw [Array.size_pop] at hid
  rw [Array.getElem?_pop, if_pos hid]

theorem valueAt_of_pop (hpop : store.pop frame = .ok later) {id : FrameId}
    (hid : id < later.frames.size) (name : Symbol) :
    later.valueAt name id = store.valueAt name id := by
  rw [valueAt, valueAt, frames_of_pop hpop hid]

theorem get_of_pop (hpop : store.pop other = .ok later) (h : store.Path frame path)
    (hframe : frame < later.frames.size) (name : Token) :
    later.get frame name = store.get frame name := by
  have hlt {id : FrameId} (hid : id ∈ path) : id < later.frames.size :=
    Nat.lt_of_le_of_lt (h.le id hid) hframe
  apply get_congr h (h.congr fun id hid => congrArg _ (frames_of_pop hpop (hlt hid)))
  exact fun id hid => valueAt_of_pop hpop (hlt hid) _

/-- The laws of a store. Names are the same if their symbols are. -/
structure Lawful (store : Store) : Prop where
  /-- Every open frame has a path, on which the first frame that binds a name gives its meaning. -/
  path : ∀ frame < store.frames.size, ∃ path, store.Path frame path
  /-- Reading and assigning fail where no frame of the path binds the name, and only there. -/
  unknown : ∀ {frame : FrameId} {path : List FrameId}, store.Path frame path →
    ∀ (name : Token) (value : Value),
      (store.get frame name =
          .error (name.blame (.undefinedVariable name.lexeme.spelling)) ↔
        path.find? (store.bindsAt name.lexeme) = none) ∧
      ((∃ result, store.get frame name = .ok result) ↔
        path.find? (store.bindsAt name.lexeme) ≠ none) ∧
      (store.assign frame name value =
          .error (name.blame (.undefinedVariable name.lexeme.spelling)) ↔
        path.find? (store.bindsAt name.lexeme) = none) ∧
      ((∃ later, store.assign frame name value = .ok later) ↔
        path.find? (store.bindsAt name.lexeme) ≠ none)
  /-- Declaring fails where the frame itself binds the name, and only there. -/
  duplicate : ∀ frame < store.frames.size, ∀ (name : Token) (value : Value),
    (store.define frame name value =
        .error (name.blame (.duplicateVariable name.lexeme.spelling)) ↔
      store.bindsAt name.lexeme frame = true) ∧
    ((∃ later, store.define frame name value = .ok later) ↔
      store.bindsAt name.lexeme frame = false)
  /-- What fails changes no lookup. -/
  refused : ∀ (world : World), world.store = store →
    ∀ (frame : FrameId) (name : Token) (value : Value) (reason : Stop) (after : World),
      (Run.lookup frame name world = .error reason after ∨
        Run.assign frame name value world = .error reason after ∨
        Run.define frame name value world = .error reason after) →
      ∀ (other : FrameId) (name' : Token), after.store.get other name' = store.get other name'
  /-- An assignment is seen from where the name has its meaning in the same frame. -/
  assigned : ∀ {frame other : FrameId} {path path' : List FrameId}, store.Path frame path →
    store.Path other path' → ∀ {name : Token} {value : Value} {later : Store},
      store.assign frame name value = .ok later → ∀ name' : Token,
        later.get other name' =
          if name.lexeme.same name'.lexeme ∧ path'.find? (store.bindsAt name'.lexeme) =
              path.find? (store.bindsAt name.lexeme) then .ok value
          else store.get other name'
  /-- A declaration is seen from where its frame is exposed. -/
  declared : ∀ {frame other : FrameId} {path' : List FrameId}, frame < store.frames.size →
    store.Path other path' → ∀ {name : Token} {value : Value} {later : Store},
      store.define frame name value = .ok later → ∀ name' : Token,
        (name.lexeme.same name'.lexeme = true ∧ store.Exposes path' frame name.lexeme →
          later.get other name' = .ok value) ∧
        (¬ (name.lexeme.same name'.lexeme = true ∧ store.Exposes path' frame name.lexeme) →
          later.get other name' = store.get other name')
  /-- A new frame shows what its parent shows, and the other frames show what they showed. -/
  pushed : ∀ parent < store.frames.size, ∀ name : Token,
    (store.push parent).2.get (store.push parent).1 name = store.get parent name ∧
      ∀ other < store.frames.size,
        (store.push parent).2.get other name = store.get other name
  /-- The innermost frame can be released, unless it is global, and the other frames show what they
  showed. -/
  popped : ∀ frame, store.frames.size = frame + 1 → frame ≠ FrameId.global →
    ∃ later, store.pop frame = .ok later ∧ later.frames.size = frame ∧
      ∀ other < frame, ∀ name : Token, later.get other name = store.get other name

theorem eq_of_changeStore {change : Store → Except Stop Store} {world after : World}
    {reason : Stop} (h : Run.changeStore change world = .error reason after) : after = world := by
  rw [Run.changeStore_apply] at h
  split at h
  · contradiction
  · cases h
    rfl

theorem eq_of_lookup {name : Token} {world after : World} {reason : Stop}
    (h : Run.lookup frame name world = .error reason after) : after = world := by
  rw [Run.lookup_apply] at h
  split at h
  · contradiction
  · cases h
    rfl

theorem Arena.lawful (h : store.Arena) : store.Lawful where
  path _ hframe := h.exists_path hframe
  unknown hpath name value := ⟨get_eq_error_iff hpath name, exists_get_iff hpath name,
    assign_eq_error_iff hpath name value, exists_assign_iff hpath name value⟩
  duplicate frame hframe name value := by
    rw [define_of_lt hframe]
    cases store.bindsAt name.lexeme frame <;> simp
  refused world hworld frame name value reason after hrefused other name' := by
    have hafter : after = world := by
      rcases hrefused with hlookup | hassign | hdefine
      · exact eq_of_lookup hlookup
      · exact eq_of_changeStore hassign
      · exact eq_of_changeStore hdefine
    rw [hafter, hworld]
  assigned hpath hpath' _ _ _ hassign name' := get_of_assign hpath hpath' hassign name'
  declared hframe hpath' _ _ _ hdefine _ :=
    ⟨fun hexposes => get_of_define hframe hpath' hdefine hexposes.1 hexposes.2,
      get_of_define_hidden hframe hpath' hdefine⟩
  pushed parent hparent name := by
    obtain ⟨path, hpath⟩ := h.exists_path hparent
    refine ⟨get_push_inner hpath h.pool_empty name, fun other hother => ?_⟩
    obtain ⟨path', hpath'⟩ := h.exists_path hother
    exact get_push hpath' parent name
  popped frame hsize hinner := by
    obtain ⟨released, hpop⟩ := pop_eq_ok hsize hinner
    have hlater : store.frames.pop.size = frame := by
      rw [Array.size_pop, hsize, Nat.add_sub_cancel]
    refine ⟨_, hpop, hlater, fun other hother name => ?_⟩
    have hopen : other < store.frames.size := hsize ▸ Nat.lt_succ_of_lt hother
    obtain ⟨path, hpath⟩ := h.exists_path hopen
    exact get_of_pop hpop hpath (Nat.lt_of_lt_of_eq hother hlater.symm) name

/-- Whatever has happened to a store, its frames obey the laws. -/
theorem History.laws_hold {past : List Store} (h : History store past) : store.Lawful :=
  h.arena.lawful

/-- Two frames lie side by side in the global one, and the older of them has a variable. -/
def siblings : Store :=
  (declared.push FrameId.global).2

theorem History.laws_hold_siblings :
    History siblings [siblings, declared, opened.store, .new] ∧
      ∃ later, siblings.define FrameId.global someName (.boolean true) = .ok later ∧
        later.get 2 someName = .ok (.boolean true) ∧
        later.get 1 someName = siblings.get 1 someName ∧
        siblings.get 1 someName = .ok .nil := by
  have hopened : History opened.store [opened.store, .new] := .step .new (.push Nat.one_pos)
  have hdeclared : History declared [declared, opened.store, .new] :=
    .step hopened (.define opened 1 someName .nil)
  have hsiblings : History siblings [siblings, declared, opened.store, .new] :=
    .step hdeclared (.push (by decide))
  have houtermost : siblings.Path FrameId.global [FrameId.global] := .outermost rfl rfl
  have holder : siblings.Path 1 [1, FrameId.global] := .inner rfl rfl Nat.one_pos houtermost
  have hnewer : siblings.Path 2 [2, FrameId.global] := .inner rfl rfl Nat.two_pos houtermost
  have hglobal := houtermost.lt_size _ List.mem_cons_self
  have hlaws := hsiblings.laws_hold
  obtain ⟨later, hdefine⟩ :=
    ((hlaws.duplicate FrameId.global hglobal someName (.boolean true)).2).mpr rfl
  refine ⟨hsiblings, later, hdefine, ?_, ?_, rfl⟩
  · refine (hlaws.declared hglobal hnewer hdefine someName).1 ⟨rfl, [2], [], rfl, ?_⟩
    exact List.forall_mem_singleton.mpr rfl
  · -- The variable of the older frame hides the new one.
    refine (hlaws.declared hglobal holder hdefine someName).2 ?_
    rintro ⟨-, inner, outer, hpath, hinner⟩
    cases inner with
    | nil => exact absurd (List.cons.inj hpath).1 Nat.one_ne_zero
    | cons id inner =>
        obtain ⟨rfl, -⟩ := List.cons.inj hpath
        exact absurd (hinner 1 List.mem_cons_self) (by decide)

end Store

end Treewalk
