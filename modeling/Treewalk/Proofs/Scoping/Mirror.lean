import Mathlib
import Treewalk.Proofs.Naming
import Treewalk.Proofs.Scoping.Path
import Treewalk.Proofs.Scoping.Reference

/-!
Frames as finite maps. The bindings of a frame, seen by the spellings of their names, are a finite
map, and the frames on a path are a list of such maps, on which reading, assigning and declaring a
variable do what the documented meaning says.
-/

namespace Treewalk

namespace Bindings

def named (bindings : Bindings) : List (String × Value) :=
  bindings.entries.map fun entry => (entry.1.spelling, entry.2)

def Known (names : Names) (bindings : Bindings) : Prop :=
  ∀ entry ∈ bindings.entries, names.Knows entry.1

variable {names : Names} {bindings : Bindings} {name : Symbol}

theorem get?_eq_lookup (hnodup : names.spellings.Nodup) (hknown : bindings.Known names)
    (hname : names.Knows name) : bindings.get? name = bindings.named.lookup name.spelling := by
  obtain ⟨entries⟩ := bindings
  induction entries with
  | nil => rfl
  | cons entry entries ih =>
      have hsame : entry.1.same name = (name.spelling == entry.1.spelling) := by
        rw [Bool.eq_iff_iff, beq_iff_eq, eq_comm (a := name.spelling)]
        exact Names.same_iff_spelling_eq hnodup (hknown entry (by simp)) hname
      have hrest := ih fun other hother => hknown other (List.mem_cons_of_mem _ hother)
      simp only [get?, named, List.map_cons, List.find?_cons, List.lookup_cons, hsame] at hrest ⊢
      cases name.spelling == entry.1.spelling with
      | true => rfl
      | false => exact hrest

theorem mem_named_iff (hkeys : (bindings.named.map Prod.fst).Nodup) {spelling : String}
    {value : Value} :
    (spelling, value) ∈ bindings.named ↔ bindings.named.lookup spelling = some value := by
  generalize bindings.named = row at hkeys
  induction row with
  | nil => simp
  | cons entry row ih =>
      obtain ⟨key, other⟩ := entry
      rw [List.map_cons, List.nodup_cons] at hkeys
      by_cases hkey : spelling = key
      · subst hkey
        have habsent : (spelling, value) ∉ row := fun hmem =>
          hkeys.1 (List.mem_map.mpr ⟨_, hmem, rfl⟩)
        simp [habsent, eq_comm]
      · simp [List.lookup_cons, hkey, ih hkeys.2, beq_eq_false_iff_ne.mpr hkey]

theorem named_add (bindings : Bindings) (name : Symbol) (value : Value) :
    (bindings.add name value).named = bindings.named ++ [(name.spelling, value)] := by
  simp [add, named]

theorem map_fst_named_replace (bindings : Bindings) (name : Symbol) (value : Value) :
    (bindings.replace name value).named.map Prod.fst = bindings.named.map Prod.fst := by
  simp only [replace, named, List.map_map]
  apply List.map_congr_left
  intro entry _
  simp only [Function.comp_apply]
  split <;> rfl

theorem lookup_named_replace (hnodup : names.spellings.Nodup) (hknown : bindings.Known names)
    (hname : names.Knows name) (value : Value) (spelling : String) :
    (bindings.replace name value).named.lookup spelling =
      if name.spelling = spelling then (bindings.named.lookup spelling).map fun _ => value
      else bindings.named.lookup spelling := by
  obtain ⟨entries⟩ := bindings
  induction entries with
  | nil => simp [replace, named]
  | cons entry entries ih =>
      have hsame : entry.1.same name = true ↔ entry.1.spelling = name.spelling :=
        Names.same_iff_spelling_eq hnodup (hknown entry (by simp)) hname
      have hrest := ih fun other hother => hknown other (List.mem_cons_of_mem _ hother)
      simp only [replace, named, List.map_cons, List.lookup_cons] at hrest ⊢
      by_cases hentry : entry.1.spelling = spelling
      · subst hentry
        by_cases hspelling : entry.1.spelling = name.spelling
        · simp [hsame.mpr hspelling, hspelling]
        · have hsame' : entry.1.same name = false := by simpa [hspelling] using hsame
          simp [hsame', Ne.symm hspelling]
      · have hfound : (spelling == entry.1.spelling) = false := by simpa using Ne.symm hentry
        have hkept : (spelling == (if entry.1.same name = true then (entry.1, value)
            else entry).1.spelling) = false := by
          split <;> exact hfound
        simpa only [hfound, hkept] using hrest

/-- The bindings are the finite map, by the spellings of the names. -/
structure Mirrors (names : Names) (bindings : Bindings) (scope : Reference.Scope) : Prop where
  known : bindings.Known names
  nodup : (bindings.named.map Prod.fst).Nodup
  lookup_eq : ∀ spelling, bindings.named.lookup spelling = scope[spelling]?

namespace Mirrors

variable {scope : Reference.Scope}

theorem empty (names : Names) : Mirrors names {} ∅ :=
  ⟨by simp [Known], by simp [named], by simp [named]⟩

theorem mono {later : Names} (h : Mirrors names bindings scope) (hextends : names.Extends later) :
    Mirrors later bindings scope :=
  { h with known := fun entry hentry => (h.known entry hentry).mono hextends }

theorem get?_eq (h : Mirrors names bindings scope) (hnodup : names.spellings.Nodup)
    (hname : names.Knows name) : bindings.get? name = scope[name.spelling]? :=
  (get?_eq_lookup hnodup h.known hname).trans (h.lookup_eq name.spelling)

theorem binds_iff (h : Mirrors names bindings scope) (hnodup : names.spellings.Nodup)
    (hname : names.Knows name) : bindings.binds name = true ↔ name.spelling ∈ scope := by
  rw [binds_eq_isSome, h.get?_eq hnodup hname, Std.ExtHashMap.mem_iff_isSome_getElem?]

theorem replace (h : Mirrors names bindings scope) (hnodup : names.spellings.Nodup)
    (hname : names.Knows name) (hbinds : name.spelling ∈ scope) (value : Value) :
    Mirrors names (bindings.replace name value) (scope.insert name.spelling value) where
  known := by
    intro entry hentry
    obtain ⟨old, hold, rfl⟩ := List.mem_map.mp hentry
    split <;> exact h.known old hold
  nodup := by
    rw [map_fst_named_replace]
    exact h.nodup
  lookup_eq spelling := by
    rw [lookup_named_replace hnodup h.known hname, h.lookup_eq, Std.ExtHashMap.getElem?_insert]
    rw [Std.ExtHashMap.mem_iff_isSome_getElem?, Option.isSome_iff_exists] at hbinds
    obtain ⟨old, hold⟩ := hbinds
    by_cases hspelling : name.spelling = spelling
    · subst hspelling
      simp [hold]
    · simp [hspelling]

theorem add (h : Mirrors names bindings scope) (hname : names.Knows name)
    (hfree : name.spelling ∉ scope) (value : Value) :
    Mirrors names (bindings.add name value) (scope.insert name.spelling value) where
  known := by
    intro entry hentry
    rcases List.mem_append.mp hentry with hentry | hentry
    · exact h.known entry hentry
    · rw [List.mem_singleton] at hentry
      rw [hentry]
      exact hname
  nodup := by
    have hnone : bindings.named.lookup name.spelling = none := by
      rw [h.lookup_eq, Std.ExtHashMap.getElem?_eq_none hfree]
    have habsent : name.spelling ∉ bindings.named.map Prod.fst := by
      intro hmem
      obtain ⟨entry, hentry, heq⟩ := List.mem_map.mp hmem
      have hne := List.lookup_eq_none_iff.mp hnone entry hentry
      simp [heq] at hne
    rw [named_add, List.map_append]
    refine List.nodup_append.mpr ⟨h.nodup, by simp, ?_⟩
    intro first hfirst second hsecond
    rw [List.map_singleton, List.mem_singleton] at hsecond
    subst hsecond
    rintro rfl
    exact habsent hfirst
  lookup_eq spelling := by
    rw [named_add, List.lookup_append, h.lookup_eq, Std.ExtHashMap.getElem?_insert]
    by_cases hspelling : name.spelling = spelling
    · subst hspelling
      simp [Std.ExtHashMap.getElem?_eq_none hfree]
    · have hother : (spelling == name.spelling) = false := by simpa using Ne.symm hspelling
      simp [List.lookup_cons, hspelling, hother]

end Mirrors

end Bindings

namespace Store

def ShowsAt (store : Store) (names : Names) (id : FrameId) (scope : Reference.Scope) : Prop :=
  ∃ frame, store.frames[id]? = some frame ∧ frame.bindings.Mirrors names scope

/-- The frames of a path are the scopes. -/
def Shows (store : Store) (names : Names) (ids : List FrameId)
    (environment : Reference.Environment) : Prop :=
  List.Forall₂ (store.ShowsAt names) ids environment

variable {store later : Store} {names : Names} {frame : FrameId} {ids : List FrameId}
  {environment : Reference.Environment} {name : Symbol}

theorem ShowsAt.bindsAt_iff {id : FrameId} {scope : Reference.Scope}
    (h : store.ShowsAt names id scope) (hnodup : names.spellings.Nodup)
    (hname : names.Knows name) : store.bindsAt name id = true ↔ name.spelling ∈ scope := by
  obtain ⟨frame, hframe, hmirrors⟩ := h
  rw [bindsAt, hframe, Option.any_some]
  exact hmirrors.binds_iff hnodup hname

theorem ShowsAt.modify {id : FrameId} {scope scope' : Reference.Scope}
    (h : store.ShowsAt names id scope) {change : Bindings → Bindings}
    (hchange : ∀ bindings : Bindings, bindings.Mirrors names scope →
      (change bindings).Mirrors names scope') :
    (store.modify id change).ShowsAt names id scope' := by
  obtain ⟨frame, hframe, hmirrors⟩ := h
  refine ⟨{ frame with bindings := change frame.bindings }, ?_, hchange _ hmirrors⟩
  rw [frames_modify, if_pos rfl, hframe, Option.map_some]

namespace Shows

theorem congr (h : store.Shows names ids environment)
    (hframes : ∀ id ∈ ids, later.frames[id]? = store.frames[id]?) :
    later.Shows names ids environment := by
  induction h with
  | nil => exact .nil
  | @cons id scope ids environment hfirst _ ih =>
      obtain ⟨frame, hframe, hmirrors⟩ := hfirst
      refine .cons ⟨frame, ?_, hmirrors⟩ (ih ?_)
      · rw [hframes id (by simp), hframe]
      · exact fun other hother => hframes other (List.mem_cons_of_mem _ hother)

theorem mono {laterNames : Names} (h : store.Shows names ids environment)
    (hextends : names.Extends laterNames) : store.Shows laterNames ids environment :=
  h.imp fun _ _ ⟨frame, hframe, hmirrors⟩ => ⟨frame, hframe, hmirrors.mono hextends⟩

theorem modify_of_not_mem (h : store.Shows names ids environment) {home : FrameId}
    (hhome : home ∉ ids) (change : Bindings → Bindings) :
    (store.modify home change).Shows names ids environment := by
  apply h.congr
  intro id hid
  rw [frames_modify, if_neg]
  rintro rfl
  exact hhome hid

/-- The first frame that binds a name holds what the first scope holds that has it. -/
theorem find?_eq (h : store.Shows names ids environment) (hnodup : names.spellings.Nodup)
    (hname : names.Knows name) :
    (ids.find? (store.bindsAt name) = none ∧ environment.lookup name.spelling = none) ∨
      ∃ home frame value, ids.find? (store.bindsAt name) = some home ∧
        store.frames[home]? = some frame ∧ frame.bindings.get? name = some value ∧
        environment.lookup name.spelling = some value := by
  induction h with
  | nil => exact .inl ⟨rfl, rfl⟩
  | @cons id scope ids environment hfirst _ ih =>
      have hbinds := hfirst.bindsAt_iff hnodup hname
      obtain ⟨frame, hframe, hmirrors⟩ := hfirst
      have hget := hmirrors.get?_eq hnodup hname
      by_cases hmem : name.spelling ∈ scope
      · right
        obtain ⟨value, hvalue⟩ := Option.isSome_iff_exists.mp
          (Std.ExtHashMap.mem_iff_isSome_getElem?.mp hmem)
        refine ⟨id, frame, value, ?_, hframe, hget.trans hvalue, ?_⟩
        · rw [List.find?_cons, hbinds.mpr hmem]
        · rw [Reference.Environment.lookup, hvalue]
      · have hfree : store.bindsAt name id = false := by simpa [hmem] using hbinds
        simp only [List.find?_cons, hfree, Reference.Environment.lookup,
          Std.ExtHashMap.getElem?_eq_none hmem]
        exact ih

theorem assign (h : store.Shows names ids environment) (hids : ids.Nodup)
    (hnodup : names.spellings.Nodup) (hname : names.Knows name) (value : Value) :
    (ids.find? (store.bindsAt name) = none ∧ environment.assign name.spelling value = none) ∨
      ∃ home environment', ids.find? (store.bindsAt name) = some home ∧ home ∈ ids ∧
        environment.assign name.spelling value = some environment' ∧
        (store.modify home (·.replace name value)).Shows names ids environment' := by
  induction h with
  | nil => exact .inl ⟨rfl, rfl⟩
  | @cons id scope ids environment hfirst hrest ih =>
      obtain ⟨hid, hids⟩ := List.nodup_cons.mp hids
      have hbinds := hfirst.bindsAt_iff hnodup hname
      by_cases hmem : name.spelling ∈ scope
      · right
        refine ⟨id, scope.insert name.spelling value :: environment, ?_, by simp, ?_,
          .cons ?_ (modify_of_not_mem hrest hid _)⟩
        · rw [List.find?_cons, hbinds.mpr hmem]
        · rw [Reference.Environment.assign, if_pos hmem]
        · exact hfirst.modify fun _ hmirrors => hmirrors.replace hnodup hname hmem value
      · have hfree : store.bindsAt name id = false := by simpa [hmem] using hbinds
        simp only [List.find?_cons, hfree, Reference.Environment.assign, if_neg hmem]
        rcases ih hids with ⟨hnone, hnone'⟩ | ⟨home, environment', hhome, hhomeMem, hassign, hafter⟩
        · left
          exact ⟨hnone, by rw [hnone', Option.map_none]⟩
        · right
          refine ⟨home, scope :: environment', hhome, List.mem_cons_of_mem _ hhomeMem, ?_, ?_⟩
          · rw [hassign, Option.map_some]
          · refine .cons ?_ hafter
            obtain ⟨frame, hframe, hmirrors⟩ := hfirst
            refine ⟨frame, ?_, hmirrors⟩
            rw [frames_modify, if_neg, hframe]
            rintro rfl
            exact hid hhomeMem

theorem push (h : store.Shows names ids environment) (hpath : store.Path frame ids)
    (hpool : ∀ bindings ∈ store.pool, bindings = {}) :
    (store.push frame).2.Shows names (store.frames.size :: ids) (∅ :: environment) := by
  refine .cons ?_ (h.congr fun id hid => ?_)
  · exact ⟨⟨some frame, {}⟩, frames_push_self hpool frame, .empty names⟩
  · rw [frames_push, if_neg (Nat.ne_of_lt (hpath.lt_size id hid))]

end Shows

/-! What the store does with a token, as the scopes would have it. -/

variable {token : Token}

theorem get_of_shows (hpath : store.Path frame ids) (hshows : store.Shows names ids environment)
    (hnodup : names.spellings.Nodup) (hname : names.Knows token.lexeme) :
    store.get frame token =
      match environment.lookup token.lexeme.spelling with
      | some value => .ok value
      | none => .error (token.blame (.undefinedVariable token.lexeme.spelling)) := by
  unfold get
  rw [resolve_of_path hpath]
  rcases hshows.find?_eq hnodup hname with
    ⟨hnone, hlookup⟩ | ⟨home, found, value, hhome, hfound, hvalue, hlookup⟩
  · rw [hnone, hlookup]
  · simp only [hhome, hlookup, hfound, Option.bind_some, hvalue]

theorem assign_of_shows (hpath : store.Path frame ids)
    (hshows : store.Shows names ids environment) (hnodup : names.spellings.Nodup)
    (hname : names.Knows token.lexeme) (value : Value) :
    (store.assign frame token value =
        .error (token.blame (.undefinedVariable token.lexeme.spelling)) ∧
      environment.assign token.lexeme.spelling value = none) ∨
      ∃ home environment', store.assign frame token value =
          .ok (store.modify home (·.replace token.lexeme value)) ∧
        environment.assign token.lexeme.spelling value = some environment' ∧
        (store.modify home (·.replace token.lexeme value)).Shows names ids environment' := by
  unfold Store.assign
  rw [resolve_of_path hpath]
  rcases hshows.assign hpath.nodup hnodup hname value with
    ⟨hnone, hassign⟩ | ⟨home, environment', hhome, -, hassign, hafter⟩
  · left
    rw [hnone]
    exact ⟨rfl, hassign⟩
  · right
    refine ⟨home, environment', ?_, hassign, hafter⟩
    rw [hhome]

theorem define_of_shows (hpath : store.Path frame ids)
    (hshows : store.Shows names ids environment) (hnodup : names.spellings.Nodup)
    (hname : names.Knows token.lexeme) (value : Value) :
    (store.define frame token value =
        .error (token.blame (.duplicateVariable token.lexeme.spelling)) ∧
      environment.define token.lexeme.spelling value = none) ∨
      ∃ environment', store.define frame token value =
          .ok (store.modify frame (·.add token.lexeme value)) ∧
        environment.define token.lexeme.spelling value = some environment' ∧
        (store.modify frame (·.add token.lexeme value)).Shows names ids environment' := by
  obtain ⟨outer, rfl⟩ := hpath.exists_cons
  have hids := hpath.nodup
  rw [List.nodup_cons] at hids
  cases hshows with
  | @cons _ scope _ environment hfirst hrest =>
      have hfirst' := hfirst
      obtain ⟨old, hold, hmirrors⟩ := hfirst'
      have hbinds := hmirrors.binds_iff hnodup hname
      unfold define
      simp only [hold, Reference.Environment.define]
      by_cases hmem : token.lexeme.spelling ∈ scope
      · left
        rw [if_pos hmem, if_pos (hbinds.mpr hmem)]
        exact ⟨rfl, rfl⟩
      · right
        rw [if_neg hmem, if_neg (by simpa [hmem] using hbinds)]
        refine ⟨scope.insert token.lexeme.spelling value :: environment, rfl, rfl, .cons ?_
          (Shows.modify_of_not_mem hrest hids.1 _)⟩
        exact hfirst.modify fun _ hmirrors => hmirrors.add hname hmem value

end Store

end Treewalk
