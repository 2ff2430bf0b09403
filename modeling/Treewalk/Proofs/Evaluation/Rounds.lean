import Treewalk.Proofs.Evaluation.Tracking

/-!
More rounds. A run whose loops end within the rounds that they are allowed ends in the same way if
they are allowed more, so it does not matter how many rounds are enough.
-/

namespace Treewalk

namespace Run

variable {α β : Type} {frame : FrameId}

/-- The rounds of some loop have not been enough. -/
def Exhausted (result : EStateM.Result Stop World α) : Prop :=
  ∃ after, result = .error .outOfRounds after

theorem exhausted_mapWorld (change : World → World) (result : EStateM.Result Stop World α) :
    Exhausted (mapWorld change result) ↔ Exhausted result := by
  cases result with
  | ok value world => simp [Exhausted, mapWorld]
  | error reason world => simp [Exhausted, mapWorld]

/-- The second run is as the first, but its loops may last longer. -/
structure Lasts (run longer : Run α) : Prop where
  keeps : Keeps run
  eq_of_ends : ∀ world : World, 0 < world.store.frames.size → ¬ Exhausted (run world) →
    longer world = run world

/-! Runs that release what they open. -/

theorem Keeps.pure (value : α) : Keeps (Pure.pure value) :=
  fun _ _ => rfl

theorem Keeps.stop (reason : Stop) : Keeps (Run.stop reason : Run α) :=
  fun _ _ => rfl

theorem Keeps.bind {first : Run α} {next : α → Run β} (hfirst : Keeps first)
    (hnext : ∀ value, Keeps (next value)) : Keeps (first >>= next) := by
  intro world hopen
  have hframes := hfirst world hopen
  cases hrun : first world with
  | ok value after =>
      rw [hrun] at hframes
      rw [bind_eq_of_ok hrun]
      exact (hnext value after (Nat.lt_of_lt_of_eq hopen hframes.symm)).trans hframes
  | error reason after =>
      rw [hrun] at hframes
      rw [bind_eq_of_error hrun]
      exact hframes

theorem Keeps.inFrame {body : FrameId → Run Unit} (hbody : ∀ inner, Keeps (body inner))
    (parent : FrameId) : Keeps (Run.inFrame parent body) := by
  intro world hopen
  have hframes := hbody world.store.frames.size
    { world with store := (world.store.push parent).2 } (by simp)
  rw [Store.size_frames_push] at hframes
  rw [inFrame_apply hopen (hbody _)]
  generalize body _ _ = result at hframes
  cases result with
  | ok value after | error reason after =>
      exact (Array.size_pop).trans (Nat.sub_eq_of_eq_add hframes)

theorem Lasts.refl {run : Run α} (h : Keeps run) : Lasts run run :=
  ⟨h, fun _ _ _ => rfl⟩

theorem Lasts.step {run : Run α} (h : Grows FrameId.global [] run) : Lasts run run :=
  .refl h.keeps

theorem Lasts.bind {first first' : Run α} {next next' : α → Run β} (hfirst : Lasts first first')
    (hnext : ∀ value, Lasts (next value) (next' value)) :
    Lasts (first >>= next) (first' >>= next') where
  keeps := hfirst.keeps.bind fun value => (hnext value).keeps
  eq_of_ends := by
    intro world hopen hends
    have hframes := hfirst.keeps world hopen
    have hlonger := hfirst.eq_of_ends world hopen
    cases hrun : first world with
    | ok value after =>
        rw [hrun] at hframes hlonger
        rw [bind_eq_of_ok hrun] at hends ⊢
        rw [bind_eq_of_ok (hlonger (by simp [Exhausted]))]
        exact (hnext value).eq_of_ends after (Nat.lt_of_lt_of_eq hopen hframes.symm) hends
    | error reason after =>
        rw [hrun] at hlonger
        rw [bind_eq_of_error hrun] at hends ⊢
        apply bind_eq_of_error (hlonger ?_)
        simpa [Exhausted] using hends

theorem Lasts.inFrame {body body' : FrameId → Run Unit}
    (hbody : ∀ inner, Lasts (body inner) (body' inner)) (parent : FrameId) :
    Lasts (Run.inFrame parent body) (Run.inFrame parent body') where
  keeps := .inFrame (fun inner => (hbody inner).keeps) parent
  eq_of_ends := by
    intro world hopen hends
    rw [inFrame_apply hopen (hbody _).keeps, exhausted_mapWorld] at hends
    have hlonger := (hbody world.store.frames.size).eq_of_ends
      { world with store := (world.store.push parent).2 } (by simp) hends
    simp only [Run.inFrame, Store.push_fst, hlonger]

theorem Lasts.repeatWhile {test test' : Run Bool} {body body' : Run Unit}
    (htest : Lasts test test') (hbody : Lasts body body') {rounds more : Nat}
    (hle : rounds ≤ more) :
    Lasts (Run.repeatWhile test body rounds) (Run.repeatWhile test' body' more) := by
  induction rounds generalizing more with
  | zero => exact ⟨.stop _, fun world _ hends => absurd ⟨world, rfl⟩ hends⟩
  | succ rounds ih =>
      obtain ⟨more, rfl⟩ : ∃ fewer, more = fewer + 1 := ⟨more - 1, by omega⟩
      apply htest.bind
      intro holds
      cases holds with
      | true => exact hbody.bind fun _ => ih (Nat.le_of_succ_le_succ hle)
      | false => exact .refl (.pure ())

theorem Lasts.simulation {rounds more : Nat} (hle : rounds ≤ more) :
    Simulation Eq (id : FrameId → FrameId) id (fun _ => True) rounds more
      fun _ _ run longer => Lasts run longer where
  kind_eq := congrArg Token.kind
  pure _ _ value := .refl (.pure value)
  fault _ _ _ := .refl (.stop _)
  blame _ _ _ _ hname _ := hname ▸ .refl (.stop _)
  bind := .bind
  lookup frame hname := hname ▸ .step (.lookup frame _)
  assign frame value hname := hname ▸ .step (.assign frame _ value)
  define _ value hname := hname ▸ .refl (Grows.define (List.mem_singleton_self _) value).keeps
  readClock _ := .step .readClock
  writeLine _ value := .step (.writeLine value)
  inFrame parent _ _ hbody := .inFrame (fun inner => hbody inner trivial) parent
  repeatWhile htest hbody := htest.repeatWhile hbody hle

/-- Allowed enough rounds, a run ends in this way. -/
structure ComesTo (run : Nat → Run α) (world : World)
    (result : EStateM.Result Stop World α) : Prop where
  reaches : ∃ rounds, run rounds world = result
  ends : ¬ Exhausted result

variable {run run' : Nat → Run α} {result result' : EStateM.Result Stop World α}

theorem ComesTo.unique (hlasts : ∀ {rounds more}, rounds ≤ more → Lasts (run rounds) (run more))
    {world : World} (hopen : 0 < world.store.frames.size) (h : ComesTo run world result)
    (h' : ComesTo run world result') : result = result' := by
  obtain ⟨⟨rounds, rfl⟩, hends⟩ := h
  obtain ⟨⟨rounds', rfl⟩, hends'⟩ := h'
  rcases Nat.le_total rounds rounds' with hle | hle
  · exact ((hlasts hle).eq_of_ends world hopen hends).symm
  · exact (hlasts hle).eq_of_ends world hopen hends'

section

variable {stores : Store → Store → Prop} {left right : World}

theorem EndsBeside.exhausted_iff (h : EndsBeside stores result result') :
    Exhausted result ↔ Exhausted result' := by
  cases h with
  | ok _ | error _ => simp [Exhausted]

/-- Two runs that end in the same way within the same rounds come to an end in the same way. -/
theorem exists_comesTo_iff (h : ∀ rounds, EndsBeside stores (run rounds left) (run' rounds right)) :
    (∃ result, ComesTo run left result) ↔ ∃ result, ComesTo run' right result := by
  constructor
  · rintro ⟨_, ⟨rounds, rfl⟩, hends⟩
    exact ⟨_, ⟨rounds, rfl⟩, (h rounds).exhausted_iff.not.mp hends⟩
  · rintro ⟨_, ⟨rounds, rfl⟩, hends⟩
    exact ⟨_, ⟨rounds, rfl⟩, (h rounds).exhausted_iff.not.mpr hends⟩

theorem ComesTo.beside (h : ∀ rounds, EndsBeside stores (run rounds left) (run' rounds right))
    (hlasts : ∀ {rounds more}, rounds ≤ more → Lasts (run rounds) (run more))
    (hopen : 0 < left.store.frames.size) (hrun : ComesTo run left result)
    (hrun' : ComesTo run' right result') : EndsBeside stores result result' := by
  obtain ⟨⟨rounds, rfl⟩, hends⟩ := hrun'
  have hcomes : ComesTo run left (run rounds left) :=
    ⟨⟨rounds, rfl⟩, (h rounds).exhausted_iff.not.mpr hends⟩
  rw [hrun.unique hlasts hopen hcomes]
  exact h rounds

end

end Run

/-- A statement that ends within some rounds ends in the same way within more. -/
theorem Stmt.execute_lasts (frame : FrameId) (statement : Stmt) {rounds more : Nat}
    (hle : rounds ≤ more) :
    Run.Lasts (statement.execute rounds frame) (statement.execute more frame) :=
  (Run.Lasts.simulation hle).execute frame statement (.refl Eq.refl statement) (.inl trivial)

end Treewalk
