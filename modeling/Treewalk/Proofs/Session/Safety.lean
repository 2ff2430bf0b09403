import Mathlib
import Treewalk.Proofs.Evaluation.Safety
import Treewalk.Proofs.Parsing.Reading
import Treewalk.Proofs.Parsing.ValidPrefix
import Treewalk.Proofs.Scoping.Balance
import Treewalk.Session

/-!
Sessions without faults. A program that has been read holds only operators of the kinds of their
nodes, and between requests the global frame of each interpreter is open, however earlier requests
have ended.
-/

namespace Treewalk

def Failure.Ordinary (failure : Failure) : Prop :=
  ∀ fault, failure ≠ .stopped (.fault fault)

def Response.Ordinary (response : Response) : Prop :=
  ∀ failure, response = .failed failure → failure.Ordinary

theorem Response.ofResult_ordinary {result : Except Failure Unit}
    (h : ∀ failure, result = .error failure → failure.Ordinary) :
    (Response.ofResult result).Ordinary := by
  intro failure hfailure
  cases result with
  | ok _ => contradiction
  | error reason =>
      cases hfailure
      exact h failure rfl

theorem Lexed.exists_end (text : String) (vocabulary : Vocabulary) (diagnostics : Diagnostics) :
    ∃ token ∈ (ofText text vocabulary diagnostics).tokens, token.isEnd = true := by
  simp [ofText, Lexing.finish, Lexing.push, Token.isEnd]

namespace Parsed

theorem exists_ofTokens {tokens : List Token} (hend : ∃ token ∈ tokens, token.isEnd = true)
    (diagnostics : Diagnostics) : ∃ parsed, ofTokens tokens diagnostics = .ok parsed := by
  obtain ⟨values, finish, -, hread, -⟩ := Parser.declarations_total hend
    (Nat.le_succ tokens.length) (Nat.lt_succ_self _) [] ⟨[], diagnostics, false⟩
  exact ⟨_, ofTokens_of_declarations hread⟩

end Parsed

namespace Interpreter

variable {interpreter : Interpreter}

/-- A text is read as a program whose operators are of the kinds of their nodes, or it is refused
for its own errors. -/
theorem parse_safe (interpreter : Interpreter) (source : String) :
    (∃ program, (interpreter.parse source).1 = .ok program ∧
        ∀ statement ∈ program, statement.Operable) ∨
      ∃ failure, (interpreter.parse source).1 = .error failure ∧ failure.Ordinary := by
  have hrejected (diagnostics : Diagnostics) : (Failure.rejected diagnostics).Ordinary :=
    fun _ h => by contradiction
  unfold parse
  dsimp only
  split
  · obtain ⟨⟨read, after⟩, hparsed⟩ := Parsed.exists_ofTokens
      (Lexed.exists_end source interpreter.vocabulary {})
      (Lexed.ofText source interpreter.vocabulary {}).diagnostics
    rw [hparsed]
    cases read with
    | none => exact .inr ⟨_, rfl, hrejected _⟩
    | some program =>
        obtain ⟨listing, -, -, hlisting, -, -, rfl, -⟩ := Parsed.exists_listing hparsed
        exact .inl ⟨_, rfl, hlisting.operable⟩
  · exact .inr ⟨_, rfl, hrejected _⟩

/-- There has been no fault, and the global frame is open afterwards. -/
structure Faultless (outcome : Except Failure Unit × Interpreter) : Prop where
  ordinary : ∀ failure, outcome.1 = .error failure → failure.Ordinary
  isOpen : outcome.2.world.store.Open FrameId.global

theorem execute_safe (h : interpreter.world.store.Open FrameId.global) (rounds : Nat)
    {program : Program} (hprogram : ∀ statement ∈ program, statement.Operable) :
    Faultless (interpreter.execute rounds program) := by
  have hends := Program.run_safe hprogram rounds interpreter.interactive interpreter.world h
  unfold execute
  generalize program.run _ _ _ = result at hends
  cases hends with
  | ok hopen => exact ⟨fun _ h => by contradiction, hopen⟩
  | error hordinary hopen =>
      refine ⟨?_, hopen⟩
      intro failure hfailure fault hfault
      cases hfailure
      cases hfault
      exact hordinary fault rfl

theorem run_safe (h : interpreter.world.store.Open FrameId.global) (rounds : Nat)
    (source : String) : Faultless (interpreter.run rounds source) := by
  rw [← interpreter.world_parse source] at h
  rcases interpreter.parse_safe source with
    ⟨program, hparse, hprogram⟩ | ⟨failure, hparse, hfailure⟩
  · rw [run_of_parse_ok hparse]
    exact execute_safe h rounds hprogram
  · rw [run_of_parse_error hparse]
    refine ⟨?_, h⟩
    intro other hother
    cases hother
    exact hfailure

theorem new_open (table : Nat) (output : Output) (clock : Clock) :
    (new table output clock).world.store.Open FrameId.global := by
  obtain ⟨name, native, hstore⟩ := new_store table output clock
  rw [hstore]
  exact ⟨_, Store.Path.modify (.outermost rfl rfl) _ _⟩

end Interpreter

namespace Session

/-- The sessions that come up: the interpreters are fresh, and then they are asked in any order
and however earlier requests have ended. -/
inductive Reachable : Session → Prop
  | new {interpreters : List Interpreter} : (∀ interpreter ∈ interpreters,
      ∃ table output clock, interpreter = .new table output clock) → Reachable ⟨interpreters, []⟩
  | step {session later : Session} (rounds number : Nat) (request : Request)
      {answer : ByteArray × Response} : Reachable session →
      session.step rounds number request = some (answer, later) → Reachable later

structure Sound (session : Session) : Prop where
  isOpen : ∀ interpreter ∈ session.interpreters, interpreter.world.store.Open FrameId.global
  operable : ∀ entry ∈ session.programs, ∀ statement ∈ entry.2, statement.Operable

variable {session later : Session} {rounds number : Nat} {request : Request}
  {interpreter after : Interpreter} {response : Response} {added : List (String × Program)}

theorem Sound.program? (h : session.Sound) {name : String} {program : Program}
    (hprogram : session.program? name = some program) :
    ∀ statement ∈ program, statement.Operable := by
  obtain ⟨entry, hfound, rfl⟩ := Option.map_eq_some_iff.mp hprogram
  exact h.operable entry (List.mem_of_find?_eq_some hfound)

theorem Sound.answer (h : session.Sound)
    (hopen : interpreter.world.store.Open FrameId.global)
    (hanswer : session.answer rounds interpreter request = some (response, after, added)) :
    response.Ordinary ∧ after.world.store.Open FrameId.global ∧
      ∀ entry ∈ added, ∀ statement ∈ entry.2, statement.Operable := by
  cases request with
  | run source =>
      have hrun := Interpreter.run_safe hopen rounds source
      cases hanswer
      exact ⟨Response.ofResult_ordinary hrun.ordinary, hrun.isOpen, by simp⟩
  | parse source name =>
      -- Reading leaves the world as it is.
      rw [← interpreter.world_parse source] at hopen
      have hparse := interpreter.parse_safe source
      unfold Session.answer at hanswer
      dsimp only at hanswer
      generalize interpreter.parse source = parsed at hopen hparse hanswer
      obtain ⟨result, read⟩ := parsed
      rcases hparse with ⟨program, rfl, hprogram⟩ | ⟨failure, rfl, hfailure⟩
      · cases hanswer
        exact ⟨fun _ hfailed => by contradiction, hopen, by simpa using hprogram⟩
      · cases hanswer
        refine ⟨?_, hopen, by simp⟩
        intro other hother
        cases hother
        exact hfailure
  | execute name =>
      obtain ⟨program, hprogram, hanswer⟩ := Option.map_eq_some_iff.mp hanswer
      have hexecute := Interpreter.execute_safe hopen rounds (h.program? hprogram)
      cases hanswer
      exact ⟨Response.ofResult_ordinary hexecute.ordinary, hexecute.isOpen, by simp⟩
  | setInteractive value =>
      cases hanswer
      exact ⟨fun _ hfailed => by contradiction, hopen, by simp⟩

theorem Sound.step (h : session.Sound) {output : ByteArray}
    (hstep : session.step rounds number request = some ((output, response), later)) :
    response.Ordinary ∧ later.Sound := by
  simp only [Session.step, Option.bind_eq_bind, Option.bind_eq_some_iff] at hstep
  obtain ⟨before, hbefore, ⟨given, after, added⟩, hanswer, hstep⟩ := hstep
  cases hstep
  obtain ⟨hordinary, hopen, hadded⟩ :=
    h.answer (h.isOpen before (List.mem_of_getElem? hbefore)) hanswer
  refine ⟨hordinary, ?_, ?_⟩
  · intro interpreter hmem
    rcases List.mem_or_eq_of_mem_set hmem with hmem | rfl
    · exact h.isOpen interpreter hmem
    · exact hopen
  · exact List.forall_mem_append.mpr ⟨hadded, h.operable⟩

theorem Reachable.sound (h : session.Reachable) : session.Sound := by
  induction h with
  | new hfresh =>
      refine ⟨?_, by simp⟩
      intro interpreter hmem
      obtain ⟨table, output, clock, hnew⟩ := hfresh interpreter hmem
      rw [hnew]
      exact Interpreter.new_open table output clock
  | step rounds number request _ hstep ih => exact (ih.step hstep).2

/-- No request to an interpreter of a session ends in a fault. In particular, no program that has
been read, by whichever interpreter, leads to an unknown operator, a frame that is not open, a
misplaced release or a native function with the wrong number of arguments. -/
theorem Reachable.step_faultless (h : session.Reachable) {output : ByteArray}
    (hstep : session.step rounds number request = some ((output, response), later)) :
    ∀ fault, response ≠ .failed (.stopped (.fault fault)) :=
  fun fault hfailed => (h.sound.step hstep).1 _ hfailed fault rfl

/-- The session after a request, or as it was if it has no such interpreter or program. -/
def asked (session : Session) (number : Nat) (request : Request) : Session :=
  (session.step 1 number request).elim session Prod.snd

theorem Reachable.asked (h : session.Reachable) (number : Nat) (request : Request) :
    (session.asked number request).Reachable := by
  unfold Session.asked
  cases hstep : session.step 1 number request with
  | none => exact h
  | some answer => exact h.step 1 number request hstep

/-- One interpreter has read a program, and another has failed to execute it. -/
def shared : Session :=
  (asked ⟨[.new 0 {} opened.clock, .new 1 {} opened.clock], []⟩ 0
    (.parse "\x7b nil + nil; \x7d" "sum")).asked 1 (.execute "sum")

theorem Reachable.step_faultless_shared :
    shared.Reachable ∧ ∃ output later, shared.step 1 1 (.execute "sum") = some ((output,
        .failed (.stopped (.error (.mistake 1 .operandsNotNumbersOrStrings)))), later) ∧
      ∀ fault, Response.failed (.stopped (.error (.mistake 1 .operandsNotNumbersOrStrings))) ≠
        .failed (.stopped (.fault fault)) := by
  have hstart : Reachable ⟨[.new 0 {} opened.clock, .new 1 {} opened.clock], []⟩ := by
    refine .new ?_
    simp only [List.forall_mem_cons]
    exact ⟨⟨0, {}, _, rfl⟩, ⟨1, {}, _, rfl⟩, by simp⟩
  have hreachable : shared.Reachable := (hstart.asked 0 _).asked 1 _
  have hresponse : (shared.step 1 1 (.execute "sum")).map (·.1.2) =
      some (.failed (.stopped (.error (.mistake 1 .operandsNotNumbersOrStrings)))) := by cbv
  obtain ⟨⟨⟨output, response⟩, later⟩, hstep, rfl⟩ := Option.map_eq_some_iff.mp hresponse
  exact ⟨hreachable, output, later, hstep, hreachable.step_faultless hstep⟩

end Session

end Treewalk
