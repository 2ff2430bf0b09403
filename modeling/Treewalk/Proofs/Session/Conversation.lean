import Treewalk.Proofs.Evaluation.Appending
import Treewalk.Proofs.Scoping.Static
import Treewalk.Proofs.Session.Lines
import Treewalk.Proofs.Session.Separation

/-!
Conversations. What is said line by line is what one interpreter that does not echo has to say,
were the expression that ends a line to be printed; and it loses no variable to a line that fails.
-/

namespace Treewalk

/-- The program with a print in place of the expression that ends it, if one does. -/
def Program.printingLast : Program → Program
  | [] => []
  | [.expression value] => [.print value]
  | [last] => [last]
  | first :: second :: rest => first :: printingLast (second :: rest)

/-- What an interpreter has to say about one text. -/
structure Reply where
  output : ByteArray
  result : Except Failure Unit

namespace Reply

/-- The message of a failure, ended by a newline. -/
def complaint (reply : Reply) : String :=
  match reply.result with
  | .ok () => ""
  | .error failure => failure.message ++ "\n"

/-- The prompt stands before the output of each reply and at the end. -/
def dialogue (replies : List Reply) : ByteArray :=
  replies.foldr (fun reply rest => CommandLine.prompt.toUTF8 ++ reply.output ++ rest)
    CommandLine.prompt.toUTF8

def complaints (replies : List Reply) : ByteArray :=
  (String.join (replies.map complaint)).toUTF8

theorem dialogue_cons (reply : Reply) (replies : List Reply) :
    dialogue (reply :: replies) =
      CommandLine.prompt.toUTF8 ++ reply.output ++ dialogue replies :=
  rfl

theorem complaints_cons (reply : Reply) (replies : List Reply) :
    complaints (reply :: replies) = reply.complaint.toUTF8 ++ complaints replies := by
  rw [complaints, List.map_cons, String.join_cons]
  exact String.toByteArray_append

end Reply

namespace Interpreter

/-- Reads a program and executes it, with a print in place of the expression that ends it. -/
def runPrinting (interpreter : Interpreter) (source : String) :
    Except Failure Unit × Interpreter :=
  match interpreter.parse source with
  | (.ok program, interpreter) => interpreter.execute roundLimit program.printingLast
  | (.error failure, interpreter) => (.error failure, interpreter)

/-- The bytes that a text adds to the output, and its result. -/
def reply (interpreter : Interpreter) (source : String) : Reply :=
  let later := (interpreter.runPrinting source).2
  ⟨later.written.extract interpreter.written.size later.written.size,
    (interpreter.runPrinting source).1⟩

/-- The interpreter after texts, in order. -/
def after (interpreter : Interpreter) (sources : List String) : Interpreter :=
  sources.foldl (fun interpreter source => (interpreter.runPrinting source).2) interpreter

def replies (interpreter : Interpreter) : List String → List Reply
  | [] => []
  | source :: rest => interpreter.reply source :: replies (interpreter.runPrinting source).2 rest

/-- Whatever text is read next, its uses of a name mean a global variable. -/
def Finds (interpreter : Interpreter) (spelling : String) : Prop :=
  ∀ text, ∀ name ∈ (Lexed.ofText text interpreter.vocabulary {}).tokens,
    name.lexeme.spelling = spelling →
      ∃ value, interpreter.world.store.get FrameId.global name = .ok value

/-- An outcome that is made of the replies to lines, with the failures apart, where no line takes
anything from the lines after it. -/
structure Answers (interpreter : Interpreter) (sources : List String) (outcome : Outcome) :
    Prop where
  outcome_eq : outcome = ⟨0, Reply.dialogue (interpreter.replies sources),
    Reply.complaints (interpreter.replies sources)⟩
  /-- The replies are all that the interpreter writes. -/
  written_eq : (interpreter.after sources).written = (interpreter.replies sources).foldl
    (fun before reply => before ++ reply.output) interpreter.written
  /-- A variable that a line has made is there after all lines, even if its own has failed. -/
  finds : ∀ before source later program executed middle name initial,
    sources = before ++ source :: later →
    ((interpreter.after before).parse source).1 = .ok program →
    executed <+: program.printingLast →
    Stmt.executeRow roundLimit FrameId.global executed (interpreter.after before).world =
      .ok () middle →
    .declare name initial ∈ executed →
    (interpreter.after sources).Finds name.lexeme.spelling

end Interpreter

/-! Echoes are prints. -/

theorem Program.run_echo (rounds : Nat) (program : Program) :
    program.run rounds true = Stmt.executeRow rounds FrameId.global program.printingLast := by
  match program with
  | [] => rfl
  | [last] =>
      rw [← Program.run_eq_executeRow]
      cases last <;> rfl
  | first :: second :: rest =>
      rw [Program.run, Program.run_echo rounds (second :: rest), Program.printingLast,
        Stmt.executeRow]

theorem Program.printingLast_printingLast (program : Program) :
    program.printingLast.printingLast = program.printingLast := by
  match program with
  | [] => rfl
  | [last] => cases last <;> rfl
  | first :: second :: rest =>
      have hrest := Program.printingLast_printingLast (second :: rest)
      have hcons : ∃ head tail, Program.printingLast (second :: rest) = head :: tail := by
        match rest with
        | [] => cases second <;> exact ⟨_, _, rfl⟩
        | _ :: _ =>
            rw [Program.printingLast]
            exact ⟨_, _, rfl⟩
      obtain ⟨head, tail, hcons⟩ := hcons
      rw [Program.printingLast, hcons, Program.printingLast, ← hcons, hrest]

/-- Where a print has taken its place, there is nothing to echo. -/
theorem Program.run_printingLast (rounds : Nat) (echo : Bool) (program : Program) :
    program.printingLast.run rounds echo =
      Stmt.executeRow rounds FrameId.global program.printingLast := by
  cases echo with
  | false => exact program.printingLast.run_eq_executeRow rounds
  | true => rw [Program.run_echo, program.printingLast_printingLast]

theorem Program.declared_printingLast (program : Program) :
    program.printingLast.flatMap Stmt.declared = program.flatMap Stmt.declared := by
  match program with
  | [] => rfl
  | [last] => cases last <;> rfl
  | first :: second :: rest =>
      rw [Program.printingLast, List.flatMap_cons, List.flatMap_cons,
        Program.declared_printingLast (second :: rest)]

namespace Interpreter

variable {interpreter : Interpreter}

theorem parse_interactive (interpreter : Interpreter) (interactive : Bool) (source : String) :
    { interpreter with interactive }.parse source = ((interpreter.parse source).1,
      { (interpreter.parse source).2 with interactive }) := by
  unfold parse
  dsimp only
  split
  · split
    · rfl
    · split <;> rfl
  · rfl

theorem execute_echo (interpreter : Interpreter) (rounds : Nat) (program : Program) :
    { interpreter with interactive := true }.execute rounds program =
      ((interpreter.execute rounds program.printingLast).1,
        { (interpreter.execute rounds program.printingLast).2 with interactive := true }) := by
  rw [execute, execute, program.run_echo, program.run_printingLast]
  generalize Stmt.executeRow _ _ _ _ = result
  cases result <;> rfl

theorem runPrinting_of_parse_ok {source : String} {program : Program}
    (h : (interpreter.parse source).1 = .ok program) : interpreter.runPrinting source =
      (interpreter.parse source).2.execute roundLimit program.printingLast := by
  unfold runPrinting
  generalize interpreter.parse source = parsed at h ⊢
  obtain ⟨result, later⟩ := parsed
  cases h
  rfl

theorem runPrinting_of_parse_error {source : String} {failure : Failure}
    (h : (interpreter.parse source).1 = .error failure) :
    interpreter.runPrinting source = (.error failure, (interpreter.parse source).2) := by
  unfold runPrinting
  generalize interpreter.parse source = parsed at h ⊢
  obtain ⟨result, later⟩ := parsed
  cases h
  rfl

/-! One line: only the vocabulary and the world of an interpreter change, and they only grow. -/

theorem vocabulary_runPrinting (interpreter : Interpreter) (source : String) :
    (interpreter.runPrinting source).2.vocabulary =
      (interpreter.parse source).2.vocabulary := by
  cases hparse : (interpreter.parse source).1 with
  | ok program => rw [runPrinting_of_parse_ok hparse, execute_eq]
  | error failure => rw [runPrinting_of_parse_error hparse]

theorem world_runPrinting_of_parse_ok {source : String} {program : Program}
    (h : (interpreter.parse source).1 = .ok program) :
    (interpreter.runPrinting source).2.world = Run.last
      (Stmt.executeRow roundLimit FrameId.global program.printingLast interpreter.world) := by
  rw [runPrinting_of_parse_ok h, execute_eq, program.run_printingLast, vocabulary_parse]

/-- A line that is rejected leaves the world as no statements at all would. -/
theorem exists_world_runPrinting (interpreter : Interpreter) (source : String) :
    ∃ row, (interpreter.runPrinting source).2.world =
      Run.last (Stmt.executeRow roundLimit FrameId.global row interpreter.world) := by
  cases hparse : (interpreter.parse source).1 with
  | ok program => exact ⟨_, world_runPrinting_of_parse_ok hparse⟩
  | error failure =>
      refine ⟨[], ?_⟩
      rw [runPrinting_of_parse_error hparse, vocabulary_parse]
      rfl

theorem written_runPrinting (interpreter : Interpreter) (source : String) :
    (interpreter.runPrinting source).2.written =
      interpreter.written ++ (interpreter.reply source).output := by
  obtain ⟨row, hworld⟩ := interpreter.exists_world_runPrinting source
  obtain ⟨bytes, hbytes⟩ := Stmt.executeRow_appends roundLimit FrameId.global row interpreter.world
  rw [← hworld] at hbytes
  change (interpreter.runPrinting source).2.written = interpreter.written ++ bytes at hbytes
  rw [reply]
  dsimp only
  rw [hbytes, ByteArray.size_append, ByteArray.extract_append_eq_right rfl rfl]

theorem Reachable.runPrinting (h : interpreter.Reachable) (source : String) :
    (interpreter.runPrinting source).2.Reachable := by
  cases hparse : (interpreter.parse source).1 with
  | ok program =>
      rw [runPrinting_of_parse_ok hparse]
      apply (h.parse source).execute
      intro name hname _
      rw [program.declared_printingLast] at hname
      exact parse_knows h.sound.valid hparse name hname
  | error failure =>
      rw [runPrinting_of_parse_error hparse]
      exact h.parse source

/-- The later interpreter knows all names of the earlier one and has all its variables. -/
structure Precedes (interpreter later : Interpreter) : Prop where
  names : interpreter.vocabulary.names.Extends later.vocabulary.names
  store : ∃ added, Store.Grows FrameId.global added interpreter.world.store later.world.store

theorem Precedes.refl (interpreter : Interpreter) : interpreter.Precedes interpreter :=
  ⟨.refl _, [], .refl _ _⟩

theorem Precedes.trans {middle later : Interpreter} (hfirst : interpreter.Precedes middle)
    (hsecond : middle.Precedes later) : interpreter.Precedes later := by
  obtain ⟨hnames, first, hgrows⟩ := hfirst
  obtain ⟨hlater, second, hgrown⟩ := hsecond
  exact ⟨hnames.trans hlater, first ++ second, hgrows.trans hgrown⟩

theorem Reachable.precedes_runPrinting (h : interpreter.Reachable) (source : String) :
    interpreter.Precedes (interpreter.runPrinting source).2 := by
  refine ⟨?_, ?_⟩
  · rw [vocabulary_runPrinting]
    exact interpreter.parse_extends source
  · obtain ⟨row, hworld⟩ := interpreter.exists_world_runPrinting source
    obtain ⟨added, -, hgrows⟩ := Stmt.executeRow_grows roundLimit FrameId.global row
      interpreter.world h.settled.arena.size_pos
    rw [hworld]
    exact ⟨added, hgrows⟩

/-! All lines. -/

theorem after_append (interpreter : Interpreter) (sources others : List String) :
    interpreter.after (sources ++ others) = (interpreter.after sources).after others :=
  List.foldl_append

theorem Reachable.after (h : interpreter.Reachable) (sources : List String) :
    (interpreter.after sources).Reachable := by
  induction sources generalizing interpreter with
  | nil => exact h
  | cons source rest ih => exact ih (h.runPrinting source)

theorem Reachable.precedes_after (h : interpreter.Reachable) (sources : List String) :
    interpreter.Precedes (interpreter.after sources) := by
  induction sources generalizing interpreter with
  | nil => exact .refl _
  | cons source rest ih => exact (h.precedes_runPrinting source).trans (ih (h.runPrinting source))

theorem written_after (interpreter : Interpreter) (sources : List String) :
    (interpreter.after sources).written = (interpreter.replies sources).foldl
      (fun before reply => before ++ reply.output) interpreter.written := by
  induction sources generalizing interpreter with
  | nil => rfl
  | cons source rest ih =>
      rw [replies, List.foldl_cons, ← written_runPrinting]
      exact ih _

end Interpreter

/-! What a line has defined stays. -/

theorem Stmt.bindsAt_of_executeRow {rounds : Nat} {frame : FrameId} {row : List Stmt}
    {world after : World} (hframe : frame < world.store.frames.size)
    (h : Stmt.executeRow rounds frame row world = .ok () after) {name : Token}
    {initial : Option Expr} (hdeclare : .declare name initial ∈ row) :
    after.store.bindsAt name.lexeme frame = true := by
  have hsize : 0 < world.store.frames.size := Nat.zero_lt_of_lt hframe
  obtain ⟨before, later, rfl⟩ := List.append_of_mem hdeclare
  rw [Stmt.executeRow_append] at h
  obtain ⟨_, start, hbefore, h⟩ := Run.ok_of_bind h
  rw [Stmt.executeRow] at h
  obtain ⟨_, made, hmade, hlater⟩ := Run.ok_of_bind h
  have hstart : start.store.frames.size = world.store.frames.size := by
    have hkeeps := Stmt.executeRow_keeps rounds frame before world hsize
    rwa [hbefore] at hkeeps
  have hdeclared := Stmt.declare_grows (by rw [hstart]; exact hsize) hmade
  obtain ⟨added, -, hgrows⟩ := Stmt.executeRow_grows rounds frame later made
    (by rw [hdeclared.size_eq, hstart]; exact hsize)
  rw [hlater] at hgrows
  exact hgrows.bindsAt (hdeclared.bindsAt_of_mem (by rw [hstart]; exact hframe)
    List.mem_cons_self)

namespace Interpreter

variable {interpreter : Interpreter}

theorem Reachable.finds (h : interpreter.Reachable) {name : Symbol}
    (hknows : interpreter.vocabulary.names.Knows name)
    (hbinds : interpreter.world.store.bindsAt name FrameId.global = true) :
    interpreter.Finds name.spelling := by
  intro text use huse hspelling
  -- The table has made one symbol of the spelling, whether it is read once or twice.
  have htwins := Lexed.ofText_twins text h.sound.valid h.sound.valid {}
  have huseknown := Token.knows_of_twins htwins.tokens use huse
  have hsame : name.same use.lexeme = true :=
    (Names.same_iff_spelling_eq htwins.valid_left.nodup
      (hknows.mono (Lexed.ofText_extends text _ {})) huseknown).mpr hspelling.symm
  have hfound : interpreter.world.store.bindsAt use.lexeme FrameId.global = true := by
    rwa [Store.bindsAt_eq_isSome, ← Store.valueAt_congr hsame, ← Store.bindsAt_eq_isSome]
  obtain ⟨frame, hframe, hparent⟩ := h.settled.arena.global
  rw [Store.exists_get_iff (.outermost hframe hparent), List.find?_singleton, if_pos hfound]
  exact Option.some_ne_none _

/-- A variable that has been made before a line fails, or before it ends, is there after all the
lines that follow. -/
theorem Reachable.finds_after (h : interpreter.Reachable) {before later : List String}
    {source : String} {program executed : Program} {middle : World} {name : Token}
    {initial : Option Expr}
    (hparse : ((interpreter.after before).parse source).1 = .ok program)
    (hexecuted : executed <+: program.printingLast)
    (hrun : Stmt.executeRow roundLimit FrameId.global executed (interpreter.after before).world =
      .ok () middle)
    (hdeclare : .declare name initial ∈ executed) :
    (interpreter.after (before ++ source :: later)).Finds name.lexeme.spelling := by
  have hbefore := h.after before
  have hsize := hbefore.settled.arena.size_pos
  rw [after_append]
  generalize interpreter.after before = spoken at hparse hrun hbefore hsize
  have hline := hbefore.runPrinting source
  have hprecedes := hline.precedes_after later
  obtain ⟨_, hlater⟩ := hprecedes.store
  obtain ⟨rest, hrest⟩ := hexecuted
  have hknows : (spoken.runPrinting source).2.vocabulary.names.Knows name.lexeme := by
    rw [vocabulary_runPrinting]
    apply parse_knows hbefore.sound.valid hparse
    rw [← program.declared_printingLast, ← hrest]
    refine List.mem_flatMap.mpr ⟨_, List.mem_append_left rest hdeclare, ?_⟩
    rw [Stmt.declared, List.mem_singleton]
  -- What the line still does after the variable has been made, even failing, only adds to it.
  have hbinds : (spoken.runPrinting source).2.world.store.bindsAt name.lexeme
      FrameId.global = true := by
    have hmiddle := Stmt.bindsAt_of_executeRow hsize hrun hdeclare
    have hkeeps := Stmt.executeRow_keeps roundLimit FrameId.global executed spoken.world hsize
    rw [hrun] at hkeeps
    obtain ⟨_, -, hgrows⟩ := Stmt.executeRow_grows roundLimit FrameId.global rest middle
      (hkeeps ▸ hsize)
    rw [world_runPrinting_of_parse_ok hparse, ← hrest, Stmt.executeRow_append,
      Run.bind_eq_of_ok hrun]
    exact hgrows.bindsAt hmiddle
  exact (hline.after later).finds (hknows.mono hprecedes.names) (hlater.bindsAt hbinds)

end Interpreter

namespace CommandLine

/-! The outcome -/

theorem runSource_interactive (interpreter : Interpreter) (source : String) :
    runSource false { interpreter with interactive := true } source =
      (((interpreter.reply source).complaint, (interpreter.reply source).result),
        { (interpreter.runPrinting source).2 with interactive := true }) := by
  unfold runSource
  rw [Interpreter.parse_interactive]
  cases hparse : (interpreter.parse source).1 with
  | ok program =>
      simp only [Interpreter.reply, Interpreter.runPrinting_of_parse_ok hparse,
        Interpreter.execute_echo, Reply.complaint]
      cases (Interpreter.execute _ (interpreter.parse source).2 _).1 <;> rfl
  | error failure =>
      simp only [Interpreter.reply, Interpreter.runPrinting_of_parse_error hparse,
        Reply.complaint]
      rw [String.empty_append]

theorem converse_toUTF8 (interpreter : Interpreter) (sources : List String)
    (stdout stderr : ByteArray) :
    converse false { interpreter with interactive := true } stdout stderr
        (sources.map String.toUTF8) =
      ⟨0, stdout ++ Reply.dialogue (interpreter.replies sources),
        stderr ++ Reply.complaints (interpreter.replies sources)⟩ := by
  induction sources generalizing interpreter stdout stderr with
  | nil => simp [converse, Interpreter.replies, Reply.dialogue, Reply.complaints]
  | cons source rest ih =>
      rw [List.map_cons, converse, fromUTF8?_toUTF8]
      simp only [runSource_interactive]
      rw [ih, Interpreter.replies, Reply.dialogue_cons, Reply.complaints_cons]
      simp only [ByteArray.append_assoc]
      rfl

/-- A session says what a single interpreter that does not echo has to say about the lines, were
the expression that ends a line to be printed. -/
theorem conversation_answers {sources : List String} (h : Lines sources) :
    (∀ clock : Clock, (Interpreter.new 0 {} clock).Answers sources
      (converse false { Interpreter.new 0 {} clock with interactive := true } .empty .empty
        (lines (String.join sources).toUTF8))) ∧
    ∀ start place arguments, Command.ofArguments arguments = .converse false →
      (interpreter start false).Answers sources
        (run start place (String.join sources).toUTF8 arguments) := by
  have hanswers (clock : Clock) : (Interpreter.new 0 {} clock).Answers sources
      (converse false { Interpreter.new 0 {} clock with interactive := true } .empty .empty
        (lines (String.join sources).toUTF8)) :=
    { outcome_eq := by
        rw [lines_join h, converse_toUTF8, ByteArray.empty_append, ByteArray.empty_append]
      written_eq := Interpreter.written_after _ sources
      finds := by
        rintro before source later program executed middle name initial rfl hparse hexecuted hrun
          hdeclare
        exact (Interpreter.Reachable.new 0 {} clock).finds_after hparse hexecuted hrun hdeclare }
  refine ⟨hanswers, ?_⟩
  intro start place arguments harguments
  rw [run, harguments]
  exact hanswers (clockAt start)

/-- The variable that is made before `b` is missed is still there after the lines. -/
theorem conversation_answers_strayName :
    Lines ["var a; b;\n", "a;"] ∧ Command.ofArguments [] = .converse false ∧
      (interpreter .zero false).Answers ["var a; b;\n", "a;"]
        (run .zero ⟨.folder [], []⟩ "var a; b;\na;".toUTF8 []) ∧
      ((interpreter .zero false).after ["var a; b;\n", "a;"]).Finds "a" := by
  have hlines : Lines ["var a; b;\n", "a;"] :=
    @Lines.cons "var a; b;" _ (by decide) (.last (by decide) (by decide))
  have hanswers := (conversation_answers hlines).2 .zero ⟨.folder [], []⟩ [] rfl
  have hparse : ((interpreter .zero false).parse "var a; b;\n").1 =
      .ok [.declare ⟨.identifier, ⟨0, 17, "a"⟩, none, 1⟩ none,
        .expression (.var ⟨.identifier, ⟨0, 19, "b"⟩, none, 1⟩)] := by cbv
  have hrun : ∃ middle, Stmt.executeRow Interpreter.roundLimit FrameId.global
      [.declare ⟨.identifier, ⟨0, 17, "a"⟩, none, 1⟩ none] (interpreter .zero false).world =
        .ok () middle := ⟨_, rfl⟩
  obtain ⟨middle, hrun⟩ := hrun
  have hfinds := hanswers.finds [] _ _ _ _ _ _ _ rfl hparse (List.prefix_append [_] [_]) hrun
    List.mem_cons_self
  exact ⟨hlines, rfl, hanswers, hfinds⟩

end CommandLine

end Treewalk
