import Treewalk.Proofs.Session.Pairing
import Treewalk.Proofs.Session.Rejection

/-!
Reading leaves no trace. Without a text that is refused, or that is read and never executed, a
session goes on as it does with it: all that the interpreter keeps of the text are new symbols, and
on these no answer depends.
-/

namespace Treewalk

/-- What is asked in a session, and which interpreter is asked. -/
structure Ask where
  rounds : Nat
  number : Nat
  request : Request

/-- Answers that agree but for the places of symbols. -/
inductive Response.Like : Response → Response → Prop
  | done : Like .done .done
  | read {program program' : Program} : Stmt.RelatedRow Token.Like program program' →
      Like (.read program) (.read program')
  | failed (failure : Failure) : Like (.failed failure) (.failed failure)

theorem Response.Like.refl (response : Response) : response.Like response := by
  cases response with
  | done => exact .done
  | read program => exact .read (.refl (fun _ => ⟨rfl, rfl, rfl, rfl, rfl⟩) program)
  | failed failure => exact .failed failure

namespace Session

/-- The answer to what is asked, with the session afterwards. If there is no such interpreter or
program, there is no answer and the session stays as it is. -/
def reply (session : Session) (ask : Ask) : Option (ByteArray × Response) × Session :=
  match session.step ask.rounds ask.number ask.request with
  | some (answer, later) => (some answer, later)
  | none => (none, session)

def answers (session : Session) : List Ask → List (Option (ByteArray × Response))
  | [] => []
  | ask :: rest => (session.reply ask).1 :: (session.reply ask).2.answers rest

def after (session : Session) : List Ask → Session
  | [] => session
  | ask :: rest => (session.reply ask).2.after rest

/-- Answers with the same bytes that agree but for the places of symbols. -/
structure AnswerLike (left right : ByteArray × Response) : Prop where
  output_eq : left.1 = right.1
  response : left.2.Like right.2

/-- A program is read under the name. -/
def Renews (session : Session) (ask : Ask) (name : String) : Prop :=
  ∃ source output program, ask.request = .parse source name ∧
    (session.reply ask).1 = some (output, .read program)

/-- Programs are executed under the given names only, and under names under which a program has
been read meanwhile. -/
def ExecutesOnly (allowed : String → Prop) (session : Session) : List Ask → Prop
  | [] => True
  | ask :: rest => (∀ name, ask.request = .execute name → allowed name) ∧
      ExecutesOnly (fun name => allowed name ∨ session.Renews ask name)
        (session.reply ask).2 rest

/-- A session before anything has been asked. No two interpreters share a table of names. -/
structure Fresh (session : Session) : Prop where
  new : ∀ interpreter ∈ session.interpreters, ∃ table output clock,
    interpreter = .new table output clock
  tables : (session.interpreters.map Interpreter.table).Nodup
  programs : session.programs = []

/-- A text with errors is to be run, or a text is to be read whose program, if it yields one, is
not executed by what is asked later. -/
inductive Traceless (interpreter : Interpreter) (later : Session) (rest : List Ask) :
    String → Request → Prop
  | run {source : String} : (interpreter.lexed source).Flawed →
      Traceless interpreter later rest source (.run source)
  | parse {source name : String} : (∀ program, (interpreter.parse source).1 = .ok program →
        later.ExecutesOnly (· ≠ name) rest) →
      Traceless interpreter later rest source (.parse source name)

/-! Steps. -/

variable {session : Session} {ask : Ask} {before after : Interpreter} {response : Response}
  {added : List (String × Program)}

theorem reply_of_answer (hbefore : session.interpreters[ask.number]? = some before)
    (hanswer : session.answer ask.rounds before ask.request = some (response, after, added)) :
    session.reply ask =
      (some (after.written.extract before.written.size after.written.size, response),
        ⟨session.interpreters.set ask.number after, added ++ session.programs⟩) := by
  simp [reply, step, hbefore, hanswer]

theorem reply_of_none (hbefore : session.interpreters[ask.number]? = none) :
    session.reply ask = (none, session) := by
  simp [reply, step, hbefore]

theorem reply_of_unanswered (hbefore : session.interpreters[ask.number]? = some before)
    (hanswer : session.answer ask.rounds before ask.request = none) :
    session.reply ask = (none, session) := by
  simp [reply, step, hbefore, hanswer]

theorem program?_cons (interpreters : List Interpreter) (name other : String) (program : Program)
    (programs : List (String × Program)) :
    (⟨interpreters, (name, program) :: programs⟩ : Session).program? other =
      if name = other then some program
      else (⟨interpreters, programs⟩ : Session).program? other := by
  rw [program?, program?, List.find?_cons]
  by_cases hname : name = other
  · simp [hname]
  · rw [if_neg hname, beq_false_of_ne hname]

theorem answers_append (session : Session) (first second : List Ask) :
    session.answers (first ++ second) =
      session.answers first ++ (session.after first).answers second := by
  induction first generalizing session with
  | nil => rfl
  | cons ask first ih => exact congrArg _ (ih _)

theorem after_append (session : Session) (first second : List Ask) :
    session.after (first ++ second) = (session.after first).after second := by
  induction first generalizing session with
  | nil => rfl
  | cons ask first ih => exact ih _

theorem length_answers (session : Session) (asks : List Ask) :
    (session.answers asks).length = asks.length := by
  induction asks generalizing session with
  | nil => rfl
  | cons ask asks ih => exact congrArg Nat.succ (ih _)

theorem set_eq_self {interpreters : List Interpreter} {number : Nat}
    (hbefore : interpreters[number]? = some before) :
    interpreters.set number before = interpreters := by
  obtain ⟨_, rfl⟩ := List.getElem?_eq_some_iff.mp hbefore
  exact List.set_getElem_self _

theorem map_set_eq_map {α : Type} {interpreters : List Interpreter} {number : Nat}
    (hbefore : interpreters[number]? = some before) {view : Interpreter → α}
    (hview : view after = view before) :
    (interpreters.set number after).map view = interpreters.map view := by
  rw [List.map_set, hview, ← List.map_set, set_eq_self hbefore]

/-! Two sessions. -/

/-- One session twice, where the programs under the known names are related. -/
structure Paired (pair : Names.Pair) (known : String → Prop) (left right : Session) : Prop where
  interpreters : ∀ number : Nat, Option.Rel (Interpreter.Paired pair) left.interpreters[number]?
    right.interpreters[number]?
  tables : (left.interpreters.map Interpreter.table).Nodup
  programs : ∀ name, known name →
    Option.Rel (Program.Paired pair) (left.program? name) (right.program? name)

variable {pair later : Names.Pair} {known : String → Prop} {left right : Session}

theorem Paired.weaken (h : left.Paired pair known right) {fewer : String → Prop}
    (hfewer : ∀ name, fewer name → known name) : left.Paired pair fewer right :=
  { h with programs := fun name hname => h.programs name (hfewer name hname) }

/-- An interpreter is asked and goes on in both sessions. -/
theorem Paired.set (h : left.Paired pair known right) {number : Nat}
    {before before' after after' : Interpreter}
    (hbefore : left.interpreters[number]? = some before)
    (hbefore' : right.interpreters[number]? = some before') (hlater : pair.Extends later)
    (hforeign : before.table ≠ pair.left.table → later = pair)
    (hafter : after.Paired later after') (htable : after.table = before.table) :
    Paired later known ⟨left.interpreters.set number after, left.programs⟩
      ⟨right.interpreters.set number after', right.programs⟩ where
  interpreters other := by
    obtain ⟨hnumber, -⟩ := List.getElem?_eq_some_iff.mp hbefore
    obtain ⟨hnumber', -⟩ := List.getElem?_eq_some_iff.mp hbefore'
    by_cases hother : number = other
    · subst hother
      rw [List.getElem?_set_self hnumber, List.getElem?_set_self hnumber']
      exact .some hafter
    · rw [List.getElem?_set_ne hother, List.getElem?_set_ne hother]
      have hpaired := h.interpreters other
      generalize hfound : left.interpreters[other]? = found at hpaired
      generalize right.interpreters[other]? = found' at hpaired
      cases hpaired with
      | none => exact .none
      | @some interpreter _ hpaired =>
          refine .some ?_
          by_cases hown : before.table = pair.left.table
          · -- The other interpreter has a table of its own.
            refine hpaired.grow hlater fun hsame => hother ?_
            have htables : (left.interpreters.map Interpreter.table)[number]? =
                (left.interpreters.map Interpreter.table)[other]? := by
              rw [List.getElem?_map, List.getElem?_map, hbefore, hfound, Option.map_some,
                Option.map_some, hown, hsame]
            exact (List.getElem?_inj (by simpa using hnumber) h.tables).mp htables
          · exact (hforeign hown).symm ▸ hpaired
  tables := by
    rw [map_set_eq_map hbefore htable]
    exact h.tables
  programs name hname := by
    have hprogram : Option.Rel (Program.Paired pair) _ _ := h.programs name hname
    change Option.Rel _ (left.program? name) (right.program? name)
    generalize left.program? name = found at hprogram ⊢
    generalize right.program? name = found' at hprogram ⊢
    cases hprogram with
    | none => exact .none
    | some hprogram => exact .some (hprogram.grow hlater)

/-- Both sessions read a program under a name. -/
theorem Paired.add (h : left.Paired pair known right) (name : String)
    {program program' : Program} (hprogram : program.Paired pair program') :
    Paired pair (fun other => known other ∨ other = name)
      { left with programs := (name, program) :: left.programs }
      { right with programs := (name, program') :: right.programs } where
  interpreters := h.interpreters
  tables := h.tables
  programs other hother := by
    rw [program?_cons, program?_cons]
    by_cases hname : name = other
    · rw [if_pos hname, if_pos hname]
      exact .some hprogram
    · rw [if_neg hname, if_neg hname]
      exact h.programs other (hother.resolve_right (Ne.symm hname))

/-- One session reads a program under a name. -/
theorem Paired.hide (h : left.Paired pair known right) (name : String) (program : Program) :
    Paired pair (fun other => known other ∧ other ≠ name)
      { left with programs := (name, program) :: left.programs } right where
  interpreters := h.interpreters
  tables := h.tables
  programs other hother := by
    rw [program?_cons, if_neg hother.2.symm]
    exact h.programs other hother.1

theorem Renews.eq {session : Session} {ask : Ask} {source name other : String}
    (h : session.Renews ask other) (hask : ask.request = .parse source name) : other = name := by
  obtain ⟨_, _, _, hrequest, -⟩ := h
  rw [hask] at hrequest
  cases hrequest
  rfl

theorem AnswerLike.of_paired {before before' after after' : Interpreter}
    (hbefore : before.Paired pair before') (hafter : after.Paired later after')
    {response response' : Response} (hresponse : response.Like response') :
    AnswerLike (after.written.extract before.written.size after.written.size, response)
      (after'.written.extract before'.written.size after'.written.size, response') where
  output_eq := by
    simp only [Interpreter.written, hbefore.world.output_eq, hafter.world.output_eq]
  response := hresponse

theorem answer_parse (session : Session) (rounds : Nat) (interpreter : Interpreter)
    (source name : String) : session.answer rounds interpreter (.parse source name) =
      match (interpreter.parse source).1 with
      | .ok program => some (.read program, (interpreter.parse source).2, [(name, program)])
      | .error failure => some (.failed failure, (interpreter.parse source).2, []) := by
  unfold answer
  dsimp only
  generalize interpreter.parse source = parsed
  obtain ⟨result, after⟩ := parsed
  cases result <;> rfl

/-- An interpreter with the table answers the request in both sessions. -/
inductive AnsweredAlike (later : Names.Pair) (table : Nat) (request : Request) :
    Option (Response × Interpreter × List (String × Program)) →
    Option (Response × Interpreter × List (String × Program)) → Prop
  | unanswered : AnsweredAlike later table request none none
  | read {source name : String} {program program' : Program} {after after' : Interpreter} :
      request = .parse source name → program.Paired later program' → after.Paired later after' →
      after.table = table → AnsweredAlike later table request
        (some (.read program, after, [(name, program)]))
        (some (.read program', after', [(name, program')]))
  | other {response : Response} {after after' : Interpreter} :
      (∀ program, response ≠ .read program) → after.Paired later after' → after.table = table →
      AnsweredAlike later table request (some (response, after, [])) (some (response, after', []))

theorem ofResult_ne_read (result : Except Failure Unit) (program : Program) :
    Response.ofResult result ≠ .read program := by
  cases result <;> exact Response.noConfusion

theorem Paired.answer (h : left.Paired pair known right) {before before' : Interpreter}
    (hpaired : before.Paired pair before') (rounds : Nat) (request : Request)
    (hknown : ∀ name, request = .execute name → known name) :
    ∃ later : Names.Pair, pair.Extends later ∧ (before.table ≠ pair.left.table → later = pair) ∧
      AnsweredAlike later before.table request (left.answer rounds before request)
        (right.answer rounds before' request) := by
  cases request with
  | run source =>
      obtain ⟨later, hlater, hforeign, hresult, hafter⟩ := hpaired.run rounds source
      refine ⟨later, hlater, hforeign, ?_⟩
      unfold Session.answer
      dsimp only
      rw [hresult]
      exact .other (ofResult_ne_read _) hafter (Interpreter.table_run _ _ _)
  | parse source name =>
      obtain ⟨later, hlater, hforeign, hparsed, hreads⟩ := hpaired.parse source
      have htable := before.table_parse source
      refine ⟨later, hlater, hforeign, ?_⟩
      rw [answer_parse, answer_parse]
      generalize (before.parse source).1 = result at hreads
      generalize (before'.parse source).1 = result' at hreads
      cases hreads with
      | read hprogram => exact .read rfl hprogram hparsed htable
      | refused failure => exact .other (fun _ => Response.noConfusion) hparsed htable
  | execute name =>
      refine ⟨pair, .refl pair, fun _ => rfl, ?_⟩
      have hprogram := h.programs name (hknown name rfl)
      unfold Session.answer
      dsimp only
      generalize left.program? name = found at hprogram ⊢
      generalize right.program? name = found' at hprogram ⊢
      cases hprogram with
      | none => exact .unanswered
      | some hprogram =>
          obtain ⟨hresult, hafter⟩ := hpaired.execute rounds hprogram
          rw [Option.map_some, Option.map_some, hresult]
          exact .other (ofResult_ne_read _) hafter (Interpreter.table_execute _ _ _)
  | setInteractive value =>
      refine ⟨pair, .refl pair, fun _ => rfl, ?_⟩
      exact .other (fun _ => Response.noConfusion)
        { hpaired with interactive_eq := rfl } rfl

/-- What is asked is answered alike in both sessions, and afterwards they are still paired. -/
structure RepliesAlike (later : Names.Pair) (known : String → Prop) (ask : Ask)
    (left right : Session) : Prop where
  answers : Option.Rel AnswerLike (left.reply ask).1 (right.reply ask).1
  paired : (left.reply ask).2.Paired later (fun name => known name ∨ left.Renews ask name)
    (right.reply ask).2

theorem Paired.unanswered (h : left.Paired pair known right)
    (hleft : left.reply ask = (none, left)) (hright : right.reply ask = (none, right)) :
    RepliesAlike pair known ask left right where
  answers := by
    rw [hleft, hright]
    exact .none
  paired := by
    have hnone (name : String) : ¬ left.Renews ask name := by
      rintro ⟨_, _, _, -, hanswer⟩
      rw [hleft] at hanswer
      contradiction
    simp only [hleft, hright, hnone, or_false]
    exact h

/-- Only the execution of a program that one of the sessions does not have can tell them apart. -/
theorem Paired.reply (h : left.Paired pair known right) (ask : Ask)
    (hknown : ∀ name, ask.request = .execute name → known name) :
    ∃ later : Names.Pair, pair.Extends later ∧ RepliesAlike later known ask left right := by
  have hinterpreter := h.interpreters ask.number
  generalize hbefore : left.interpreters[ask.number]? = found at hinterpreter
  generalize hbefore' : right.interpreters[ask.number]? = found' at hinterpreter
  cases hinterpreter with
  | none =>
      exact ⟨pair, .refl pair, h.unanswered (reply_of_none hbefore) (reply_of_none hbefore')⟩
  | @some before before' hpaired =>
      obtain ⟨later, hlater, hforeign, hanswers⟩ :=
        h.answer hpaired ask.rounds ask.request hknown
      generalize hleft : left.answer ask.rounds before ask.request = answer at hanswers
      generalize hright : right.answer ask.rounds before' ask.request = answer' at hanswers
      cases hanswers with
      | unanswered =>
          exact ⟨pair, .refl pair, h.unanswered (reply_of_unanswered hbefore hleft)
            (reply_of_unanswered hbefore' hright)⟩
      | @read source name program program' after after' hrequest hprogram hafter htable =>
          have hset := (h.set hbefore hbefore' hlater hforeign hafter htable).add name hprogram
          refine ⟨later, hlater, ?_, ?_⟩
          · rw [reply_of_answer hbefore hleft, reply_of_answer hbefore' hright]
            exact .some (.of_paired hpaired hafter (.read (hprogram.imp fun _ _ h => h.like)))
          · rw [reply_of_answer hbefore hleft, reply_of_answer hbefore' hright]
            exact hset.weaken fun other hother =>
              hother.imp_right fun hrenews => hrenews.eq hrequest
      | @other response after after' hresponse hafter htable =>
          have hset := h.set hbefore hbefore' hlater hforeign hafter htable
          have hnone (name : String) : ¬ left.Renews ask name := by
            rintro ⟨_, _, program, -, hread⟩
            rw [reply_of_answer hbefore hleft] at hread
            exact hresponse program (congrArg Prod.snd (Option.some.inj hread))
          refine ⟨later, hlater, ?_, ?_⟩
          · rw [reply_of_answer hbefore hleft, reply_of_answer hbefore' hright]
            exact .some (.of_paired hpaired hafter (.refl response))
          · rw [reply_of_answer hbefore hleft, reply_of_answer hbefore' hright]
            exact hset.weaken fun name hname => hname.resolve_right (hnone name)

theorem Paired.answers (h : left.Paired pair known right) {asks : List Ask}
    (hasks : left.ExecutesOnly known asks) :
    List.Forall₂ (Option.Rel AnswerLike) (left.answers asks) (right.answers asks) ∧
      ∃ later : Names.Pair, pair.Extends later ∧
        (left.after asks).Paired later known (right.after asks) := by
  induction asks generalizing pair known left right with
  | nil => exact ⟨.nil, pair, .refl pair, h⟩
  | cons ask rest ih =>
      obtain ⟨hknown, hrest⟩ := hasks
      obtain ⟨between, hbetween, hreplies⟩ := h.reply ask hknown
      obtain ⟨hanswers, later, hlater, hlast⟩ := ih hreplies.paired hrest
      exact ⟨.cons hreplies.answers hanswers, later, hbetween.trans hlater,
        hlast.weaken fun _ hname => .inl hname⟩

theorem executesOnly_of_forall {allowed : String → Prop} (hall : ∀ name, allowed name)
    (session : Session) (asks : List Ask) : session.ExecutesOnly allowed asks := by
  induction asks generalizing allowed session with
  | nil => trivial
  | cons ask rest ih => exact ⟨fun name _ => hall name, ih (fun name => .inl (hall name)) _⟩

theorem Paired.leavesLike (h : left.Paired pair known right) (number : Nat) :
    Option.Rel Interpreter.LeavesLike right.interpreters[number]? left.interpreters[number]? := by
  have hinterpreter := h.interpreters number
  generalize left.interpreters[number]? = found at hinterpreter ⊢
  generalize right.interpreters[number]? = found' at hinterpreter ⊢
  cases hinterpreter with
  | none => exact .none
  | some hpaired => exact .some (.of_matched _ _ _ hpaired.world)

/-! Sessions from their beginning. -/

/-- The tables may grow apart from here on. -/
theorem Fresh.paired (h : session.Fresh) (table : Nat) :
    ∃ pair : Names.Pair, pair.left.table = table ∧ session.Paired pair (fun _ => True) session := by
  -- All fresh interpreters of one table have the same names.
  obtain ⟨names, hnames⟩ : ∃ names, ∀ output clock,
      (Interpreter.new table output clock).vocabulary.names = names :=
    ⟨_, fun output clock => by rw [Interpreter.vocabulary_new]⟩
  have hnodup : names.spellings.Nodup :=
    hnames {} ⟨fun _ => .zero, 0⟩ ▸ (Interpreter.new_sound table _ _).valid.nodup
  have htable : names.table = table :=
    hnames {} ⟨fun _ => .zero, 0⟩ ▸ Interpreter.table_new table _ _
  let pair : Names.Pair := ⟨names, names, hnodup, hnodup, rfl⟩
  have hinterpreter : ∀ interpreter ∈ session.interpreters,
      interpreter.Paired pair interpreter := by
    intro interpreter hmem
    obtain ⟨other, output, clock, hnew⟩ := h.new interpreter hmem
    have hsound : interpreter.Sound := hnew ▸ Interpreter.new_sound other output clock
    have hother : interpreter.table = other := hnew ▸ Interpreter.table_new other output clock
    by_cases hown : other = table
    · have hsame : interpreter.vocabulary.names = names := by
        rw [hnew, hown, hnames]
      have hextends : interpreter.vocabulary.names.Extends names := hsame ▸ .refl _
      exact ⟨hsound.valid, hsound.valid, .inl ⟨hsame, hsame⟩, rfl,
        hsound.matched _ _ _ hextends hextends⟩
    · refine ⟨hsound.valid, hsound.valid, .inr ⟨rfl, ?_⟩, rfl,
        hsound.matched_of_admits _ _ _ ?_ (.refl names) (.refl names)⟩
      · rw [hother, htable]
        exact hown
      · intro frame hframe entry hentry hsame
        rw [hnew] at hframe
        rw [Interpreter.table_eq_of_new hframe hentry, htable] at hsame
        exact absurd hsame hown
  refine ⟨pair, htable, ?_, h.tables, ?_⟩
  · intro number
    cases hfound : session.interpreters[number]? with
    | none => exact .none
    | some interpreter => exact .some (hinterpreter _ (List.mem_of_getElem? hfound))
  · intro name _
    rw [program?, h.programs]
    exact .none

/-- One session is a text ahead of the other. -/
theorem Paired.ahead (h : session.Paired pair known session) {number : Nat}
    {interpreter : Interpreter} (hinterpreter : session.interpreters[number]? = some interpreter)
    (htable : interpreter.table = pair.left.table) (source : String) :
    ∃ later : Names.Pair, Paired later known
      ⟨session.interpreters.set number (interpreter.parse source).2, session.programs⟩ session := by
  have hpaired := h.interpreters number
  rw [hinterpreter] at hpaired
  cases hpaired with
  | some hpaired =>
      have hvalid := Interpreter.parse_valid hpaired.valid_left source
      have hextends := interpreter.parse_extends source
      rcases hpaired.vocabulary with ⟨hleft, hright⟩ | ⟨-, hforeign⟩
      · let later : Names.Pair :=
          { left := (interpreter.parse source).2.vocabulary.names
            right := pair.right
            nodup_left := hvalid.nodup
            nodup_right := pair.nodup_right
            table_eq := by rw [hextends.table_eq, hleft, pair.table_eq] }
        have hlater : pair.Extends later := ⟨hleft ▸ hextends, .refl _⟩
        have hafter : (interpreter.parse source).2.Paired later interpreter := by
          refine ⟨hvalid, hpaired.valid_right, .inl ⟨rfl, hright⟩, ?_, ?_⟩
          · rw [Interpreter.vocabulary_parse]
          · rw [Interpreter.world_parse]
            exact hlater.world hpaired.world
        have hset := h.set hinterpreter hinterpreter hlater
          (fun hforeign => absurd htable hforeign) hafter (interpreter.table_parse source)
        rw [set_eq_self hinterpreter] at hset
        exact ⟨later, hset⟩
      · exact absurd htable hforeign

/-- The text is read and nothing else happens, except that a program may be added that is not
executed. -/
theorem Traceless.answer {interpreter : Interpreter} {last : Session} {rest : List Ask}
    {source : String} {request : Request} (h : Traceless interpreter last rest source request)
    (session : Session) (rounds : Nat) :
    ∃ response added, session.answer rounds interpreter request =
        some (response, (interpreter.parse source).2, added) ∧
      ((interpreter.lexed source).Flawed → ∃ diagnostics,
        response = .failed (.rejected diagnostics) ∧
          (interpreter.lexed source).Refused diagnostics) ∧
      (added = [] ∨ ∃ name program, added = [(name, program)] ∧
        last.ExecutesOnly (· ≠ name) rest) := by
  cases h with
  | run hflawed =>
      obtain ⟨diagnostics, hparse, hrefused⟩ := Interpreter.parse_of_flawed hflawed
      have hrun := Interpreter.run_of_parse_error hparse rounds
      refine ⟨.failed (.rejected diagnostics), [], ?_, fun _ => ⟨diagnostics, rfl, hrefused⟩,
        .inl rfl⟩
      unfold Session.answer
      dsimp only
      rw [hrun]
      rfl
  | @parse name hname =>
      rw [answer_parse]
      cases hparse : (interpreter.parse source).1 with
      | ok program =>
          refine ⟨_, _, rfl, fun hflawed => ?_, .inr ⟨name, program, rfl, hname program hparse⟩⟩
          obtain ⟨diagnostics, hfailed, -⟩ := Interpreter.parse_of_flawed hflawed
          rw [hparse] at hfailed
          contradiction
      | error failure =>
          refine ⟨_, _, rfl, fun hflawed => ?_, .inl rfl⟩
          obtain ⟨diagnostics, hfailed, hrefused⟩ := Interpreter.parse_of_flawed hflawed
          rw [hparse] at hfailed
          cases hfailed
          exact ⟨diagnostics, rfl, hrefused⟩

theorem Traceless.reply {interpreter : Interpreter}
    (hinterpreter : session.interpreters[ask.number]? = some interpreter) {last : Session}
    {rest : List Ask} {source : String} (h : Traceless interpreter last rest source ask.request) :
    ∃ response added, session.reply ask = (some (.empty, response),
        ⟨session.interpreters.set ask.number (interpreter.parse source).2,
          added ++ session.programs⟩) ∧
      ((interpreter.lexed source).Flawed → ∃ diagnostics,
        response = .failed (.rejected diagnostics) ∧
          (interpreter.lexed source).Refused diagnostics) ∧
      (added = [] ∨ ∃ name program, added = [(name, program)] ∧
        last.ExecutesOnly (· ≠ name) rest) := by
  obtain ⟨response, added, hanswer, hrefused, hadded⟩ := h.answer session ask.rounds
  have hwritten : (interpreter.parse source).2.written = interpreter.written := by
    rw [Interpreter.written, Interpreter.world_parse, Interpreter.written]
  refine ⟨response, added, ?_, hrefused, hadded⟩
  rw [reply_of_answer hinterpreter hanswer, hwritten, ByteArray.extract_same]

/-- Afterwards, the session goes on as if the text had not been read. -/
theorem Paired.dropped (h : session.Paired pair (fun _ => True) session)
    {interpreter : Interpreter}
    (hinterpreter : session.interpreters[ask.number]? = some interpreter)
    (htable : interpreter.table = pair.left.table) {rest : List Ask} {source : String}
    (htraceless : Traceless interpreter (session.reply ask).2 rest source ask.request) :
    ∃ later known, (session.reply ask).2.Paired later known session ∧
      (session.reply ask).2.ExecutesOnly known rest := by
  obtain ⟨response, added, hreply, -, hadded⟩ := htraceless.reply hinterpreter
  obtain ⟨later, hahead⟩ := h.ahead hinterpreter htable source
  rw [hreply] at hadded ⊢
  rcases hadded with rfl | ⟨name, program, rfl, hunused⟩
  · exact ⟨later, fun _ => True, hahead, executesOnly_of_forall (fun _ => trivial) _ rest⟩
  · have hhidden := hahead.hide name program
    exact ⟨later, (· ≠ name), hhidden.weaken fun _ hother => ⟨trivial, hother⟩, hunused⟩

theorem AnswerLike.refl (answer : Option (ByteArray × Response)) :
    Option.Rel AnswerLike answer answer := by
  cases answer with
  | none => exact .none
  | some answer => exact .some ⟨rfl, .refl answer.2⟩

/-- A text that is refused, or that is read and not executed, leaves no trace in a session. When it
is read, nothing is written and no variable changes, and if it has errors, it is refused with the
complaints of one stage. Without it, everything else that is asked is answered alike, and the same
variables are left, by their spellings. -/
theorem Fresh.traceless {start : Session} (hfresh : start.Fresh) (before rest : List Ask)
    (ask : Ask) {interpreter : Interpreter} {source : String}
    (hinterpreter : (start.after before).interpreters[ask.number]? = some interpreter)
    (h : Traceless interpreter ((start.after before).reply ask).2 rest source ask.request) :
    (∃ response, ((start.after before).reply ask).1 = some (.empty, response) ∧
      ((interpreter.lexed source).Flawed → ∃ diagnostics,
        response = .failed (.rejected diagnostics) ∧
          (interpreter.lexed source).Refused diagnostics)) ∧
      ((start.after before).reply ask).2.interpreters.map Interpreter.world =
        (start.after before).interpreters.map Interpreter.world ∧
      List.Forall₂ (Option.Rel AnswerLike)
        ((start.answers (before ++ ask :: rest)).eraseIdx before.length)
        (start.answers (before ++ rest)) ∧
      ∀ number : Nat, Option.Rel Interpreter.LeavesLike
        (start.after (before ++ rest)).interpreters[number]?
        (start.after (before ++ ask :: rest)).interpreters[number]? := by
  -- The tables of the asked interpreter are told apart from the beginning.
  obtain ⟨pair, htable, hstart⟩ := hfresh.paired interpreter.table
  obtain ⟨-, between, hbetween, hbefore⟩ :=
    hstart.answers (executesOnly_of_forall (fun _ => trivial) start before)
  have hown : interpreter.table = between.left.table :=
    htable.symm.trans hbetween.left.table_eq.symm
  obtain ⟨response, added, hreply, hrefused, -⟩ := h.reply hinterpreter
  obtain ⟨later, known, hpaired, hknown⟩ := hbefore.dropped hinterpreter hown h
  obtain ⟨hanswers, _, -, hlast⟩ := hpaired.answers hknown
  refine ⟨⟨response, by rw [hreply], hrefused⟩, ?_, ?_, fun number => ?_⟩
  · rw [hreply]
    exact map_set_eq_map hinterpreter (Interpreter.world_parse interpreter source)
  · have hlength : (start.answers before).length ≤ before.length := (length_answers _ _).le
    rw [answers_append, answers_append, List.eraseIdx_append_of_length_le hlength,
      length_answers, Nat.sub_self]
    exact List.rel_append (List.forall₂_same.mpr fun answer _ => AnswerLike.refl answer) hanswers
  · rw [after_append, after_append]
    exact hlast.leavesLike number

/-- A session that begins with one interpreter. -/
def beginning : Session :=
  ⟨[.new 0 {} opened.clock], []⟩

/-- The text with the stray character also has names. The variable that is declared afterwards
gets another symbol than without it. -/
theorem Fresh.traceless_stray :
    beginning.Fresh ∧ ((Interpreter.new 0 {} opened.clock).lexed "a b #").Flawed ∧
      List.Forall₂ (Option.Rel AnswerLike)
        ((beginning.answers [⟨1, 0, .run "a b #"⟩, ⟨1, 0, .run "var b; b;"⟩]).eraseIdx 0)
        (beginning.answers [⟨1, 0, .run "var b; b;"⟩]) := by
  have hfresh : beginning.Fresh :=
    { new := fun _ hmem => ⟨0, {}, opened.clock, List.mem_singleton.mp hmem⟩
      tables := List.nodup_singleton _
      programs := rfl }
  have hentries : ((Interpreter.new 0 {} opened.clock).lexed "a b #").diagnostics.entries =
      [⟨1, "", .lexical (.unexpectedCharacter '#')⟩] := by cbv
  have hflawed : ((Interpreter.new 0 {} opened.clock).lexed "a b #").Flawed :=
    .inl (hentries ▸ List.cons_ne_nil _ _)
  obtain ⟨-, -, hanswers, -⟩ := traceless hfresh [] [⟨1, 0, .run "var b; b;"⟩]
    ⟨1, 0, .run "a b #"⟩ rfl (.run hflawed)
  exact ⟨hfresh, hflawed, hanswers⟩

end Session

end Treewalk
