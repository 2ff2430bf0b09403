import Treewalk.RuntimeError
import Treewalk.Value

/-!
The store of variables: open frames, each of which binds names to values and, the global frame
apart, lies within an older frame. A name means what the first frame binds it to on the way from
a frame outwards. Frames are opened and released like a stack; the bindings of released frames
are cleared and kept for reuse.
-/

namespace Treewalk

/-- The names bound in one frame with their values. -/
structure Bindings where
  entries : List (Symbol × Value) := []

namespace Bindings

def get? (bindings : Bindings) (name : Symbol) : Option Value :=
  (bindings.entries.find? (·.1.same name)).map (·.2)

def binds (bindings : Bindings) (name : Symbol) : Bool :=
  bindings.entries.any (·.1.same name)

/-- Gives a bound name another value. -/
def replace (bindings : Bindings) (name : Symbol) (value : Value) : Bindings :=
  ⟨bindings.entries.map fun entry => if entry.1.same name then (entry.1, value) else entry⟩

/-- Binds a name that is not bound yet. -/
def add (bindings : Bindings) (name : Symbol) (value : Value) : Bindings :=
  ⟨bindings.entries ++ [(name, value)]⟩

/-- Binds a name, in place of what it was bound to. -/
def put (bindings : Bindings) (name : Symbol) (value : Value) : Bindings :=
  if bindings.binds name then bindings.replace name value else bindings.add name value

def clear (_ : Bindings) : Bindings :=
  ⟨[]⟩

end Bindings

/-- The place of a frame among the open frames, counted from the global one. -/
abbrev FrameId := Nat

def FrameId.global : FrameId := 0

structure Frame where
  parent : Option FrameId
  bindings : Bindings

structure Store where
  frames : Array Frame
  pool : List Bindings

namespace Store

/-- Only the global frame is open. -/
def new : Store :=
  ⟨#[⟨none, {}⟩], []⟩

/-- Opens a frame within another, with bindings from the pool if it holds any. -/
def push (store : Store) (parent : FrameId) : FrameId × Store :=
  (store.frames.size,
    ⟨store.frames.push ⟨some parent, store.pool.headD {}⟩, store.pool.tail⟩)

/-- Releases the innermost frame. The global frame is never released. -/
def pop (store : Store) (frame : FrameId) : Except Fault Store :=
  match store.frames.back? with
  | none => .error .misplacedRelease
  | some released =>
      if frame + 1 = store.frames.size ∧ frame ≠ FrameId.global then
        .ok ⟨store.frames.pop, released.bindings.clear :: store.pool⟩
      else .error .misplacedRelease

/-- The first frame that binds a name, at most `steps` frames outwards from a frame. -/
def resolveWithin (store : Store) (name : Symbol) : Nat → FrameId → Except Fault (Option FrameId)
  | 0, _ => .error .missingFrame
  | steps + 1, id =>
      match store.frames[id]? with
      | none => .error .missingFrame
      | some frame =>
          if frame.bindings.binds name then .ok (some id)
          else
            match frame.parent with
            | none => .ok none
            | some parent => resolveWithin store name steps parent

/-- The frame in which a name has its meaning. Parents are older than their frames, so the steps
suffice. -/
def resolve (store : Store) (frame : FrameId) (name : Symbol) : Except Fault (Option FrameId) :=
  store.resolveWithin name (frame + 1) frame

/-- Changes the bindings of one frame. -/
def modify (store : Store) (frame : FrameId) (change : Bindings → Bindings) : Store :=
  { store with
    frames := store.frames.modify frame fun old => { old with bindings := change old.bindings } }

/-- The value of a name in a frame. -/
def get (store : Store) (frame : FrameId) (name : Token) : Except Stop Value :=
  match store.resolve frame name.lexeme with
  | .error fault => .error (.fault fault)
  | .ok none => .error (name.blame (.undefinedVariable name.lexeme.spelling))
  | .ok (some home) =>
      match store.frames[home]?.bind (·.bindings.get? name.lexeme) with
      | some value => .ok value
      | none => .error (.fault .missingFrame)

/-- Gives the variable that a name means in a frame another value. -/
def assign (store : Store) (frame : FrameId) (name : Token) (value : Value) :
    Except Stop Store :=
  match store.resolve frame name.lexeme with
  | .error fault => .error (.fault fault)
  | .ok none => .error (name.blame (.undefinedVariable name.lexeme.spelling))
  | .ok (some home) => .ok (store.modify home (·.replace name.lexeme value))

/-- Makes a new variable in a frame. The enclosing frames do not matter, but the frame itself
must not have a variable of that name. -/
def define (store : Store) (frame : FrameId) (name : Token) (value : Value) :
    Except Stop Store :=
  match store.frames[frame]? with
  | none => .error (.fault .missingFrame)
  | some old =>
      if old.bindings.binds name.lexeme then
        .error (name.blame (.duplicateVariable name.lexeme.spelling))
      else .ok (store.modify frame (·.add name.lexeme value))

/-- Makes a global variable, in place of one of that name if there is one. -/
def defineGlobal (store : Store) (name : Symbol) (value : Value) : Store :=
  store.modify FrameId.global (·.put name value)

end Store

end Treewalk
