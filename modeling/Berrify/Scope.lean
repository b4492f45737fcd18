import Berrify.Container
import Berrify.Text.Search

/-!
# Scopes

The target wants `var` at the first assignment to a local name, and the name of a method depends
on the container it is called on. A `Scope` answers both questions while a script is gone through
from top to bottom : `Scope.assign` says whether an assignment declares, and `Scope.kindOf` which
kind of container a dotted path was last bound to.

A scope is a stack of frames, one for each body that is open, the innermost first. In the flat
mode there is only one frame, and `Scope.push` and `Scope.pop` do nothing. The fields of an object,
the paths that start with `self.`, belong to the frame of the nearest class, so that all methods of
a class see them.
-/

namespace Berrify

/-- The bodies that have a frame of their own. -/
inductive FrameKind where
  | script
  | classBody
  | functionBody
deriving DecidableEq, Repr

/-- How bodies map to frames. -/
inductive ScopeMode where
  /-- One frame for each body. -/
  | lexical
  /-- One frame for the whole script. -/
  | flat
deriving DecidableEq, Repr

instance : Inhabited ScopeMode := ⟨.lexical⟩

/-- What is known of a name or dotted path. -/
structure Binding where
  declared : Bool := false
  kind : Container := .unknown
deriving DecidableEq, Repr

/-- The bindings of one body. -/
structure Frame where
  kind : FrameKind
  bindings : NameMap Binding := .empty

/-- Records the kind of a path and leaves open whether it is declared. -/
def Frame.recordKind (f : Frame) (path : String) (kind : Container) : Frame :=
  { f with bindings := f.bindings.put path { (f.bindings.get? path).getD {} with kind } }

/-- Marks a name as declared. -/
def Frame.declare (f : Frame) (name : String) (kind : Container) : Frame :=
  { f with bindings := f.bindings.put name { declared := true, kind } }

/-- Whether a name is declared in a frame. -/
def Frame.declares (f : Frame) (name : String) : Bool :=
  ((f.bindings.get? name).map (·.declared)).getD false

/-- The state of the names at one point of a script. -/
structure Scope where
  mode : ScopeMode
  /-- The frame of the innermost body. -/
  current : Frame
  /-- The frames around it, innermost first. -/
  outer : List Frame := []
  /-- The functions defined so far. -/
  functions : List String := []

/-- Whether an assignment has to declare its target. -/
inductive AssignmentForm where
  | declare
  | assign
deriving DecidableEq, Repr

namespace Scope

/-- The scope at the start of a script. -/
def start (mode : ScopeMode) : Scope where
  mode := mode
  current := { kind := .script }

instance : Inhabited Scope := ⟨start .lexical⟩

/-- Opens a body. -/
def push (s : Scope) (kind : FrameKind) : Scope :=
  match s.mode with
  | .lexical => { s with current := { kind }, outer := s.current :: s.outer }
  | .flat => s

/-- Closes the innermost body; the frame of the script stays open. -/
def pop (s : Scope) : Scope :=
  match s.mode, s.outer with
  | .lexical, frame :: rest => { s with current := frame, outer := rest }
  | _, _ => s

/-- The binding of a path in the innermost frame that has one. -/
def lookup? (s : Scope) (path : String) : Option Binding :=
  (s.current :: s.outer).findSome? (·.bindings.get? path)

/-- The kind last recorded for a path. -/
def kindOf (s : Scope) (path : String) : Container :=
  ((s.lookup? path).map (·.kind)).getD .unknown

/-- Whether the innermost body declares a name. -/
def declaresHere (s : Scope) (name : String) : Bool :=
  s.current.declares name

/-- Declares a name in the innermost body, as a parameter does. -/
def declare (s : Scope) (name : String) (kind : Container) : Scope :=
  { s with current := s.current.declare name kind }

/-- Records a kind in the first class frame of a list, if there is one. -/
def recordInClass? (path : String) (kind : Container) : List Frame → Option (List Frame)
  | [] => none
  | frame :: rest =>
    if frame.kind = .classBody then some (frame.recordKind path kind :: rest)
    else (recordInClass? path kind rest).map (frame :: ·)

/-- Records a kind in the innermost frame. -/
def recordHere (s : Scope) (path : String) (kind : Container) : Scope :=
  { s with current := s.current.recordKind path kind }

/-- Records the kind of a field in the frame of the nearest class, or in the innermost frame if no
class is open. -/
def recordField (s : Scope) (path : String) (kind : Container) : Scope :=
  if s.current.kind = .classBody then s.recordHere path kind
  else
    match recordInClass? path kind s.outer with
    | some outer => { s with outer }
    | none => s.recordHere path kind

/-- Whether a path is a field of the object that a method works on. -/
def isField (path : String) : Bool :=
  Text.startsWith "self." path

/-- Records the kind of a dotted path. -/
def recordKind (s : Scope) (path : String) (kind : Container) : Scope :=
  if isField path then s.recordField path kind else s.recordHere path kind

/-- Records an assignment and says whether it declares. Only a bare name declares, and only once in
a body; a path of attributes records its kind. -/
def assign (s : Scope) (target : Expr) (kind : Container) : Scope × AssignmentForm :=
  match target with
  | .name id => (s.declare id kind, if s.declaresHere id then .assign else .declare)
  | .attribute .. =>
    match target.dottedPath? with
    | some path => (s.recordKind path kind, .assign)
    | none => (s, .assign)
  | _ => (s, .assign)

/-- Makes a function known by name. -/
def define (s : Scope) (name : String) : Scope :=
  { s with functions := name :: s.functions }

/-- Whether a function of this name has been defined. -/
def knows (s : Scope) (name : String) : Bool :=
  s.functions.contains name

end Scope

end Berrify
