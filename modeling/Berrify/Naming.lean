import Berrify.NameMap

/-!
# Names in the target language

A container type of the source has a class in the target, a method of that class may have another
name there, and so have a few special methods. `Naming` holds the three tables. A name that no
table knows stays as it is : `Naming.className`, `Naming.methodName` and `Naming.specialName` never
fail. `Naming.builtin` are the tables in use when nothing is configured and `Naming.extend` adds
configured entries to them.
-/

namespace Berrify

/-- The tables of names. -/
structure Naming where
  /-- Container type of the source to class of the target. -/
  classes : NameMap String := .empty
  /-- Class of the target to the new names of methods. -/
  methods : NameMap (NameMap String) := .empty
  /-- New names of special methods. -/
  special : NameMap String := .empty

namespace Naming

/-- New names of the methods of a list. -/
def listMethods : NameMap String := .ofList
  [("append", "push"), ("extend", "concat"), ("pop", "pop"), ("clear", "clear"),
   ("insert", "insert"), ("remove", "remove"), ("index", "index"), ("count", "count"),
   ("sort", "sort"), ("reverse", "reverse"), ("copy", "copy"), ("len", "size"),
   ("tostring", "tostring"), ("resize", "resize"), ("find", "find"), ("concat", "concat"),
   ("item", "item"), ("setitem", "setitem")]

/-- New names of the methods of a map. -/
def mapMethods : NameMap String := .ofList
  [("keys", "keys"), ("values", "values"), ("items", "items"), ("get", "item"),
   ("pop", "remove"), ("clear", "clear"), ("update", "update"), ("setdefault", "insert"),
   ("copy", "copy"), ("len", "size"), ("contains", "contains"), ("find", "find"),
   ("insert", "insert"), ("tostring", "tostring")]

/-- New names of the methods of a byte buffer. -/
def bytesMethods : NameMap String := .ofList
  [("tostring", "tostring"), ("fromhex", "fromhex"), ("resize", "resize"), ("concat", "concat"),
   ("len", "size"), ("clear", "clear"), ("copy", "copy"), ("get", "get"), ("set", "set"),
   ("add", "add"), ("asstring", "asstring"), ("fromstring", "fromstring"),
   ("getbits", "getbits"), ("setbits", "setbits"), ("tob64", "tob64"), ("fromb64", "fromb64"),
   ("getfloat", "getfloat"), ("setfloat", "setfloat")]

/-- The tables in use when nothing is configured. -/
def builtin : Naming where
  classes := .ofList
    [("dict", "map"), ("list", "list"), ("bytes", "bytes"), ("bytearray", "bytes")]
  methods := .ofList [("list", listMethods), ("map", mapMethods), ("bytes", bytesMethods)]
  special := .ofList
    [("__init__", "init"), ("__str__", "tostring"), ("__getitem__", "item"),
     ("__setitem__", "setitem")]

/-- Adds the entries of one class to a table of methods; new entries win over old ones. -/
def addMethods (methods : NameMap (NameMap String)) (entry : String × NameMap String) :
    NameMap (NameMap String) :=
  methods.put entry.1 (((methods.get? entry.1).getD .empty).putAll entry.2.entries)

/-- Adds classes and methods, the latter by class of the target; new entries win over old ones. -/
def extend (n : Naming) (classes : NameMap String) (methods : NameMap (NameMap String)) :
    Naming :=
  { n with
    classes := n.classes.putAll classes.entries
    methods := methods.entries.foldl addMethods n.methods }

/-- The class of the target for a container type. -/
def className (n : Naming) (name : String) : String :=
  (n.classes.get? name).getD name

/-- Whether a name is a container type. -/
def isContainer (n : Naming) (name : String) : Bool :=
  n.classes.contains name

/-- The name of a method of a class of the target. -/
def methodName (n : Naming) (targetClass method : String) : String :=
  ((n.methods.get? targetClass).bind (·.get? method)).getD method

/-- The name of a function that is defined in a class. -/
def specialName (n : Naming) (name : String) : String :=
  (n.special.get? name).getD name

end Naming

instance : Inhabited Naming := ⟨.builtin⟩

end Berrify
