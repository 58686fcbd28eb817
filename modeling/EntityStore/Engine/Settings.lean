import EntityStore.Engine.Error
import EntityStore.Text.Ascii
import EntityStore.Text.FormEncoded

namespace EntityStore.Engine

structure Settings where
  address : String
  /-- Connections at a time; a database in memory has one. -/
  connections : Nat
  foreignKeys : Bool
  deriving DecidableEq

namespace Settings

/-- A database in memory that enforces foreign keys. -/
def default : Settings := ⟨"sqlite::memory:", 5, true⟩

def ofAddress (address : String) : Settings := { default with address := address }

def inMemory (s : Settings) : Bool :=
  Text.contains s.address ":memory:" || Text.contains s.address "mode=memory"

/-- The characters after a prefix, taken off as often as it is there. -/
def trimmed (start : List Char) : Nat → List Char → List Char
  | 0, cs => cs
  | fuel + 1, cs => if start.isPrefixOf cs then trimmed start fuel (cs.drop start.length) else cs

/-- The address without its scheme. -/
def located (s : Settings) : String :=
  let cs := s.address.toList
  let cs := trimmed "sqlite://".toList cs.length cs
  String.ofList (trimmed "sqlite:".toList cs.length cs)

/-- The name of the database, before the question mark. -/
def name (s : Settings) : String := (s.located.splitOn "?").headD ""

def parameters (s : Settings) : List (String × String) :=
  Text.FormEncoded.pairs ("?".intercalate ((s.located.splitOn "?").drop 1))

/-- The name has to be a text once its percent signs are undone. -/
def checkName (s : Settings) : Except AddressFault Unit :=
  if s.name = ":memory:" then .ok ()
  else match Text.Utf8.fault? (Text.FormEncoded.percentDecoded s.name) with
    | some fault => .error (.notText fault)
    | none => .ok ()

/-- The values that a parameter takes; none if it takes any. -/
def allowed : String → Except AddressFault (Option (List String))
  | "mode" => .ok (some ["ro", "rw", "rwc", "memory"])
  | "cache" => .ok (some ["private", "shared"])
  | "immutable" => .ok (some ["true", "1", "false", "0"])
  | "vfs" => .ok none
  | name => .error (.unknownParameter name)

/-- Refuses an address with a name that is no text or with parameters that mean nothing. -/
def check (s : Settings) : Except AddressFault Unit := do
  s.checkName
  s.parameters.forM fun (name, value) => do
    if (← allowed name).any fun values => !values.contains value then
      .error (.unknownValue value name)

def fileSystem? (s : Settings) : Option String := s.parameters.reverse.lookup "vfs"

def fileSystems : List String := ["unix", "unix-none", "unix-dotfile", "unix-excl", "memdb"]

def readOnly (s : Settings) : Bool := s.parameters.contains ("mode", "ro")

end Settings

end EntityStore.Engine
