import JvmAssembler.Pool.Codec

/-!
# Dumping a class file's constants

A dump reads the front of a class file, up to and including its constant pool, and lists the pool: a
line for every constant, or the name of every class. It stops at the first reference that leads
nowhere; the lines before it stand.
-/

namespace JvmAssembler.Dump

open Binary (Bytes)

inductive View
  | values
  | classNames

structure Listing where
  lines : List String
  fault? : Option Fault

/-- What a run of the program leaves behind. -/
structure Outcome where
  exitCode : UInt32
  stdout : String
  stderr : String

def magic : UInt32 := 0xCAFEBABE

def decodePool : Decode Pool := do
  let found : UInt32 ← Decode.word
  if found ≠ magic then throw (.badMagic found)
  let _minor : UInt16 ← Decode.word
  let _major : UInt16 ← Decode.word
  Pool.decode

/-- One line for each item, after those of `done` (last first), up to the first that fails. -/
def listOnto {α : Type} (line : α → Except Fault String) (done : List String) : List α → Listing
  | [] => ⟨done.reverse, none⟩
  | x :: rest =>
    match line x with
    | .ok text => listOnto line (text :: done) rest
    | .error fault => ⟨done.reverse, some fault⟩

def valueLine (pool : Pool) (item : UInt16 × Constant) : Except Fault String := do
  let value ← pool.resolve item.2
  return "#" ++ toString item.1.toNat ++ " = " ++ value.render

/-- The reference to its name that a class constant holds. -/
def className? : UInt16 × Constant → Option (Ref .utf8)
  | (_, .classRef name) => some name
  | _ => none

def list (pool : Pool) : View → Listing
  | .values => listOnto (valueLine pool) [] pool.toList
  | .classNames => listOnto pool.utf8At [] (pool.toList.filterMap className?)

def listFile (view : View) (content? : Option Bytes) : Listing :=
  match content? with
  | none => ⟨[], some .fileNotFound⟩
  | some content =>
    match decodePool content with
    | .error fault => ⟨[], some fault⟩
    | .ok (pool, _) => list pool view

def Listing.outcome (listing : Listing) : Outcome where
  exitCode := if listing.fault?.isSome then 1 else 0
  stdout := String.join (listing.lines.map (· ++ "\n"))
  stderr :=
    match listing.fault? with
    | some fault => "Error: " ++ fault.message ++ "\n"
    | none => ""

def run (view : View) (content? : Option Bytes) : Outcome :=
  (listFile view content?).outcome

end JvmAssembler.Dump
