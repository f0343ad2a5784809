import CkbDebugger.DebuggerApi.Json
import CkbDebugger.Regex.Replace

/-!
# The passes over a transaction file

Before its JSON is read, a transaction file goes through five passes that look for placeholders. Paths
are those of Unix. The hashes are parameters: of data, and of a type id script by its arguments.
-/
namespace DebuggerApi

open MockTx (Byte32)
open Regex (Pattern)

/-- What the passes take from outside: the files, the directory of the transaction file (a path may have
no parent), the hashes and `TYPE_ID_CODE_HASH`. -/
structure Surroundings where
  files : List Char → Option (List UInt8)
  parent : Option (List Char)
  blake2b256 : List UInt8 → Byte32
  typeIdScriptHash : List UInt8 → Byte32
  typeIdCodeHash : Byte32

/-! ### Files -/

def isAbsolute (path : List Char) : Bool := path.head? = some '/'

/-- `Path::join` of a path that is not absolute. -/
def join (root path : List Char) : List Char :=
  if root = [] ∨ root.getLast? = some '/' then root ++ path else root ++ '/' :: path

/-- The file that a placeholder names. It is a panic if there is none. -/
def Surroundings.read (env : Surroundings) (cap1 : List Char) : Option (List UInt8) :=
  if isAbsolute cap1 then env.files cap1 else env.parent.bind fun root => env.files (join root cap1)

/-! ### Texts -/

/-- `hex::encode`. -/
def hexEncode (data : List UInt8) : List Char := data.flatMap byteText

/-- The bytes of a text. -/
def utf8 (text : List Char) : List UInt8 := text.flatMap String.utf8EncodeChar

/-- `serde_json::to_string_pretty` of a type id script, with its two spaces of indentation. -/
def typeIdScriptJson (env : Surroundings) (cap1 : List Char) : List Char :=
  '\x7b' :: ("\n  \"code_hash\": \"0x".toList ++ (hashText env.typeIdCodeHash ++
    ("\",\n  \"hash_type\": \"type\",\n  \"args\": \"0x".toList ++ (hexEncode (utf8 cap1) ++ "\"\n\x7d".toList))))

/-! ### Patterns -/

def opening : List Char := ['\x7b', '\x7b']
def closing : List Char := ['\x7d', '\x7d']

def dataKey : List Char := ['d', 'a', 't', 'a', ' ']
def hashKey : List Char := ['h', 'a', 's', 'h', ' ']
def defTypeKey : List Char := ['d', 'e', 'f', '_', 't', 'y', 'p', 'e', ' ']
def refTypeKey : List Char := ['r', 'e', 'f', '_', 't', 'y', 'p', 'e', ' ']

/-- Two braces, perhaps a blank, a key and a name, perhaps a blank, and two braces. -/
def placeholder (key : List Char) : Pattern Char where
  front := [.literal opening, .optional ' ', .literal key]
  outside := '\n'
  back := [.optional ' ', .literal closing]

/-- The placeholder of `replace_def_type`, which takes quotes with it. -/
def quotedPlaceholder (key : List Char) : Pattern Char where
  front := .optional '"' :: (placeholder key).front
  outside := '\n'
  back := (placeholder key).back ++ [.optional '"']

/-! ### Passes -/

structure Embed where
  data : List Char
  typeIdDict : List Char → Option (List Char)

def Embed.new (data : List Char) : Embed := ⟨data, fun _ => none⟩

/-- A pass that replaces all matches. -/
def Embed.replace (e : Embed) (pattern : Pattern Char) (replacer : List Char → Option (List Char)) : Option Embed :=
  (Regex.replaceAll pattern.find replacer e.data).map fun data => { e with data }

def replaceData (env : Surroundings) (e : Embed) : Option Embed :=
  e.replace (placeholder dataKey) fun cap1 => (env.read cap1).map hexEncode

def replaceHash (env : Surroundings) (e : Embed) : Option Embed :=
  e.replace (placeholder hashKey) fun cap1 => (env.read cap1).map fun data => hashText (env.blake2b256 data)

/-- The hash of a new type id goes into the dictionary. -/
def defineTypeId (env : Surroundings) (dict : List Char → Option (List Char)) (typeIdName : List Char) :
    Option (List Char → Option (List Char)) :=
  -- the assertion that the name is new
  if (dict typeIdName).isSome then none
  else some (Table.insert dict typeIdName (hashText (env.typeIdScriptHash (utf8 typeIdName))))

def preludeTypeId (env : Surroundings) (e : Embed) : Option Embed :=
  ((Regex.names (placeholder defTypeKey).find e.data).foldlM (defineTypeId env) e.typeIdDict).map fun typeIdDict =>
    { e with typeIdDict }

def replaceDefType (env : Surroundings) (e : Embed) : Option Embed :=
  e.replace (quotedPlaceholder defTypeKey) fun cap1 => some (typeIdScriptJson env cap1)

def replaceRefType (e : Embed) : Option Embed :=
  e.replace (placeholder refTypeKey) e.typeIdDict

/-- `Embed::replace_all`. A panic is `none`. -/
def replaceAll (env : Surroundings) (data : List Char) : Option (List Char) := do
  let e ← replaceData env (.new data)
  let e ← replaceHash env e
  let e ← preludeTypeId env e
  let e ← replaceDefType env e
  let e ← replaceRefType e
  return e.data

/-! ### The dictionary -/

/-- New names are defined one after the other unless one of them is there already. -/
theorem foldlM_defineTypeId (env : Surroundings) (names : List (List Char)) (dict : List Char → Option (List Char))
    (dict' : List Char → Option (List Char)) :
    names.foldlM (defineTypeId env) dict = some dict' ↔
      (names.Nodup ∧ ∀ name ∈ names, dict name = none) ∧
        dict' = Table.fill dict (names.map fun name => (name, hashText (env.typeIdScriptHash (utf8 name)))) := by
  induction names generalizing dict with
  | nil => simp [Table.fill, eq_comm]
  | cons name names ih =>
    rw [List.foldlM_cons]
    change (defineTypeId env dict name).bind (names.foldlM (defineTypeId env)) = some dict' ↔ _
    rcases known : dict name with _ | text
    · have step : defineTypeId env dict name =
          some (Table.insert dict name (hashText (env.typeIdScriptHash (utf8 name)))) := by simp [defineTypeId, known]
      rw [step, Option.bind_some, ih]
      refine and_congr ?_ Iff.rfl
      -- the rest is new to the longer dictionary if it is new to the shorter one and has not this name
      simp only [Table.insert, List.nodup_cons, List.forall_mem_cons, known, true_and]
      constructor
      · rintro ⟨distinct, fresh⟩
        have other : name ∉ names := fun member => by simpa using fresh name member
        refine ⟨⟨other, distinct⟩, fun later member => ?_⟩
        simpa [show later ≠ name from fun same => other (same ▸ member)] using fresh later member
      · rintro ⟨⟨other, distinct⟩, fresh⟩
        refine ⟨distinct, fun later member => ?_⟩
        simpa [show later ≠ name from fun same => other (same ▸ member)] using fresh later member
    · have step : defineTypeId env dict name = none := by simp [defineTypeId, known]
      simp [step, known]

/-- The names and only they are in the dictionary, each with its hash. -/
theorem fill_names (value : List Char → List Char) (names : List (List Char)) (name : List Char) :
    Table.fill (fun _ => none) (names.map fun name => (name, value name)) name =
      if name ∈ names then some (value name) else none := by
  split
  case isTrue member =>
    refine Table.fill_of_forall_eq ⟨(name, value name), List.mem_map_of_mem member, rfl⟩ fun entry mem same => ?_
    obtain ⟨other, _, rfl⟩ := List.mem_map.mp mem
    rw [← same]
  case isFalse absent =>
    refine Table.fill_of_forall_ne fun entry mem same => absent ?_
    obtain ⟨other, member, rfl⟩ := List.mem_map.mp mem
    exact same ▸ member

end DebuggerApi
