import CkbDebugger.Protobuf.Wire

/-!
# Messages

A message type is a list of fields. Each of them adds to the size of a message, writes its
part of it, and takes in one value for it that a reader has come to. A message that is
written and read into an empty one comes back whole.
-/
namespace Protobuf

/-! ### Fields -/

/-- A field of a message. `clean` says that nothing has been put into it, and `copy` takes
its contents over from the first message to the second. -/
structure Field (α : Type) where
  number : Nat
  size : α → UInt32
  write : α → Bytes
  merge : WireType → Bytes → α → Option (α × Bytes)
  clean : α → Prop
  copy : α → α → α

/-- A part of a message that can be set. -/
structure Part (α β : Type) where
  get : α → β
  set : β → α → α
  get_set : ∀ b a, get (set b a) = b := by intros; rfl
  set_get : ∀ a, set (get a) a = a := by intros; rfl
  set_set : ∀ b c a, set c (set b a) = set c a := by intros; rfl

/-- A message type, and its default instance. -/
structure Message (α : Type) where
  empty : α
  fields : List (Field α)

variable {α β : Type}

/-- `compute_size`, in the 32 bits of a cached size. -/
def Message.computeSize (message : Message α) (a : α) : UInt32 :=
  message.fields.foldl (fun size field => size + field.size a) 0

/-- `write_to_with_cached_sizes`. -/
def Message.write (message : Message α) (a : α) : Bytes := message.fields.flatMap fun field => field.write a

/-- One value, of the field with this number or of none. -/
def Message.mergeField (message : Message α) (number : Nat) (wire : WireType) (bytes : Bytes) (a : α) :
    Option (α × Bytes) :=
  match message.fields.find? fun field => field.number = number with
  | some field => field.merge wire bytes a
  | none => (skipUnknown wire bytes).map fun rest => (a, rest)

/-- The loop of `merge_from`, as far as it gets in a number of rounds. -/
def Message.mergeRounds (message : Message α) : Nat → Bytes → α → Option α
  | _, [], a => some a
  | 0, _ :: _, _ => none
  | rounds + 1, b :: bytes, a =>
    match readTag (b :: bytes) with
    | none => none
    | some (number, wire, rest) =>
      (message.mergeField number wire rest a).bind fun (a, rest) => mergeRounds message rounds rest a

/-- `merge_from`. Every round takes a byte or more. -/
def Message.mergeFrom (message : Message α) (bytes : Bytes) (a : α) : Option α :=
  message.mergeRounds bytes.length bytes a

/-- `parse_from_bytes`. -/
def Message.parse (message : Message α) (bytes : Bytes) : Option α := message.mergeFrom bytes message.empty

/-- `write_to_bytes`: what is written has to fill a buffer of the computed size. `none` is the
error or the panic when it does not. -/
def Message.writeToBytes (message : Message α) (a : α) : Option Bytes :=
  if (message.write a).length = (message.computeSize a).toNat then some (message.write a) else none

/-! ### Kinds of fields -/

/-- A type of numbers, with its default and the way in which they are written. -/
structure Scalar (β : Type) where
  zero : β
  toWire : β → UInt64
  ofWire : UInt64 → β
  size : β → Nat
  ofWire_toWire : ∀ b, ofWire (toWire b) = b
  size_eq : ∀ b, size b = varintSize (toWire b)

/-- `int64`: negative numbers take ten bytes. -/
def Scalar.int64 : Scalar Int64 where
  zero := 0
  toWire := Int64.toUInt64
  ofWire := UInt64.toInt64
  size b := varintSize b.toUInt64
  ofWire_toWire := fun _ => rfl
  size_eq := fun _ => rfl

def Scalar.uint64 : Scalar UInt64 where
  zero := 0
  toWire := id
  ofWire := id
  size := varintSize
  ofWire_toWire := fun _ => rfl
  size_eq := fun _ => rfl

/-- `bool`, of which `read_bool` looks at 32 bits. -/
def Scalar.bool : Scalar Bool where
  zero := false
  toWire b := if b then 1 else 0
  ofWire n := n.toUInt32 ≠ 0
  size _ := 1
  ofWire_toWire := by decide
  size_eq := by decide

section Numbers

variable [DecidableEq β] (number : Nat) (scalar : Scalar β)

def writeScalar (b : β) : Bytes := writeTag number .varint ++ encodeVarint (scalar.toWire b)

def scalarSize (b : β) : UInt32 := UInt32.ofNat (tagSize number + scalar.size b)

/-- A number, which is written if it is not the default. -/
def Field.singular (part : Part α β) : Field α where
  number := number
  size a := if part.get a = scalar.zero then 0 else scalarSize number scalar (part.get a)
  write a := if part.get a = scalar.zero then [] else writeScalar number scalar (part.get a)
  merge wire bytes a :=
    if wire = .varint then (decodeVarint bytes).map fun (n, rest) => (part.set (scalar.ofWire n) a, rest)
    else none
  clean a := part.get a = scalar.zero
  copy a acc := part.set (part.get a) acc

/-- The numbers of a packed field, one after the other. -/
def unpack (scalar : Scalar β) : Nat → Bytes → Option (List β)
  | _, [] => some []
  | 0, _ :: _ => none
  | rounds + 1, b :: bytes =>
    match decodeVarint (b :: bytes) with
    | none => none
    | some (n, rest) => (unpack scalar rounds rest).map (scalar.ofWire n :: ·)

/-- A list of numbers, each with a tag of its own. A reader also takes them packed. -/
def Field.repeated (part : Part α (List β)) : Field α where
  number := number
  size a := (part.get a).foldl (fun size b => size + scalarSize number scalar b) 0
  write a := (part.get a).flatMap (writeScalar number scalar)
  merge wire bytes a :=
    match wire with
    | .varint => (decodeVarint bytes).map fun (n, rest) => (part.set (part.get a ++ [scalar.ofWire n]) a, rest)
    | .lengthDelimited =>
      (readDelimited bytes).bind fun (packed, rest) =>
        (unpack scalar packed.length packed).map fun more => (part.set (part.get a ++ more) a, rest)
    | _ => none
  clean a := part.get a = []
  copy a acc := part.set (part.get a) acc

end Numbers

section Delimited

variable (number : Nat)

/-- `compute_raw_varint32_size(len) + len`, with the tag before it. -/
def delimitedSize (length : UInt32) : UInt32 :=
  UInt32.ofNat (tagSize number + varintSize length.toUInt64) + length

/-- The text of some bytes, if they are UTF-8. -/
def textOf (bytes : Bytes) : Option String := String.fromUTF8? ⟨bytes.toArray⟩

def bytesOf (text : String) : Bytes := text.toUTF8.data.toList

/-- A list of texts. -/
def Field.strings (part : Part α (List String)) : Field α where
  number := number
  size a := (part.get a).foldl
    (fun size text => size + delimitedSize number (UInt32.ofNat (bytesOf text).length)) 0
  write a := (part.get a).flatMap fun text => writeTag number .lengthDelimited ++ writeDelimited (bytesOf text)
  merge wire bytes a :=
    if wire = .lengthDelimited then
      (readShort bytes).bind fun (text, rest) =>
        (textOf text).map fun text => (part.set (part.get a ++ [text]) a, rest)
    else none
  clean a := part.get a = []
  copy a acc := part.set (part.get a) acc

variable (inner : Message β)

/-- A message in a message: its cached size, and what it writes. -/
def Message.writeNested (b : β) : Bytes :=
  writeTag number .lengthDelimited ++ (encodeVarint (inner.computeSize b).toUInt64 ++ inner.write b)

/-- `merge_message`, into an empty message. -/
def Message.readNested (bytes : Bytes) : Option (β × Bytes) :=
  (readDelimited bytes).bind fun (part, rest) => (inner.parse part).map fun b => (b, rest)

/-- A list of messages. -/
def Field.messages (part : Part α (List β)) : Field α where
  number := number
  size a := (part.get a).foldl (fun size b => size + delimitedSize number (inner.computeSize b)) 0
  write a := (part.get a).flatMap (inner.writeNested number)
  merge wire bytes a :=
    if wire = .lengthDelimited then
      (inner.readNested bytes).map fun (b, rest) => (part.set (part.get a ++ [b]) a, rest)
    else none
  clean a := part.get a = []
  copy a acc := part.set (part.get a) acc

/-- A message that may be missing. -/
def Field.message (part : Part α (Option β)) : Field α where
  number := number
  size a := match part.get a with
    | some b => delimitedSize number (inner.computeSize b)
    | none => 0
  write a := match part.get a with
    | some b => inner.writeNested number b
    | none => []
  merge wire bytes a :=
    if wire = .lengthDelimited then
      (inner.readNested bytes).map fun (b, rest) => (part.set (some b) a, rest)
    else none
  clean a := part.get a = none
  copy a acc := part.set (part.get a) acc

end Delimited

/-! ### What a reader makes of a field -/

/-- Bytes that hold values of one field, and what reading them does to a message. -/
inductive Field.Delivers (field : Field α) : Bytes → α → α → Prop where
  | done (a : α) : Delivers field [] a a
  | value {wire : WireType} {value bytes : Bytes} {a next last : α}
      (merged : ∀ rest, field.merge wire (value ++ rest) a = some (next, rest))
      (after : Delivers field bytes next last) :
      Delivers field (writeTag field.number wire ++ value ++ bytes) a last

/-- The size of a field counts what it writes, which puts the field into a message that does
not have it yet. -/
structure Field.Lawful (field : Field α) : Prop where
  number : IsFieldNumber field.number
  size : ∀ a, field.size a = UInt32.ofNat (field.write a).length
  delivers : ∀ a acc, (field.write a).length < 2 ^ 32 → field.clean acc →
    field.Delivers (field.write a) acc (field.copy a acc)

/-- One after the other the fields of a message are put into another one, where each of them
is still missing when it comes, and make it the same. -/
def Fills (a : α) : List (Field α) → α → Prop
  | [], acc => acc = a
  | field :: fields, acc => field.clean acc ∧ Fills a fields (field.copy a acc)

/-- All fields are lawful, can be told apart by their numbers, and are the whole message. -/
structure Message.Lawful (message : Message α) : Prop where
  fields : ∀ field ∈ message.fields, field.Lawful
  numbers : (message.fields.map Field.number).Nodup
  fills : ∀ a, Fills a message.fields message.empty

theorem foldl_size {γ : Type} (size : γ → UInt32) (write : γ → Bytes) (items : List γ) (start : UInt32)
    (counts : ∀ item ∈ items, size item = UInt32.ofNat (write item).length) :
    items.foldl (fun total item => total + size item) start = start + UInt32.ofNat (items.flatMap write).length := by
  induction items generalizing start with
  | nil => simp
  | cons item items ih =>
    rw [List.foldl_cons, ih _ fun other member => counts other (List.mem_cons_of_mem _ member),
      counts item List.mem_cons_self, List.flatMap_cons, List.length_append, UInt32.ofNat_add, UInt32.add_assoc]

/-- A value at a time, a list comes after what is there already. -/
theorem delivers_list (field : Field α) (part : Part α (List β)) (wire : WireType) (value : β → Bytes)
    (items : List β) (appends : ∀ b ∈ items, ∀ a rest,
      field.merge wire (value b ++ rest) a = some (part.set (part.get a ++ [b]) a, rest)) (a : α) :
    field.Delivers (items.flatMap fun b => writeTag field.number wire ++ value b) a
      (part.set (part.get a ++ items) a) := by
  induction items generalizing a with
  | nil =>
    rw [List.append_nil, part.set_get]
    exact .done a
  | cons b items ih =>
    have after := ih (fun other member => appends other (List.mem_cons_of_mem _ member))
      (part.set (part.get a ++ [b]) a)
    rw [part.get_set, part.set_set, List.append_assoc, List.singleton_append] at after
    rw [List.flatMap_cons]
    exact .value (appends b List.mem_cons_self a) after

/-! ### The kinds are lawful -/

theorem length_part_le {γ : Type} (write : γ → Bytes) {items : List γ} {item : γ} (member : item ∈ items) :
    (write item).length ≤ (items.flatMap write).length := by
  obtain ⟨before, after, rfl⟩ := List.append_of_mem member
  simp only [List.flatMap_append, List.flatMap_cons, List.length_append]
  omega

section Kinds

variable {number : Nat} (valid : IsFieldNumber number)

include valid

theorem scalarSize_eq (scalar : Scalar β) (b : β) :
    scalarSize number scalar b = UInt32.ofNat (writeScalar number scalar b).length := by
  rw [scalarSize, writeScalar, List.length_append, length_writeTag valid, length_encodeVarint, scalar.size_eq]

theorem Field.Lawful.singular [DecidableEq β] (scalar : Scalar β) (part : Part α β) :
    (Field.singular number scalar part).Lawful where
  number := valid
  size := by
    intro a
    simp only [Field.singular]
    split
    · rfl
    · exact scalarSize_eq valid scalar _
  delivers := by
    intro a acc _ clean
    have clean : part.get acc = scalar.zero := clean
    show (Field.singular number scalar part).Delivers (if part.get a = scalar.zero then [] else _) acc
      (part.set (part.get a) acc)
    split
    next zero =>
      -- the default is not written, and is there already
      rw [zero, ← clean, part.set_get]
      exact .done acc
    next =>
      rw [writeScalar, ← List.append_nil (writeTag number .varint ++ _)]
      refine .value (fun rest => ?_) (.done _)
      simp only [Field.singular, if_true, decodeVarint_encodeVarint, Option.map_some, scalar.ofWire_toWire]

theorem Field.Lawful.repeated [DecidableEq β] (scalar : Scalar β) (part : Part α (List β)) :
    (Field.repeated number scalar part).Lawful where
  number := valid
  size := by
    intro a
    simp only [Field.repeated]
    rw [foldl_size _ (writeScalar number scalar) _ _ fun b _ => scalarSize_eq valid scalar b, UInt32.zero_add]
  delivers := by
    intro a acc _ clean
    have clean : part.get acc = [] := clean
    have delivered := delivers_list (Field.repeated number scalar part) part .varint
      (fun b => encodeVarint (scalar.toWire b)) (part.get a) (fun b _ message rest => by
        simp only [Field.repeated, decodeVarint_encodeVarint, Option.map_some, scalar.ofWire_toWire]) acc
    rw [clean, List.nil_append] at delivered
    exact delivered

theorem delimitedSize_eq (inside : Bytes) :
    delimitedSize number (UInt32.ofNat inside.length) =
      UInt32.ofNat (writeTag number .lengthDelimited ++ writeDelimited inside).length := by
  rw [delimitedSize, writeDelimited, List.length_append, List.length_append, length_writeTag valid,
    length_encodeVarint, ← Nat.add_assoc, UInt32.ofNat_add _ inside.length]

omit valid in
theorem textOf_bytesOf (text : String) : textOf (bytesOf text) = some text := by
  have same : (⟨(bytesOf text).toArray⟩ : ByteArray) = text.toByteArray := by simp [bytesOf]
  rw [textOf, same, String.fromUTF8?, dif_pos text.isValidUTF8]
  rfl

theorem Field.Lawful.strings (part : Part α (List String)) : (Field.strings number part).Lawful where
  number := valid
  size := by
    intro a
    simp only [Field.strings]
    rw [foldl_size _ _ _ _ fun text _ => delimitedSize_eq valid (bytesOf text), UInt32.zero_add]
  delivers := by
    intro a acc fits clean
    have clean : part.get acc = [] := clean
    have delivered := delivers_list (Field.strings number part) part .lengthDelimited
      (fun text => writeDelimited (bytesOf text)) (part.get a) (fun text member message rest => by
        have short : (bytesOf text).length < 2 ^ 32 := by
          refine Nat.lt_of_le_of_lt (Nat.le_trans ?_ (length_part_le _ member)) fits
          simp only [writeDelimited, List.length_append]
          omega
        simp only [Field.strings, if_true, readShort_writeDelimited short, Option.bind_some,
          textOf_bytesOf, Option.map_some]) acc
    rw [clean, List.nil_append] at delivered
    exact delivered

end Kinds

/-! ### Whole messages -/

theorem mergeRounds_nil (message : Message α) (rounds : Nat) (a : α) :
    message.mergeRounds rounds [] a = some a := by
  cases rounds <;> rfl

/-- The values of one field, at the front of a message. -/
theorem mergeRounds_delivers {message : Message α} {field : Field α} {bytes : Bytes} {a next : α}
    (valid : IsFieldNumber field.number)
    (found : message.fields.find? (fun other => other.number = field.number) = some field)
    (delivers : field.Delivers bytes a next) (rest : Bytes) {rounds : Nat}
    (enough : (bytes ++ rest).length ≤ rounds) :
    ∃ left, rest.length ≤ left ∧
      message.mergeRounds rounds (bytes ++ rest) a = message.mergeRounds left rest next := by
  induction delivers generalizing rounds with
  | done a => exact ⟨rounds, enough, rfl⟩
  | @value wire value bytes a next last merged after ih =>
    obtain ⟨b, tag, split⟩ : ∃ b tag, writeTag field.number wire = b :: tag :=
      List.exists_cons_of_ne_nil (writeTag_ne_nil _ _)
    have positive : 0 < (writeTag field.number wire).length := by simp [split]
    have counted : (writeTag field.number wire).length + (value.length + (bytes ++ rest).length) ≤ rounds := by
      simp only [List.length_append] at enough ⊢
      omega
    obtain ⟨rounds, rfl⟩ : ∃ r, rounds = r + 1 := ⟨rounds - 1, by omega⟩
    obtain ⟨left, more, same⟩ := @ih rounds (by omega)
    refine ⟨left, more, ?_⟩
    have read := readTag_writeTag valid wire (value ++ (bytes ++ rest))
    rw [← same]
    simp only [List.append_assoc]
    rw [split, List.cons_append] at read ⊢
    simp only [Message.mergeRounds, read, Message.mergeField, found, merged, Option.bind_some]

theorem find_number {fields : List (Field α)} {field : Field α} (distinct : (fields.map Field.number).Nodup)
    (member : field ∈ fields) : fields.find? (fun other => other.number = field.number) = some field := by
  obtain ⟨before, after, rfl⟩ := List.append_of_mem member
  rw [List.map_append, List.nodup_append] at distinct
  have none : before.find? (fun other => other.number = field.number) = none := by
    rw [List.find?_eq_none]
    intro other earlier same
    exact distinct.2.2 other.number (List.mem_map_of_mem earlier) field.number (by simp) (of_decide_eq_true same)
  rw [List.find?_append, none, Option.none_or, List.find?_cons_of_pos (by simp)]

theorem Message.Lawful.computeSize_eq {message : Message α} (lawful : message.Lawful) (a : α) :
    message.computeSize a = UInt32.ofNat (message.write a).length := by
  rw [computeSize, write, foldl_size _ _ _ _ fun field member => (lawful.fields field member).size a,
    UInt32.zero_add]

/-- A message of less than 4 GiB is read back from what it writes. -/
theorem Message.Lawful.parse_write {message : Message α} (lawful : message.Lawful) {a : α}
    (fits : (message.write a).length < 2 ^ 32) : message.parse (message.write a) = some a := by
  -- the fields that are still to come, and what has been put into the message
  have ahead : ∀ fields acc rounds, fields <:+ message.fields → Fills a fields acc →
      (fields.flatMap fun field => field.write a).length ≤ rounds →
      message.mergeRounds rounds (fields.flatMap fun field => field.write a) acc = some a := by
    intro fields
    induction fields with
    | nil =>
      intro acc rounds _ filled _
      rw [List.flatMap_nil, mergeRounds_nil, show acc = a from filled]
    | cons field fields ih =>
      rintro acc rounds suffix ⟨clean, fills⟩ enough
      have member := suffix.subset List.mem_cons_self
      have short : (field.write a).length < 2 ^ 32 :=
        Nat.lt_of_le_of_lt (length_part_le (fun field => Field.write field a) member) fits
      have delivered := (lawful.fields field member).delivers a acc short clean
      rw [List.flatMap_cons] at enough ⊢
      obtain ⟨left, more, same⟩ := mergeRounds_delivers (lawful.fields field member).number
        (find_number lawful.numbers member) delivered _ enough
      rw [same]
      exact ih _ left ((List.suffix_cons field fields).trans suffix) fills more
  exact ahead message.fields message.empty (message.write a).length List.suffix_rfl (lawful.fills a) (Nat.le_refl _)

/-- A message is written exactly if it has less than 4 GiB. -/
theorem Message.Lawful.writeToBytes_eq_some_iff {message : Message α} (lawful : message.Lawful) (a : α)
    (bytes : Bytes) :
    message.writeToBytes a = some bytes ↔ message.write a = bytes ∧ (message.write a).length < 2 ^ 32 := by
  have size : (message.computeSize a).toNat = (message.write a).length % 2 ^ 32 := by
    rw [lawful.computeSize_eq, UInt32.toNat_ofNat']
  have counted : (message.write a).length = (message.write a).length % 2 ^ 32 ↔
      (message.write a).length < 2 ^ 32 := by omega
  simp only [Message.writeToBytes, size, counted, Option.ite_none_right_eq_some, Option.some.injEq, and_comm]

/-- What a message is written as is read back as the message. -/
theorem Message.Lawful.parse_of_writeToBytes {message : Message α} (lawful : message.Lawful) {a : α}
    {bytes : Bytes} (written : message.writeToBytes a = some bytes) : message.parse bytes = some a := by
  obtain ⟨rfl, fits⟩ := (lawful.writeToBytes_eq_some_iff a bytes).mp written
  exact lawful.parse_write fits

/-! ### Messages in messages -/

section Nested

variable {number : Nat} (valid : IsFieldNumber number) {inner : Message β} (lawful : inner.Lawful)

include lawful

theorem Message.Lawful.writeNested_eq (b : β) :
    inner.writeNested number b = writeTag number .lengthDelimited ++ writeDelimited (inner.write b) := by
  rw [writeNested, writeDelimited, lawful.computeSize_eq]

theorem Message.Lawful.readNested_write {b : β} (fits : (inner.write b).length < 2 ^ 32) (rest : Bytes) :
    inner.readNested (writeDelimited (inner.write b) ++ rest) = some (b, rest) := by
  simp only [readNested, readDelimited_writeDelimited fits, Option.bind_some, lawful.parse_write fits,
    Option.map_some]

theorem length_write_le (b : β) : (inner.write b).length ≤ (inner.writeNested number b).length := by
  rw [lawful.writeNested_eq, writeDelimited, List.length_append, List.length_append]
  omega

include valid

theorem nestedSize_eq (b : β) :
    delimitedSize number (inner.computeSize b) = UInt32.ofNat (inner.writeNested number b).length := by
  rw [lawful.computeSize_eq, lawful.writeNested_eq, delimitedSize_eq valid]

theorem Field.Lawful.messages (part : Part α (List β)) : (Field.messages number inner part).Lawful where
  number := valid
  size := by
    intro a
    simp only [Field.messages]
    rw [foldl_size _ _ _ _ fun b _ => nestedSize_eq valid lawful b, UInt32.zero_add]
  delivers := by
    intro a acc fits clean
    have clean : part.get acc = [] := clean
    have delivered := delivers_list (Field.messages number inner part) part .lengthDelimited
      (fun b => writeDelimited (inner.write b)) (part.get a) (fun b member message rest => by
        have short : (inner.write b).length < 2 ^ 32 := Nat.lt_of_le_of_lt
          (Nat.le_trans (length_write_le lawful b) (length_part_le _ member)) fits
        simp only [Field.messages, if_true, lawful.readNested_write short, Option.map_some]) acc
    rw [clean, List.nil_append] at delivered
    simpa only [Field.messages, funext lawful.writeNested_eq] using delivered

theorem Field.Lawful.message (part : Part α (Option β)) : (Field.message number inner part).Lawful where
  number := valid
  size := by
    intro a
    simp only [Field.message]
    split
    · exact nestedSize_eq valid lawful _
    · rfl
  delivers := by
    intro a acc fits clean
    have clean : part.get acc = none := clean
    simp only [Field.message] at fits ⊢
    split at fits
    next b some =>
      have short : (inner.write b).length < 2 ^ 32 := Nat.lt_of_le_of_lt (length_write_le lawful b) fits
      rw [lawful.writeNested_eq, ← List.append_nil (writeTag number .lengthDelimited ++ _)]
      refine .value (fun rest => ?_) (.done _)
      simp only [if_true, lawful.readNested_write short, Option.map_some, some]
    next none =>
      rw [none, ← clean, part.set_get]
      exact .done acc

end Nested

end Protobuf
