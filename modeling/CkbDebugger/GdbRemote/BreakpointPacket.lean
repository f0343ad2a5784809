import CkbDebugger.GdbRemote.Totality

/-!
# Breakpoint packets

The texts that set and clear a software breakpoint, and what the request parser makes of
them. A packet that sets one may carry conditions and commands; a packet that clears one
names an address and a kind only.
-/
namespace GdbRemote

open Nom

/-! ### Numbers -/

/-- The text is a number in hexadecimal digits. -/
structure Digits (text : Bytes) (value : UInt64) : Prop where
  nonempty : text ≠ []
  digits : ∀ b ∈ text, isHexDigit b = true
  denotes : hexNumber text = value.toNat

/-- A number ends where something else than a digit follows. -/
theorem hexValue_digits {text rest : Bytes} {value : UInt64} (number : Digits text value)
    (stops : ∀ b ∈ rest.head?, isHexDigit b = false) : hexValue (text ++ rest) = .done rest value := by
  have read : (text ++ rest).takeWhile isHexDigit = text := by
    rw [List.takeWhile_append_of_pos number.digits]
    cases rest with
    | nil => simp
    | cons b rest => simp [stops b rfl]
  have unread : (text ++ rest).dropWhile isHexDigit = rest := by
    rw [List.dropWhile_append_of_pos number.digits]
    cases rest with
    | nil => simp
    | cons b rest => simp [stops b rfl]
  have fits : hexNumber text < 2 ^ 64 := number.denotes ▸ value.toNat_lt
  cases text with
  | nil => exact absurd rfl number.nonempty
  | cons b text =>
    have digit : isHexDigit b = true := number.digits b List.mem_cons_self
    rw [List.cons_append] at read unread ⊢
    simp only [hexValue, takeWhile1, digit, if_true, andThen_done, read, unread, fits]
    rw [number.denotes, UInt64.ofNat_toNat]

theorem hexValue_at_end {text : Bytes} {value : UInt64} (number : Digits text value) :
    hexValue text = .done [] value := by
  have read := @hexValue_digits text [] value number (by simp)
  rwa [List.append_nil] at read

/-- A mark that is no digit ends a number. -/
theorem stops_at_mark {s : String} (mark : (ascii s).head?.any (fun b => !isHexDigit b) = true) (rest : Bytes) :
    ∀ b ∈ (ascii s ++ rest).head?, isHexDigit b = false := by
  cases text : ascii s with
  | nil => simp [text] at mark
  | cons c more =>
    rintro b ⟨⟩
    simpa [text] using mark

/-! ### The texts -/

/-- A packet that sets or clears a software breakpoint. What follows the kind are lists in
the form that the source's parser accepts. -/
structure BreakpointPacket where
  action : ZAction
  addr : Bytes
  kind : Bytes
  lists : Bytes
  breakpoint : Breakpoint
  addrNumber : Digits addr breakpoint.addr
  kindNumber : Digits kind breakpoint.kind
  listsAccepted : match action with
    | .insert => parseCondAndCommandList lists = .done [] (breakpoint.conditions, breakpoint.commands)
    | .remove => lists = [] ∧ breakpoint.conditions = none ∧ breakpoint.commands = none

def BreakpointPacket.text (packet : BreakpointPacket) : Bytes :=
  ascii (zName packet.action .softwareBreakpoint) ++ (packet.addr ++ (ascii "," ++ (packet.kind ++ packet.lists)))

def BreakpointPacket.command (packet : BreakpointPacket) : Command :=
  match packet.action with
  | .insert => .insertSoftwareBreakpoint packet.breakpoint
  | .remove => .removeSoftwareBreakpoint packet.breakpoint

/-- A packet that only names an address and a kind. -/
def BreakpointPacket.plain (action : ZAction) (addr kind : Bytes) (addrValue kindValue : UInt64)
    (addrNumber : Digits addr addrValue) (kindNumber : Digits kind kindValue) : BreakpointPacket where
  action := action
  addr := addr
  kind := kind
  lists := []
  breakpoint := ⟨addrValue, kindValue, none, none⟩
  addrNumber := addrNumber
  kindNumber := kindNumber
  listsAccepted := by
    cases action with
    | insert => rfl
    | remove => exact ⟨rfl, rfl, rfl⟩

/-! ### Their meaning -/

/-- Lists begin with a semicolon. -/
theorem lists_stop {lists : Bytes} {value : Option (List Bytecode) × Option (List Bytecode)}
    (accepted : parseCondAndCommandList lists = .done [] value) :
    ∀ b ∈ lists.head?, isHexDigit b = false := by
  intro b first
  cases lists with
  | nil => cases first
  | cons c rest =>
    cases first
    by_cases semicolon : b = 59
    · subst semicolon
      rfl
    · -- neither list starts here, and a command list that is not there is an error
      have noConditions : literal ";" (b :: rest) = .error := by
        have first : ascii ";" = [59] := rfl
        simp [literal, tag, first, List.isPrefixOf, Ne.symm semicolon, semicolon]
      have noCommands : literal ";cmds" (b :: rest) = .error := by
        have first : ascii ";cmds" = [59, 99, 109, 100, 115] := rfl
        simp [literal, tag, first, List.isPrefixOf, Ne.symm semicolon, semicolon]
      have conditions : maybeConditionList (b :: rest) = .done (b :: rest) none := by
        simp only [maybeConditionList, parseConditionList, bind_apply, noConditions, andThen_error]
      have commands : maybeCommandList (b :: rest) = .error := by
        simp only [maybeCommandList, parseCommandList, bind_apply, noCommands, andThen_error]
      rw [parseCondAndCommandList, bind_apply, conditions, andThen_done, bind_apply, commands] at accepted
      cases accepted

/-- The first byte of a packet leaves only one alternative. -/
theorem command_z (action : ZAction) (rest : Bytes) :
    GdbRemote.command (ascii action.letter ++ rest) = parseZPacket (ascii action.letter ++ rest) := by
  cases action
  all_goals
    change GdbRemote.command (_ :: rest) = parseZPacket (_ :: rest)
    unfold GdbRemote.command
    -- all the other parsers of the choice want another first byte
    repeat rw [alt_cons_of_error (by rfl)]
    exact alt_cons_of_others_error parseZPacket rfl

theorem parseZPacket_fields (action : ZAction) (type : ZType) {addr kind lists : Bytes}
    {addrValue kindValue : UInt64} (addrNumber : Digits addr addrValue) (kindNumber : Digits kind kindValue)
    (stops : ∀ b ∈ lists.head?, isHexDigit b = false) :
    parseZPacket (ascii (zName action type) ++ (addr ++ (ascii "," ++ (kind ++ lists)))) =
      match action with
      | .insert => insertCommand type addrValue kindValue lists
      | .remove => .done lists (removeCommand type addrValue kindValue) := by
  -- the address ends at the comma, the kind at whatever follows
  have comma : ∀ b ∈ (ascii "," ++ (kind ++ lists)).head?, isHexDigit b = false :=
    stops_at_mark rfl _
  simp only [zName, ascii_append, List.append_assoc, parseZPacket, bind_apply,
    (parseZAction_done_iff _ _ action).mpr rfl, (parseZType_done_iff _ _ type).mpr rfl,
    andThen_done, literal_append, hexValue_digits addrNumber comma, hexValue_digits kindNumber stops]
  cases action <;> rfl

/-- The request parser reads a packet as what it says, to its end. -/
theorem command_text (packet : BreakpointPacket) :
    GdbRemote.command packet.text = .done [] packet.command := by
  obtain ⟨action, addr, kind, lists, ⟨addrValue, kindValue, conditions, commands⟩, addrNumber, kindNumber,
    accepted⟩ := packet
  -- the lists come last, so what stops the number of the kind is their first byte
  have first : GdbRemote.command (ascii (zName action .softwareBreakpoint) ++
      (addr ++ (ascii "," ++ (kind ++ lists)))) = parseZPacket (ascii (zName action .softwareBreakpoint) ++
      (addr ++ (ascii "," ++ (kind ++ lists)))) := by
    simp only [zName, ascii_append, List.append_assoc]
    exact command_z action _
  rw [BreakpointPacket.text, first]
  cases action with
  | insert =>
    rw [parseZPacket_fields .insert .softwareBreakpoint addrNumber kindNumber (lists_stop accepted)]
    simp only [insertCommand, map_apply, unwrapDone, accepted, andThen_done, BreakpointPacket.command]
  | remove =>
    simp only [BreakpointPacket.command]
    obtain ⟨rfl, rfl, rfl⟩ := accepted
    rw [parseZPacket_fields .remove .softwareBreakpoint addrNumber kindNumber (by simp)]
    rfl

end GdbRemote
