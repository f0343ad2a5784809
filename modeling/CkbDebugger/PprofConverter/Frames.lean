import CkbDebugger.Pprof.Flamegraph
import CkbDebugger.Text.Split

/-!
# Reading a flame graph

The pprof converter reads the text that `display_flamegraph` writes. The two share only the
format: lines of names with `"; "` between them, a name being a file, `":"` and a function,
and the cycles after the last space.
-/
namespace PprofConverter

open Tree (Arena)
open Pprof (Profile Tags TrieNode nodeName nodeLine pathText)
open Text (cutFirst cutLast splitPair lines)

/-! ### The parser -/

structure Symbol where
  name : Option String
  file : Option String
  deriving Repr, DecidableEq

structure Frame where
  stack : List Symbol
  cycles : UInt64
  deriving Repr, DecidableEq

def normalizeFunctionName (name : String) : String :=
  String.ofList ((name.toList.map fun c => if c = '<' then '\x7b' else c).map
    fun c => if c = '>' then '\x7d' else c)

/-- `u64::from_str`: decimal digits, at least one, after an optional `+`. -/
def u64FromStr (text : List Char) : Option UInt64 :=
  let digits := match text with
    | '+' :: rest => rest
    | text => text
  -- no digits, another character and an overflow are all the same error
  if digits ≠ [] ∧ digits.all Char.isDigit = true ∧ Nat.ofDigitChars 10 digits 0 < UInt64.size then
    some (UInt64.ofNat (Nat.ofDigitChars 10 digits 0))
  else none

/-- The symbol of a name in a stack. -/
def parseSymbol (s : List Char) : Symbol :=
  match cutFirst ':' s with
  | some (file, name) =>
    { file := some (String.ofList file), name := some (normalizeFunctionName (String.ofList name)) }
  -- a piece without a colon, such as the rest of a name with `"; "` in it, has no file
  | none => { name := some (normalizeFunctionName (String.ofList s)), file := none }

/-- The frame of a line. `none` is a failed `expect`: no space, or no number after it. -/
def parseLine (line : List Char) : Option Frame :=
  match cutLast ' ' line with
  | none => none
  | some (path, count) =>
    (u64FromStr count).map fun cycles =>
      { stack := ((splitPair ';' ' ' path).map parseSymbol).reverse, cycles := cycles }

def readFrames (text : List Char) : Option (List Frame) := (lines '\n' '\r' text).mapM parseLine

/-! ### What the text stands for -/

section Expected

variable (getTag : UInt64 → Tags) (trie : Arena TrieNode)

/-- The symbol that a node stands for. -/
def nodeSymbol (i : Nat) : Symbol where
  name := some (normalizeFunctionName (getTag (trie.label i).addr).funcName)
  file := some (getTag (trie.label i).addr).file

/-- The frame that a node stands for: its path with the leaf first, and its cycles. -/
def nodeFrame (i : Nat) : Frame where
  stack := (trie.ancestors i).map (nodeSymbol getTag trie)
  cycles := (trie.label i).cycles

/-- The separators do not occur where they would be taken for a part of the format. -/
def Separable (tags : Tags) : Prop :=
  ':' ∉ tags.file.toList ∧ ¬[';', ' '] <:+: tags.file.toList ∧ ¬[';', ' '] <:+: tags.funcName.toList

instance (tags : Tags) : Decidable (Separable tags) :=
  inferInstanceAs (Decidable (_ ∧ ¬_ <:+: _ ∧ ¬_ <:+: _))

def OneLine (tags : Tags) : Prop := '\n' ∉ tags.file.toList ∧ '\n' ∉ tags.funcName.toList

instance (tags : Tags) : Decidable (OneLine tags) := inferInstanceAs (Decidable (_ ∧ _))

end Expected

/-! ### Numbers -/

theorem not_mem_toDigits (n : Nat) (c : Char) (other : c.isDigit = false) : c ∉ Nat.toDigits 10 n := by
  intro member
  rw [Nat.isDigit_of_mem_toDigits (by decide) (by decide) member] at other
  cases other

theorem u64FromStr_toDigits (n : UInt64) : u64FromStr (Nat.toDigits 10 n.toNat) = some n := by
  have digits : ∀ c ∈ Nat.toDigits 10 n.toNat, c.isDigit = true := fun c member =>
    Nat.isDigit_of_mem_toDigits (by decide) (by decide) member
  have plain : (match Nat.toDigits 10 n.toNat with
      | '+' :: rest => rest
      | text => text) = Nat.toDigits 10 n.toNat := by
    split
    next rest known =>
      exact absurd (known ▸ List.mem_cons_self) (not_mem_toDigits n.toNat '+' (by decide))
    next => rfl
  unfold u64FromStr
  rw [plain]
  simp only
  have fits : Nat.ofDigitChars 10 (Nat.toDigits 10 n.toNat) 0 < 2 ^ 64 := by
    rw [Nat.ofDigitChars_ten_toDigits]
    exact n.toNat_lt
  rw [if_pos ⟨Nat.toDigits_ne_nil, List.all_eq_true.mpr digits, fits⟩,
    Nat.ofDigitChars_ten_toDigits, UInt64.ofNat_toNat]

/-! ### Paths -/

section Paths

variable (getTag : UInt64 → Tags) (trie : Arena TrieNode)

/-- The pieces that the converter sees in the name of a node. -/
def namePieces (i : Nat) : List (List Char) := splitPair ';' ' ' (nodeName getTag trie i).toList

theorem splitPair_pathText (above : List Nat) (present : above ≠ []) :
    splitPair ';' ' ' (pathText getTag trie above).toList =
      above.reverse.flatMap (namePieces getTag trie) := by
  fun_induction pathText getTag trie above with
  | case1 => exact absurd rfl present
  | case2 i => simp [namePieces]
  | case3 i above others ih =>
    have text : (pathText getTag trie above ++ "; " ++ nodeName getTag trie i).toList =
        (pathText getTag trie above).toList ++ ';' :: ' ' :: (nodeName getTag trie i).toList := by
      simp
    rw [text, Text.splitPair_append ';' ' ' (by decide), ih (by simpa using others), List.reverse_cons,
      List.flatMap_append]
    simp [namePieces]

/-- The line of a node without its end. -/
def lineText (i : Nat) : List Char :=
  (pathText getTag trie (trie.ancestors i)).toList ++ ' ' :: Nat.toDigits 10 (trie.label i).cycles.toNat

theorem nodeLine_toList (i : Nat) : (nodeLine getTag trie i).toList = lineText getTag trie i ++ ['\n'] := by
  have count : (toString (trie.label i).cycles).toList = Nat.toDigits 10 (trie.label i).cycles.toNat :=
    Nat.toList_repr
  simp [nodeLine, lineText, count]

theorem ancestors_ne_nil (i : Nat) : trie.ancestors i ≠ [] :=
  List.ne_nil_of_mem (trie.mem_ancestors_self i)

/-- The cycles are after the last space whatever the names are, since digits are no spaces. -/
theorem parseLine_lineText (i : Nat) : parseLine (lineText getTag trie i) =
    some { stack := (((trie.ancestors i).reverse.flatMap (namePieces getTag trie)).map parseSymbol).reverse
           cycles := (trie.label i).cycles } := by
  unfold parseLine lineText
  rw [Text.cutLast_append ' ' _ _ (not_mem_toDigits _ ' ' (by decide))]
  simp only
  rw [u64FromStr_toDigits, Option.map_some,
    splitPair_pathText getTag trie _ (ancestors_ne_nil trie i)]

/-! ### Lines -/

theorem not_mem_pathText (above : List Nat) (oneLine : ∀ i ∈ above, OneLine (getTag (trie.label i).addr)) :
    '\n' ∉ (pathText getTag trie above).toList := by
  -- the induction is on the path, where only the names are left
  have name : ∀ i ∈ above, '\n' ∉ (nodeName getTag trie i).toList := by
    intro i member
    have tags := oneLine i member
    simp [nodeName, Tags.simple, tags.1, tags.2]
  clear oneLine
  fun_induction pathText getTag trie above with
  | case1 => simp
  | case2 i => exact name i List.mem_cons_self
  | case3 i above others ih =>
    have first := name i List.mem_cons_self
    have rest := ih fun j member => name j (List.mem_cons_of_mem i member)
    simp [first, rest]

theorem not_mem_lineText (i : Nat) (oneLine : ∀ j ∈ trie.ancestors i, OneLine (getTag (trie.label j).addr)) :
    '\n' ∉ lineText getTag trie i := by
  have path := not_mem_pathText getTag trie (trie.ancestors i) oneLine
  have count := not_mem_toDigits (trie.label i).cycles.toNat '\n' (by decide)
  simp [lineText, path, count]

theorem lineText_getLast (i : Nat) : (lineText getTag trie i).getLast? ≠ some '\r' := by
  have count := not_mem_toDigits (trie.label i).cycles.toNat '\r' (by decide)
  intro last
  rw [lineText, List.append_cons, List.getLast?_append_of_ne_nil _ Nat.toDigits_ne_nil] at last
  exact count (List.mem_of_getLast? last)

theorem lines_nodeLine (nodes : List Nat)
    (oneLine : ∀ i ∈ nodes, ∀ j ∈ trie.ancestors i, OneLine (getTag (trie.label j).addr)) :
    lines '\n' '\r' ((nodes.map (nodeLine getTag trie)).flatMap String.toList) =
      nodes.map (lineText getTag trie) := by
  have text : (nodes.map (nodeLine getTag trie)).flatMap String.toList =
      (nodes.map (lineText getTag trie)).flatMap (· ++ ['\n']) := by
    simp only [List.flatMap_map, nodeLine_toList]
  rw [text]
  apply Text.lines_flatMap
  · intro l member
    obtain ⟨i, inside, rfl⟩ := List.mem_map.mp member
    exact not_mem_lineText getTag trie i (oneLine i inside)
  · intro l member
    obtain ⟨i, inside, rfl⟩ := List.mem_map.mp member
    exact lineText_getLast getTag trie i

/-! ### Names -/

theorem nodeName_toList (i : Nat) : (nodeName getTag trie i).toList =
    (getTag (trie.label i).addr).file.toList ++ ':' :: (getTag (trie.label i).addr).funcName.toList := by
  simp [nodeName, Tags.simple]

theorem parseSymbol_nodeName (i : Nat) (noColon : ':' ∉ (getTag (trie.label i).addr).file.toList) :
    parseSymbol (nodeName getTag trie i).toList = nodeSymbol getTag trie i := by
  rw [nodeName_toList, parseSymbol, Text.cutFirst_append ':' _ _ noColon]
  simp only [nodeSymbol, String.ofList_toList]

/-- A file with a colon is cut at it. -/
theorem not_mem_of_parseSymbol (i : Nat)
    (same : parseSymbol (nodeName getTag trie i).toList = nodeSymbol getTag trie i) :
    ':' ∉ (getTag (trie.label i).addr).file.toList := by
  unfold parseSymbol at same
  cases cut : cutFirst ':' (nodeName getTag trie i).toList with
  | none =>
    rw [cut] at same
    cases congrArg Symbol.file same
  | some parts =>
    obtain ⟨file, name⟩ := parts
    rw [cut] at same
    have equal : String.ofList file = (getTag (trie.label i).addr).file :=
      Option.some.inj (congrArg Symbol.file same)
    rw [← equal, String.toList_ofList]
    exact Text.not_mem_of_cutFirst cut

theorem namePieces_of_separable (i : Nat) (separable : Separable (getTag (trie.label i).addr)) :
    namePieces getTag trie i = [(nodeName getTag trie i).toList] := by
  obtain ⟨-, file, func⟩ := separable
  apply Text.splitPair_of_not_infix
  rw [nodeName_toList, Text.pair_infix_append_cons ';' ' ' ':' _ _ (by decide) (by decide)]
  rintro (inFile | inFunc)
  · exact file inFile
  · exact func inFunc

theorem one_le_length_namePieces (i : Nat) : 1 ≤ (namePieces getTag trie i).length :=
  List.length_pos_iff.mpr (Text.splitPair_ne_nil ';' ' ' _)

theorem not_infix_of_one_piece (i : Nat) (one : (namePieces getTag trie i).length = 1) :
    ¬[';', ' '] <:+: (nodeName getTag trie i).toList := by
  intro inside
  have two := Text.two_le_length_splitPair ';' ' ' (by decide) _ inside
  rw [namePieces] at one
  omega

/-! ### Frames -/

theorem flatMap_eq_map_of_separable (nodes : List Nat)
    (separable : ∀ i ∈ nodes, Separable (getTag (trie.label i).addr)) :
    nodes.flatMap (namePieces getTag trie) = nodes.map fun i => (nodeName getTag trie i).toList := by
  induction nodes with
  | nil => rfl
  | cons i nodes ih =>
    rw [List.flatMap_cons, namePieces_of_separable getTag trie i (separable i List.mem_cons_self),
      ih fun j member => separable j (List.mem_cons_of_mem i member)]
    rfl

theorem length_le_length_flatMap (nodes : List Nat) :
    nodes.length ≤ (nodes.flatMap (namePieces getTag trie)).length := by
  induction nodes with
  | nil => exact Nat.le_refl 0
  | cons i nodes ih =>
    have one := one_le_length_namePieces getTag trie i
    rw [List.flatMap_cons, List.length_append, List.length_cons]
    omega

/-- As many pieces as names: no name was cut. -/
theorem one_piece_of_length (nodes : List Nat)
    (same : (nodes.flatMap (namePieces getTag trie)).length = nodes.length) :
    ∀ i ∈ nodes, (namePieces getTag trie i).length = 1 := by
  induction nodes with
  | nil => exact fun i member => absurd member List.not_mem_nil
  | cons i nodes ih =>
    have one := one_le_length_namePieces getTag trie i
    have rest := length_le_length_flatMap getTag trie nodes
    rw [List.flatMap_cons, List.length_append, List.length_cons] at same
    intro j member
    rcases List.mem_cons.mp member with rfl | member
    · omega
    · exact ih (by omega) j member

theorem parseLine_of_separable (i : Nat)
    (separable : ∀ j ∈ trie.ancestors i, Separable (getTag (trie.label j).addr)) :
    parseLine (lineText getTag trie i) = some (nodeFrame getTag trie i) := by
  rw [parseLine_lineText, nodeFrame,
    flatMap_eq_map_of_separable getTag trie _ fun j member => separable j (List.mem_reverse.mp member),
    List.map_reverse, List.map_reverse, List.reverse_reverse, List.map_map]
  have symbols : (trie.ancestors i).map (parseSymbol ∘ fun j => (nodeName getTag trie j).toList) =
      (trie.ancestors i).map (nodeSymbol getTag trie) :=
    List.map_congr_left fun j member => parseSymbol_nodeName getTag trie j (separable j member).1
  rw [symbols]

/-- The line of a node reads back only if its own name can be told from the rest: the stack
is as long as the path, and its first symbol is that of the node. -/
theorem separable_of_parseLine (i : Nat)
    (parsed : parseLine (lineText getTag trie i) = some (nodeFrame getTag trie i)) :
    Separable (getTag (trie.label i).addr) := by
  rw [parseLine_lineText] at parsed
  have symbols := congrArg Frame.stack (Option.some.inj parsed)
  -- every name has a piece at least, so as many symbols as names means one piece each
  have lengths := congrArg List.length symbols
  simp only [nodeFrame, List.length_reverse, List.length_map] at lengths
  have one := one_piece_of_length getTag trie (trie.ancestors i).reverse
    (by rw [lengths, List.length_reverse]) i (List.mem_reverse.mpr (trie.mem_ancestors_self i))
  have absent := not_infix_of_one_piece getTag trie i one
  have whole : namePieces getTag trie i = [(nodeName getTag trie i).toList] :=
    Text.splitPair_of_not_infix ';' ' ' _ absent
  rw [nodeFrame, Arena.ancestors_eq] at symbols
  simp only [List.reverse_cons, List.flatMap_append, List.flatMap_cons, List.flatMap_nil, whole,
    List.append_nil, List.map_append, List.map_cons, List.map_nil, List.reverse_append, List.reverse_nil,
    List.nil_append, List.cons_append, List.cons.injEq] at symbols
  -- the leaf is the first symbol, and it was read from the whole name
  have noColon := not_mem_of_parseSymbol getTag trie i symbols.1
  rw [nodeName_toList, Text.pair_infix_append_cons ';' ' ' ':' _ _ (by decide) (by decide), not_or] at absent
  exact ⟨noColon, absent.1, absent.2⟩

/-! ### The round trip -/

theorem mapM_parseLine_iff (nodes : List Nat) :
    (nodes.map (lineText getTag trie)).mapM parseLine = some (nodes.map (nodeFrame getTag trie)) ↔
      ∀ i ∈ nodes, parseLine (lineText getTag trie i) = some (nodeFrame getTag trie i) := by
  induction nodes with
  | nil => simp
  | cons i nodes ih =>
    rw [List.map_cons, List.map_cons, List.mapM_cons, List.forall_mem_cons, ← ih]
    cases parseLine (lineText getTag trie i) with
    | none => simp
    | some frame =>
      cases (nodes.map (lineText getTag trie)).mapM parseLine with
      | none => simp
      | some frames => simp

end Paths

theorem mem_preorder (trie : Arena TrieNode) (i : Nat) : i ∈ trie.preorder 0 ↔ i < trie.size := by
  rw [trie.preorder_perm.mem_iff, List.mem_range]

theorem readFrames_displayFlamegraph (p : Profile) (getTag : UInt64 → Tags)
    (oneLine : ∀ i < p.trie.size, OneLine (getTag (p.trie.label i).addr)) :
    readFrames ((p.displayFlamegraph getTag).flatMap String.toList) =
      ((p.trie.preorder 0).map (lineText getTag p.trie)).mapM parseLine := by
  rw [(Pprof.flameTree_of_total p).printed getTag, readFrames, lines_nodeLine]
  intro i member j above
  have inside := (mem_preorder p.trie i).mp member
  have upwards := p.trie.ancestors_le i j above
  exact oneLine j (by omega)

/-- The converter reads back from a flame graph the nodes in preorder, each with its path and
cycles, exactly if no name in it has a separator in a place where the format has none. -/
theorem flamegraph_reads_back_iff (p : Profile) (getTag : UInt64 → Tags)
    (oneLine : ∀ i < p.trie.size, OneLine (getTag (p.trie.label i).addr)) :
    readFrames ((p.displayFlamegraph getTag).flatMap String.toList) =
        some ((p.trie.preorder 0).map (nodeFrame getTag p.trie)) ↔
      ∀ i < p.trie.size, Separable (getTag (p.trie.label i).addr) := by
  rw [readFrames_displayFlamegraph p getTag oneLine, mapM_parseLine_iff]
  constructor
  · intro parsed i inside
    exact separable_of_parseLine getTag p.trie i (parsed i ((mem_preorder p.trie i).mpr inside))
  · intro separable i member
    apply parseLine_of_separable
    intro j above
    have inside := (mem_preorder p.trie i).mp member
    have upwards := p.trie.ancestors_le i j above
    exact separable j (by omega)

/-- The debug information of a program with two functions in one file. -/
def plainTags (addr : UInt64) : Tags where
  addr := addr
  file := "main.c"
  line := 1
  func := if addr = 0x100 then "main" else "std::vector<int>::size"

/-- The flame graph of a call from `main` reads back. -/
theorem call_reads_back : ∃ p,
    (Profile.new 0x100 (fun addr => addr == 0x200) 0 0).run [Pprof.jumpAndLink] = some (p, 3) ∧
    readFrames ((p.displayFlamegraph plainTags).flatMap String.toList) =
      some ((p.trie.preorder 0).map (nodeFrame plainTags p.trie)) := by
  refine ⟨_, rfl, (flamegraph_reads_back_iff _ plainTags ?_).mpr ?_⟩
  · decide
  · decide

/-- The debug information of a program with a function for arrays of four bytes. -/
def arrayTags (addr : UInt64) : Tags where
  addr := addr
  file := "lib.rs"
  line := 1
  func := "<[u8; 4] as core::fmt::Debug>::fmt"

/-- A run that stays in one function. -/
def oneNode : Profile := .new 0x100 (fun _ => false) 0 0

/-- The name of a Rust function for arrays, which has `"; "` in a type, is read as two
functions. -/
theorem array_type_splits_name :
    (∀ i < oneNode.trie.size, OneLine (arrayTags (oneNode.trie.label i).addr)) ∧
    readFrames ((oneNode.displayFlamegraph arrayTags).flatMap String.toList) ≠
      some ((oneNode.trie.preorder 0).map (nodeFrame arrayTags oneNode.trie)) := by
  have oneLine : ∀ i < oneNode.trie.size, OneLine (arrayTags (oneNode.trie.label i).addr) := by decide
  refine ⟨oneLine, ?_⟩
  intro reads
  rw [readFrames_displayFlamegraph oneNode arrayTags oneLine, mapM_parseLine_iff] at reads
  have parsed := reads 0 ((mem_preorder oneNode.trie 0).mpr Nat.one_pos)
  have separable := separable_of_parseLine arrayTags oneNode.trie 0 parsed
  exact separable.2.2 (by decide)

end PprofConverter
