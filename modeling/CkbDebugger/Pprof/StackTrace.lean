import CkbDebugger.Pprof.CallStack
import CkbDebugger.Table.Basic
import Mathlib.Data.List.TakeWhile

/-!
# Stack traces

When a run ends with an error, the nodes from the current one up to the root are printed as a stack trace.
The trie is there for the flame graph alone: a stack of activations, from which returned ones are dropped,
goes through every run with the same results and gives the same trace.
-/
namespace Pprof

open Tree (Arena)
open CkbVm (Error A0 SP)

/-! ### Tags -/

def Tags.detail (tags : Tags) : String :=
  if tags.line = 0xffffffff then tags.file ++ ":??:" ++ tags.func
  else tags.file ++ ":" ++ toString tags.line ++ ":" ++ tags.func

/-- `Tags::new`. -/
def Tags.unknown (addr : UInt64) : Tags := ⟨addr, "??", 0xffffffff, "??"⟩

abbrev TagCache : Type := UInt64 → Option Tags

/-- `get_tag`. `lookup` is what the debug information has for an address; `none` is a panic. -/
def getTag (lookup : UInt64 → Option Tags) (addr : UInt64) : StateT TagCache Option Tags := fun cache =>
  match cache addr with
  | some tag => some (tag, cache)
  | none => (lookup addr).map fun tag => (tag, Table.insert cache addr tag)

/-- The lines that `display_stacktrace` writes. -/
def Profile.displayStacktrace (lookup : UInt64 → Option Tags) (leading : String) (p : Profile) :
    StateT TagCache Option (List String) := do
  let here ← getTag lookup p.node.pc
  let links ← (p.trie.ancestors p.trieNode).mapM fun frame => getTag lookup (p.trie.label frame).link
  return ((here :: links).map Tags.detail).reverse.map fun line => leading ++ line ++ "\n"

/-! ### The stack of activations -/

/-- The activations that have not returned, with the one that runs on top. -/
structure Shadow where
  top : TrieNode
  below : List TrieNode
  cacheFun : UInt64 → Bool
  sbrkAddr : UInt64
  sbrkHeap : UInt64

namespace Shadow

def new (entry : UInt64) (cacheFun : UInt64 → Bool) (sbrkAddr sbrkHeap : UInt64) : Shadow :=
  ⟨.root entry, [], cacheFun, sbrkAddr, sbrkHeap⟩

def charge (s : Shadow) (cycles pc : UInt64) : Shadow :=
  { s with top := { s.top with cycles := s.top.cycles + cycles, pc := pc } }

def call (s : Shadow) (view : View) (addr link : UInt64) : Shadow :=
  { s with top := ⟨addr, link, view.pc, 0, view.registers, fun _ => 0⟩, below := s.top :: s.below }

/-- The program break after the activation on top has returned. -/
def breakAfter (s : Shadow) (view : View) : UInt64 :=
  if s.top.addr = s.sbrkAddr then s.top.entryRegs A0 + view.registers A0 else s.sbrkHeap

/-- A jump that is not a call drops all activations down to the one with the link. The last one has
nothing below it. -/
def quit (s : Shadow) (view : View) (addr : UInt64) : Option Shadow :=
  match (s.top :: s.below).dropWhile fun node => node.link != addr with
  | [] => some s
  | [_] => none
  | _ :: caller :: rest => some { s with top := caller, below := rest, sbrkHeap := s.breakAfter view }

def step (s : Shadow) (view : View) : Option (Except Error Unit × Shadow) :=
  if view.registers SP < s.sbrkHeap then
    some (.error (.external s!"Heap and stack overlapping sp={view.registers SP} heap={s.sbrkHeap}"), s)
  else
    match view.decoded with
    | .error e => some (.error e, s)
    | .ok inst =>
      let charged := s.charge (view.instructionCycleFunc inst) view.pc
      match view.jumpTarget inst with
      | none => some (.ok (), charged)
      | some addr =>
        if charged.cacheFun addr then some (.ok (), charged.call view addr (view.link inst))
        else (charged.quit view addr).map fun left => (.ok (), left)

/-- The links of the activations, the outermost first, and the program counter of the one on top. -/
def addresses (s : Shadow) : List UInt64 := (s.top.pc :: (s.top :: s.below).map TrieNode.link).reverse

def trace (lookup : UInt64 → Option Tags) (leading : String) (s : Shadow) : Option (List String) :=
  (s.addresses.mapM lookup).map (List.map fun tag => leading ++ tag.detail ++ "\n")

end Shadow

/-- The activations of a profile are the nodes on the way to the root. -/
def Profile.shadow (p : Profile) : Shadow where
  top := p.node
  below := (p.trie.ancestors p.trieNode).tail.map p.trie.label
  cacheFun := p.cacheFun
  sbrkAddr := p.sbrkAddr
  sbrkHeap := p.sbrkHeap

theorem Profile.shadow_stack (p : Profile) :
    p.shadow.top :: p.shadow.below = (p.trie.ancestors p.trieNode).map p.trie.label := by
  rw [Arena.ancestors_eq]
  simp only [Profile.shadow, Profile.node, Arena.ancestors_eq p.trie p.trieNode, List.tail_cons, List.map_cons]

/-! ### One step -/

theorem shadow_charge (p : Profile) (cycles pc : UInt64) :
    (p.charge cycles pc).shadow = p.shadow.charge cycles pc := by
  have top : (p.charge cycles pc).node = { p.node with cycles := p.node.cycles + cycles, pc := pc } := if_pos rfl
  have below : ((p.charge cycles pc).trie.ancestors p.trieNode).tail.map (p.charge cycles pc).trie.label =
      (p.trie.ancestors p.trieNode).tail.map p.trie.label := by
    simp only [Profile.charge, Profile.modify, Arena.ancestors_relabel]
    apply List.map_congr_left
    intro i member
    exact if_neg (Arena.ne_of_mem_tail_ancestors p.trie member)
  simp only [Profile.shadow, top, Shadow.charge]
  rw [show (p.charge cycles pc).trieNode = p.trieNode from rfl, below]
  rfl

theorem shadow_call (p : Profile) (view : View) (addr link : UInt64) :
    (p.call view addr link).shadow = p.shadow.call view addr link := by
  have top : (p.call view addr link).node = ⟨addr, link, view.pc, 0, view.registers, fun _ => 0⟩ := if_pos rfl
  have parent : (p.call view addr link).trie.parent p.trie.size = some p.trieNode := if_pos rfl
  -- the nodes that were there are below the new one, as they were
  have below : ((p.call view addr link).trie.ancestors p.trie.size).tail.map (p.call view addr link).trie.label =
      p.shadow.top :: p.shadow.below := by
    rw [Arena.ancestors_eq, parent, List.tail_cons, Profile.shadow_stack]
    simp only [Profile.call]
    rw [Arena.ancestors_push _ _ _ p.inside p.inside]
    apply List.map_congr_left
    intro i member
    have old := p.trie.ancestors_le p.trieNode i member
    have inside := p.inside
    exact if_neg (by omega)
  simp only [Profile.shadow, top, Shadow.call]
  rw [show (p.call view addr link).trieNode = p.trie.size from rfl, below]
  rfl

/-- The activations from the one with a link on. -/
theorem dropWhile_shadow (p : Profile) (addr : UInt64) :
    ((p.shadow.top :: p.shadow.below).dropWhile fun node => node.link != addr) =
      match (p.trie.ancestors p.trieNode).find? fun f => (p.trie.label f).link == addr with
      | some f => (p.trie.ancestors f).map p.trie.label
      | none => [] := by
  have found := p.trie.dropWhile_ancestors (fun f => (p.trie.label f).link == addr) p.trieNode
  rw [Profile.shadow_stack, List.dropWhile_map]
  simp only [Function.comp_def, bne]
  rw [found]
  cases (p.trie.ancestors p.trieNode).find? fun f => (p.trie.label f).link == addr <;> rfl

/-- What a return does to the program break, and what becomes of it without a parent to return to. -/
theorem quitOrSkip_break {p : Profile} {view : View} {addr : UInt64} {f : Nat}
    (found : (p.trie.ancestors p.trieNode).find? (fun f => (p.trie.label f).link == addr) = some f) :
    (p.trie.parent f = none → p.quitOrSkip view addr = none) ∧
      ∀ left, p.quitOrSkip view addr = some left →
        left.sbrkAddr = p.sbrkAddr ∧ left.sbrkHeap = p.shadow.breakAfter view := by
  have node : (p.modify fun node => { node with exitRegs := view.registers }).node =
      { p.node with exitRegs := view.registers } := if_pos rfl
  unfold Profile.quitOrSkip
  rw [found]
  simp only
  split
  next q known =>
    refine ⟨fun missing => absurd (known.symm.trans missing) (by simp), fun left same => ?_⟩
    cases same
    refine ⟨rfl, ?_⟩
    simp only [Profile.sbrkOrSkip, node]
    rfl
  next missing => exact ⟨fun _ => rfl, fun left same => by cases same⟩

theorem shadow_quit (p : Profile) (view : View) (addr : UInt64) :
    (p.quitOrSkip view addr).map Profile.shadow = p.shadow.quit view addr := by
  have drop := dropWhile_shadow p addr
  unfold Shadow.quit
  rw [drop]
  cases found : (p.trie.ancestors p.trieNode).find? fun f => (p.trie.label f).link == addr with
  | none => rw [quitOrSkip_of_none found, Option.map_some]
  | some f =>
    obtain ⟨panics, heap⟩ := @quitOrSkip_break p view addr f found
    simp only
    rw [Arena.ancestors_eq]
    cases known : p.trie.parent f with
    | none =>
      rw [panics known]
      rfl
    | some q =>
      obtain ⟨left, returned, here, functions, trie⟩ := @quitOrSkip_of_find p view addr f q found known
      obtain ⟨sbrkAddr, sbrkHeap⟩ := heap left returned
      have before := p.trie.later q f known
      have above := p.trie.ancestors_le p.trieNode f (List.mem_of_find?_eq_some found)
      -- only the label of the node that is left has changed, and the way from `q` does not meet it
      have label (i : Nat) (below : i ≤ q) : left.trie.label i = p.trie.label i := by
        rw [trie]
        exact if_neg (by omega)
      have stack : left.shadow.top :: left.shadow.below = (p.trie.ancestors q).map p.trie.label := by
        rw [Profile.shadow_stack, here, trie, Arena.ancestors_relabel, ← trie]
        exact List.map_congr_left fun i member => label i (p.trie.ancestors_le q i member)
      have functions' : left.shadow.cacheFun = p.shadow.cacheFun := functions
      have sbrkAddr' : left.shadow.sbrkAddr = p.shadow.sbrkAddr := sbrkAddr
      rw [returned, Option.map_some]
      simp only [List.map_cons]
      rw [← stack, ← functions', ← sbrkAddr', ← sbrkHeap]
      rfl

theorem shadow_step (p : Profile) (view : View) :
    (p.step view).map (Prod.map id Profile.shadow) = p.shadow.step view := by
  unfold Profile.step Shadow.step
  -- of the profile, the guard of the stack reads `sbrk_heap` alone
  rw [show p.shadow.sbrkHeap = p.sbrkHeap from rfl]
  split
  · rfl
  · cases view.decoded with
    | error e => rfl
    | ok inst =>
      simp only
      rw [← shadow_charge]
      cases view.jumpTarget inst with
      | none => rfl
      | some addr =>
        simp only
        rw [show (p.charge (view.instructionCycleFunc inst) view.pc).shadow.cacheFun = p.cacheFun from rfl,
          show (p.charge (view.instructionCycleFunc inst) view.pc).cacheFun = p.cacheFun from rfl, ← shadow_quit,
          ← shadow_call]
        split
        · rfl
        · simp only [Option.map_map]
          rfl

/-! ### Runs -/

/-- Steps until one of them fails or panics. -/
def runSteps {σ : Type} (step : σ → View → Option (Except Error Unit × σ)) :
    σ → List View → Option (Except Error Unit × σ)
  | s, [] => some (.ok (), s)
  | s, view :: views =>
    match step s view with
    | none => none
    | some (.error e, last) => some (.error e, last)
    | some (.ok (), next) => runSteps step next views

/-- A map of states that goes along with every step goes along with whole runs. -/
theorem runSteps_map {σ τ : Type} {step : σ → View → Option (Except Error Unit × σ)}
    {step' : τ → View → Option (Except Error Unit × τ)} (f : σ → τ)
    (square : ∀ s view, (step s view).map (Prod.map id f) = step' (f s) view) (s : σ) (views : List View) :
    (runSteps step s views).map (Prod.map id f) = runSteps step' (f s) views := by
  induction views generalizing s with
  | nil => rfl
  | cons view views ih =>
    rw [runSteps, runSteps, ← square]
    rcases step s view with _ | ⟨_ | _, next⟩
    · rfl
    · rfl
    · exact ih next

/-! ### The cache of tags -/

/-- What is in the cache is what a lookup gives. -/
def TagCache.Sound (lookup : UInt64 → Option Tags) (cache : TagCache) : Prop :=
  ∀ addr tag, cache addr = some tag → lookup addr = some tag

/-- The cache after lookups of some addresses. -/
def cacheAfter (lookup : UInt64 → Option Tags) (looked : List UInt64) : TagCache :=
  looked.foldl (fun cache addr => ((getTag lookup addr cache).map Prod.snd).getD cache) fun _ => none

/-- Without a state the order in which the values are computed does not show. -/
theorem mapM_reverse {α β : Type} (f : α → Option β) (as : List α) :
    as.reverse.mapM f = (as.mapM f).map List.reverse := by
  induction as with
  | nil => rfl
  | cons a as ih =>
    rw [List.reverse_cons, List.mapM_append, ih, List.mapM_cons]
    cases first : f a <;> cases rest : as.mapM f <;> simp [first, rest]

section Cache

variable {lookup : UInt64 → Option Tags} {cache : TagCache}

theorem getTag_sound (sound : cache.Sound lookup) (addr : UInt64) :
    (getTag lookup addr cache).map Prod.fst = lookup addr ∧
      ∀ tag next, getTag lookup addr cache = some (tag, next) → TagCache.Sound lookup next := by
  unfold getTag
  cases known : cache addr with
  | some tag =>
    refine ⟨(sound addr tag known).symm, fun tag next got => ?_⟩
    cases got
    exact sound
  | none =>
    cases found : lookup addr with
    | none => exact ⟨rfl, fun tag next got => by cases got⟩
    | some tag =>
      refine ⟨rfl, fun tag next got other tag' inside => ?_⟩
      cases got
      simp only [Table.insert] at inside
      split at inside
      next same => rw [same, found, Option.some.inj inside]
      next => exact sound other tag' inside

theorem mapM_getTag (sound : cache.Sound lookup) (addrs : List UInt64) :
    (addrs.mapM (getTag lookup) cache).map Prod.fst = addrs.mapM lookup := by
  induction addrs generalizing cache with
  | nil => rfl
  | cons addr addrs ih =>
    obtain ⟨here, kept⟩ := getTag_sound sound addr
    rw [List.mapM_cons, List.mapM_cons, ← here]
    cases got : getTag lookup addr cache with
    | none => simp [StateT.bind, bind, got]
    | some result =>
      obtain ⟨tag, next⟩ := result
      have rest := ih (kept tag next got)
      rw [← rest]
      simp only [bind, StateT.bind, got, Option.bind_some, Option.map_some]
      cases addrs.mapM (getTag lookup) next <;> rfl

theorem cacheAfter_sound (looked : List UInt64) : (cacheAfter lookup looked).Sound lookup := by
  have step (looked : List UInt64) (cache : TagCache) (sound : cache.Sound lookup) :
      TagCache.Sound lookup
        (looked.foldl (fun cache addr => ((getTag lookup addr cache).map Prod.snd).getD cache) cache) := by
    induction looked generalizing cache with
    | nil => exact sound
    | cons addr looked ih =>
      refine ih _ ?_
      simp only
      cases got : getTag lookup addr cache with
      | none => exact sound
      | some result => exact (getTag_sound sound addr).2 _ _ got
  exact step looked _ fun _ _ known => by cases known

/-- The cache does not show in a stack trace. -/
theorem displayStacktrace_eq (sound : cache.Sound lookup) (leading : String) (p : Profile) :
    (p.displayStacktrace lookup leading cache).map Prod.fst = p.shadow.trace lookup leading := by
  have stack := congrArg (List.map TrieNode.link) p.shadow_stack
  rw [List.map_map] at stack
  have shown : p.displayStacktrace lookup leading =
      (fun tags => (tags.map Tags.detail).reverse.map fun line => leading ++ line ++ "\n") <$>
        ((p.shadow.top.pc :: (p.shadow.top :: p.shadow.below).map TrieNode.link).mapM (getTag lookup)) := by
    rw [stack]
    simp [Profile.displayStacktrace, List.mapM_cons, List.mapM_map, Function.comp_def, Profile.shadow]
  have looked := mapM_getTag sound (p.shadow.top.pc :: (p.shadow.top :: p.shadow.below).map TrieNode.link)
  rw [Shadow.trace, Shadow.addresses, mapM_reverse, ← looked, shown]
  simp only [Functor.map, StateT.map, bind]
  cases (p.shadow.top.pc :: (p.shadow.top :: p.shadow.below).map TrieNode.link).mapM (getTag lookup) cache with
  | none => rfl
  | some result => simp [pure, List.map_reverse]

end Cache

/-- The stack trace after any run is that of the stack of activations, whatever was looked up before. -/
theorem stacktrace_of_run (entry : UInt64) (cacheFun : UInt64 → Bool) (sbrkAddr sbrkHeap : UInt64)
    (views : List View) (lookup : UInt64 → Option Tags) (looked : List UInt64) (leading : String) :
    (runSteps Profile.step (.new entry cacheFun sbrkAddr sbrkHeap) views).map
        (Prod.map id fun p => (p.displayStacktrace lookup leading (cacheAfter lookup looked)).map Prod.fst) =
      (runSteps Shadow.step (.new entry cacheFun sbrkAddr sbrkHeap) views).map
        (Prod.map id (Shadow.trace lookup leading)) := by
  have run := runSteps_map Profile.shadow shadow_step (.new entry cacheFun sbrkAddr sbrkHeap) views
  have start : (Profile.new entry cacheFun sbrkAddr sbrkHeap).shadow = .new entry cacheFun sbrkAddr sbrkHeap := rfl
  rw [start] at run
  rw [← run, Option.map_map]
  congr 1
  funext last
  exact Prod.ext rfl (displayStacktrace_eq (cacheAfter_sound looked) leading last.2)

/-! ### Open calls -/

def Shadow.links (s : Shadow) : List UInt64 := (s.top :: s.below).map TrieNode.link

/-- The links of calls that are open, among links of tail calls. -/
structure Shadow.Shows (calls : Set UInt64) [DecidablePred (· ∈ calls)] (s : Shadow) (stack : CallStack) : Prop where
  links : s.links.filter (· ∈ calls) = stack.map Prod.fst
  /-- A return from an open call is no call itself. -/
  plain : ∀ open' ∈ stack, s.cacheFun open'.1 = false

section Shows

variable {calls : Set UInt64} [DecidablePred (· ∈ calls)]

/-- The links of a list in front of the first one that is in a set are not in it. -/
theorem filter_dropWhile {link : UInt64} {links rest : List UInt64}
    (filtered : links.filter (· ∈ calls) = link :: rest) :
    ∃ others, links.dropWhile (· != link) = link :: others ∧ others.filter (· ∈ calls) = rest := by
  induction links with
  | nil => cases filtered
  | cons first links ih =>
    by_cases same : first = link
    · subst same
      have member : first ∈ (first :: links).filter (· ∈ calls) := filtered ▸ List.mem_cons_self
      rw [List.filter_cons_of_pos (List.of_mem_filter member)] at filtered
      exact ⟨links, by simp, (List.cons.inj filtered).2⟩
    · by_cases own : first ∈ calls
      · rw [List.filter_cons_of_pos (by simpa using own)] at filtered
        exact absurd (List.cons.inj filtered).1 same
      · rw [List.filter_cons_of_neg (by simpa using own)] at filtered
        rw [List.dropWhile_cons_of_pos (by simpa using same)]
        exact ih filtered

theorem quit_links {s t : Shadow} {view : View} {addr : UInt64} (returned : s.quit view addr = some t) :
    t.cacheFun = s.cacheFun ∧
      t.links = if addr ∈ s.links then (s.links.dropWhile (· != addr)).tail else s.links := by
  have nodes : ((s.top :: s.below).dropWhile fun node => node.link != addr).map TrieNode.link =
      s.links.dropWhile (· != addr) := by
    rw [Shadow.links, List.dropWhile_map]
    rfl
  have found : s.links.dropWhile (· != addr) = [] ↔ addr ∉ s.links := by
    rw [List.dropWhile_eq_nil_iff]
    constructor
    · intro others member
      simpa using others addr member
    · intro absent link member
      have other : link ≠ addr := fun same => absent (same ▸ member)
      simpa using other
  -- no frame with the link, the frame of the root, which has no caller, or one with a caller
  unfold Shadow.quit at returned
  split at returned
  next none =>
    cases returned
    rw [none, List.map_nil] at nodes
    exact ⟨rfl, (if_neg (found.mp nodes.symm)).symm⟩
  next => cases returned
  next node caller rest some =>
    cases returned
    rw [some] at nodes
    have member : addr ∈ s.links := by
      by_contra absent
      rw [found.mpr absent] at nodes
      cases nodes
    rw [if_pos member, ← nodes]
    exact ⟨rfl, rfl⟩

theorem shows_of_event {p q : Profile} {stack : CallStack} {view : View} {inst : CkbVm.Instruction} {event : Event}
    (shows : p.shadow.Shows calls stack) (decoded : p.decodes view = some inst)
    (occurs : Occurs View.link calls p stack view inst event) (stepped : p.step view = some (.ok (), q)) :
    q.shadow.Shows calls (stack.after p view inst event) := by
  have links : (p.charge (view.instructionCycleFunc inst) view.pc).shadow.links = p.shadow.links := by
    rw [shadow_charge]
    rfl
  rw [step_of_decodes decoded] at stepped
  -- a jump to a function symbol puts its link on top
  have jumps (addr : UInt64) (jump : view.jumpTarget inst = some addr) (symbol : p.cacheFun addr = true) :
      q.shadow.links = view.link inst :: p.shadow.links ∧ q.cacheFun = p.cacheFun := by
    rw [jump] at stepped
    simp only [symbol, if_true] at stepped
    cases stepped
    rw [shadow_call, ← links]
    exact ⟨rfl, rfl⟩
  -- another jump drops what is above and with its address
  have quits (addr : UInt64) (jump : view.jumpTarget inst = some addr) (plain : p.cacheFun addr = false) :
      q.cacheFun = p.cacheFun ∧ q.shadow.links =
        if addr ∈ p.shadow.links then (p.shadow.links.dropWhile (· != addr)).tail else p.shadow.links := by
    rw [jump] at stepped
    simp only [plain, Bool.false_eq_true, if_false] at stepped
    obtain ⟨left, quit, same⟩ := Option.map_eq_some_iff.mp stepped
    cases same
    have left' := shadow_quit (p.charge (view.instructionCycleFunc inst) view.pc) view addr
    rw [quit, Option.map_some] at left'
    obtain ⟨functions, rest⟩ := quit_links left'.symm
    rw [links] at rest
    exact ⟨functions, rest⟩
  cases event with
  | call =>
    obtain ⟨addr, jump, symbol, plain, own⟩ := occurs
    obtain ⟨top, functions⟩ := jumps addr jump symbol
    refine ⟨?_, List.forall_mem_cons.mpr ⟨?_, fun open' member => ?_⟩⟩
    · rw [top, List.filter_cons_of_pos (by simpa using own), shows.links]
      rfl
    · exact (congrFun functions _).trans plain
    · exact (congrFun functions _).trans (shows.plain open' member)
  | tailCall =>
    obtain ⟨addr, jump, symbol, foreign⟩ := occurs
    obtain ⟨top, functions⟩ := jumps addr jump symbol
    refine ⟨?_, fun open' member => (congrFun functions _).trans (shows.plain open' member)⟩
    rw [top, List.filter_cons_of_neg (by simpa using foreign)]
    exact shows.links
  | ret =>
    obtain ⟨link, node, rest, rfl, jump⟩ := occurs
    obtain ⟨functions, dropped⟩ := quits link jump (shows.plain (link, node) List.mem_cons_self)
    obtain ⟨others, down, filtered⟩ := filter_dropWhile shows.links
    have member : link ∈ p.shadow.links :=
      List.mem_of_mem_filter (show link ∈ p.shadow.links.filter (· ∈ calls) from shows.links ▸ List.mem_cons_self)
    rw [if_pos member, down, List.tail_cons] at dropped
    refine ⟨by rw [dropped]; exact filtered, fun open' member => ?_⟩
    exact (congrFun functions _).trans (shows.plain open' (List.mem_cons_of_mem _ member))
  | localJump =>
    obtain ⟨addr, jump, plain, _, elsewhere⟩ := occurs
    obtain ⟨functions, kept⟩ := quits addr jump plain
    have absent : addr ∉ p.shadow.links := by
      rw [Shadow.links, Profile.shadow_stack, List.map_map]
      intro member
      obtain ⟨i, above, same⟩ := List.mem_map.mp member
      exact elsewhere i above same
    rw [if_neg absent] at kept
    exact ⟨by rw [kept]; exact shows.links, fun open' member => (congrFun functions _).trans (shows.plain open' member)⟩
  | other =>
    rw [show view.jumpTarget inst = none from occurs] at stepped
    cases stepped
    exact ⟨by rw [links]; exact shows.links, shows.plain⟩

end Shows

instance decidableLink (link : UInt64) : DecidablePred (· ∈ ({link} : Set UInt64)) := fun other =>
  inferInstanceAs (Decidable (other = link))

end Pprof
