import CkbDebugger.CkbVm.Machine
import CkbDebugger.Interface.Program

/-!
# The interface that instructions are executed on

`execute(inst, machine)` of `ckb-vm` touches a machine through the traits
`CoreMachine`, `Machine` and `Memory` only. What an instruction does is a program
over their methods; it runs on a machine and on everything that wraps one.
-/
namespace CkbVm

/-- The widths of `load8` to `load64` and of `store8` to `store64`. -/
inductive Width where
  | w8
  | w16
  | w32
  | w64
  deriving Repr, DecidableEq

/-- The methods of the traits, with their arguments. -/
inductive Op where
  | pc
  | updatePc (pc : UInt64)
  | commitPc
  | registers
  | setRegister (idx : Nat) (value : UInt64)
  | version
  | isa
  | ecall
  | ebreak
  | memorySize
  | loadBytes (addr size : UInt64)
  | lr
  | setLr (addr : UInt64)
  | initPages (addr size : UInt64) (flags : UInt8) (source : Option (List UInt8)) (offsetFromAddr : UInt64)
  | fetchFlag (page : UInt64)
  | setFlag (page : UInt64) (flag : UInt8)
  | clearFlag (page : UInt64) (flag : UInt8)
  | storeByte (addr size : UInt64) (value : UInt8)
  | storeBytes (addr : UInt64) (value : List UInt8)
  | executeLoad16 (addr : UInt64)
  | executeLoad32 (addr : UInt64)
  | load (width : Width) (addr : UInt64)
  | store (width : Width) (addr value : UInt64)
  deriving Repr, DecidableEq

/-- What each method returns. -/
@[reducible] def Op.Result : Op → Type
  | .pc => UInt64
  | .registers => Fin 32 → UInt64
  | .version => Nat
  | .isa => UInt8
  | .ecall => Except Error Unit
  | .ebreak => Except Error Unit
  | .memorySize => Nat
  | .loadBytes .. => Except Error (List UInt8)
  | .lr => UInt64
  | .initPages .. => Except Error Unit
  | .fetchFlag _ => Except Error UInt8
  | .setFlag .. => Except Error Unit
  | .clearFlag .. => Except Error Unit
  | .storeByte .. => Except Error Unit
  | .storeBytes .. => Except Error Unit
  | .executeLoad16 _ => Except Error UInt16
  | .executeLoad32 _ => Except Error UInt32
  | .load .. => Except Error UInt64
  | .store .. => Except Error Unit
  | _ => Unit

/-- The answer of a method that succeeds and finds nothing but zeros. -/
def Op.zero : (op : Op) → op.Result
  | .pc => (0 : UInt64)
  | .updatePc _ => ()
  | .commitPc => ()
  | .registers => fun _ => 0
  | .setRegister .. => ()
  | .version => (0 : Nat)
  | .isa => (0 : UInt8)
  | .ecall => .ok ()
  | .ebreak => .ok ()
  | .memorySize => (0 : Nat)
  | .loadBytes .. => .ok []
  | .lr => (0 : UInt64)
  | .setLr _ => ()
  | .initPages .. => .ok ()
  | .fetchFlag _ => .ok 0
  | .setFlag .. => .ok ()
  | .clearFlag .. => .ok ()
  | .storeByte .. => .ok ()
  | .storeBytes .. => .ok ()
  | .executeLoad16 _ => .ok 0
  | .executeLoad32 _ => .ok 0
  | .load .. => .ok 0
  | .store .. => .ok ()

/-- What an instruction does, up to its result. -/
abbrev Execution : Type := Interface.Program Op Op.Result (Except Error Unit)

/-- A machine whose instructions are programs over the interface. -/
structure Machine (M : Type) extends Vm M where
  perform : Interface.Performer Op Op.Result M
  program : Instruction → Execution
  executes : ∀ inst m, execute inst m = (program inst).run perform m

/-! ### The accesses of a run -/

abbrev Call : Type := Sigma Op.Result

/-- The address of a successful `load8` to `load64`. -/
def Call.loaded : Call → List UInt64
  | ⟨.load _ addr, .ok _⟩ => [addr]
  | _ => []

/-- The address of a successful `store8` to `store64`. -/
def Call.stored : Call → List UInt64
  | ⟨.store _ addr _, .ok ()⟩ => [addr]
  | _ => []

end CkbVm
