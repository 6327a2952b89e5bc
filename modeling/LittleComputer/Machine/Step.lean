import LittleComputer.Machine.Trap

/-!
# Executing an instruction

The instruction at the program counter is fetched, decoded and executed, with the program counter
already at the next one. Addresses never wrap: one that leaves memory is a fault.
-/

namespace LittleComputer

def Operation.apply : Operation → Word → Word → Word
  | .add, a, b => a + b
  | .and, a, b => a &&& b
  | .xor, a, b => a ^^^ b

def Shift.apply : Shift → Word → Nat → Word
  | .left, w, n => w <<< n
  | .rightLogical, w, n => w >>> n
  | .rightArithmetic, w, n => w.sshiftRight n

/-- The value of the second operand of an operation. -/
def Argument.value (r : Registers) : Argument → Word
  | .register sr2 => r.get sr2
  | .immediate imm5 => BitVec.ofInt 16 imm5

/-- The bytes that one unit of an offset stands for. -/
def Access.unit : Access → Int
  | .byte => 1
  | .word | .indirect => 2

namespace Machine

/-- A result, which sets the condition codes. -/
def result (r : Registers) (dr : Register) (w : Word) : Effect where
  registers := r.setResult dr w
  modified := some dr

/-- A change of the program counter alone. -/
def goTo (r : Registers) (a : Word) : Effect where
  registers := { r with pc := a }
  modified := none

/-- A call, with the return address in `R7`. -/
def callTo (r : Registers) (a : Word) : Effect where
  registers := { r.set .link r.pc with pc := a }
  modified := some .link

/-- The value that a load puts into its register. -/
def loaded (m : Machine) (access : Access) (a : Word) : Except Fault Word :=
  match access with
  | .byte => .ok ((m.memory.byte a).signExtend 16)
  | .word => m.memory.fetch a
  | .indirect => do
    let pointer ← m.memory.fetch a
    m.memory.fetch pointer

/-- The write of a word, once its address is known to be good. -/
def storeWord (a w : Word) : Except Fault Store :=
  match Memory.checkWord a with
  | .ok () => .ok (.word a w)
  | .error e => .error (.ofOutOfRange e)

/-- The write of a store instruction. -/
def stored (m : Machine) (access : Access) (a w : Word) : Except Fault Store :=
  match access with
  | .byte => .ok (.byte a w.low)
  | .word => storeWord a w
  | .indirect => do
    let pointer ← m.memory.fetch a
    storeWord pointer w

/-- Take the program counter and then the condition codes off the stack that `R6` points to. -/
def returnFromInterrupt (m : Machine) (r : Registers) : Except Fault Effect := do
  let sp := r.get .stack
  let pc ← m.memory.fetch sp
  let sp ← sp.offset 2
  let psr ← m.memory.fetch sp
  let sp ← sp.offset 2
  return {
    registers := { r.set .stack sp with pc, condition := .ofBits psr.toNat }
    modified := some .stack }

/-- What an instruction does, given the registers with the program counter at the next one. -/
def execute (m : Machine) (r : Registers) : Instruction → Except Fault Effect
  | .operate op dr sr1 argument => .ok (result r dr (op.apply (r.get sr1) (argument.value r)))
  | .not dr sr => .ok (result r dr (~~~ r.get sr))
  | .branch condition offset9 =>
    if condition.intersects r.condition then do
      let target ← r.pc.offset (2 * offset9)
      return goTo r target
    else .ok (goTo r r.pc)
  | .jump base => .ok (goTo r (r.get base))
  | .ret => .ok (goTo r (r.get .link))
  | .call offset11 => do
    let target ← r.pc.offset (2 * offset11)
    return callTo r target
  | .callRegister base => .ok (callTo r (r.get base))
  | .load access dr base offset6 => do
    let a ← (r.get base).offset (access.unit * offset6)
    let w ← m.loaded access a
    return result r dr w
  | .store access sr base offset6 => do
    let a ← (r.get base).offset (access.unit * offset6)
    let store ← m.stored access a (r.get sr)
    return { registers := r, modified := none, store }
  | .loadAddress dr offset9 => do
    let a ← r.pc.offset (2 * offset9)
    return result r dr a
  | .shift direction dr sr amount4 => .ok (result r dr (direction.apply (r.get sr) amount4))
  | .returnFromInterrupt => m.returnFromInterrupt r
  | .trap vector => m.trap r vector

/-- What the next step does. -/
def plan (m : Machine) : Except Fault Effect := do
  if m.halted then .error .halted
  let i ← m.current
  let pc ← m.registers.pc.offset wordSize
  m.execute { m.registers with pc } i

/-- Execute one instruction. -/
def step (m : Machine) : Except Fault Machine := m.plan.map m.commit

/-- Execute instructions until the machine halts or faults, or a number of them is done. Those done
before are counted in. -/
def runFrom (done : Nat) : Nat → Machine → Machine × Except Fault Nat
  | 0, m => (m, .ok done)
  | limit + 1, m =>
    if m.halted then (m, .ok done)
    else
      match m.plan with
      | .error f => (m, .error f)
      | .ok e => runFrom (done + 1) limit (m.commit e)

/-- Execute instructions until the machine halts or faults, or a number of them is done. The machine
is left after the last of them; their number is the answer, unless there was a fault. -/
def run (limit : Nat) (m : Machine) : Machine × Except Fault Nat := runFrom 0 limit m

end Machine

end LittleComputer
