import LittleComputer.Machine.Step
import LittleComputer.Text.Utf8

/-!
# Executing in place

The same instructions, carried out on the machine itself. Memory, input, console and the halted flag
change as soon as an instruction gets to them, and what was changed before a fault stays changed.
Registers alone are worked on in a copy, which takes the place of the old ones at the end of a step.
-/

namespace LittleComputer

/-- A computation that changes a machine, up to a fault if there is one. -/
abbrev Action := EStateM Fault Machine

namespace Action

def writeByte (a : Word) (b : Byte) : Action Unit := modify fun m => m.setByte a b

def writeWord (a w : Word) : Action Unit := do
  let m ← get
  set (← ofExcept (m.writeWord a w))

/-- Write a text to the console. -/
def print (text : String) : Action Unit := modify fun m => { m with console := m.console ++ text }

/-- Take the next byte off the input. -/
def takeByte : Action (Option Byte) := do
  match (← get).input with
  | [] => return none
  | b :: rest =>
    modify fun m => { m with input := rest }
    return some b

def halt : Action Unit := modify fun m => { m with halted := true }

/-- Cut the console off after a number of bytes. -/
def truncate (size : Nat) : Action Unit := modify fun m =>
  match Text.splitAtByte? size m.console.toList with
  | some (kept, _) => { m with console := String.ofList kept }
  | none => m

end Action

namespace Machine

/-- Read a byte into `R0`, if there is one. The answer is the registers, and the one written. -/
def readInput (r : Registers) (echo : Bool) : Action (Registers × Option Register) := do
  match ← Action.takeByte with
  | none => return (r, none)
  | some b =>
    let r := r.set .io (BitVec.ofNat 16 b.toNat)
    if echo then Action.print b.text
    return (r, some .io)

/-- Call a routine. A string is read before anything is changed. -/
def serveInPlace (r : Registers) (routine : Service) : Action (Registers × Option Register) := do
  let m ← get
  let text ←
    match routine with
    | .puts => some <$> ofExcept (m.memory.wordString (r.get .io))
    | .putsp => some <$> ofExcept (m.memory.byteString (r.get .io))
    | _ => pure none
  let r := r.set .link r.pc
  let (r, modified) ←
    match routine with
    | .getc => readInput r false
    | .read => readInput r true
    | .out =>
      Action.print (r.get .io).low.text
      pure (r, none)
    | .halt =>
      Action.halt
      pure (r, none)
    | .puts | .putsp => pure (r, none)
  if let some bytes := text then Action.print (Byte.string bytes)
  return (r, modified.or (some .link))

def trapInPlace (r : Registers) (vector : Nat) : Action (Registers × Option Register) :=
  match Service.ofVector? vector with
  | some routine => serveInPlace r routine
  | none => throw (.unknownTrap vector)

/-- Carry out a store instruction, whose address is known. -/
def storeInPlace (access : Access) (a w : Word) : Action Unit := do
  match access with
  | .byte => Action.writeByte a w.low
  | .word => Action.writeWord a w
  | .indirect =>
    let m ← get
    let pointer ← ofExcept (m.memory.fetch a)
    Action.writeWord pointer w

/-- Carry out an instruction, given a copy of the registers with the program counter at the next
one. The answer is what becomes of the copy, and the register written. -/
def executeInPlace (r : Registers) : Instruction → Action (Registers × Option Register)
  | .operate op dr sr1 argument =>
    pure (r.setResult dr (op.apply (r.get sr1) (argument.value r)), some dr)
  | .not dr sr => pure (r.setResult dr (~~~ r.get sr), some dr)
  | .branch condition offset9 => do
    if condition.intersects r.condition then
      let target ← ofExcept (r.pc.offset (2 * offset9))
      return ({ r with pc := target }, none)
    else return (r, none)
  | .jump base => pure ({ r with pc := r.get base }, none)
  | .ret => pure ({ r with pc := r.get .link }, none)
  | .call offset11 => do
    let target ← ofExcept (r.pc.offset (2 * offset11))
    return ({ r.set .link r.pc with pc := target }, some .link)
  | .callRegister base => pure ({ r.set .link r.pc with pc := r.get base }, some .link)
  | .load access dr base offset6 => do
    let a ← ofExcept ((r.get base).offset (access.unit * offset6))
    let m ← get
    let w ← ofExcept (m.loaded access a)
    return (r.setResult dr w, some dr)
  | .store access sr base offset6 => do
    let a ← ofExcept ((r.get base).offset (access.unit * offset6))
    storeInPlace access a (r.get sr)
    return (r, none)
  | .loadAddress dr offset9 => do
    let a ← ofExcept (r.pc.offset (2 * offset9))
    return (r.setResult dr a, some dr)
  | .shift direction dr sr amount4 =>
    pure (r.setResult dr (direction.apply (r.get sr) amount4), some dr)
  | .returnFromInterrupt => do
    let m ← get
    let sp := r.get .stack
    let pc ← ofExcept (m.memory.fetch sp)
    let sp ← ofExcept (sp.offset 2)
    let psr ← ofExcept (m.memory.fetch sp)
    let sp ← ofExcept (sp.offset 2)
    return ({ r.set .stack sp with pc, condition := .ofBits psr.toNat }, some .stack)
  | .trap vector => trapInPlace r vector

/-- Execute one instruction. After a fault, the console is cut back to what was on it before. -/
def stepInPlace : Action Unit := do
  let m ← get
  if m.halted then throw .halted
  let i ← ofExcept m.current
  let pc ← ofExcept (m.registers.pc.offset wordSize)
  let printed := Text.utf8Size m.console.toList
  try
    let (registers, modified) ← executeInPlace { m.registers with pc } i
    modify fun m => { m with registers, lastModified := modified, steps := m.steps + 1 }
  catch f =>
    Action.truncate printed
    throw f

end Machine

end LittleComputer
