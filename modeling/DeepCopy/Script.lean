-- Scripts: clone routines written as lists of instructions over registers. A
-- script may name values and classes of the place where it runs.
import DeepCopy.Routine

namespace DeepCopy

/-- Where the names in a script are looked up: values by handle, and classes by the registry. -/
structure Scope where
  values : Assoc String Value := []
  registry : Registry := .initial

/-- A class in a script. -/
inductive ClassRef where
  | id (cls : ClassId)
  | named (name : String)
deriving DecidableEq, Repr

/-- A value in a script. -/
inductive Operand where
  | value (v : Value)
  /-- The value a handle holds. -/
  | handle (name : String)
  /-- The value a register holds. -/
  | register (name : String)
  /-- A constant of an enum class. -/
  | constant (cls name : String)
deriving DecidableEq, Repr

/-- How a script fails on purpose. -/
inductive ScriptFault where
  | config (text : String)
  | heap (text : String)
  | foreign (text : String)
deriving DecidableEq, Repr

/-- One instruction. -/
inductive Instruction where
  /-- A bare object of a class, or of the source's class. -/
  | alloc (cls : Option ClassRef)
  /-- Let a value stand for an object, or for the source. -/
  | register (v : Operand) (source : Option Operand)
  | fields (source target : Operand)
  | clone (v : Operand)
  | get (o : Operand) (field : String)
  | set (o : Operand) (field : String) (v : Operand)
  | value (v : Operand)
  | lookup (o : Operand)
  | visited
  | backend
  | plan (cls : ClassRef)
  | policy
  | log (v : Operand)
  | finish (v : Option Operand)
  | fail (fault : ScriptFault)
deriving DecidableEq, Repr

/-- A list of instructions, each with the register that takes its result, if one does. A branch
runs one of two scripts, and then what follows it; its own result is null. -/
inductive Script where
  | stop
  | step (i : Instruction) (into : Option String) (rest : Script)
  | branch (a b : Operand) (yes no : Script) (into : Option String) (rest : Script)
deriving DecidableEq, Repr

/-- The registers of a running script. -/
abbrev Registers := Assoc String Value

/-- The registers after an instruction with a result. -/
def Registers.store (into : Option String) (v : Value) (regs : Registers) : Registers :=
  match into with
  | some name => Assoc.put name v regs
  | none => regs

/-- The error that a script fails with. -/
def ScriptFault.error : ScriptFault → CloneError
  | .config text => .config (.other text)
  | .heap text => .heap (.unknownClass text)
  | .foreign text => .delegate "Program" (.foreign text)

namespace Script

/-- The error that a name in a script stands for nothing. -/
def unbound (name : String) : CloneError := .config (.other name)

/-- The value of an operand. -/
def operand (scope : Scope) (regs : Registers) : Operand → Except CloneError Value
  | .value v => .ok v
  | .handle name => ((Assoc.find? name scope.values).map Except.ok).getD (.error (unbound name))
  | .register name => ((Assoc.find? name regs).map Except.ok).getD (.error (unbound name))
  | .constant cls name =>
    match scope.registry.lookup cls with
    | some id => (scope.registry.enumConstant id name).mapError .heap
    | none => .error (unbound cls)

/-- The object of an operand. -/
def objectOperand (scope : Scope) (regs : Registers) (a : Operand) :
    Except CloneError ObjectId := do
  match ← operand scope regs a with
  | .ref o => .ok o
  | v => .error (unbound v.kind.name)

/-- The class a script means. -/
def classRef (scope : Scope) : ClassRef → Except CloneError ClassId
  | .id cls => .ok cls
  | .named name => ((scope.registry.lookup name).map Except.ok).getD (.error (unbound name))

open Routine in
/-- One instruction for a source object, and what is done with its result. -/
def instruction (scope : Scope) (source : ObjectId) (regs : Registers) (i : Instruction)
    (next : Value → Routine) : Routine :=
  let value := operand scope regs
  let object := objectOperand scope regs
  match i with
  | .alloc cls =>
    let made (cls : ClassId) := ask (.allocate cls) <| onOk fun o => next (.ref o)
    match cls with
    | some c => onOk made (classRef scope c)
    | none => ask (.look source) fun x => made x.cls
  | .register v of =>
    onOk (fun v =>
      onOk (fun o => ask (.register o v) fun _ => next .null)
        ((of.map object).getD (.ok source))) (value v)
  | .fields a b =>
    onOk (fun a => onOk (fun b =>
      ask (.cloneFields a b) <| onOk fun _ => next .null) (object b)) (object a)
  | .clone v => onOk (fun v => ask (.clone v) (onOk next)) (value v)
  | .get o field => onOk (fun o => ask (.getField o field) (onHeap next)) (object o)
  | .set o field v =>
    onOk (fun o => onOk (fun v =>
      ask (.setField o field v) <| onHeap fun _ => next .null) (value v)) (object o)
  | .value v => onOk next (value v)
  | .lookup o =>
    onOk (fun o => ask (.copyOf o) fun found =>
      ask (.note (.found found)) fun _ => next (Option.getD found .null)) (object o)
  | .visited => ask .visited fun n => ask (.note (.visited n)) fun _ => next .null
  | .backend => ask .backend fun k => ask (.note (.backend k)) fun _ => next .null
  | .plan c =>
    onOk (fun cls => ask (.plan cls) <| onOk fun p =>
      ask (.note (.plan p.name p.fields.length)) fun _ => next .null) (classRef scope c)
  | .policy =>
    ask .flags fun (f : CloneFlags) =>
      ask (.note (.policy f.cloneTransient f.useOverrides)) fun _ => next .null
  | .log v => onOk (fun v => ask (.note (.value v)) fun _ => next .null) (value v)
  | .finish v => Routine.finish ((v.map value).getD (.ok .null))
  | .fail fault => Routine.fail (ScriptFault.error fault)

/-- A script for a source object, and what is done when it comes to its end. -/
def run (scope : Scope) (source : ObjectId) :
    Script → Registers → (Registers → Routine) → Routine
  | stop, regs, done => done regs
  | step i into rest, regs, done =>
    instruction scope source regs i fun v =>
      run scope source rest (Registers.store into v regs) done
  | branch a b yes no into rest, regs, done =>
    Routine.onOk (fun v => Routine.onOk (fun w =>
      let chosen := if v.agrees w then run scope source yes else run scope source no
      chosen regs fun regs => run scope source rest (Registers.store into .null regs) done)
      (operand scope regs b)) (operand scope regs a)

/-- The routine of a script: it starts with the source in a register of its own, and comes to
nothing if it ends without a result. -/
def routine (scope : Scope) (s : Script) (source : ObjectId) : Routine :=
  run scope source s [("src", .ref source)] fun _ => .finish (.ok .null)

end Script

end DeepCopy
