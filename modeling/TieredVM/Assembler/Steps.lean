import TieredVM.Assembler.Body
import TieredVM.Assembler.Tables
set_option autoImplicit false

namespace TieredVM.Body

inductive Step where
  | newLabel
  | bind (label : Nat)
  | emit (instr : Instruction)
  | jump (kind : JumpKind) (label : Nat)
  | finish
  deriving DecidableEq, Repr

inductive Answer where
  | nothing
  | label (label : Nat)
  | finished (result : Except BuildError (List UInt8))

def perform (body : Body) : Step → Answer × Body
  | .newLabel =>
    let (label, next) := body.newLabel
    (.label label, next)
  | .bind label => (.nothing, body.bind label)
  | .emit instr => (.nothing, body.emit instr)
  | .jump kind label => (.nothing, body.jump kind label)
  | .finish =>
    let (result, next) := body.finish
    (.finished result, next)

def after (body : Body) (steps : List Step) : Body :=
  steps.foldl (fun body step => (body.perform step).2) body

/-- What each step gives back, and the offset after it. -/
def answers (body : Body) : List Step → List (Answer × Nat)
  | [] => []
  | step :: rest =>
    let (answer, next) := body.perform step
    (answer, next.size) :: next.answers rest

end TieredVM.Body

namespace TieredVM.Tables

def named (name : String) : Tables := { name }

inductive Step where
  | declare (declaration : Declaration)
  | define (id : Nat) (code : Array UInt8)
  | intern (bytes : List UInt8)
  | build
  deriving DecidableEq, Repr

inductive Answer where
  | id (id : Nat)
  | defined (result : Except BuildError Unit)
  | built (result : Except BuildError Image)

def perform (tables : Tables) : Step → Answer × Tables
  | .declare declaration =>
    let (id, next) := tables.declare declaration
    (.id id, next)
  | .define id code =>
    match tables.define id code with
    | .error error => (.defined (.error error), tables)
    | .ok next => (.defined (.ok ()), next)
  | .intern bytes =>
    let (id, next) := tables.intern bytes
    (.id id, next)
  | .build => (.built tables.build, tables)

def after (tables : Tables) (steps : List Step) : Tables :=
  steps.foldl (fun tables step => (tables.perform step).2) tables

def answers (tables : Tables) : List Step → List Answer
  | [] => []
  | step :: rest =>
    let (answer, next) := tables.perform step
    answer :: next.answers rest

end TieredVM.Tables
