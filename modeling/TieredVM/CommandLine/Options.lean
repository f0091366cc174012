set_option autoImplicit false

namespace TieredVM

inductive UsageError where
  | missingValue
  | invalidOption (text : String)
  | manyFiles
  | traceWithoutRun
  | noFile
  deriving DecidableEq, Repr

def UsageError.message : UsageError → String
  | missingValue => "-it requires a value"
  | invalidOption text => s!"invalid option '{text}'"
  | manyFiles => "more than one program file given"
  | traceWithoutRun => "invalid option combination, -t and -l cannot be used together"
  | noFile => "no program file given"

structure Options where
  programFile : String := ""
  interpreter : Option String := none
  dump : Bool := false
  loadOnly : Bool := false
  trace : Bool := false
  verbose : Bool := false
  help : Bool := false
  deriving DecidableEq, Repr

namespace Options

inductive ArgKind where
  | help
  | dump
  | loadOnly
  | trace
  | verbose
  | interpreterNext
  | interpreter (value : String)
  | invalid (text : String)
  | file (path : String)
  deriving DecidableEq, Repr

def dropStart? : List Char → List Char → Option (List Char)
  | [], text => some text
  | _ :: _, [] => none
  | c :: start, d :: text => if c = d then dropStart? start text else none

def ArgKind.ofArg (arg : String) : ArgKind :=
  if arg = "-h" ∨ arg = "--help" then help
  else if arg = "-o" then dump
  else if arg = "-l" then loadOnly
  else if arg = "-t" then trace
  else if arg = "-v" then verbose
  else if arg = "-it" then interpreterNext
  else
    match dropStart? ['-', 'i', 't'] arg.toList with
    | some value => interpreter (String.ofList value)
    | none => if arg.toList.head? = some '-' then invalid arg else file arg

def close (options : Options) : Option String → Except UsageError Options
  | file? =>
    if options.trace && options.loadOnly then .error .traceWithoutRun
    else
      match file? with
      | none => .error .noFile
      | some programFile => .ok { options with programFile }

def parseRest (options : Options) (file? : Option String) :
    List String → Except UsageError Options
  | [] => options.close file?
  | arg :: args =>
    match ArgKind.ofArg arg with
    | .help => .ok { options with help := true }
    | .dump => parseRest { options with dump := true } file? args
    | .loadOnly => parseRest { options with loadOnly := true } file? args
    | .trace => parseRest { options with trace := true } file? args
    | .verbose => parseRest { options with verbose := true } file? args
    | .interpreterNext =>
      match args with
      | [] => .error .missingValue
      | value :: args => parseRest { options with interpreter := some value } file? args
    | .interpreter value => parseRest { options with interpreter := some value } file? args
    | .invalid text => .error (.invalidOption text)
    | .file path =>
      match file? with
      | none => parseRest options (some path) args
      | some _ => .error .manyFiles

def interpreterType (options : Options) : String := options.interpreter.getD "2"

/-- Reads a command line; a request for help ends the reading. -/
def parse (args : List String) : Except UsageError Options :=
  parseRest {} none args

end Options
end TieredVM
