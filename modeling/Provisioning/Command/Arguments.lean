/-!
# Arguments

Reading a command line from left to right: options of the program, the name of a command, and the
options of the command. An option takes one value, attached to it or as the next argument; a value
that is still awaited is settled when the next option comes, or at the end.
-/

namespace Provisioning.Command

structure OptionSpec where
  name : String
  short : Char
  repeated : Bool
  required : Bool
  deriving DecidableEq, Repr

inductive Usage
  | help
  | error
  deriving DecidableEq, Repr

abbrev Matches := List (String × String)

namespace Matches

def all (m : Matches) (name : String) : List String := (m.filter (·.1 = name)).map Prod.snd

def one? (m : Matches) (name : String) : Option String := (m.find? (·.1 = name)).map Prod.snd

end Matches

/-- How far the arguments of one level are read. The pending option is the last one with a separate
value, which may be missing yet. -/
structure Progress where
  found : Matches
  pending : Option (OptionSpec × Option String)
  deriving Repr

namespace Progress

def start : Progress := ⟨[], none⟩

def accept (p : Progress) (o : OptionSpec) (value : String) : Except Usage Progress :=
  if value.isEmpty || (!o.repeated && (p.found.one? o.name).isSome) then .error .error
  else .ok { p with found := p.found ++ [(o.name, value)] }

def settle (p : Progress) : Except Usage Progress :=
  match p.pending with
  | none => .ok p
  | some (_, none) => .error .error
  | some (o, some value) => ({ p with pending := none } : Progress).accept o value

def awaited? (p : Progress) : Option OptionSpec :=
  match p.pending with
  | some (o, none) => some o
  | _ => none

def option (p : Progress) (o : OptionSpec) (attached : Option String) : Except Usage Progress := do
  let p ← p.settle
  match attached with
  | some value => p.accept o value
  | none => .ok { p with pending := some (o, none) }

end Progress

def long? (arg : String) : Option (String × Option String) :=
  match arg.toList with
  | '-' :: '-' :: c :: rest =>
    let s := c :: rest
    let name := String.ofList (s.takeWhile (· ≠ '='))
    match s.dropWhile (· ≠ '=') with
    | [] => some (name, none)
    | _ :: value => some (name, some (String.ofList value))
  | _ => none

/-- The letter and the attached value of a short option; a `=` before the value does not count. -/
def short? (arg : String) : Option (Char × Option String) :=
  match arg.toList with
  | '-' :: c :: rest =>
    match rest with
    | [] => some (c, none)
    | '=' :: value => some (c, some (String.ofList value))
    | value => some (c, some (String.ofList value))
  | _ => none

/-- Reads the arguments of one level up to the name of a command, and answers what follows it. Behind
`--` nothing is expected any more. -/
def readLevel (options : List OptionSpec) (isCommand : String → Bool) :
    Progress → List String → Except Usage (Progress × Option (String × List String))
  | p, [] => .ok (p, none)
  | p, arg :: rest =>
    if p.awaited?.isNone && isCommand arg then .ok (p, some (arg, rest))
    else if arg = "--" then
      if rest.isEmpty then .ok (p, none) else .error .error
    else match long? arg with
    | some ("help", none) => do
      let _ ← p.settle
      .error .help
    | some (name, attached) =>
      match options.find? (·.name = name) with
      | some o => do readLevel options isCommand (← p.option o attached) rest
      | none => .error .error
    | none =>
      match short? arg with
      | some ('h', _) => do
        let _ ← p.settle
        .error .help
      | some (letter, attached) =>
        match options.find? (·.short = letter) with
        | some o => do readLevel options isCommand (← p.option o attached) rest
        | none => .error .error
      | none =>
        match p.awaited? with
        | some o => readLevel options isCommand { p with pending := some (o, some arg) } rest
        | none => .error .error

def readOptions (options : List OptionSpec) (args : List String) : Except Usage Matches := do
  let (p, _) ← readLevel options (fun _ => false) .start args
  let p ← p.settle
  if options.all fun o => !o.required || (p.found.one? o.name).isSome then .ok p.found
  else .error .error

def readHelp (commands : List String) : List String → Usage
  | [] => .help
  | [name] => if commands.contains name || name = "help" then .help else .error
  | _ => .error

structure Invocation where
  globals : Matches
  command : String
  options : Matches
  deriving Repr

def Invocation.read (globals : List OptionSpec) (commands : List (String × List OptionSpec))
    (args : List String) : Except Usage Invocation := do
  let names := commands.map Prod.fst
  let isCommand (name : String) : Bool :=
    names.contains name || (name = "help" && !names.isEmpty)
  match ← readLevel globals isCommand .start args with
  | (_, none) => .error .error
  | (p, some (name, rest)) =>
    match commands.find? (·.1 = name) with
    | some (_, options) => do
      let found ← readOptions options rest
      let p ← p.settle
      .ok ⟨p.found, name, found⟩
    | none => .error (readHelp names rest)

end Provisioning.Command
