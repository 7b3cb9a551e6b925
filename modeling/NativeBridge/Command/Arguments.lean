/-!
The command line. Options have a long name and may have a short one; values follow as the next
argument, behind `=`, or right behind a short name. Behind `--` there are no options.
-/

namespace NativeBridge.Command

inductive OptionKind where
  | flag
  /-- Takes a text, which may be empty. -/
  | text
  /-- Takes a path. -/
  | path
  /-- Asks for help. -/
  | help
  /-- Asks for the version. -/
  | version
deriving DecidableEq, Repr

structure OptionSpec where
  name : String
  short : Option Char
  kind : OptionKind
deriving DecidableEq, Repr

/-- What a command accepts: options, paths in a row, and commands of its own. -/
structure Grammar where
  options : List OptionSpec
  positionals : List String
  commands : List String
deriving DecidableEq, Repr

/-- Why arguments are not read on. -/
inductive Stop where
  /-- They break the rules. -/
  | usage
  | help
  | version
deriving DecidableEq, Repr

/-- Arguments as far as they are read: values by name, an option that waits for its value, how many
positions are taken, and whether options are over. -/
structure Scan where
  values : List (String × String) := []
  pending : Option OptionSpec := none
  taken : Nat := 0
  bare : Bool := false
deriving DecidableEq, Repr

namespace Scan

/-- Makes sure that no option waits for its value. -/
def settled (s : Scan) : Except Stop Scan :=
  if s.pending.isSome then .error .usage else .ok s

/-- Adds a value. Nothing is given twice, and paths are not empty. -/
def add (s : Scan) (name : String) (kind : OptionKind) (value : String) : Except Stop Scan :=
  if (s.values.lookup name).isSome || (kind == .path && value.isEmpty) then .error .usage
  else .ok { s with values := s.values ++ [(name, value)], pending := none }

/-- Meets an option, which may have its value with it. -/
def option (s : Scan) (o : OptionSpec) (value : Option String) : Except Stop Scan := do
  match o.kind, value with
  | .flag, none => (← s.settled).add o.name .flag ""
  | .help, none => do
    let _ ← s.settled
    throw .help
  | .version, none => do
    let _ ← s.settled
    throw .version
  | .text, some value => (← s.settled).add o.name .text value
  | .path, some value => (← s.settled).add o.name .path value
  | .text, none => return { ← s.settled with pending := some o }
  | .path, none => return { ← s.settled with pending := some o }
  | _, some _ => throw .usage

/-- Meets a long option, given without its dashes. -/
def long (g : Grammar) (s : Scan) (text : List Char) : Except Stop Scan :=
  let name := String.ofList (text.takeWhile (· != '='))
  let value :=
    match text.dropWhile (· != '=') with
    | [] => none
    | _ :: value => some (String.ofList value)
  match g.options.find? (·.name == name) with
  | some o => s.option o value
  | none => .error .usage

/-- Meets short options, given without the dash. The first one that takes a value takes all that
follows. -/
def short (g : Grammar) (s : Scan) : List Char → Except Stop Scan
  | [] => .ok s
  | c :: rest =>
    match g.options.find? (·.short == some c) with
    | none => .error .usage
    | some o =>
      if o.kind = .text ∨ o.kind = .path then
        match rest with
        | [] => s.option o none
        | '=' :: value => s.option o (some (String.ofList value))
        | value => s.option o (some (String.ofList value))
      else do
        let s ← s.option o none
        short g s rest

/-- Meets an argument that is no option. -/
def positional (g : Grammar) (s : Scan) (value : String) : Except Stop Scan := do
  let s ← s.settled
  match g.positionals[s.taken]? with
  | some name => return { ← s.add name .path value with taken := s.taken + 1 }
  | none => throw .usage

def argument (g : Grammar) (s : Scan) (value : String) : Except Stop Scan :=
  if s.bare then s.positional g value
  else
    match value.toList with
    | ['-', '-'] => .ok { s with bare := true }
    | '-' :: '-' :: text => s.long g text
    | '-' :: c :: text => s.short g (c :: text)
    | _ =>
      match s.pending with
      | some o => s.add o.name o.kind value
      | none => s.positional g value

end Scan

/-- Reads arguments to their end or up to a command. -/
def scan (g : Grammar) (s : Scan) :
    List String → Except Stop (List (String × String) × Option (String × List String))
  | [] => do return ((← s.settled).values, none)
  | value :: rest =>
    if !s.bare && s.pending.isNone && g.commands.contains value then
      .ok (s.values, some (value, rest))
    else do
      let s ← s.argument g value
      scan g s rest

inductive Task where
  /-- Prepare a module for native compilation. -/
  | prepare (module registry output : String) (unchecked : Bool)
  /-- Make the C unit that links a program. -/
  | link (exports map output : String) (description version : Option String)
deriving DecidableEq, Repr

/-- A task, and the file with the settings for it. -/
structure Invocation where
  settings : Option String
  task : Task
deriving DecidableEq, Repr

def settingsOption : OptionSpec := ⟨"config", some 'c', .path⟩

def helpOption : OptionSpec := ⟨"help", some 'h', .help⟩

/-- What the program accepts before a command. -/
def programGrammar : Grammar where
  options := [settingsOption, helpOption, ⟨"version", some 'V', .version⟩]
  positionals := []
  commands := ["rewrite", "glue", "help"]

def prepareGrammar : Grammar where
  options :=
    [settingsOption, helpOption, ⟨"registry", some 'r', .path⟩, ⟨"output", some 'o', .path⟩,
      ⟨"no-verify", none, .flag⟩]
  positionals := ["module"]
  commands := []

def linkGrammar : Grammar where
  options :=
    [settingsOption, helpOption, ⟨"exports", some 'e', .path⟩, ⟨"map", some 'm', .path⟩,
      ⟨"output", some 'o', .path⟩, ⟨"description", none, .text⟩, ⟨"app-version", none, .text⟩]
  positionals := []
  commands := []

/-- A value that must be given. -/
def given (values : List (String × String)) (name : String) : Except Stop String :=
  match values.lookup name with
  | some value => .ok value
  | none => .error .usage

/-- Reads a command line. Settings named behind the command count more than those before it. -/
def parseArguments (arguments : List String) : Except Stop Invocation := do
  match ← scan programGrammar {} arguments with
  | (outer, some ("rewrite", rest)) =>
    let (values, _) ← scan prepareGrammar {} rest
    let module ← given values "module"
    let registry ← given values "registry"
    let output ← given values "output"
    let task := Task.prepare module registry output (values.lookup "no-verify").isSome
    return ⟨(values.lookup "config").or (outer.lookup "config"), task⟩
  | (outer, some ("glue", rest)) =>
    let (values, _) ← scan linkGrammar {} rest
    let exports ← given values "exports"
    let map ← given values "map"
    let output ← given values "output"
    let task := Task.link exports map output (values.lookup "description")
      (values.lookup "app-version")
    return ⟨(values.lookup "config").or (outer.lookup "config"), task⟩
  | (_, some (_, rest)) =>
    match rest with
    | [] => throw .help
    | [name] => if programGrammar.commands.contains name then throw .help else throw .usage
    | _ => throw .usage
  | (_, none) => throw .usage

end NativeBridge.Command
