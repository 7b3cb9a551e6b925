import NativeBridge.Glue.Exports
import NativeBridge.Glue.Settings

/-!
The C unit of a program as lines of text. It has three sections: the exports with the function that
finds them by handle, the initializer of static storage, and `main`.
-/

namespace NativeBridge.Glue

/-- The symbols that create mutable static storage start with this. -/
def mutableBase : String := "__GetGCStaticBase_"

/-- The symbols that create immutable static storage start with this. -/
def immutableBase : String := "__GetNonGCStaticBase_"

/-- Whether a symbol creates static storage. -/
def isStaticBase (name : String) : Bool :=
  mutableBase.toList.isPrefixOf name.toList || immutableBase.toList.isPrefixOf name.toList

/-- The symbols that create static storage, each one once, in the order they appear. -/
def staticBases (names : List String) : List String := (names.filter isStaticBase).eraseDups

/-- Whether a character may be part of a name in C. -/
def isNamePart (c : Char) : Bool := c.isAlphanum || c == '_'

/-- Whether a symbol is a name in C. -/
def isIdentifier (name : String) : Bool :=
  match name.toList with
  | [] => false
  | first :: rest => (first.isAlpha || first == '_') && rest.all isNamePart

/-- A symbol with every character replaced that cannot be part of a name in C. -/
def sanitize (name : String) : String :=
  String.ofList (name.toList.map fun c => if isNamePart c then c else '_')

/-- A symbol between the quotes of a string in C. -/
def literal (text : String) : String :=
  String.ofList (text.toList.flatMap fun c =>
    if c = '\\' then ['\\', '\\'] else if c = '"' then ['\\', '"'] else [c])

/-- A symbol as C calls it. -/
structure Stub where
  callee : String
  symbol : String
deriving DecidableEq, Repr

namespace Stub

/-- The stub of the symbol at a position. A symbol that is not a name in C goes by another one. -/
def ofSymbol (index : Nat) (symbol : String) : Stub :=
  if isIdentifier symbol then ⟨symbol, symbol⟩
  else ⟨"ilbridge_alias_" ++ toString index ++ "_" ++ sanitize symbol, symbol⟩

/-- Whether C calls the symbol by another name. -/
def isAlias (s : Stub) : Bool := s.callee != s.symbol

def declaration (s : Stub) : List String :=
  let plain := "extern void* " ++ s.callee ++ "(void);"
  if s.isAlias then
    ["#if defined(_MSC_VER)", plain,
      "#pragma comment(linker, \"/alternatename:" ++ s.callee ++ "=" ++ literal s.symbol ++ "\")",
      "#else",
      "extern void* " ++ s.callee ++ "(void) __asm__(ILBRIDGE_SYMBOL(\"" ++ literal s.symbol ++
        "\"));",
      "#endif"]
  else [plain]

end Stub

def stubsOf (symbols : List String) : List Stub :=
  symbols.mapIdx Stub.ofSymbol

/-- Lines followed by an empty one, if there are any. -/
def paragraph (lines : List String) : List String :=
  if lines.isEmpty then [] else lines ++ [""]

/-- The statements of the function from a handle to its function pointer. -/
def accessorBody (exports : List Export) : List String :=
  if exports.isEmpty then ["    (void)handle;", "    return NULL;"]
  else
    let count := toString exports.length
    ["    static void* const table[" ++ count ++ "] = \x7b"] ++
      exports.map (fun e => "        (void*)&" ++ e.name ++ ",") ++
      ["    \x7d;", "    if (handle < 0 || handle >= " ++ count ++ ") \x7b", "        return NULL;",
        "    \x7d", "    return table[handle];"]

/-- The section that declares the exports and finds them by handle. -/
def importLines (exports : List Export) (settings : Settings) : List String :=
  ["/* ilbridge: callback imports */", "", "#include <stddef.h>", "#include <stdint.h>", ""] ++
    paragraph (exports.map fun e => "extern " ++ e.declaration ++ ";") ++
    ["void* " ++ settings.accessor ++ "(int32_t handle)", "\x7b"] ++
    accessorBody exports ++ ["\x7d", ""]

/-- The lines by which the declarations of aliases name symbols. -/
def aliasLines : List String :=
  ["#if !defined(_MSC_VER)", "#if defined(__APPLE__)", "#define ILBRIDGE_SYMBOL(name) \"_\" name",
    "#else", "#define ILBRIDGE_SYMBOL(name) name", "#endif", "#endif", ""]

/-- The section that creates static storage. -/
def initializerLines (symbols : List String) (settings : Settings) : List String :=
  let stubs := stubsOf symbols
  ["/* ilbridge: static storage initialization */", ""] ++
    (if stubs.any Stub.isAlias then aliasLines else []) ++
    paragraph (stubs.flatMap Stub.declaration) ++
    ["void " ++ settings.initializer ++ "(void)", "\x7b"] ++
    stubs.map (fun s => "    " ++ s.callee ++ "();") ++ ["\x7d", ""]

/-- The setters of the runtime that `main` calls, with what they are told. Nothing is said of what
is empty. -/
def setters (settings : Settings) : List (String × String) :=
  [(settings.descriptionSetter, settings.description),
    (settings.versionSetter, settings.version)].filter fun (_, value) => !value.isEmpty

/-- The section with `main`. Metadata is put between quotes as it is. -/
def entryPointLines (settings : Settings) : List String :=
  let calls := setters settings
  ["/* ilbridge: entry point */", ""] ++
    calls.map (fun (setter, _) => "extern void " ++ setter ++ "(const char* value);") ++
    ["extern int " ++ settings.runtimeMain ++ "(int argc, char* argv[]);", "",
      "/* " ++ settings.runtimeMain ++ "() must call " ++ settings.initializer ++
        "() before running managed code. */",
      "int main(int argc, char* argv[])", "\x7b"] ++
    calls.map (fun (setter, value) => "    " ++ setter ++ "(\"" ++ value ++ "\");") ++
    ["    return " ++ settings.runtimeMain ++ "(argc, argv);", "\x7d"]

def unitLines (exports : List Export) (symbols : List String) (settings : Settings) :
    List String :=
  importLines exports settings ++ initializerLines symbols settings ++ entryPointLines settings

/-- The text of lines, each of them ended. -/
def textOf (lines : List String) : String := String.join (lines.map (· ++ "\n"))

end NativeBridge.Glue
