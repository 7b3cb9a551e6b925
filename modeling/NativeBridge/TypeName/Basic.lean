/-!
Type names: a namespace, a simple name and generic arguments, which are type names again. Two names
are the same type when they agree in all three. Names are ordered by namespace, then simple name,
then arguments from left to right.
-/

namespace NativeBridge

/-- A possibly generic type such as `App.Workers.Worker<App.Job>`. The namespace is empty for a type
of the global namespace. -/
structure TypeName where
  space : String
  name : String
  args : List TypeName
deriving Inhabited, Repr

namespace TypeName

mutual

/-- Equality of type names is decided part by part. -/
def decideEq : (t u : TypeName) → Decidable (t = u)
  | ⟨space, name, args⟩, ⟨space', name', args'⟩ =>
    if sameSpace : space = space' then
      if sameName : name = name' then
        match decideEqAll args args' with
        | isTrue sameArgs => isTrue (by rw [sameSpace, sameName, sameArgs])
        | isFalse differ => isFalse (fun same => differ (congrArg TypeName.args same))
      else isFalse (fun same => sameName (congrArg TypeName.name same))
    else isFalse (fun same => sameSpace (congrArg TypeName.space same))

/-- Equality of argument lists is decided argument by argument. -/
def decideEqAll : (ts us : List TypeName) → Decidable (ts = us)
  | [], [] => isTrue rfl
  | [], _ :: _ => isFalse (by simp)
  | _ :: _, [] => isFalse (by simp)
  | t :: ts, u :: us =>
    match decideEq t u with
    | isFalse differ => isFalse (fun same => differ (List.cons.inj same).1)
    | isTrue sameHead =>
      match decideEqAll ts us with
      | isTrue sameTail => isTrue (by rw [sameHead, sameTail])
      | isFalse differ => isFalse (fun same => differ (List.cons.inj same).2)

end

instance : DecidableEq TypeName := decideEq

/-- A type without generic arguments. -/
def simple (space name : String) : TypeName := ⟨space, name, []⟩

/-- The type of a method that returns nothing. -/
def void : TypeName := simple "System" "Void"

def int32 : TypeName := simple "System" "Int32"

/-- The root of the class hierarchy. -/
def object : TypeName := simple "System" "Object"

/-- Whether a method of this return type returns nothing. -/
def isVoid (t : TypeName) : Bool := decide (t = void)

def isGeneric (t : TypeName) : Bool := !t.args.isEmpty

/-- The name with its namespace and without generic arguments. -/
def qualified (t : TypeName) : String :=
  if t.space.isEmpty then t.name else t.space ++ "." ++ t.name

mutual

def order : TypeName → TypeName → Ordering
  | ⟨space, name, args⟩, ⟨space', name', args'⟩ =>
    ((compare space space').then (compare name name')).then (orderAll args args')

/-- Argument lists are ordered lexicographically, a proper initial part first. -/
def orderAll : List TypeName → List TypeName → Ordering
  | [], [] => .eq
  | [], _ :: _ => .lt
  | _ :: _, [] => .gt
  | t :: ts, u :: us => (order t u).then (orderAll ts us)

end

/-- Drops every element that equals the one before it. -/
def dropRepeats : List TypeName → List TypeName
  | t :: u :: rest => if t = u then dropRepeats (u :: rest) else t :: dropRepeats (u :: rest)
  | short => short

/-- The distinct types of a list in ascending order. -/
def sorted (types : List TypeName) : List TypeName :=
  dropRepeats (types.mergeSort fun t u => (order t u).isLE)

mutual

/-- The characters of a type name: arguments stand in angle brackets, a comma and a space between
two of them. -/
def spell : TypeName → List Char
  | ⟨space, name, args⟩ =>
    (if space.isEmpty then [] else space.toList ++ ['.']) ++ name.toList ++
      match args with
      | [] => []
      | first :: rest => '<' :: spell first ++ spellRest rest ++ ['>']

/-- The characters of the arguments after the first, each with its separator in front. -/
def spellRest : List TypeName → List Char
  | [] => []
  | t :: ts => ',' :: ' ' :: spell t ++ spellRest ts

end

def text (t : TypeName) : String := String.ofList (spell t)

def textList (types : List TypeName) : String := String.intercalate ", " (types.map text)

end TypeName

end NativeBridge
