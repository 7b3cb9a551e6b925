import NativeBridge.TypeName.Parser
import NativeBridge.Proofs.Success
import Mathlib.Data.List.DropRight
import Mathlib.Data.List.TakeWhile

/-! Type names read from text. Reading leaves a name in a shape from which its text can be read
again: no part holds a bracket or comma that would divide it elsewhere. The one thing that is lost
is a blank at the very front of the text, where a namespace is missing and the name begins with
it. -/

namespace NativeBridge

namespace Text

/-- A text that neither begins nor ends with a blank. -/
structure Tight (text : List Char) : Prop where
  first : ∀ c ∈ text.head?, isBlank c = false
  last : ∀ c ∈ text.getLast?, isBlank c = false

theorem trim_eq_rdropWhile (text : List Char) :
    trim text = (text.dropWhile isBlank).rdropWhile isBlank := rfl

theorem trim_of_tight {text : List Char} (tight : Tight text) : trim text = text := by
  have front : text.dropWhile isBlank = text := by
    cases text with
    | nil => rfl
    | cons c rest => exact List.dropWhile_cons_of_neg (by simp [tight.first c rfl])
  rw [trim_eq_rdropWhile, front, List.rdropWhile_eq_self_iff]
  intro nonempty
  simp [tight.last _ (List.getLast?_eq_getLast_of_ne_nil nonempty)]

theorem tight_trim (text : List Char) : Tight (trim text) := by
  rw [trim_eq_rdropWhile]
  constructor
  · intro c first
    -- What is left at the back begins where the blanks in front have ended.
    obtain ⟨rest, split⟩ := List.rdropWhile_prefix isBlank (l := text.dropWhile isBlank)
    have begins : (text.dropWhile isBlank).head? = some c := by
      rw [← split, List.head?_append, Option.mem_def.mp first, Option.some_or]
    have ended := List.head?_dropWhile_not isBlank text
    rw [begins] at ended
    exact ended
  · intro c last
    obtain ⟨nonempty, rfl⟩ := List.mem_getLast?_eq_getLast last
    simpa using List.rdropWhile_last_not isBlank _ nonempty

/-- What stands before a mark in a trimmed text stood before it in the text. -/
theorem mem_takeWhile_of_trim {p : Char → Bool} (keeps : ∀ c, isBlank c = true → p c = true)
    {text : List Char} {c : Char} (member : c ∈ (trim text).takeWhile p) :
    c ∈ text.takeWhile p := by
  rw [trim_eq_rdropWhile] at member
  obtain ⟨rest, split⟩ := List.rdropWhile_prefix isBlank (l := text.dropWhile isBlank)
  have inside : c ∈ (text.dropWhile isBlank).takeWhile p := by
    rw [← split, List.takeWhile_append]
    split
    · exact List.mem_append_left _ ((List.takeWhile_sublist p).subset member)
    · exact member
  rw [← List.takeWhile_append_dropWhile (p := isBlank) (l := text), List.takeWhile_append_of_pos]
  · exact List.mem_append_right _ inside
  · intro d blank
    exact keeps d (List.mem_takeWhile_imp blank)

end Text

namespace TypeName

open Success

/-- What stands in front of the arguments: a namespace, a dot and a simple name. -/
def headOf (space name : List Char) : List Char :=
  if space = [] then name else space ++ '.' :: name

/-- The arguments with their brackets. -/
def spellArgs : List TypeName → List Char
  | [] => []
  | first :: rest => '<' :: spell first ++ spellRest rest ++ ['>']

theorem spell_eq (space name : String) (args : List TypeName) :
    spell ⟨space, name, args⟩ = headOf space.toList name.toList ++ spellArgs args := by
  have empty : space.isEmpty = true ↔ space.toList = [] := by simp
  unfold spell headOf
  by_cases nothing : space.toList = []
  · rw [if_pos (empty.mpr nothing), if_pos nothing]
    cases args <;> rfl
  · rw [if_neg (mt empty.mp nothing), if_neg nothing]
    cases args <;> simp [spellArgs]

theorem splitHead_headOf {space name : List Char} (undotted : '.' ∉ name) :
    splitHead (headOf space name) = (space, name) := by
  have all : ∀ c ∈ name.reverse, (c != '.') = true := by
    intro c member
    have other : c ≠ '.' := fun same => undotted (same ▸ List.mem_reverse.mp member)
    simpa using other
  unfold headOf splitHead
  split
  next nothing =>
    subst nothing
    simp [List.takeWhile_eq_self_iff.mpr all, List.dropWhile_eq_nil_iff.mpr all]
  next =>
    have reversed : (space ++ '.' :: name).reverse = name.reverse ++ '.' :: space.reverse := by
      simp
    simp [reversed, List.takeWhile_append_of_pos all, List.dropWhile_append_of_pos all]

/-- Dividing a head at its last dot loses at most a dot in front. -/
theorem splitHead_spec {head space name : List Char} (split : splitHead head = (space, name)) :
    '.' ∉ name ∧ (head = headOf space name ∨ (space = [] ∧ head = '.' :: name)) := by
  simp only [splitHead, Prod.mk.injEq] at split
  obtain ⟨rfl, rfl⟩ := split
  constructor
  · intro dotted
    have other := List.mem_takeWhile_imp (List.mem_reverse.mp dotted)
    simp at other
  · have whole := List.takeWhile_append_dropWhile (p := (· != '.')) (l := head.reverse)
    cases behind : head.reverse.dropWhile (· != '.') with
    | nil =>
      rw [behind, List.append_nil] at whole
      rw [whole]
      exact Or.inl (by simp [headOf])
    | cons dot rest =>
      have stops := List.head?_dropWhile_not (· != '.') head.reverse
      rw [behind] at stops
      obtain rfl : dot = '.' := by simpa using stops
      -- The head read backwards is the name, the dot and the namespace.
      rw [behind] at whole
      have forward : head = rest.reverse ++
          '.' :: (head.reverse.takeWhile (· != '.')).reverse := by
        have turned := congrArg List.reverse whole
        rw [List.reverse_reverse, List.reverse_append, List.reverse_cons,
          List.append_assoc] at turned
        exact turned.symm
      cases rest with
      | nil => exact Or.inr ⟨rfl, forward⟩
      | cons c rest =>
        refine Or.inl ?_
        rw [headOf, if_neg (by simp)]
        exact forward

/-- What can be said of the namespace and the simple name of a type that was read. `inner` types
are arguments of others, and a type that is `bare` has none itself. -/
structure HeadParsed (inner bare : Bool) (space name : List Char) : Prop where
  named : name ≠ []
  undotted : '.' ∉ name
  unopened : '<' ∉ headOf space name
  unclosed : inner = true ∨ bare = true → '>' ∉ headOf space name
  undivided : inner = true → ',' ∉ headOf space name
  first : ∀ c ∈ space.head?, Text.isBlank c = false
  last : bare = true → ∀ c ∈ name.getLast?, Text.isBlank c = false

mutual

/-- A type has the shape that reading gives. -/
def Parsed (inner : Bool) : TypeName → Prop
  | ⟨space, name, args⟩ =>
    HeadParsed inner args.isEmpty space.toList name.toList ∧ AllParsed args

/-- All types of a list have the shape that reading gives to arguments. -/
def AllParsed : List TypeName → Prop
  | [] => True
  | t :: ts => Parsed true t ∧ AllParsed ts

end

mutual

/-- Neither a type nor an argument at any depth is without a namespace and named with a blank in
front. -/
def Plain : TypeName → Prop
  | ⟨space, name, args⟩ =>
    (space.toList = [] → name.toList.head?.any Text.isBlank = false) ∧ AllPlain args

/-- The same of a list of types. -/
def AllPlain : List TypeName → Prop
  | [] => True
  | t :: ts => Plain t ∧ AllPlain ts

end

mutual

/-- Whether a type is plain is decided part by part. -/
def decidePlain : (t : TypeName) → Decidable (Plain t)
  | ⟨space, name, args⟩ =>
    have := decideAllPlain args
    decidable_of_iff ((space.toList = [] → name.toList.head?.any Text.isBlank = false) ∧
      AllPlain args) (by rw [Plain])

def decideAllPlain : (ts : List TypeName) → Decidable (AllPlain ts)
  | [] => isTrue (by rw [AllPlain]; trivial)
  | t :: ts =>
    have := decidePlain t
    have := decideAllPlain ts
    decidable_of_iff (Plain t ∧ AllPlain ts) (by rw [AllPlain])

end

instance : DecidablePred Plain := decidePlain

/-- A type is another one or stands among its arguments, at any depth. -/
inductive PartOf : TypeName → TypeName → Prop
  | self (t : TypeName) : PartOf t t
  | argument {t u a : TypeName} (member : a ∈ t.args) (inner : PartOf u a) : PartOf u t

theorem plain_iff {t : TypeName} :
    Plain t ↔ (t.space.toList = [] → t.name.toList.head?.any Text.isBlank = false) ∧
      AllPlain t.args := by
  cases t
  rw [Plain]

theorem allPlain_iff (ts : List TypeName) : AllPlain ts ↔ ∀ t ∈ ts, Plain t := by
  induction ts with
  | nil => simp [AllPlain]
  | cons t ts ih => simp [AllPlain, ih]

theorem allParsed_iff (ts : List TypeName) : AllParsed ts ↔ ∀ t ∈ ts, Parsed true t := by
  induction ts with
  | nil => simp [AllParsed]
  | cons t ts ih => simp [AllParsed, ih]

section reading

/-- No bracket closes and no comma divides in front of the first opening bracket. -/
def Clean (part : List Char) : Prop := ∀ c ∈ part.takeWhile (· != '<'), c ≠ '>' ∧ c ≠ ','

theorem clean_cons {c : Char} {part : List Char} (clean : Clean part) (close : c ≠ '>')
    (comma : c ≠ ',') : Clean (c :: part) := by
  intro d member
  rw [List.takeWhile_cons] at member
  split at member
  · rcases List.mem_cons.mp member with rfl | behind
    · exact ⟨close, comma⟩
    · exact clean d behind
  · cases member

theorem clean_open (part : List Char) : Clean ('<' :: part) := by
  intro c member
  simp at member

theorem splitArguments_open (depth : Nat) (rest : List Char) :
    splitArguments depth ('<' :: rest) = (splitArguments (depth + 1) rest).map (growFirst '<') := by
  cases depth <;> rfl

theorem splitArguments_close (depth : Nat) (rest : List Char) :
    splitArguments (depth + 1) ('>' :: rest) = (splitArguments depth rest).map (growFirst '>') :=
  rfl

theorem splitArguments_comma (rest : List Char) :
    splitArguments 0 (',' :: rest) = (splitArguments 0 rest).map ([] :: ·) := rfl

theorem splitArguments_other {c : Char} (opens : c ≠ '<') (closes : c ≠ '>') {depth : Nat}
    (divides : ¬(c = ',' ∧ depth = 0)) (rest : List Char) :
    splitArguments depth (c :: rest) = (splitArguments depth rest).map (growFirst c) := by
  rw [splitArguments.eq_def]
  simp only [if_neg opens, if_neg closes, if_neg divides]

theorem tail_growFirst (c : Char) (parts : List (List Char)) :
    (growFirst c parts).tail = parts.tail := by
  cases parts <;> rfl

/-- The parts of an argument list have their brackets in order. With brackets open in front, only
the first part may close them. -/
theorem clean_of_splitArguments {chars : List Char} :
    ∀ {depth : Nat} {parts : List (List Char)}, splitArguments depth chars = some parts →
      (∀ part ∈ parts.tail, Clean part) ∧ (depth = 0 → ∀ part ∈ parts, Clean part) := by
  induction chars with
  | nil =>
    intro depth parts split
    cases depth with
    | zero =>
      obtain rfl : [[]] = parts := by simpa [splitArguments] using split
      simp [Clean]
    | succ depth => simp [splitArguments] at split
  | cons c rest ih =>
    intro depth parts split
    by_cases opens : c = '<'
    · subst opens
      rw [splitArguments_open, Option.map_eq_some_iff] at split
      obtain ⟨inner, split, rfl⟩ := split
      refine ⟨by rw [tail_growFirst]; exact (ih split).1, fun _ => ?_⟩
      cases inner with
      | nil => simpa [growFirst] using clean_open []
      | cons part parts =>
        rw [growFirst, List.forall_mem_cons]
        exact ⟨clean_open part, (ih split).1⟩
    by_cases closes : c = '>'
    · subst closes
      cases depth with
      | zero => rw [splitArguments.eq_def] at split; cases split
      | succ depth =>
        rw [splitArguments_close, Option.map_eq_some_iff] at split
        obtain ⟨outer, split, rfl⟩ := split
        exact ⟨by rw [tail_growFirst]; exact (ih split).1, nofun⟩
    by_cases divides : c = ',' ∧ depth = 0
    · obtain ⟨rfl, rfl⟩ := divides
      rw [splitArguments_comma, Option.map_eq_some_iff] at split
      obtain ⟨behind, split, rfl⟩ := split
      have clean := (ih split).2 rfl
      exact ⟨clean, fun _ => List.forall_mem_cons.mpr ⟨by simp [Clean], clean⟩⟩
    · rw [splitArguments_other opens closes divides, Option.map_eq_some_iff] at split
      obtain ⟨parts, split, rfl⟩ := split
      refine ⟨by rw [tail_growFirst]; exact (ih split).1, fun outside => ?_⟩
      have comma : c ≠ ',' := fun same => divides ⟨same, outside⟩
      cases parts with
      | nil =>
        have vacant : Clean [] := nofun
        simpa [growFirst] using clean_cons vacant closes comma
      | cons part parts =>
        rw [growFirst, List.forall_mem_cons]
        obtain ⟨first, others⟩ := List.forall_mem_cons.mp ((ih split).2 outside)
        exact ⟨clean_cons first closes comma, others⟩

theorem growFirst_ne_nil (c : Char) (parts : List (List Char)) : growFirst c parts ≠ [] := by
  cases parts <;> exact nofun

/-- Even the text between two brackets that enclose nothing is a part. -/
theorem splitArguments_ne_nil (depth : Nat) (chars : List Char) :
    splitArguments depth chars ≠ some [] := by
  fun_cases splitArguments depth chars <;> simp [growFirst_ne_nil]

/-- A head that holds no bracket or comma out of place passes this on to its two parts. -/
theorem headParsed_of_splitHead {inner bare : Bool} {head space name : List Char}
    (split : splitHead head = (space, name)) (named : name ≠ [])
    (unopened : '<' ∉ head) (unclosed : inner = true ∨ bare = true → '>' ∉ head)
    (undivided : inner = true → ',' ∉ head) (first : ∀ c ∈ head.head?, Text.isBlank c = false)
    (last : bare = true → ∀ c ∈ head.getLast?, Text.isBlank c = false) :
    HeadParsed inner bare space name := by
  obtain ⟨undotted, whole⟩ := splitHead_spec split
  have inside : ∀ c ∈ headOf space name, c ∈ head := by
    rcases whole with rfl | ⟨rfl, rfl⟩
    · exact fun c member => member
    · intro c member
      exact List.mem_cons_of_mem _ (by simpa [headOf] using member)
  refine ⟨named, undotted, mt (inside _) unopened, fun nested => mt (inside _) (unclosed nested),
    fun nested => mt (inside _) (undivided nested), fun c begins => ?_, fun plain c ends => ?_⟩
  · rcases whole with rfl | ⟨rfl, rfl⟩
    · have nonempty : space ≠ [] := by rintro rfl; cases begins
      refine first c ?_
      rw [headOf, if_neg nonempty, List.head?_append, Option.mem_def.mp begins, Option.some_or]
      rfl
    · cases begins
  · refine last plain c ?_
    have behind : ∀ front : List Char, c ∈ (front ++ name).getLast? := fun front => by
      rw [List.getLast?_append, Option.mem_def.mp ends, Option.some_or]
      rfl
    rcases whole with rfl | ⟨rfl, rfl⟩
    · rw [headOf]
      split
      · exact ends
      · simpa using behind (space ++ ['.'])
    · exact behind ['.']

theorem ofHead_ok {head : List Char} {args : List TypeName} {t : TypeName}
    (made : ofHead head args = .ok t) :
    splitHead head = (t.space.toList, t.name.toList) ∧ t.name.toList ≠ [] ∧ t.args = args := by
  rcases parts : splitHead head with ⟨space, name⟩
  simp only [ofHead, parts] at made
  by_cases empty : name.isEmpty
  · rw [if_pos empty] at made
    cases made
  · rw [if_neg empty] at made
    cases made
    simpa using empty

/-- What stands in front of the first opening bracket of a trimmed text. -/
theorem headParsed_of_trim {inner bare : Bool} {chars : List Char} {args : List TypeName}
    {t : TypeName} (clean : inner = true → Clean chars)
    (made : ofHead ((Text.trim chars).takeWhile (· != '<')) args = .ok t)
    (alone : bare = true →
      (Text.trim chars).takeWhile (· != '<') = Text.trim chars ∧ '>' ∉ Text.trim chars) :
    HeadParsed inner bare t.space.toList t.name.toList := by
  have tight := Text.tight_trim chars
  have kept : inner = true → ∀ c ∈ (Text.trim chars).takeWhile (· != '<'), c ≠ '>' ∧ c ≠ ',' := by
    intro nested c member
    refine clean nested c (Text.mem_takeWhile_of_trim (fun d blank => ?_) member)
    rw [bne_iff_ne]
    rintro rfl
    exact absurd blank (by decide)
  obtain ⟨split, named, -⟩ := ofHead_ok made
  apply headParsed_of_splitHead split named
  · intro member
    simpa using List.mem_takeWhile_imp member
  · rintro (nested | plain) member
    · exact (kept nested _ member).1 rfl
    · exact (alone plain).2 ((alone plain).1 ▸ member)
  · intro nested member
    exact (kept nested _ member).2 rfl
  · intro c begins
    rw [List.head?_takeWhile, Option.mem_def, Option.filter_eq_some_iff] at begins
    exact tight.first c begins.1
  · intro plain
    rw [(alone plain).1]
    exact tight.last

theorem parsed_iff {inner : Bool} {t : TypeName} :
    Parsed inner t ↔
      HeadParsed inner t.args.isEmpty t.space.toList t.name.toList ∧ AllParsed t.args := by
  cases t
  rw [Parsed]

/-- A text that is read is a head alone, or a head with bracketed arguments behind it. -/
theorem parseWithin_cases {fuel : Nat} {chars : List Char} {t : TypeName}
    (read : parseWithin (fuel + 1) chars = .ok t) :
    ((Text.trim chars).takeWhile (· != '<') = Text.trim chars ∧ '>' ∉ Text.trim chars ∧
        ofHead ((Text.trim chars).takeWhile (· != '<')) [] = .ok t) ∨
      ∃ inside parts args,
        Text.trim chars = (Text.trim chars).takeWhile (· != '<') ++ '<' :: (inside ++ ['>']) ∧
        splitArguments 0 inside = some parts ∧ parts.mapM (parseWithin fuel) = .ok args ∧
        ofHead ((Text.trim chars).takeWhile (· != '<')) args = .ok t := by
  have whole := List.takeWhile_append_dropWhile (p := (· != '<')) (l := Text.trim chars)
  rw [parseWithin] at read
  by_cases empty : (Text.trim chars).isEmpty
  · rw [if_pos empty] at read
    cases read
  rw [if_neg empty] at read
  rcases behind : (Text.trim chars).dropWhile (· != '<') with _ | ⟨bracket, bracketed⟩
  · rw [behind, List.append_nil] at whole
    simp only [behind, whole] at read
    by_cases closed : (Text.trim chars).contains '>'
    · rw [if_pos closed] at read
      cases read
    rw [if_neg closed] at read
    rw [whole]
    exact Or.inl ⟨rfl, by simpa using closed, read⟩
  · have opens := List.head?_dropWhile_not (· != '<') (Text.trim chars)
    rw [behind] at opens whole
    obtain rfl : bracket = '<' := by simpa using opens
    simp only [behind] at read
    by_cases ends : bracketed.getLast? = some '>'
    · rw [if_neg (by simp [ends])] at read
      obtain ⟨inside, rfl⟩ := List.getLast?_eq_some_iff.mp ends
      rw [List.dropLast_concat] at read
      rcases divided : splitArguments 0 inside with _ | parts
      · rw [divided] at read
        cases read
      simp only [divided] at read
      by_cases vacant : parts.any fun part => (Text.trim part).isEmpty
      · rw [if_pos vacant] at read
        cases read
      rw [if_neg vacant] at read
      obtain ⟨args, arguments, made⟩ := (bind_ok_iff _ _ _).mp read
      exact Or.inr ⟨inside, parts, args, whole.symm, divided, arguments, made⟩
    · rw [if_pos (by simp [ends])] at read
      cases read

theorem trim_ne_nil_of_parseWithin {fuel : Nat} {chars : List Char} {t : TypeName}
    (read : parseWithin fuel chars = .ok t) : Text.trim chars ≠ [] := by
  intro empty
  cases fuel with
  | zero => cases read
  | succ fuel =>
    rw [parseWithin, empty] at read
    cases read

/-- A type that was read has its shape; the text of an argument is `Clean`. -/
theorem parsed_of_parseWithin {fuel : Nat} :
    ∀ {inner : Bool} {chars : List Char} {t : TypeName}, (inner = true → Clean chars) →
      parseWithin fuel chars = .ok t → Parsed inner t := by
  induction fuel with
  | zero =>
    intro inner chars t clean read
    cases read
  | succ fuel ih =>
    intro inner chars t clean read
    rw [parsed_iff]
    rcases parseWithin_cases read with ⟨whole, unclosed, made⟩ |
      ⟨inside, parts, args, -, divided, arguments, made⟩
    · refine ⟨headParsed_of_trim clean made fun _ => ⟨whole, unclosed⟩, ?_⟩
      rw [(ofHead_ok made).2.2, allParsed_iff]
      nofun
    · obtain ⟨-, -, rfl⟩ := ofHead_ok made
      have pointwise := (mapM_ok_iff _ _ _).mp arguments
      have nonempty : t.args ≠ [] := by
        intro none
        rw [none, List.forall₂_nil_right_iff] at pointwise
        exact splitArguments_ne_nil _ _ (pointwise ▸ divided)
      refine ⟨headParsed_of_trim clean made fun bare => ?_, ?_⟩
      · exact absurd (List.isEmpty_iff.mp bare) nonempty
      · rw [allParsed_iff]
        intro arg member
        obtain ⟨part, among, read⟩ := exists_of_forall₂ pointwise member
        exact ih (fun _ => (clean_of_splitArguments divided).2 rfl part among) read

theorem parsed_of_parse {text : String} {t : TypeName} (read : parse text = .ok t) :
    Parsed false t := parsed_of_parseWithin nofun read

end reading

section writing

theorem foldr_growFirst (chars part : List Char) (parts : List (List Char)) :
    chars.foldr growFirst (part :: parts) = (chars ++ part) :: parts := by
  induction chars with
  | nil => rfl
  | cons c chars ih => rw [List.foldr_cons, ih, growFirst, List.cons_append]

/-- A text that, with `depth` brackets open, all goes to the part it stands in. -/
def Passes (depth : Nat) (chars : List Char) : Prop :=
  ∀ rest, splitArguments depth (chars ++ rest) =
    (splitArguments depth rest).map fun parts => chars.foldr growFirst parts

theorem Passes.append {depth : Nat} {front back : List Char} (first : Passes depth front)
    (second : Passes depth back) : Passes depth (front ++ back) := by
  intro rest
  rw [List.append_assoc, first, second, Option.map_map]
  simp [Function.comp_def, List.foldr_append]

theorem passes_of_plain {depth : Nat} {chars : List Char} (opens : '<' ∉ chars)
    (closes : '>' ∉ chars) (divides : depth = 0 → ',' ∉ chars) : Passes depth chars := by
  induction chars with
  | nil => intro rest; simp
  | cons c chars ih =>
    simp only [List.mem_cons, not_or] at opens closes divides
    intro rest
    have step := splitArguments_other (Ne.symm opens.1) (Ne.symm closes.1)
      (fun comma : c = ',' ∧ depth = 0 => (divides comma.2).1 comma.1.symm) (chars ++ rest)
    rw [List.cons_append, step, ih opens.2 closes.2 (fun zero => (divides zero).2), Option.map_map]
    rfl

theorem Passes.bracket {depth : Nat} {chars : List Char} (inside : Passes (depth + 1) chars) :
    Passes depth ('<' :: (chars ++ ['>'])) := by
  intro rest
  rw [List.cons_append, splitArguments_open, List.append_assoc, inside, List.singleton_append,
    splitArguments_close, Option.map_map, Option.map_map]
  simp [Function.comp_def]

theorem spellArgs_cons (first : TypeName) (rest : List TypeName) :
    spellArgs (first :: rest) = '<' :: ((spell first ++ spellRest rest) ++ ['>']) := rfl

mutual

/-- The text of an argument stays within its part. -/
theorem passes_spell : ∀ (t : TypeName), Parsed true t → ∀ depth, Passes depth (spell t)
  | ⟨space, name, args⟩, parsed, depth => by
    rw [Parsed] at parsed
    obtain ⟨head, arguments⟩ := parsed
    rw [spell_eq]
    refine Passes.append
      (passes_of_plain head.unopened (head.unclosed (Or.inl rfl)) fun _ => head.undivided rfl) ?_
    match args, arguments with
    | [], _ => exact passes_of_plain nofun nofun nofun
    | first :: rest, arguments =>
      rw [AllParsed] at arguments
      rw [spellArgs_cons]
      exact ((passes_spell first arguments.1 _).append
        (passes_spellRest rest arguments.2 depth)).bracket

theorem passes_spellRest :
    ∀ (ts : List TypeName), AllParsed ts → ∀ depth, Passes (depth + 1) (spellRest ts)
  | [], _, _ => passes_of_plain nofun nofun nofun
  | t :: ts, parsed, depth => by
    rw [AllParsed] at parsed
    have separator : Passes (depth + 1) [',', ' '] :=
      passes_of_plain (by decide) (by decide) nofun
    exact (separator.append (passes_spell t parsed.1 _)).append
      (passes_spellRest ts parsed.2 depth)

end

/-- The text between the brackets comes apart into the texts of the arguments, all but the first
with a blank in front. -/
theorem splitArguments_spellRest {ts : List TypeName} (parsed : AllParsed ts) :
    splitArguments 0 (spellRest ts) = some ([] :: ts.map fun t => ' ' :: spell t) := by
  induction ts with
  | nil => rfl
  | cons t ts ih =>
    rw [AllParsed] at parsed
    have blank : Passes 0 [' '] := passes_of_plain (by decide) (by decide) (by decide)
    have part := (blank.append (passes_spell t parsed.1 0)) (spellRest ts)
    rw [ih parsed.2, Option.map_some, foldr_growFirst] at part
    change splitArguments 0 (',' :: (([' '] ++ spell t) ++ spellRest ts)) = _
    rw [splitArguments_comma, part]
    simp

theorem splitArguments_spell {t : TypeName} {ts : List TypeName} (first : Parsed true t)
    (others : AllParsed ts) :
    splitArguments 0 (spell t ++ spellRest ts) =
      some (spell t :: ts.map fun u => ' ' :: spell u) := by
  rw [passes_spell t first, splitArguments_spellRest others, Option.map_some, foldr_growFirst,
    List.append_nil]

theorem headOf_ne_nil {inner bare : Bool} {space name : List Char}
    (parsed : HeadParsed inner bare space name) : headOf space name ≠ [] := by
  rw [headOf]
  split
  · exact parsed.named
  · simp

/-- The text of a type that does not begin with a blank needs no trimming. -/
theorem tight_spell {inner : Bool} {t : TypeName} (parsed : Parsed inner t)
    (front : t.space.toList = [] → t.name.toList.head?.any Text.isBlank = false) :
    Text.Tight (spell t) := by
  obtain ⟨space, name, args⟩ := t
  rw [Parsed] at parsed
  rw [spell_eq]
  have head := parsed.1
  constructor
  · intro c begins
    rw [List.head?_append_of_ne_nil _ (headOf_ne_nil head), headOf] at begins
    split at begins
    next nothing => simpa [Option.mem_def.mp begins] using front nothing
    next something =>
      rw [List.head?_append_of_ne_nil _ something] at begins
      exact head.first c begins
  · intro c ends
    cases args with
    | nil =>
      rw [spellArgs, List.append_nil, headOf] at ends
      refine head.last rfl c ?_
      split at ends
      · exact ends
      · rwa [← List.singleton_append, ← List.append_assoc,
          List.getLast?_append_of_ne_nil _ head.named] at ends
    | cons first rest =>
      rw [spellArgs_cons, ← List.cons_append, ← List.append_assoc, List.getLast?_concat] at ends
      cases ends
      decide

theorem spell_ne_nil {inner : Bool} {t : TypeName} (parsed : Parsed inner t) : spell t ≠ [] := by
  obtain ⟨space, name, args⟩ := t
  rw [Parsed] at parsed
  rw [spell_eq]
  exact List.append_ne_nil_of_left_ne_nil (headOf_ne_nil parsed.1) _

theorem parseWithin_blank (fuel : Nat) (chars : List Char) :
    parseWithin fuel (' ' :: chars) = parseWithin fuel chars := by
  have trimmed : Text.trim (' ' :: chars) = Text.trim chars := rfl
  cases fuel with
  | zero => rfl
  | succ fuel => rw [parseWithin, parseWithin, trimmed]

theorem ofHead_headOf {inner bare : Bool} {space name : String}
    (head : HeadParsed inner bare space.toList name.toList) (args : List TypeName) :
    ofHead (headOf space.toList name.toList) args = .ok ⟨space, name, args⟩ := by
  simp [ofHead, splitHead_headOf head.undotted, head.named]

/-- The head of a text ends where the arguments begin. -/
theorem span_headOf {inner bare : Bool} {space name : List Char}
    (head : HeadParsed inner bare space name) (args : List TypeName) :
    (headOf space name ++ spellArgs args).takeWhile (· != '<') = headOf space name ∧
      (headOf space name ++ spellArgs args).dropWhile (· != '<') = spellArgs args := by
  have all : ∀ c ∈ headOf space name, (c != '<') = true := by
    intro c member
    rw [bne_iff_ne]
    rintro rfl
    exact head.unopened member
  rw [List.takeWhile_append_of_pos all, List.dropWhile_append_of_pos all]
  cases args <;> simp [spellArgs]

/-- Arguments that read back from their texts read back as a list. -/
theorem parseWithin_generic {inner : Bool} {fuel : Nat} {space name : String} {first : TypeName}
    {rest : List TypeName} (parsed : Parsed inner ⟨space, name, first :: rest⟩)
    (front : space.toList = [] → name.toList.head?.any Text.isBlank = false)
    (arguments : (spell first :: rest.map fun t => ' ' :: spell t).mapM (parseWithin fuel) =
      .ok (first :: rest)) :
    parseWithin (fuel + 1) (spell ⟨space, name, first :: rest⟩) =
      .ok ⟨space, name, first :: rest⟩ := by
  have nonempty := spell_ne_nil parsed
  have tight := tight_spell parsed front
  rw [Parsed, AllParsed] at parsed
  obtain ⟨head, leading, others⟩ := parsed
  rw [spell_eq] at nonempty tight ⊢
  obtain ⟨before, behind⟩ := span_headOf head (first :: rest)
  have divided := splitArguments_spell leading others
  rw [parseWithin, Text.trim_of_tight tight, if_neg (by simpa using nonempty), before, behind,
    spellArgs_cons]
  simp only [List.getLast?_concat, List.dropLast_concat, divided]
  rw [if_neg (by simp), if_neg]
  · rw [arguments, ok_bind, ofHead_headOf head]
  · -- Each argument was read, and what is read is not blank.
    intro vacant
    obtain ⟨part, member, empty⟩ := List.any_eq_true.mp vacant
    obtain ⟨arg, -, read⟩ := exists_of_forall₂ ((mapM_ok_iff _ _ _).mp arguments).flip member
    exact trim_ne_nil_of_parseWithin read (List.isEmpty_iff.mp empty)

mutual

/-- The text of a plain type of the right shape reads back as that type. -/
theorem parseWithin_spell : ∀ (t : TypeName) {inner : Bool} {fuel : Nat}, Parsed inner t →
    Plain t → (spell t).length < fuel → parseWithin fuel (spell t) = .ok t
  | _, _, 0, _, _, short => absurd short (Nat.not_lt_zero _)
  | ⟨space, name, args⟩, inner, fuel + 1, parsed, plain, short => by
    match args with
    | [] =>
      have nonempty := spell_ne_nil parsed
      have tight := tight_spell parsed (plain_iff.mp plain).1
      have head := (parsed_iff.mp parsed).1
      rw [spell_eq] at nonempty tight ⊢
      obtain ⟨front, behind⟩ := span_headOf head []
      rw [parseWithin, Text.trim_of_tight tight, if_neg (by simpa using nonempty), front, behind,
        spellArgs]
      have unclosed := head.unclosed (Or.inr rfl)
      simp only [List.contains_eq_mem, decide_eq_true_eq]
      rw [if_neg unclosed, ofHead_headOf head]
    | first :: rest =>
      have arguments := (parsed_iff.mp parsed).2
      have plainly := plain
      rw [AllParsed] at arguments
      rw [Plain, AllPlain] at plainly
      rw [spell_eq, spellArgs_cons] at short
      simp only [List.length_append, List.length_cons] at short
      refine parseWithin_generic parsed plainly.1 ?_
      rw [List.mapM_cons, parseWithin_spell first arguments.1 plainly.2.1 (by omega), ok_bind,
        mapM_parseWithin_spell rest arguments.2 plainly.2.2 (by omega), ok_bind]
      rfl

theorem mapM_parseWithin_spell : ∀ (ts : List TypeName) {fuel : Nat}, AllParsed ts →
    AllPlain ts → (spellRest ts).length < fuel →
    (ts.map fun t => ' ' :: spell t).mapM (parseWithin fuel) = .ok ts
  | [], _, _, _, _ => rfl
  | t :: ts, fuel, parsed, plain, short => by
    rw [AllParsed] at parsed
    rw [AllPlain] at plain
    rw [spellRest] at short
    simp only [List.length_append, List.length_cons] at short
    rw [List.map_cons, List.mapM_cons, parseWithin_blank,
      parseWithin_spell t parsed.1 plain.1 (by omega), ok_bind,
      mapM_parseWithin_spell ts parsed.2 plain.2 (by omega), ok_bind]
    rfl

end

theorem parse_text {inner : Bool} {t : TypeName} (parsed : Parsed inner t) (plain : Plain t) :
    parse t.text = .ok t := by
  rw [parse, text, String.toList_ofList]
  exact parseWithin_spell t parsed plain (Nat.lt_succ_self _)

end writing

end TypeName

end NativeBridge
