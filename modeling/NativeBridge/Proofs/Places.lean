import NativeBridge.Command.FileTree
import Mathlib.Data.List.Basic

/-! Places of files. Writing and deleting files moves no directory, so a path leads to the same
place all along. The path that is made for a sibling of a file leads to the directory of that
file. -/

namespace NativeBridge.Command

/-! ### Paths as text -/

/-- Whether a part of a path leads somewhere. -/
def leads (part : List Char) : Bool := !isVoid part

/-- The parts of a path that lead somewhere. -/
def steps (text : List Char) : List (List Char) := (segments text).filter leads

/-- A name of a file: one part of a path that leads down. -/
structure IsName (name : String) : Prop where
  whole : '/' ∉ name.toList
  proper : leads name.toList = true
  down : name.toList ≠ ['.', '.']

section text

variable {text front rest : List Char} {parts : List (List Char)} {last : List Char}

theorem segments_ne_nil (text : List Char) : segments text ≠ [] := by
  cases text with
  | nil => rintro ⟨⟩
  | cons c text =>
    rw [segments]
    split
    · rintro ⟨⟩
    · split <;> rintro ⟨⟩

theorem segments_append_slash (front rest : List Char) :
    segments (front ++ '/' :: rest) = segments front ++ segments rest := by
  induction front with
  | nil => rfl
  | cons c front ih =>
    rw [List.cons_append, segments, segments, ih]
    by_cases slash : c = '/'
    · rw [if_pos slash, if_pos slash, List.cons_append]
    · rw [if_neg slash, if_neg slash]
      -- The character joins the first part, which the front has.
      rcases known : segments front with _ | ⟨first, others⟩
      · exact absurd known (segments_ne_nil front)
      · rfl

theorem segments_of_whole (whole : '/' ∉ text) : segments text = [text] := by
  induction text with
  | nil => rfl
  | cons c text ih =>
    rw [List.mem_cons, not_or] at whole
    rw [segments, if_neg (Ne.symm whole.1), ih whole.2]

theorem whole_of_mem_segments (member : last ∈ segments text) : '/' ∉ last := by
  induction text generalizing last with
  | nil =>
    rw [segments, List.mem_singleton] at member
    simp [member]
  | cons c text ih =>
    rw [segments] at member
    split at member
    next =>
      rcases List.mem_cons.mp member with rfl | member
      · exact List.not_mem_nil
      · exact ih member
    next other =>
      rcases known : segments text with _ | ⟨first, others⟩
      · exact absurd known (segments_ne_nil text)
      · rw [known] at member ih
        rcases List.mem_cons.mp member with rfl | member
        · rw [List.mem_cons, not_or]
          exact ⟨Ne.symm other, ih List.mem_cons_self⟩
        · exact ih (List.mem_cons_of_mem _ member)

theorem steps_append_slash (front rest : List Char) :
    steps (front ++ '/' :: rest) = steps front ++ steps rest := by
  rw [steps, segments_append_slash, List.filter_append]
  rfl

theorem steps_of_name {name : String} (isName : IsName name) :
    steps name.toList = [name.toList] := by
  rw [steps, segments_of_whole isName.whole, List.filter_cons_of_pos isName.proper]
  rfl

/-- The steps of parts put together are those of the parts that lead somewhere. -/
theorem steps_intercalate (whole : ∀ part ∈ parts, '/' ∉ part) :
    steps (List.intercalate ['/'] parts) = parts.filter leads := by
  induction parts with
  | nil => rfl
  | cons part parts ih =>
    have here := whole part List.mem_cons_self
    cases parts with
    | nil => simp [steps, List.intercalate, segments_of_whole here]
    | cons next others =>
      rw [List.intercalate_cons_cons, List.append_assoc, List.singleton_append, steps_append_slash,
        ih fun part member => whole part (List.mem_cons_of_mem _ member), steps,
        segments_of_whole here, ← List.filter_append]
      rfl

theorem filter_trimVoid (parts : List (List Char)) :
    (trimVoid parts).filter leads = parts.filter leads := by
  have dropped : ∀ parts : List (List Char),
      (parts.dropWhile isVoid).filter leads = parts.filter leads := by
    intro parts
    induction parts with
    | nil => rfl
    | cons part parts ih =>
      rw [List.dropWhile_cons]
      split
      next void => rw [ih, List.filter_cons_of_neg (by simp [leads, void])]
      next => rfl
  rw [trimVoid, List.filter_reverse, dropped, List.filter_reverse, List.reverse_reverse]

theorem trimVoid_concat (proper : leads last = true) :
    trimVoid (parts ++ [last]) = parts ++ [last] := by
  have kept : isVoid last = false := by simpa [leads] using proper
  simp [trimVoid, kept]

theorem trimVoid_subset (parts : List (List Char)) : trimVoid parts ⊆ parts := by
  intro part member
  exact List.mem_reverse.mp ((List.dropWhile_sublist _).subset (List.mem_reverse.mp member))

/-- A first part that leads nowhere stays if anything behind it does. -/
theorem trimVoid_cons_nil (parts : List (List Char)) :
    trimVoid ([] :: parts) = if trimVoid parts = [] then [] else [] :: trimVoid parts := by
  have void : isVoid [] = true := rfl
  simp only [trimVoid, List.reverse_cons, List.dropWhile_append, List.isEmpty_iff,
    List.reverse_eq_nil_iff]
  split
  · simp [void]
  · simp

theorem steps_nil : steps [] = [] := rfl

theorem parent?_eq {path : String} {front : List (List Char)}
    (split : segments (path.toList.drop (leading path.toList).length) = front ++ [last])
    (proper : leads last = true) :
    parent? path = some (String.ofList
      (leading path.toList ++ List.intercalate ['/'] (trimVoid front))) := by
  simp only [parent?, split, trimVoid_concat proper, List.dropLast_concat]
  split
  next empty => simp at empty
  next => rfl

/-- What a path starts with is the root, the present directory or a part of its own. -/
theorem leading_cases (text : List Char) :
    (∃ rest, text = '/' :: rest) ∨ (∃ rest, text = '.' :: '/' :: rest) ∨ text = ['.'] ∨
      leading text = [] ∧ text.head? ≠ some '/' := by
  unfold leading
  split
  next rest => exact Or.inl ⟨rest, rfl⟩
  next => exact Or.inr (Or.inr (Or.inl rfl))
  next rest => exact Or.inr (Or.inl ⟨rest, rfl⟩)
  next other _ _ =>
    refine Or.inr (Or.inr (Or.inr ⟨rfl, fun slash => ?_⟩))
    obtain ⟨rest, rfl⟩ := List.head?_eq_some_iff.mp slash
    exact other rest rfl

theorem segments_cons_slash (rest : List Char) : segments ('/' :: rest) = [] :: segments rest := rfl

theorem steps_cons_slash (rest : List Char) : steps ('/' :: rest) = steps rest :=
  steps_append_slash [] rest

theorem steps_dot_intercalate (whole : ∀ part ∈ parts, '/' ∉ part) :
    steps ('.' :: List.intercalate ['/'] (trimVoid ([] :: parts))) = parts.filter leads := by
  -- What is trimmed is empty, or its first part and the dot make up the present directory.
  rw [trimVoid_cons_nil, ← filter_trimVoid parts]
  cases trimmed : trimVoid parts with
  | nil => rfl
  | cons first others =>
    rw [if_neg (List.cons_ne_nil _ _), List.intercalate_cons_cons]
    have split := steps_append_slash ['.'] (List.intercalate ['/'] (first :: others))
    rw [steps_intercalate fun part member => whole part
      (trimVoid_subset _ (trimmed ▸ member))] at split
    exact split

/-- Parts of a relative path do not put together to an absolute one. -/
theorem head?_intercalate {front : List (List Char)} (split : segments text = front ++ [last])
    (relative : text.head? ≠ some '/') :
    (List.intercalate ['/'] (trimVoid front)).head? ≠ some '/' := by
  have start : trimVoid front <+: front := by
    rw [trimVoid, ← List.reverse_suffix, List.reverse_reverse]
    exact List.dropWhile_suffix _
  cases trimmed : trimVoid front with
  | nil => rintro ⟨⟩
  | cons first others =>
    obtain ⟨rear, rfl⟩ := trimmed ▸ start
    cases text with
    | nil => simp [segments] at split
    | cons c text =>
      -- The first part starts as the path does.
      have other : c ≠ '/' := fun slash => relative (by rw [slash]; rfl)
      obtain ⟨tail, rfl⟩ : ∃ tail, first = c :: tail := by
        rw [segments, if_neg other] at split
        rcases known : segments text with _ | ⟨part, parts⟩
        · exact absurd known (segments_ne_nil text)
        · rw [known] at split
          exact ⟨part, (List.cons.inj split).1.symm⟩
      cases others with
      | nil => simpa [List.intercalate] using other
      | cons next others => simpa [List.intercalate_cons_cons] using other

/-- The directory of a path leads where the parts before the last one do. -/
theorem steps_parent? {path : String} {front : List (List Char)}
    (split : segments path.toList = front ++ [last]) (proper : leads last = true) :
    ∃ directory, parent? path = some directory ∧ steps directory.toList = front.filter leads ∧
      (directory.toList.head? = some '/' ↔ path.toList.head? = some '/') := by
  have whole : ∀ part ∈ front, '/' ∉ part := fun part member =>
    have inside : part ∈ segments path.toList := split ▸ List.mem_append_left _ member
    whole_of_mem_segments inside
  have trimmed : ∀ part ∈ trimVoid front, '/' ∉ part := fun part member =>
    whole part (trimVoid_subset _ member)
  rcases leading_cases path.toList with ⟨rest, start⟩ | ⟨rest, start⟩ | start | ⟨start, relative⟩
  · -- The path starts at the root, in front of which there is an empty part.
    rw [start, segments_cons_slash] at split
    cases front with
    | nil => exact absurd (List.cons.inj split).2 (segments_ne_nil rest)
    | cons first front =>
      obtain ⟨rfl, behind⟩ := List.cons.inj split
      refine ⟨_, parent?_eq (by rw [start]; exact behind) proper, ?_, by simp [start, leading]⟩
      rw [String.toList_ofList, start]
      have inside := steps_intercalate fun part member =>
        whole part (List.mem_cons_of_mem _ (trimVoid_subset front member))
      exact (steps_cons_slash _).trans (inside.trans (filter_trimVoid front))
  · -- It starts at the present directory. That is cut off, so an empty part is in its place.
    have behind : segments path.toList = ['.'] :: segments rest := by rw [start]; rfl
    rw [behind] at split
    cases front with
    | nil => exact absurd (List.cons.inj split).2 (segments_ne_nil rest)
    | cons first front =>
      obtain ⟨rfl, behind⟩ := List.cons.inj split
      have dropped : segments (path.toList.drop (leading path.toList).length) =
          ([] :: front) ++ [last] := by
        rw [start]
        exact congrArg ([] :: ·) behind
      refine ⟨_, parent?_eq dropped proper, ?_, by simp [start, leading]⟩
      rw [String.toList_ofList, start]
      exact steps_dot_intercalate fun part member => whole part (List.mem_cons_of_mem _ member)
  · -- The present directory by itself has no last part that leads somewhere.
    rw [start] at split
    have void : last = ['.'] := by
      cases front with
      | nil => exact (List.cons.inj split).1.symm
      | cons first front => simp [segments] at split
    rw [void] at proper
    cases proper
  · refine ⟨_, parent?_eq (by rw [start]; exact split) proper, ?_, ?_⟩
    · rw [String.toList_ofList, start, List.nil_append, steps_intercalate trimmed, filter_trimVoid]
    · rw [String.toList_ofList, start, List.nil_append]
      exact ⟨fun slash => absurd slash (head?_intercalate split relative),
        fun slash => absurd slash relative⟩

theorem steps_join (directory : String) {name : String} (isName : IsName name) :
    steps (join directory name).toList = steps directory.toList ++ [name.toList] ∧
      (segments (join directory name).toList).getLast? = some name.toList ∧
      ((join directory name).toList.head? = some '/' ↔ directory.toList.head? = some '/') := by
  have single := steps_of_name isName
  have relative : name.toList.head? ≠ some '/' := by
    intro slash
    exact isName.whole (List.mem_of_head? slash)
  unfold join
  split
  next empty =>
    obtain rfl := String.isEmpty_iff.mp empty
    refine ⟨single, by rw [segments_of_whole isName.whole]; rfl, ?_⟩
    exact ⟨fun slash => absurd slash relative, by rintro ⟨⟩⟩
  next filled =>
    have nonempty : directory.toList ≠ [] := fun empty =>
      filled (String.isEmpty_iff.mpr (String.toList_inj.mp empty))
    have head : ∀ rest, (directory.toList ++ rest).head? = directory.toList.head? := fun rest =>
      List.head?_append_of_ne_nil _ nonempty
    split
    next slash =>
      obtain ⟨front, split⟩ := List.getLast?_eq_some_iff.mp slash
      rw [String.toList_append, head, split, List.append_assoc, List.singleton_append,
        steps_append_slash, steps_append_slash, steps_nil, single, segments_append_slash,
        segments_of_whole isName.whole]
      simp
    next =>
      have joined : (directory ++ "/" ++ name).toList = directory.toList ++ '/' :: name.toList := by
        rw [String.toList_append, String.toList_append, List.append_assoc]
        rfl
      rw [joined, head, steps_append_slash, single, segments_append_slash,
        segments_of_whole isName.whole]
      simp

end text

/-! ### The tree -/

theorem Location.down_inj {directory other : Location} {first second : String} :
    directory.down first = other.down second ↔ directory = other ∧ first = second := by
  obtain ⟨anchor, names⟩ := directory
  obtain ⟨anchor', names'⟩ := other
  simp [Location.down, and_assoc]

namespace FileTree

variable {t u : FileTree} {place x : Location}

theorem lookup_filter (nodes : List (Location × Node)) (place x : Location) :
    (nodes.filter (·.1 != place)).lookup x = if x = place then none else nodes.lookup x := by
  induction nodes with
  | nil => simp
  | cons entry nodes ih =>
    obtain ⟨key, node⟩ := entry
    by_cases same : key = place
    · subst same
      rw [List.filter_cons_of_neg (by simp), ih, List.lookup_cons]
      split
      next => rfl
      next other => rw [beq_false_of_ne other]
    · rw [List.filter_cons_of_pos (by simpa using same), List.lookup_cons, List.lookup_cons, ih]
      by_cases found : x = key
      · subst found
        simp [same]
      · rw [beq_false_of_ne found]

/-- Places where no directory is have a name. -/
theorem names_ne_nil (free : t.isDirectory place = false) : place.names ≠ [] := by
  intro start
  simp [isDirectory, node?, start] at free

theorem node?_put (free : t.isDirectory place = false) (node : Node) (x : Location) :
    (t.put place node).node? x = if x = place then some node else t.node? x := by
  have named := names_ne_nil free
  by_cases same : x = place
  · subst same
    simp [node?, put, named]
  · simp [node?, put, lookup_filter, same, List.lookup_cons, beq_false_of_ne same]

theorem node?_erase (free : t.isDirectory place = false) (x : Location) :
    (t.erase place).node? x = if x = place then none else t.node? x := by
  have named := names_ne_nil free
  by_cases same : x = place
  · subst same
    simp [node?, erase, named, lookup_filter]
  · simp [node?, erase, lookup_filter, same]

/-- Writing a file makes or unmakes no directory. -/
theorem isDirectory_put (free : t.isDirectory place = false) (content : ByteArray) :
    (t.put place (.file content)).isDirectory = t.isDirectory := by
  funext x
  rw [isDirectory, node?_put free]
  by_cases same : x = place
  · rw [if_pos same, same, free]
  · rw [if_neg same]
    rfl

theorem isDirectory_erase (free : t.isDirectory place = false) :
    (t.erase place).isDirectory = t.isDirectory := by
  funext x
  rw [isDirectory, node?_erase free]
  by_cases same : x = place
  · rw [if_pos same, same, free]
  · rw [if_neg same]
    rfl

theorem walk_congr (same : u.isDirectory = t.isDirectory) (here : Location)
    (parts : List (List Char)) : u.walk here parts = t.walk here parts := by
  induction parts generalizing here with
  | nil => rfl
  | cons part parts ih => simp only [walk, same, ih]

theorem fileLocation?_congr (same : u.isDirectory = t.isDirectory) :
    u.fileLocation? = t.fileLocation? := by
  funext path
  simp only [fileLocation?, locate, walk_congr same, same]

theorem fileLocation?_eq_some_iff {path : String} :
    t.fileLocation? path = some place ↔
      namesDirectory path = false ∧ t.locate path = some place ∧ t.isDirectory place = false := by
  have unfolded : t.fileLocation? path = if namesDirectory path = true then none else
      (t.locate path).bind fun place =>
        if t.isDirectory place = true then none else some place := by
    unfold fileLocation?
    cases namesDirectory path <;> rfl
  rw [unfolded]
  split
  next named => simp [named]
  next named =>
    rw [Option.bind_eq_some_iff]
    constructor
    · rintro ⟨other, located, found⟩
      split at found
      · cases found
      next free =>
        obtain rfl := Option.some.inj found
        exact ⟨by simpa using named, located, by simpa using free⟩
    · rintro ⟨_, located, free⟩
      exact ⟨place, located, by rw [free]; rfl⟩

theorem walk_append (t : FileTree) (here : Location) (front rest : List (List Char)) :
    t.walk here (front ++ rest) = (t.walk here front).bind fun there => t.walk there rest := by
  induction front generalizing here with
  | nil => rfl
  | cons part front ih =>
    simp only [List.cons_append, walk]
    split
    · split
      · exact ih here
      · split
        · exact ih here.up
        · split
          · exact ih _
          · rfl
    · rfl

/-- One leaves a place only if it is a directory. -/
theorem walk_eq_none {here : Location} {parts : List (List Char)}
    (free : t.isDirectory here = false) (ahead : parts ≠ []) : t.walk here parts = none := by
  cases parts with
  | nil => exact absurd rfl ahead
  | cons part parts =>
    rw [walk, free]
    rfl

/-- Parts that lead nowhere can be left out, except at the end. -/
theorem walk_filter (here : Location) {parts : List (List Char)} {last : List Char}
    (ends : parts.getLast? = some last) (proper : leads last = true) :
    t.walk here (parts.filter leads) = t.walk here parts := by
  induction parts generalizing here with
  | nil => rfl
  | cons part parts ih =>
    cases parts with
    | nil =>
      obtain rfl : part = last := by simpa using ends
      rw [List.filter_cons_of_pos proper]
      rfl
    | cons next others =>
      have later := fun here => ih here (by simpa using ends)
      cases void : isVoid part with
      | true =>
        -- Such a part asks for a directory, and so does the next one.
        rw [List.filter_cons_of_neg (by simp [leads, void]), later, walk.eq_def t here (part :: _)]
        simp only [void, if_true]
        cases free : t.isDirectory here with
        | true => rfl
        | false => exact walk_eq_none free (List.cons_ne_nil _ _)
      | false =>
        rw [List.filter_cons_of_pos (by simp [leads, void]), walk, walk]
        simp only [later]

/-- The last step of the way to a file leads down from a directory. -/
theorem walk_concat {here : Location} {front : List (List Char)} {last : List Char}
    (proper : leads last = true) (down : last ≠ ['.', '.'])
    (found : t.walk here (front ++ [last]) = some place) :
    ∃ directory, t.walk here front = some directory ∧
      place = directory.down (String.ofList last) := by
  rw [walk_append, Option.bind_eq_some_iff] at found
  obtain ⟨directory, there, found⟩ := found
  have lasting : isVoid last = false := by simpa [leads] using proper
  refine ⟨directory, there, ?_⟩
  simp only [walk, lasting, down, Bool.false_eq_true, if_false] at found
  split at found
  · split at found
    · exact (Option.some.inj found).symm
    · cases found
  · cases found

/-- The place where the way that a path describes starts. -/
def start (path : String) : Location :=
  ⟨if path.toList.head? = some '/' then .root else .above 0, []⟩

/-- The last part of a path to a file leads down, so the parts that lead nowhere do not matter. -/
theorem walk_of_fileLocation? {path : String} {last : List Char}
    (ends : (segments path.toList).getLast? = some last)
    (there : t.fileLocation? path = some place) :
    leads last = true ∧ last ≠ ['.', '.'] ∧
      t.walk (start path) (steps path.toList) = some place := by
  obtain ⟨named, located, _⟩ := fileLocation?_eq_some_iff.mp there
  have proper : isVoid last = false ∧ last ≠ ['.', '.'] := by
    simpa [namesDirectory, ends] using named
  have leading : leads last = true := by simpa [leads] using proper.1
  refine ⟨leading, proper.2, ?_⟩
  rw [steps, walk_filter _ ends leading]
  unfold locate at located
  split at located
  · cases located
  · exact located

/-- The path made for a sibling of a file leads to the directory that the file is in. -/
theorem down_of_fileLocation? {path name : String} {beside : Location} (isName : IsName name)
    (there : t.fileLocation? path = some place)
    (sibled : t.fileLocation? (sibling path name) = some beside) :
    ∃ directory last, place = .down directory last ∧ beside = .down directory name := by
  obtain ⟨front, last, split⟩ : ∃ front last, segments path.toList = front ++ [last] :=
    ⟨_, _, (List.dropLast_concat_getLast (segments_ne_nil _)).symm⟩
  have ends : (segments path.toList).getLast? = some last := by simp [split]
  obtain ⟨proper, down, way⟩ := walk_of_fileLocation? ends there
  obtain ⟨parent, known, stepsParent, anchored⟩ := steps_parent? split proper
  obtain ⟨stepsJoin, ends, headJoin⟩ := steps_join parent isName
  have joined : sibling path name = join parent name := by rw [sibling, known]
  rw [joined] at sibled
  obtain ⟨_, _, wayBeside⟩ := walk_of_fileLocation? ends sibled
  -- Both ways go through the same directories, from the same start.
  have same : start (join parent name) = start path := by
    simp only [start, headJoin, anchored]
  have stepsPath : steps path.toList = front.filter leads ++ [last] := by
    rw [steps, split, List.filter_append, List.filter_cons_of_pos proper]
    rfl
  rw [stepsPath] at way
  rw [same, stepsJoin, stepsParent] at wayBeside
  obtain ⟨directory, through, rfl⟩ := walk_concat proper down way
  obtain ⟨directory', through', rfl⟩ := walk_concat isName.proper isName.down wayBeside
  obtain rfl : directory = directory' := Option.some.inj (through.symm.trans through')
  exact ⟨directory, _, rfl, by rw [String.ofList_toList]⟩

end FileTree

end NativeBridge.Command
