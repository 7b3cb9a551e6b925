import NativeBridge.Command.Prepare
import NativeBridge.Proofs.JsonText
import NativeBridge.Proofs.Places
import NativeBridge.Proofs.ReferenceScan

/-! What a preparation leaves of the files, over any operations that keep a tree of files. One that
succeeds puts the module and its side tables into one directory, where the module takes the place of
a side table of the same name. One that fails changes nothing but the side tables: those that it had
put into place are deleted, whatever was there before. -/

namespace NativeBridge.Command

variable {σ δ α β : Type}

/-! ### Actions on a state -/

/-- An action on a state gives a value and leaves another state. -/
def Gives (action : StateM σ α) (s : σ) (value : α) (after : σ) : Prop :=
  action.run s = (value, after)

section actions

variable {s after : σ}

@[simp] theorem gives_pure_iff (a value : α) :
    Gives (pure a : StateM σ α) s value after ↔ a = value ∧ s = after := by
  change (a, s) = _ ↔ _
  exact Prod.ext_iff

@[simp] theorem gives_bind_iff (action : StateM σ α) (f : α → StateM σ β) (value : β) :
    Gives (action >>= f) s value after ↔
      ∃ a between, Gives action s a between ∧ Gives (f a) between value after := by
  unfold Gives
  rw [StateT.run_bind]
  rcases ran : StateT.run action s with ⟨a, between⟩
  constructor
  · intro rest
    exact ⟨a, between, rfl, rest⟩
  · rintro ⟨_, _, ⟨⟩, rest⟩
    exact rest

@[simp] theorem gives_throw_iff (failure : String) (result : Except String α) :
    Gives (throw failure : Action (StateM σ) α).run s result after ↔
      .error failure = result ∧ s = after :=
  gives_pure_iff (.error failure) result

@[simp] theorem gives_return_iff (a : α) (result : Except String α) :
    Gives (pure a : Action (StateM σ) α).run s result after ↔ .ok a = result ∧ s = after :=
  gives_pure_iff (.ok a) result

@[simp] theorem gives_lift_iff (action : StateM σ α) (result : Except String α) :
    Gives (liftM action : Action (StateM σ) α).run s result after ↔
      ∃ a, Gives action s a after ∧ .ok a = result := by
  have lifted : (liftM action : Action (StateM σ) α).run = action >>= fun a => pure (.ok a) := rfl
  simp only [lifted, gives_bind_iff, gives_pure_iff]
  constructor
  · rintro ⟨a, _, first, rfl, rfl⟩
    exact ⟨a, first, rfl⟩
  · rintro ⟨a, first, rfl⟩
    exact ⟨a, after, first, rfl, rfl⟩

/-- A sequence that may fail goes on after its first part or ends with it. -/
theorem gives_run_bind_iff (action : Action (StateM σ) α) (f : α → Action (StateM σ) β)
    (result : Except String β) :
    Gives (action >>= f).run s result after ↔
      (∃ a between, Gives action.run s (.ok a) between ∧ Gives (f a).run between result after) ∨
        ∃ failure, Gives action.run s (.error failure) after ∧ result = .error failure := by
  rw [ExceptT.run_bind, gives_bind_iff]
  constructor
  · rintro ⟨_ | a, between, first, rest⟩
    · obtain ⟨rfl, rfl⟩ := (gives_pure_iff ..).mp rest
      exact Or.inr ⟨_, first, rfl⟩
    · exact Or.inl ⟨a, between, first, rest⟩
  · rintro (⟨a, between, first, rest⟩ | ⟨failure, first, rfl⟩)
    · exact ⟨.ok a, between, first, rest⟩
    · exact ⟨.error failure, after, first, (gives_pure_iff ..).mpr ⟨rfl, rfl⟩⟩

theorem run_of_gives {action : Action (StateM σ) α} {f : α → Action (StateM σ) β} {a : α}
    {between : σ} (first : Gives action.run s (.ok a) between) :
    (action >>= f).run.run s = (f a).run.run between := by
  rw [ExceptT.run_bind, StateT.run_bind, first]
  rfl

end actions

/-! ### Files written and deleted one after another -/

namespace FileTree

variable {t u : FileTree} {place : Location}

/-- Gives files new content, in order. -/
def writeAll? (t : FileTree) : List (String × String) → Option FileTree
  | [] => some t
  | file :: rest => (t.write? file.1 file.2).bind (·.writeAll? rest)

/-- Deletes files, in order. -/
def removeAll (t : FileTree) (paths : List String) : FileTree := paths.foldl remove t

theorem write?_eq_some_iff {path content : String} :
    t.write? path content = some u ↔
      ∃ place, t.fileLocation? path = some place ∧ t.put place (.file content.toUTF8) = u :=
  Option.map_eq_some_iff

theorem isDirectory_of_write? {path content : String} (written : t.write? path content = some u) :
    u.isDirectory = t.isDirectory := by
  obtain ⟨place, located, rfl⟩ := write?_eq_some_iff.mp written
  exact isDirectory_put (fileLocation?_eq_some_iff.mp located).2.2 _

theorem node?_of_write? {path content : String} (written : t.write? path content = some u)
    (x : Location) :
    u.node? x =
      if t.fileLocation? path = some x then some (.file content.toUTF8) else t.node? x := by
  obtain ⟨place, located, rfl⟩ := write?_eq_some_iff.mp written
  rw [node?_put (fileLocation?_eq_some_iff.mp located).2.2, located]
  simp only [Option.some.injEq, eq_comm]

theorem isDirectory_of_writeAll? {files : List (String × String)}
    (written : t.writeAll? files = some u) : u.isDirectory = t.isDirectory := by
  induction files generalizing t with
  | nil =>
    obtain rfl := Option.some.inj written
    rfl
  | cons file rest ih =>
    obtain ⟨between, first, later⟩ := Option.bind_eq_some_iff.mp written
    rw [ih later, isDirectory_of_write? first]

theorem fileLocation?_of_writeAll? {files : List (String × String)}
    (written : t.writeAll? files = some u) {file : String × String} (member : file ∈ files) :
    ∃ place, t.fileLocation? file.1 = some place := by
  induction files generalizing t with
  | nil => cases member
  | cons head rest ih =>
    obtain ⟨between, first, later⟩ := Option.bind_eq_some_iff.mp written
    rcases List.mem_cons.mp member with rfl | member
    · obtain ⟨place, located, _⟩ := write?_eq_some_iff.mp first
      exact ⟨place, located⟩
    · rw [← fileLocation?_congr (isDirectory_of_write? first)]
      exact ih later member

theorem node?_writeAll?_of_ne {files : List (String × String)}
    (written : t.writeAll? files = some u)
    (apart : ∀ file ∈ files, t.fileLocation? file.1 ≠ some place) :
    u.node? place = t.node? place := by
  induction files generalizing t with
  | nil =>
    obtain rfl := Option.some.inj written
    rfl
  | cons file rest ih =>
    obtain ⟨between, first, later⟩ := Option.bind_eq_some_iff.mp written
    have same := fileLocation?_congr (isDirectory_of_write? first)
    rw [ih later fun file member => same ▸ apart file (List.mem_cons_of_mem _ member),
      node?_of_write? first, if_neg (apart file List.mem_cons_self)]

/-- What was written to a place last is there. -/
theorem node?_writeAll? (front : List (String × String)) {rest : List (String × String)}
    {file : String × String} (written : t.writeAll? (front ++ file :: rest) = some u)
    (located : t.fileLocation? file.1 = some place)
    (apart : ∀ later ∈ rest, t.fileLocation? later.1 ≠ some place) :
    u.node? place = some (.file file.2.toUTF8) := by
  induction front generalizing t with
  | nil =>
    obtain ⟨between, first, later⟩ := Option.bind_eq_some_iff.mp written
    have same := fileLocation?_congr (isDirectory_of_write? first)
    rw [node?_writeAll?_of_ne later (same ▸ apart), node?_of_write? first, if_pos located]
  | cons head front ih =>
    obtain ⟨between, first, later⟩ := Option.bind_eq_some_iff.mp written
    have same := fileLocation?_congr (isDirectory_of_write? first)
    exact ih later (same ▸ located) (same ▸ apart)

theorem isDirectory_remove (t : FileTree) (path : String) :
    (t.remove path).isDirectory = t.isDirectory := by
  unfold remove
  split
  next place located => exact isDirectory_erase (fileLocation?_eq_some_iff.mp located).2.2
  next => rfl

theorem node?_remove (t : FileTree) (path : String) (x : Location) :
    (t.remove path).node? x = if t.fileLocation? path = some x then none else t.node? x := by
  unfold remove
  split
  next place located =>
    rw [node?_erase (fileLocation?_eq_some_iff.mp located).2.2, located]
    simp only [Option.some.injEq, eq_comm]
  next lost =>
    rw [lost]
    rfl

/-- Deleting files leaves nothing in their places, and all else as it was. -/
theorem node?_removeAll (t : FileTree) (paths : List String) (place : Location) :
    (∃ path ∈ paths, t.fileLocation? path = some place) ∧ (t.removeAll paths).node? place = none ∨
      (∀ path ∈ paths, t.fileLocation? path ≠ some place) ∧
        (t.removeAll paths).node? place = t.node? place := by
  induction paths generalizing t with
  | nil => exact Or.inr ⟨by simp, rfl⟩
  | cons path paths ih =>
    -- No directory goes, so the other paths lead where they led.
    have same := fileLocation?_congr (isDirectory_remove t path)
    have step : (t.removeAll (path :: paths)) = (t.remove path).removeAll paths := rfl
    rw [step]
    rcases ih (t.remove path) with ⟨⟨other, member, located⟩, gone⟩ | ⟨apart, kept⟩
    · exact Or.inl ⟨⟨other, List.mem_cons_of_mem _ member, same ▸ located⟩, gone⟩
    · rw [kept, node?_remove]
      by_cases here : t.fileLocation? path = some place
      · exact Or.inl ⟨⟨path, List.mem_cons_self, here⟩, if_pos here⟩
      · exact Or.inr ⟨List.forall_mem_cons.mpr ⟨here, same ▸ apart⟩, if_neg here⟩

end FileTree

/-! ### Operations that keep a tree of files -/

/-- Operations on files work on a tree, though each of them may fail. Looking at a path and writing
or giving up a draft change nothing. A draft that is moved to a path is written there. -/
structure FileSystem.Lawful (fs : FileSystem (StateM σ) δ) (tree : σ → FileTree)
    (text : δ → String) : Prop where
  look : ∀ {path s seen after}, Gives (fs.look path) s seen after →
    tree after = tree s ∧ (seen = (tree s).look path ∨ seen = .refused)
  draft : ∀ {directory content s result after}, Gives (fs.draft directory content) s result after →
    tree after = tree s ∧ ∀ d, result = .ok d → text d = content
  place : ∀ {d path s placed after}, Gives (fs.place d path) s placed after →
    if placed then (tree s).write? path (text d) = some (tree after) else tree after = tree s
  discard : ∀ {d s value after}, Gives (fs.discard d) s value after → tree after = tree s
  remove : ∀ {path s value after}, Gives (fs.remove path) s value after →
    tree after = (tree s).remove path

/-- The operations on a tree by itself are of this kind. -/
theorem FileTree.operations_lawful :
    FileTree.operations.Lawful (fun t => t) (fun content => content) where
  look := by
    rintro path s seen after ⟨⟩
    exact ⟨rfl, Or.inl rfl⟩
  draft := by
    rintro directory content s result after ⟨⟩
    refine ⟨rfl, fun d drafted => ?_⟩
    split at drafted
    · exact (Except.ok.inj drafted).symm
    · cases drafted
  place := by
    intro d path s placed after ran
    have stored : FileTree.store path d s = (placed, after) := ran
    unfold FileTree.store at stored
    split at stored
    next written =>
      cases stored
      exact written
    next =>
      cases stored
      rfl
  discard := by
    rintro d s value after ⟨⟩
    rfl
  remove := by
    rintro path s value after ⟨⟩
    rfl

/-- The outputs that a preparation computes from the files of a tree. -/
def Computes (t : FileTree) (module registry : String) (settings : PassSettings) (o : Outputs) :
    Prop :=
  ∃ source listing program bindings,
    (t.look module).text? = some source ∧ Module.load (Json.read source) = .ok program ∧
    (t.look registry).text? = some listing ∧
    StaticBindings.load (Json.read listing) = .ok bindings ∧
    let outcome := Pass.run (Pass.standardRules bindings settings.workerFactory) settings.verify
      program default
    outcome.result = .ok o.report ∧ outcome.edited = o.module ∧ outcome.state = o.tables

theorem computes_of_load {t : FileTree} {module registry source listing : String}
    {settings : PassSettings} {program : Module} {bindings : StaticBindings} {report : Pass.Report}
    (sourced : (t.look module).text? = some source)
    (loaded : Module.load (Json.read source) = .ok program)
    (listed : (t.look registry).text? = some listing)
    (bound : StaticBindings.load (Json.read listing) = .ok bindings)
    (succeeded : (Pass.run (Pass.standardRules bindings settings.workerFactory) settings.verify
      program default).result = .ok report) :
    let outcome := Pass.run (Pass.standardRules bindings settings.workerFactory) settings.verify
      program default
    Computes t module registry settings ⟨outcome.edited, outcome.state, report⟩ :=
  ⟨source, listing, program, bindings, sourced, loaded, listed, bound, succeeded, rfl, rfl⟩

theorem Computes.unique {t : FileTree} {module registry : String} {settings : PassSettings}
    {o other : Outputs} (computes : Computes t module registry settings o)
    (computes' : Computes t module registry settings other) : o = other := by
  obtain ⟨source, listing, program, bindings, sourced, loaded, listed, bound, reported, edited,
    state⟩ := computes
  obtain ⟨source', listing', program', bindings', sourced', loaded', listed', bound', reported',
    edited', state'⟩ := computes'
  obtain rfl := Option.some.inj (sourced.symm.trans sourced')
  obtain rfl := Except.ok.inj (loaded.symm.trans loaded')
  obtain rfl := Option.some.inj (listed.symm.trans listed')
  obtain rfl := Except.ok.inj (bound.symm.trans bound')
  obtain ⟨module, tables, report⟩ := o
  obtain ⟨module', tables', report'⟩ := other
  obtain rfl := Except.ok.inj (reported.symm.trans reported')
  obtain rfl : module = module' := edited.symm.trans edited'
  obtain rfl : tables = tables' := state.symm.trans state'
  rfl

/-- On a tree by itself, outputs that can be computed are computed. -/
theorem compute_of_computes {t : FileTree} {module registry : String} {settings : PassSettings}
    {o : Outputs} (computes : Computes t module registry settings o) :
    Gives (compute FileTree.operations module registry settings).run t (.ok o) t := by
  obtain ⟨source, listing, program, bindings, sourced, loaded, listed, bound, reported, edited,
    state⟩ := computes
  have read : ∀ {path failure content : String}, (t.look path).text? = some content →
      Gives (readText FileTree.operations path failure).run t (.ok content) t := by
    intro path failure content found
    rw [readText, gives_run_bind_iff]
    refine Or.inl ⟨t.look path, t, rfl, ?_⟩
    rw [found]
    exact (gives_return_iff ..).mpr ⟨rfl, rfl⟩
  rw [compute, gives_run_bind_iff]
  refine Or.inl ⟨source, t, read sourced, ?_⟩
  rw [loaded, gives_run_bind_iff]
  refine Or.inl ⟨listing, t, read listed, ?_⟩
  rw [bound]
  dsimp only
  rw [reported]
  refine (gives_return_iff ..).mpr ⟨?_, rfl⟩
  rw [edited, state]

/-- What stands before one of three things is made of the first two. -/
private theorem prefix_of_append_cons {a b c x : α} {front rear : List α}
    (split : front ++ x :: rear = [a, b, c]) : front <+: [a, b] := by
  rcases front with _ | ⟨_, _ | ⟨_, _ | ⟨_, front⟩⟩⟩ <;> simp_all

/-- The path and the content of an output that is not in place yet. -/
def Staged.file (text : δ → String) (o : Staged δ) : String × String := (o.path, text o.draft)

section lawful

variable {fs : FileSystem (StateM σ) δ} {tree : σ → FileTree} {text : δ → String} {s after : σ}

theorem readText_gives (lawful : fs.Lawful tree text) {path failure : String}
    {result : Except String String}
    (ran : Gives (readText fs path failure).run s result after) :
    tree after = tree s ∧
      ∀ content, result = .ok content → ((tree s).look path).text? = some content := by
  rw [readText, gives_run_bind_iff] at ran
  rcases ran with ⟨seen, between, looked, rest⟩ | ⟨failure, looked, _⟩
  · obtain ⟨_, looked, ⟨⟩⟩ := (gives_lift_iff ..).mp looked
    obtain ⟨same, found⟩ := lawful.look looked
    cases read : seen.text? with
    | none =>
      rw [read] at rest
      obtain ⟨rfl, rfl⟩ := (gives_throw_iff ..).mp rest
      exact ⟨same, by rintro _ ⟨⟩⟩
    | some content =>
      rw [read] at rest
      obtain ⟨rfl, rfl⟩ := (gives_return_iff ..).mp rest
      refine ⟨same, ?_⟩
      rintro _ ⟨⟩
      rcases found with rfl | rfl
      · exact read
      · cases read
  · obtain ⟨_, _, ⟨⟩⟩ := (gives_lift_iff ..).mp looked

theorem compute_gives (lawful : fs.Lawful tree text) {module registry : String}
    {settings : PassSettings} {result : Except String Outputs}
    (ran : Gives (compute fs module registry settings).run s result after) :
    tree after = tree s ∧
      ∀ o, result = .ok o → Computes (tree s) module registry settings o := by
  rw [compute, gives_run_bind_iff] at ran
  rcases ran with ⟨source, between, first, ran⟩ | ⟨failure, first, rfl⟩
  · obtain ⟨same, sourced⟩ := readText_gives lawful first
    rcases loaded : Module.load (Json.read source) with _ | program <;> rw [loaded] at ran
    · obtain ⟨rfl, rfl⟩ := (gives_throw_iff ..).mp ran
      exact ⟨same, by rintro _ ⟨⟩⟩
    · rw [gives_run_bind_iff] at ran
      rcases ran with ⟨listing, between', second, ran⟩ | ⟨failure, second, rfl⟩
      · obtain ⟨same', listed⟩ := readText_gives lawful second
        rcases bound : StaticBindings.load (Json.read listing) with _ | bindings <;>
          rw [bound] at ran
        · obtain ⟨rfl, rfl⟩ := (gives_throw_iff ..).mp ran
          exact ⟨same'.trans same, by rintro _ ⟨⟩⟩
        · rcases reported : (Pass.run (Pass.standardRules bindings settings.workerFactory)
            settings.verify program default).result with _ | report <;>
            simp only [reported] at ran
          · obtain ⟨rfl, rfl⟩ := (gives_throw_iff ..).mp ran
            exact ⟨same'.trans same, by rintro _ ⟨⟩⟩
          · obtain ⟨rfl, rfl⟩ := (gives_return_iff ..).mp ran
            refine ⟨same'.trans same, ?_⟩
            rintro _ ⟨⟩
            exact ⟨source, listing, program, bindings, sourced source rfl, loaded,
              same ▸ listed listing rfl, bound, reported, rfl, rfl⟩
      · exact ⟨(readText_gives lawful second).1.trans same, by rintro _ ⟨⟩⟩
  · exact ⟨(readText_gives lawful first).1, by rintro _ ⟨⟩⟩

theorem discardAll_gives (lawful : fs.Lawful tree text) {outputs : List (Staged δ)} {value : Unit}
    (ran : Gives (discardAll fs outputs) s value after) : tree after = tree s := by
  induction outputs generalizing s with
  | nil =>
    obtain ⟨_, rfl⟩ := (gives_pure_iff ..).mp ran
    rfl
  | cons output rest ih =>
    obtain ⟨_, between, first, later⟩ := (gives_bind_iff ..).mp ran
    exact (ih later).trans (lawful.discard first)

theorem removeAll_gives (lawful : fs.Lawful tree text) {paths : List String} {value : Unit}
    (ran : Gives (removeAll fs paths) s value after) :
    tree after = (tree s).removeAll paths := by
  induction paths generalizing s with
  | nil =>
    obtain ⟨_, rfl⟩ := (gives_pure_iff ..).mp ran
    rfl
  | cons path rest ih =>
    obtain ⟨_, between, first, later⟩ := (gives_bind_iff ..).mp ran
    rw [ih later, lawful.remove first]
    rfl

theorem stage_gives (lawful : fs.Lawful tree text) {path content : String}
    {result : Except String (Staged δ)} (ran : Gives (stage fs path content) s result after) :
    tree after = tree s ∧ ∀ o, result = .ok o → o.file text = (path, content) := by
  obtain ⟨drafted, between, first, rest⟩ := (gives_bind_iff ..).mp ran
  obtain ⟨same, content⟩ := lawful.draft first
  cases drafted with
  | ok d =>
    obtain ⟨rfl, rfl⟩ := (gives_pure_iff ..).mp rest
    refine ⟨same, ?_⟩
    rintro _ ⟨⟩
    exact Prod.ext rfl (content d rfl)
  | error fault =>
    cases fault <;> obtain ⟨rfl, rfl⟩ := (gives_pure_iff ..).mp rest <;>
      exact ⟨same, by rintro _ ⟨⟩⟩

/-- Writing drafts changes no file, whether it succeeds or not. -/
theorem stageAll_gives (lawful : fs.Lawful tree text) {staged : List (Staged δ)}
    {files : List (String × String)} {result : Except String (List (Staged δ))}
    (ran : Gives (stageAll fs staged files) s result after) :
    tree after = tree s ∧ ∀ outputs, result = .ok outputs →
      outputs.map (·.file text) = staged.map (·.file text) ++ files := by
  induction files generalizing staged s with
  | nil =>
    obtain ⟨rfl, rfl⟩ := (gives_pure_iff ..).mp ran
    refine ⟨rfl, ?_⟩
    rintro _ ⟨⟩
    simp
  | cons file rest ih =>
    obtain ⟨first, between, drafted, ran⟩ := (gives_bind_iff ..).mp ran
    obtain ⟨same, draft⟩ := stage_gives lawful drafted
    cases first with
    | ok output =>
      obtain ⟨same', others⟩ := ih ran
      refine ⟨same'.trans same, fun outputs given => ?_⟩
      rw [others outputs given]
      simp [draft output rfl]
    | error failure =>
      obtain ⟨_, _, discarded, ran⟩ := (gives_bind_iff ..).mp ran
      obtain ⟨rfl, rfl⟩ := (gives_pure_iff ..).mp ran
      exact ⟨(discardAll_gives lawful discarded).trans same, by rintro _ ⟨⟩⟩

/-- All outputs are in place, or those that were have been deleted again. -/
theorem commit_gives (lawful : fs.Lawful tree text) {written : List String}
    {outputs : List (Staged δ)} {result : Except String Unit}
    (ran : Gives (commit fs written outputs) s result after) :
    (result = .ok () ∧ (tree s).writeAll? (outputs.map (·.file text)) = some (tree after)) ∨
      ∃ failure moved failed rest u, result = .error failure ∧ outputs = moved ++ failed :: rest ∧
        (tree s).writeAll? (moved.map (·.file text)) = some u ∧
        tree after = u.removeAll (written ++ moved.map (·.path)) := by
  -- By induction on what is not in place yet; `written` holds the paths of what is.
  induction outputs generalizing written s with
  | nil =>
    obtain ⟨rfl, rfl⟩ := (gives_pure_iff ..).mp ran
    exact Or.inl ⟨rfl, rfl⟩
  | cons output rest ih =>
    obtain ⟨placed, between, first, ran⟩ := (gives_bind_iff ..).mp ran
    have moved := lawful.place first
    cases placed with
    | true =>
      have put : (tree s).write? output.path (text output.draft) = some (tree between) := moved
      rcases ih ran with ⟨ok, others⟩ | ⟨failure, done, failed, later, u, error, rfl, others, left⟩
      · refine Or.inl ⟨ok, Option.bind_eq_some_iff.mpr ⟨_, put, others⟩⟩
      · refine Or.inr ⟨failure, output :: done, failed, later, u, error, rfl,
          Option.bind_eq_some_iff.mpr ⟨_, put, others⟩, ?_⟩
        rw [left, List.append_assoc]
        rfl
    | false =>
      -- The move fails: all that is in place is deleted, all that is not is given up.
      have kept : tree between = tree s := moved
      obtain ⟨_, removed, deleted, ran⟩ := (gives_bind_iff ..).mp ran
      obtain ⟨_, _, discarded, ran⟩ := (gives_bind_iff ..).mp ran
      obtain ⟨rfl, rfl⟩ := (gives_pure_iff ..).mp ran
      refine Or.inr ⟨_, [], output, rest, tree s, rfl, rfl, rfl, ?_⟩
      rw [discardAll_gives lawful discarded, removeAll_gives lawful deleted, kept, List.map_nil,
        List.append_nil]

/-- A preparation that succeeds has written all outputs. One that fails has put some side tables
into place at most, and deleted them again. -/
theorem prepare_gives (lawful : fs.Lawful tree text) {module registry output : String}
    {settings : PassSettings} {result : Except String Prepared}
    (ran : Gives (prepare fs module registry output settings).run s result after) :
    (∃ o, Computes (tree s) module registry settings o ∧
        result = .ok ⟨o.report, o.tables.callbacks.size, o.tables.workers.length⟩ ∧
        (tree s).writeAll? (o.files output) = some (tree after)) ∨
      ∃ failure moved u, result = .error failure ∧
        moved.map (·.1) <+: [sibling output callbacksFile, sibling output workersFile] ∧
        (tree s).writeAll? moved = some u ∧ tree after = u.removeAll (moved.map (·.1)) := by
  -- A failure before the first move leaves the tree alone.
  have unmoved : ∀ failure, tree after = tree s → ∃ failure' moved u,
      (.error failure : Except String Prepared) = .error failure' ∧
        moved.map (·.1) <+: [sibling output callbacksFile, sibling output workersFile] ∧
        (tree s).writeAll? moved = some u ∧ tree after = u.removeAll (moved.map (·.1)) :=
    fun failure same => ⟨failure, [], tree s, rfl, List.nil_prefix, rfl, same⟩
  rw [prepare, gives_run_bind_iff] at ran
  rcases ran with ⟨o, between, computed, ran⟩ | ⟨failure, failed, rfl⟩
  · obtain ⟨same, computes⟩ := compute_gives lawful computed
    rw [gives_run_bind_iff] at ran
    rcases ran with ⟨staged, between', drafted, ran⟩ | ⟨failure, failed, rfl⟩
    · obtain ⟨same', files⟩ := stageAll_gives lawful drafted
      have listed : staged.map (·.file text) = o.files output := files staged rfl
      rw [gives_run_bind_iff] at ran
      rcases ran with ⟨_, final, committed, ran⟩ | ⟨failure, failed, rfl⟩
      · obtain ⟨rfl, rfl⟩ := (gives_return_iff ..).mp ran
        rcases commit_gives lawful committed with ⟨_, written⟩ | ⟨_, _, _, _, _, ⟨⟩, _⟩
        rw [listed, same', same] at written
        exact Or.inl ⟨o, computes o rfl, rfl, written⟩
      · rcases commit_gives lawful failed with
          ⟨⟨⟩, _⟩ | ⟨_, moved, stuck, rest, u, ⟨⟩, split, written, left⟩
        rw [same', same] at written
        refine Or.inr ⟨failure, moved.map (·.file text), u, rfl, ?_, written, ?_⟩
        · -- What was not put into place has at least the module in it.
          have paths := congrArg (List.map (·.1)) listed
          rw [split, List.map_append, List.map_append, List.map_cons, List.map_cons] at paths
          exact prefix_of_append_cons paths
        · simpa [Function.comp_def, Staged.file] using left
    · exact Or.inr (unmoved failure ((stageAll_gives lawful failed).1.trans same))
  · exact Or.inr (unmoved failure (compute_gives lawful failed).1)

end lawful

/-- Of a tree nothing is changed but that nothing is left in the places of some files. -/
def FileTree.Lost (t after : FileTree) (gone : List String) : Prop :=
  ∀ place, (∃ path ∈ gone, t.fileLocation? path = some place) ∧ after.node? place = none ∨
    (∀ path ∈ gone, t.fileLocation? path ≠ some place) ∧ after.node? place = t.node? place

/-- After a preparation that fails, every place holds what it held before, except those of the first
few side tables: there is nothing any more. So all is as it was if there were no side tables. -/
theorem files_after_failure (fs : FileSystem (StateM σ) δ) (tree : σ → FileTree)
    (text : δ → String) (lawful : fs.Lawful tree text) (module registry output : String)
    (settings : PassSettings) (s after : σ) (failure : String)
    (failed : Gives (prepare fs module registry output settings).run s (.error failure) after) :
    let tables := [sibling output callbacksFile, sibling output workersFile]
    (∃ gone, gone <+: tables ∧ (tree s).Lost (tree after) gone) ∧
      ((∀ path ∈ tables, ∀ place, (tree s).fileLocation? path = some place →
          (tree s).node? place = none) →
        ∀ place, (tree after).node? place = (tree s).node? place) := by
  rcases prepare_gives lawful failed with ⟨_, _, ⟨⟩, _⟩ | ⟨_, moved, u, _, early, written, left⟩
  have same := FileTree.fileLocation?_congr (FileTree.isDirectory_of_writeAll? written)
  have lost : (tree s).Lost (tree after) (moved.map (·.1)) := by
    intro place
    rw [left, ← same]
    rcases u.node?_removeAll (moved.map (·.1)) place with gone | ⟨apart, kept⟩
    · exact Or.inl gone
    · refine Or.inr ⟨apart, kept.trans (FileTree.node?_writeAll?_of_ne written ?_)⟩
      rw [← same]
      exact fun file member => apart file.1 (List.mem_map_of_mem member)
  refine ⟨⟨_, early, lost⟩, fun fresh place => ?_⟩
  rcases lost place with ⟨⟨path, member, located⟩, gone⟩ | ⟨_, kept⟩
  · rw [gone, fresh path (early.subset member) place located]
  · exact kept

/-- The inputs of a preparation. -/
def inputFiles (module registry : String) : FileTree :=
  (FileTree.bare.put (.inside ["app.json"]) (.file module.toUTF8)).put (.inside ["registry.json"])
    (.file registry.toUTF8)

theorem text?_toUTF8 (text : String) : (Lookup.file text.toUTF8).text? = some text :=
  dif_pos text.isValidUTF8

theorem look_inputFiles (module registry : String) :
    ((inputFiles module registry).look "app.json").text? = some module ∧
      ((inputFiles module registry).look "registry.json").text? = some registry :=
  ⟨text?_toUTF8 module, text?_toUTF8 registry⟩

/-- A module without types with what is left of an earlier preparation, and a directory in the way
of a table. -/
def blockedFiles : FileTree :=
  (((inputFiles "[\"App\",[]]" "\x7b\x7d").put (.inside [callbacksFile])
    (.file "[]".toUTF8)).put (.inside [workersFile]) .directory).put (.inside ["out.json"])
    (.file "[\"App\",[]]".toUTF8)

theorem exists_gives (action : StateM σ (Except String α)) (s : σ) {success : Bool}
    (ends : (action.run s).1.isOk = success) :
    ∃ result after, Gives action s result after ∧ result.isOk = success :=
  ⟨_, _, rfl, ends⟩

/-- The directory stops the preparation. -/
theorem files_after_failure_blocked :
    ∃ failure after,
      Gives (prepare FileTree.operations "app.json" "registry.json" "out.json" {}).run blockedFiles
        (.error failure) after ∧
      ∃ gone, gone <+: [sibling "out.json" callbacksFile, sibling "out.json" workersFile] ∧
        blockedFiles.Lost after gone := by
  obtain ⟨failure | prepared, after, failed, ends⟩ := exists_gives
    (prepare FileTree.operations "app.json" "registry.json" "out.json" {}).run blockedFiles
    (show _ = false by decide +kernel)
  · exact ⟨failure, after, failed,
      (files_after_failure _ _ _ FileTree.operations_lawful _ _ _ _ _ _ _ failed).1⟩
  · cases ends

/-- A module that was prepared before is left without its callback table by one more preparation,
which fails. -/
theorem failure_deletes_table :
    let ended := (prepare FileTree.operations "app.json" "registry.json" "out.json" {}).run.run
      blockedFiles
    ended.1.isOk = false ∧ (blockedFiles.look callbacksFile).text? = some "[]" ∧
      (ended.2.look callbacksFile).text? = none ∧
      (ended.2.look "out.json").text? = some "[\"App\",[]]" := by
  decide +kernel

theorem isName_callbacksFile : IsName callbacksFile := ⟨by decide, by decide, by decide⟩

theorem isName_workersFile : IsName workersFile := ⟨by decide, by decide, by decide⟩

/-- Outputs are in a directory, the module under a name of its own. It takes the place of a side
table of that name, and nothing else is changed. -/
structure Delivered (t after : FileTree) (output : String) (o : Outputs) (directory : Location)
    (last : String) : Prop where
  module : after.look output = .file o.module.store.toUTF8
  located : after.locate output = some (directory.down last)
  callbacks : last ≠ callbacksFile → after.node? (directory.down callbacksFile) =
    some (.file o.tables.callbacks.toJson.pretty.toUTF8)
  workers : last ≠ workersFile → after.node? (directory.down workersFile) =
    some (.file (TypeName.listToJson o.tables.workers).pretty.toUTF8)
  elsewhere : ∀ place, place ∉ [last, callbacksFile, workersFile].map directory.down →
    after.node? place = t.node? place

/-- Outputs that have all been written, one after another, are delivered. -/
theorem delivered_of_writeAll? {t after : FileTree} {output : String} {o : Outputs}
    (written : t.writeAll? (o.files output) = some after) :
    ∃ directory last, Delivered t after output o directory last := by
  have located : ∀ file ∈ o.files output, ∃ place, t.fileLocation? file.1 = some place :=
    fun file member => FileTree.fileLocation?_of_writeAll? written member
  simp only [Outputs.files, List.forall_mem_cons] at located written
  obtain ⟨⟨callbacks, atCallbacks⟩, ⟨workers, atWorkers⟩, ⟨place, atOutput⟩, _⟩ := located
  -- All three paths lead to the same directory.
  obtain ⟨directory, last, rfl, rfl⟩ :=
    FileTree.down_of_fileLocation? isName_callbacksFile atOutput atCallbacks
  obtain ⟨other, _, equal, rfl⟩ :=
    FileTree.down_of_fileLocation? isName_workersFile atOutput atWorkers
  obtain ⟨rfl, rfl⟩ := Location.down_inj.mp equal
  have apart : ∀ {path x place}, t.fileLocation? path = some x → place ≠ x →
      t.fileLocation? path ≠ some place := by
    intro path x place there different same
    exact different (Option.some.inj (same.symm.trans there))
  have beside : ∀ {first second : String}, first ≠ second →
      directory.down second ≠ directory.down first := by
    intro first second different same
    exact different (Location.down_inj.mp same).2.symm
  have stored := FileTree.node?_writeAll? [_, _] written atOutput (List.forall_mem_nil _)
  have same := FileTree.fileLocation?_congr (FileTree.isDirectory_of_writeAll? written)
  obtain ⟨named, there, _⟩ := FileTree.fileLocation?_eq_some_iff.mp (same ▸ atOutput)
  refine ⟨directory, last, ?_, there, fun different => ?_, fun different => ?_,
    fun place outside => ?_⟩
  · simp [FileTree.look, there, stored, named]
  · -- Of what is written later nothing has the name of the table.
    refine FileTree.node?_writeAll? [] written atCallbacks ?_
    simp only [List.forall_mem_cons]
    exact ⟨apart atWorkers (beside (by decide)), apart atOutput (beside different),
      List.forall_mem_nil _⟩
  · refine FileTree.node?_writeAll? [_] written atWorkers ?_
    simp only [List.forall_mem_cons]
    exact ⟨apart atOutput (beside different), List.forall_mem_nil _⟩
  · simp only [List.map_cons, List.map_nil, List.mem_cons, List.not_mem_nil, or_false, not_or]
      at outside
    obtain ⟨notOutput, notCallbacks, notWorkers⟩ := outside
    refine FileTree.node?_writeAll?_of_ne written ?_
    simp only [List.forall_mem_cons]
    exact ⟨apart atCallbacks notCallbacks, apart atWorkers notWorkers, apart atOutput notOutput,
      List.forall_mem_nil _⟩

/-- After a preparation that succeeds, the output path leads to the module, and in the directory it
is in are both side tables, except one whose name the module took. The counts are those of the
tables. -/
theorem files_after_success (fs : FileSystem (StateM σ) δ) (tree : σ → FileTree)
    (text : δ → String) (lawful : fs.Lawful tree text) (module registry output : String)
    (settings : PassSettings) (s after : σ) (prepared : Prepared)
    (succeeded : Gives (prepare fs module registry output settings).run s (.ok prepared) after) :
    ∃ o directory last, Computes (tree s) module registry settings o ∧
      prepared = ⟨o.report, o.tables.callbacks.entries.length, o.tables.workers.length⟩ ∧
      Delivered (tree s) (tree after) output o directory last := by
  rcases prepare_gives lawful succeeded with ⟨o, computes, ⟨⟩, written⟩ | ⟨_, _, _, ⟨⟩, _⟩
  obtain ⟨directory, last, delivered⟩ := delivered_of_writeAll? written
  exact ⟨o, directory, last, computes, rfl, delivered⟩

/-! The sample program and its bindings, stored. -/

def sampleFiles : FileTree := inputFiles Sample.program.store Sample.registry.pretty

def sampleSettings : PassSettings := { workerFactory := Sample.factory }

def sampleOutputs : Outputs :=
  let outcome := Pass.run (Pass.standardRules Sample.bindings sampleSettings.workerFactory)
    sampleSettings.verify Sample.program default
  ⟨outcome.edited, outcome.state, ⟨3, 29, 9⟩⟩

theorem computes_sample :
    Computes sampleFiles "app.json" "registry.json" sampleSettings sampleOutputs := by
  obtain ⟨sourced, listed⟩ := look_inputFiles Sample.program.store Sample.registry.pretty
  refine computes_of_load sourced ?_ listed ?_ Pass.run_sample
  · rw [Module.store, Json.read_pretty]
    decide +kernel
  · rw [Json.read_pretty]
    decide +kernel

/-- A preparation of the sample program that succeeds finds two callbacks and two workers. -/
theorem prepare_sample (output : String)
    (ends : ((prepare FileTree.operations "app.json" "registry.json" output
      sampleSettings).run.run sampleFiles).1.isOk = true) :
    ∃ prepared after,
      Gives (prepare FileTree.operations "app.json" "registry.json" output sampleSettings).run
        sampleFiles (.ok prepared) after ∧ prepared.callbacks = 2 ∧ prepared.workers = 2 ∧
      sampleFiles.writeAll? (sampleOutputs.files output) = some after := by
  obtain ⟨failure | prepared, after, succeeded, ended⟩ := exists_gives _ _ ends
  · cases ended
  rcases prepare_gives FileTree.operations_lawful succeeded with
    ⟨o, computes, ⟨⟩, written⟩ | ⟨_, _, _, ⟨⟩, _⟩
  obtain rfl := computes.unique computes_sample
  exact ⟨_, after, succeeded, by decide +kernel, by decide +kernel, written⟩

theorem files_after_success_sample :
    ∃ prepared after,
      Gives (prepare FileTree.operations "app.json" "registry.json" "out.json" sampleSettings).run
        sampleFiles (.ok prepared) after ∧ prepared.callbacks = 2 ∧ prepared.workers = 2 ∧
      ∃ o directory last, Computes sampleFiles "app.json" "registry.json" sampleSettings o ∧
        prepared = ⟨o.report, o.tables.callbacks.entries.length, o.tables.workers.length⟩ ∧
        Delivered sampleFiles after "out.json" o directory last := by
  obtain ⟨prepared, after, succeeded, callbacks, workers, _⟩ := prepare_sample "out.json" (by
    rw [prepare, run_of_gives (compute_of_computes computes_sample)]
    decide +kernel)
  exact ⟨prepared, after, succeeded, callbacks, workers,
    files_after_success _ _ _ FileTree.operations_lawful _ _ _ _ _ _ _ succeeded⟩

/-- The text of a module is no table. -/
theorem store_ne_pretty (m : Module) (table : CallbackTable) : m.store ≠ table.toJson.pretty := by
  intro same
  have read := congrArg Json.read same
  rw [Module.store, Json.read_pretty, Json.read_pretty] at read
  cases congrArg (·.root) read

/-- A preparation that reports two callbacks leaves no table of them, if the output has the name of
the table. -/
theorem module_displaces_table :
    ∃ prepared after,
      Gives (prepare FileTree.operations "app.json" "registry.json" callbacksFile
        sampleSettings).run sampleFiles (.ok prepared) after ∧ prepared.callbacks = 2 ∧
      Computes sampleFiles "app.json" "registry.json" sampleSettings sampleOutputs ∧
      (after.look callbacksFile).text? ≠ some sampleOutputs.tables.callbacks.toJson.pretty := by
  obtain ⟨prepared, after, succeeded, callbacks, _, written⟩ := prepare_sample callbacksFile (by
    rw [prepare, run_of_gives (compute_of_computes computes_sample)]
    decide +kernel)
  refine ⟨prepared, after, succeeded, callbacks, computes_sample, ?_⟩
  obtain ⟨_, _, delivered⟩ := delivered_of_writeAll? written
  rw [delivered.module, text?_toUTF8]
  exact fun same => store_ne_pretty _ _ (Option.some.inj same)

end NativeBridge.Command
