import NativeBridge.Body.Stored
import NativeBridge.Proofs.Balance
import NativeBridge.Proofs.Relocation
import NativeBridge.Proofs.StackSafety

/-! Bodies whose instructions are named by their places. Renumbering drops what was removed and
keeps everything that can be observed: the machine runs the same, and the stack check finds the same
fault at the same place. -/

namespace NativeBridge

namespace Body

/-- The body whose identities are the places of the live instructions. -/
def renumber (b : Body) : Body :=
  { ofInstructions b.hasReceiver b.toStored.instructions with
    locals := b.locals
    handlers := b.toStored.handlers }

section places

variable {b : Body} {id : InstrId} {place : Nat}

theorem storedPlace_of_position (found : b.position? id = some place) :
    b.storedPlace id = ⟨place⟩ := by
  rw [storedPlace, found, Option.getD_some]

theorem storedPlace_lt (live : id ∈ b.order) : (b.storedPlace id).index < b.size := by
  obtain ⟨place, found⟩ := (position?_isSome_iff b id).mpr live
  rw [storedPlace_of_position found]
  exact position?_lt found

theorem length_stored (formed : b.WellFormed) : b.toStored.instructions.length = b.size := by
  rw [toStored, List.length_map, length_code formed]

theorem size_renumber (formed : b.WellFormed) : b.renumber.size = b.size := by
  simp [renumber, ofInstructions, size, length_stored formed]

theorem order_renumber (formed : b.WellFormed) :
    b.renumber.order = (List.range b.size).map InstrId.mk := by
  simp [renumber, ofInstructions, length_stored formed]

theorem wellFormed_renumber (b : Body) : b.renumber.WellFormed where
  distinct := List.nodup_range.map fun _ _ same => InstrId.mk.inj same
  present := by
    intro id live
    obtain ⟨place, inside, rfl⟩ := List.mem_map.mp live
    exact List.mem_range.mp inside

theorem position_renumber (formed : b.WellFormed) (live : id ∈ b.order) :
    b.renumber.position? (b.storedPlace id) = b.position? id := by
  obtain ⟨place, found⟩ := (position?_isSome_iff b id).mpr live
  have inside : place < b.size := position?_lt found
  rw [storedPlace_of_position found, found, position?_eq_some_iff (wellFormed_renumber b),
    order_renumber formed, List.getElem?_map, List.getElem?_range inside, Option.map_some]

/-- The code of the renumbered body is that of the body, with places for identities. -/
theorem code_renumber (formed : b.WellFormed) :
    b.renumber.code = b.code.map fun entry =>
      (b.storedPlace entry.1, entry.2.mapTarget b.storedPlace) := by
  apply List.ext_getElem?
  intro place
  rw [List.getElem?_map]
  rcases there : b.code[place]? with _ | ⟨id, i⟩
  · rw [List.getElem?_eq_none_iff, length_code formed] at there
    rw [Option.map_none, List.getElem?_eq_none_iff, length_code (wellFormed_renumber b),
      size_renumber formed]
    exact there
  · have held := (code_getElem?_iff formed place id i).mp there
    have found := (position?_eq_some_iff formed id place).mpr held.1
    rw [Option.map_some, storedPlace_of_position found,
      code_getElem?_iff (wellFormed_renumber b), order_renumber formed]
    refine ⟨?_, ?_⟩
    · rw [List.getElem?_map, List.getElem?_range (position?_lt found), Option.map_some]
    · change (b.code.map fun entry => entry.2.mapTarget b.storedPlace)[place]? = _
      rw [List.getElem?_map, there, Option.map_some]

end places

end Body

/-- A fault with its instructions named otherwise. -/
def StackFault.mapIds (move : InstrId → InstrId) : StackFault → StackFault
  | .operandMismatch op site => .operandMismatch op (move site)
  | .underflow op site needed depth => .underflow op (move site) needed depth
  | .overflow site => .overflow (move site)
  | .depthMismatch site first second => .depthMismatch (move site) first second
  | .unbalancedReturn site depth => .unbalancedReturn (move site) depth
  | .invalidTarget target site => .invalidTarget (move target) (move site)
  | .fallsOffEnd site => .fallsOffEnd (move site)

namespace Body

section check

variable {b : Body} {returnsValue : Bool} {place depth : Nat} {site : InstrId} {i : Instruction}

theorem arrivals_renumber (sound : b.Sound) (there : (site, i) ∈ b.code) (after : Nat) :
    b.renumber.arrivals place after (b.storedPlace site) (i.mapTarget b.storedPlace) =
      (b.arrivals place after site i).mapError (·.mapIds b.storedPlace) := by
  have size := size_renumber sound.toWellFormed
  cases named : i.target? with
  | none =>
    simp only [arrivals, Instruction.target?_mapTarget, Instruction.opcode_mapTarget, named, size,
      Option.map_none, pure_bind]
    split_ifs <;> rfl
  | some target =>
    have live := sound.branch _ there target named
    have position := position_renumber sound.toWellFormed live
    obtain ⟨found, located⟩ := (position?_isSome_iff b target).mpr live
    simp only [arrivals, Instruction.target?_mapTarget, Instruction.opcode_mapTarget, named, size,
      Option.map_some, position, located, pure_bind]
    split_ifs <;> rfl

theorem checkInstruction_renumber (sound : b.Sound) (there : (site, i) ∈ b.code) :
    b.renumber.checkInstruction returnsValue place depth (b.storedPlace site)
        (i.mapTarget b.storedPlace) =
      (b.checkInstruction returnsValue place depth site i).mapError (·.mapIds b.storedPlace) := by
  unfold checkInstruction
  rw [Instruction.stackEffect?_mapTarget]
  cases i.stackEffect? returnsValue with
  | none => rfl
  | some effect =>
    dsimp only
    rw [Instruction.opcode_mapTarget]
    split_ifs
    · rfl
    · rfl
    · rfl
    · exact arrivals_renumber sound there _

theorem explore_renumber (sound : b.Sound) (fuel : Nat) (pending : List Arrival)
    (depths : List (Option Nat)) :
    b.renumber.explore returnsValue b.renumber.code fuel pending depths =
      (b.explore returnsValue b.code fuel pending depths).mapError (·.mapIds b.storedPlace) := by
  induction fuel generalizing pending depths with
  | zero => rfl
  | succ fuel ih =>
    rcases pending with _ | ⟨⟨place, depth⟩, pending⟩
    · rfl
    rw [explore, explore]
    rcases there : b.code[place]? with _ | ⟨site, i⟩
    · simp only [code_renumber sound.toWellFormed, List.getElem?_map, there, Option.map_none]
      rw [← code_renumber sound.toWellFormed]
      exact ih pending depths
    have entry : b.renumber.code[place]? =
        some (b.storedPlace site, i.mapTarget b.storedPlace) := by
      rw [code_renumber sound.toWellFormed, List.getElem?_map, there, Option.map_some]
    simp only [entry]
    -- Depths are kept by place, so both bodies have seen the same of them.
    rcases depths[place]?.join with _ | seen
    · rw [checkInstruction_renumber sound (List.mem_of_getElem? there)]
      cases b.checkInstruction returnsValue place depth site i with
      | error fault => rfl
      | ok arrivals => exact ih _ _
    · dsimp only
      by_cases same : seen = depth
      · rw [if_pos same, if_pos same]
        exact ih pending depths
      · rw [if_neg same, if_neg same]
        rfl

theorem entries_renumber (sound : b.Sound) : b.renumber.entries = b.entries := by
  have handlers : b.renumber.handlers = b.handlers.map (·.mapIds b.storedPlace) := rfl
  have same : ∀ h ∈ b.handlers,
      b.renumber.position? (h.mapIds b.storedPlace).handlerStart = b.position? h.handlerStart :=
    fun h member => position_renumber sound.toWellFormed
      (sound.start h member _ (by simp [Handler.starts]))
  rw [entries, entries, handlers, List.filterMap_map]
  congr 2
  apply List.filterMap_congr
  intro h member
  rw [Function.comp_apply, same h member]
  rfl

/-- The stack check finds the same fault, if any, at the same place. -/
theorem checkStack_renumber (sound : b.Sound) (returnsValue : Bool) :
    b.renumber.checkStack returnsValue =
      (b.checkStack returnsValue).mapError (·.mapIds b.storedPlace) := by
  rw [checkStack, checkStack, size_renumber sound.toWellFormed, entries_renumber sound]
  by_cases empty : b.size = 0
  · rw [if_pos empty, if_pos empty]
    rfl
  · rw [if_neg empty, if_neg empty]
    exact explore_renumber sound _ _ _

end check

end Body

namespace Frame

/-- The frame with another body to run. -/
def withBody (f : Frame) (c : Body) : Frame := { f with body := c }

end Frame

/-- What an instruction asks of the machine, with another body to go on with. -/
def Effect.withBody (c : Body) : Effect → Effect
  | .proceed frame => .proceed (frame.withBody c)
  | .call callee args frame => .call callee args (frame.withBody c)
  | .finish result => .finish result

namespace Effect

variable {c : Body} {frame : Frame}

theorem withBody_eq_relocate (effect : Effect) : effect.withBody c = effect.relocate c id := by
  cases effect <;> rfl

theorem body_of_proceed (unchanged : (proceed frame).withBody c = proceed frame) :
    frame.body = c := by
  rw [← proceed.inj unchanged]
  rfl

theorem body_of_call {callee : MethodRef} {args : List Value}
    (unchanged : (call callee args frame).withBody c = call callee args frame) :
    frame.body = c := by
  rw [← (call.inj unchanged).2.2]
  rfl

end Effect

namespace Frame

/-- Executing an instruction looks at the body only to find the place of a branch target. -/
theorem execute_withBody (f : Frame) {c : Body} (i : Instruction) {move : InstrId → InstrId}
    (same : ∀ t, i.target? = some t → c.position? (move t) = f.body.position? t) :
    (f.withBody c).execute (i.mapTarget move) = (f.execute i).map (·.withBody c) := by
  have corresponds : ∀ t, i.target? = some t →
      c.position? (move t) = (f.body.position? t).map id := by
    intro t named
    rw [same t named, Option.map_id, id]
  simp only [Effect.withBody_eq_relocate]
  exact f.execute_relocate i corresponds

/-- Executing an instruction leaves the body as it is. -/
theorem withBody_of_execute {f : Frame} {i : Instruction} {effect : Effect}
    (executed : f.execute i = .ok effect) : effect.withBody f.body = effect := by
  -- A frame executes as it does with its own body put in the place of its body.
  have unmoved : i.mapTarget id = i := Instruction.mapTarget_eq_self fun _ _ => rfl
  have same := f.execute_withBody (c := f.body) i (fun _ _ => rfl : ∀ t, i.target? = some t →
    f.body.position? (id t) = f.body.position? t)
  rw [unmoved] at same
  change f.execute i = _ at same
  rw [executed] at same
  exact (Except.ok.inj same).symm

/-- The frame on the renumbered body. -/
def renumber (f : Frame) : Frame := f.withBody f.body.renumber

theorem fetch?_renumber {f : Frame} (formed : f.body.WellFormed) :
    f.renumber.fetch? = f.fetch?.map (·.mapTarget f.body.storedPlace) := by
  have renumbered := f.body.wellFormed_renumber
  apply Option.ext
  intro j
  rw [fetch?_eq_some_iff (f := f.renumber) renumbered, Option.map_eq_some_iff]
  change (∃ id, f.body.renumber.code[f.next]? = some (id, j)) ↔ _
  simp only [Body.code_renumber formed, List.getElem?_map, Option.map_eq_some_iff, Prod.mk.injEq,
    Prod.exists, fetch?_eq_some_iff formed]
  constructor
  · rintro ⟨_, id, i, there, rfl, rfl⟩
    exact ⟨i, ⟨id, there⟩, rfl⟩
  · rintro ⟨i, ⟨id, there⟩, rfl⟩
    exact ⟨_, id, i, there, rfl, rfl⟩

end Frame

/-- The method with its body renumbered. -/
def MethodDef.renumber (m : MethodDef) : MethodDef := { m with body := m.body.map Body.renumber }

/-- The type with all bodies renumbered. -/
def TypeDef.renumber (t : TypeDef) : TypeDef :=
  { t with methods := t.methods.map MethodDef.renumber }

/-- The module with all bodies renumbered. -/
def Module.renumber (m : Module) : Module := { m with types := m.types.map TypeDef.renumber }

/-- The state with the bodies of all frames renumbered. -/
def Machine.renumber (s : Machine) : Machine := ⟨s.current.renumber, s.callers.map Frame.renumber⟩

/-- The outcome of a step with the bodies of all frames renumbered. -/
def Progress.renumber : Progress → Progress
  | .running s => .running s.renumber
  | .finished result => .finished result

namespace Module

theorem resolve?_renumber (m : Module) (ref : MethodRef) :
    m.renumber.resolve? ref = (m.resolve? ref).map MethodDef.renumber := by
  have types : m.renumber.findType? ref.declaringType =
      (m.findType? ref.declaringType).map TypeDef.renumber := List.find?_map ..
  simp only [resolve?, Option.bind_eq_bind, types, Option.bind_map, Option.map_bind]
  congr 1
  funext t
  exact List.find?_map ..

theorem methods_renumber (m : Module) :
    m.renumber.methods = m.methods.map fun entry => (entry.1.renumber, entry.2.renumber) := by
  simp only [methods, renumber, List.flatMap_map, List.map_flatMap]
  congr 1
  funext t
  simp [TypeDef.renumber]

end Module

namespace Machine

theorem enter_renumber (m : Module) (callee : MethodRef) (args : List Value) (depth : Nat) :
    enter m.renumber callee args depth = (enter m callee args depth).map Frame.renumber := by
  unfold enter
  rw [Module.resolve?_renumber]
  dsimp only
  split_ifs
  · rfl
  cases m.resolve? callee with
  | none => rfl
  | some method =>
    obtain ⟨name, isStatic, params, returnType, body⟩ := method
    cases isStatic with
    | false => rfl
    | true =>
      cases body with
      | none => rfl
      | some body =>
        dsimp only [Option.map_some, MethodDef.renumber]
        split_ifs <;> rfl

/-- The bodies of all frames are sound. -/
def SoundFrames (s : Machine) : Prop := ∀ f ∈ s.current :: s.callers, f.body.Sound

theorem handle_renumber {m : Module} {s : Machine} {effect : Effect}
    (unchanged : effect.withBody s.current.body = effect) :
    handle m.renumber s.renumber (effect.withBody s.current.body.renumber) =
      (handle m s effect).map Progress.renumber := by
  cases effect with
  | proceed frame =>
    rw [← Effect.body_of_proceed unchanged]
    rfl
  | call callee args frame =>
    rw [← Effect.body_of_call unchanged]
    have depth : (frame.renumber :: s.renumber.callers).length = (frame :: s.callers).length := by
      simp [renumber]
    change (enter m.renumber callee args (frame.renumber :: s.renumber.callers).length >>= _) = _
    rw [depth, enter_renumber, handle]
    cases enter m callee args (frame :: s.callers).length <;> rfl
  | finish result =>
    obtain ⟨current, callers⟩ := s
    cases callers with
    | nil => rfl
    | cons caller callers =>
      change pure (Progress.running ⟨if current.kept then _ else _, _⟩) = _
      cases kept : current.kept <;> simp only [handle, kept] <;> rfl

/-- One instruction does the same on renumbered bodies. -/
theorem step_renumber {m : Module} {s : Machine} {i : Instruction} (sound : s.current.body.Sound)
    (fetched : s.current.fetch? = some i) :
    step m.renumber s.renumber (i.mapTarget s.current.body.storedPlace) =
      (step m s i).map Progress.renumber := by
  have same : ∀ t, i.target? = some t →
      s.current.body.renumber.position? (s.current.body.storedPlace t) =
        s.current.body.position? t := by
    intro t named
    obtain ⟨id, there⟩ := (Frame.fetch?_eq_some_iff sound.toWellFormed i).mp fetched
    exact Body.position_renumber sound.toWellFormed
      (sound.branch _ (List.mem_of_getElem? there) t named)
  calc
    step m.renumber s.renumber (i.mapTarget s.current.body.storedPlace)
      = (Frame.withBody { s.current with next := s.current.next + 1 }
          s.current.body.renumber).execute (i.mapTarget s.current.body.storedPlace) >>=
            handle m.renumber s.renumber := rfl
    _ = (Frame.execute { s.current with next := s.current.next + 1 } i).map
          (·.withBody s.current.body.renumber) >>= handle m.renumber s.renumber := by
        rw [Frame.execute_withBody { s.current with next := s.current.next + 1 } i same]
    _ = (step m s i).map Progress.renumber := by
        rw [step_eq_handle]
        cases executed : Frame.execute { s.current with next := s.current.next + 1 } i with
        | error fault => rfl
        | ok effect =>
          have unchanged := Frame.withBody_of_execute executed
          exact handle_renumber unchanged

/-- One instruction leads to frames with sound bodies again. -/
theorem soundFrames_step {m : Module} (module : m.Sound) {s t : Machine} {i : Instruction}
    (sound : s.SoundFrames) (stepped : step m s i = .ok (.running t)) : t.SoundFrames := by
  rw [step_eq_handle, Success.bind_ok_iff] at stepped
  obtain ⟨effect, executed, handled⟩ := stepped
  have unchanged := Frame.withBody_of_execute executed
  obtain ⟨current, waiting⟩ := List.forall_mem_cons.mp sound
  cases effect with
  | proceed frame =>
    cases handled
    have body := Effect.body_of_proceed unchanged
    exact List.forall_mem_cons.mpr ⟨body ▸ current, waiting⟩
  | call callee args frame =>
    obtain ⟨entered, enters, handled⟩ := (Success.bind_ok_iff ..).mp handled
    cases handled
    have body := Effect.body_of_call unchanged
    -- The body that is entered belongs to a method of the module.
    obtain ⟨-, method, b, resolved, -, held, -, rfl⟩ := (enter_ok_iff ..).mp enters
    obtain ⟨type, member⟩ := Module.mem_methods_of_resolve resolved
    refine List.forall_mem_cons.mpr ⟨(module _ member b held).1, ?_⟩
    exact List.forall_mem_cons.mpr ⟨body ▸ current, waiting⟩
  | finish result =>
    obtain ⟨frame, callers⟩ := s
    cases callers with
    | nil => cases handled
    | cons caller callers =>
      cases handled
      obtain ⟨first, others⟩ := List.forall_mem_cons.mp waiting
      refine List.forall_mem_cons.mpr ⟨?_, others⟩
      change (if frame.kept then caller.push result else caller).body.Sound
      split
      · exact first
      · exact first

theorem fetch?_renumber {s : Machine} (sound : s.SoundFrames) :
    s.renumber.current.fetch? = s.current.fetch?.map (·.mapTarget s.current.body.storedPlace) :=
  Frame.fetch?_renumber (sound _ List.mem_cons_self).toWellFormed

theorem run_renumber_of_fetch_none {m : Module} {s : Machine} (sound : s.SoundFrames)
    (fetched : s.current.fetch? = none) (limit : Nat) :
    run m.renumber limit s.renumber = run m limit s := by
  have fetches := fetch?_renumber sound
  rw [fetched] at fetches
  rw [run_of_fetch_none fetched, run_of_fetch_none fetches]
  rfl

/-- A run ends the same on renumbered bodies. -/
theorem run_renumber {m : Module} (module : m.Sound) (limit : Nat) {s : Machine}
    (sound : s.SoundFrames) : run m.renumber limit s.renumber = run m limit s := by
  induction limit generalizing s with
  | zero =>
    cases fetched : s.current.fetch? with
    | none => exact run_renumber_of_fetch_none sound fetched 0
    | some i =>
      have fetches := fetch?_renumber sound
      rw [fetched] at fetches
      rw [run_zero fetched, run_zero fetches]
      rfl
  | succ limit ih =>
    cases fetched : s.current.fetch? with
    | none => exact run_renumber_of_fetch_none sound fetched _
    | some i =>
      have fetches := fetch?_renumber sound
      rw [fetched] at fetches
      have steps := step_renumber (m := m) (sound _ List.mem_cons_self) fetched
      -- Both machines take the step; what they do next is the same by induction.
      cases stepped : step m s i with
      | error fault =>
        rw [stepped] at steps
        rw [run_succ_of_error fetched stepped, run_succ_of_error fetches steps]
      | ok progress =>
        rw [stepped] at steps
        cases progress with
        | finished result =>
          rw [run_succ_of_finished fetched stepped, run_succ_of_finished fetches steps]
        | running t =>
          rw [run_succ_of_running fetched stepped, run_succ_of_running fetches steps]
          exact ih (soundFrames_step module sound stepped)

end Machine

namespace Module

/-- Calls return the same on renumbered bodies. -/
theorem call_renumber {m : Module} (sound : m.Sound) (limit : Nat) (method : MethodRef)
    (args : List Value) : m.renumber.call limit method args = m.call limit method args := by
  unfold call
  rw [Machine.enter_renumber]
  cases entered : Machine.enter m method args 0 with
  | error fault => rfl
  | ok frame =>
    obtain ⟨-, called, b, resolved, -, held, -, rfl⟩ := (Machine.enter_ok_iff ..).mp entered
    obtain ⟨type, member⟩ := mem_methods_of_resolve resolved
    exact Machine.run_renumber sound limit (s := ⟨_, []⟩)
      (List.forall_mem_cons.mpr ⟨(sound _ member b held).1, nofun⟩)

end Module

/-- A fault in a method with its instructions named by their places. -/
def MethodDef.placed (m : MethodDef) (e : MethodFault) : MethodFault :=
  match m.body with
  | none => e
  | some b => { e with fault := e.fault.mapIds b.storedPlace }

namespace Module

theorem checkMethod_renumber {m : Module} (sound : m.Sound) {entry : TypeDef × MethodDef}
    (member : entry ∈ m.methods) :
    checkMethod (entry.1.renumber, entry.2.renumber) =
      (checkMethod entry).mapError entry.2.placed := by
  obtain ⟨type, method⟩ := entry
  cases held : method.body with
  | none => simp only [checkMethod, MethodDef.renumber, held]; rfl
  | some b =>
    have same := Body.checkStack_renumber (sound _ member b held).1 method.returnsValue
    have placed : method.placed = fun e => { e with fault := e.fault.mapIds b.storedPlace } := by
      funext e
      simp only [MethodDef.placed, held]
    simp only [checkMethod, MethodDef.renumber, held, Option.map_some]
    change (b.renumber.checkStack method.returnsValue).mapError _ = _
    rw [same, placed]
    cases b.checkStack method.returnsValue <;> rfl

/-- The stack check gives the same verdict on renumbered bodies. -/
theorem checkStacks_renumber {m : Module} (sound : m.Sound) :
    m.renumber.checkStacks =
      m.methods.forM fun entry => (checkMethod entry).mapError entry.2.placed := by
  have each : ∀ entry ∈ m.methods, checkMethod (entry.1.renumber, entry.2.renumber) =
      (checkMethod entry).mapError entry.2.placed := fun _ => checkMethod_renumber sound
  rw [checkStacks, methods_renumber]
  generalize m.methods = entries at each
  induction entries with
  | nil => rfl
  | cons entry entries ih =>
    obtain ⟨first, others⟩ := List.forall_mem_cons.mp each
    have rest := ih others
    change (checkMethod (entry.1.renumber, entry.2.renumber) >>= fun _ => List.forM _ _) = _
    rw [first, rest]
    rfl

end Module

end NativeBridge
