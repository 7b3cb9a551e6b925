import NativeBridge.Proofs.Loading
import NativeBridge.Proofs.Mirror

/-! Elided code computes what the original does. The machine that runs the elided module keeps track
of the one that runs the original: frame by frame the two mirror one another. Where the original
executes an instruction that is gone, the other one waits, so it never needs more steps. -/

namespace NativeBridge

/-- What is executed without a fault is a supported operation. -/
theorem Frame.perform_of_execute {f : Frame} {i : Instruction} {counts : StackEffect}
    {effect : Effect} (known : i.stackEffect? f.returnsValue = some counts)
    (done : f.execute i = .ok effect) :
    ∃ o, i.operation? = some o ∧ o ≠ .foreign ∧ o.effect? f.returnsValue = some counts ∧
      f.perform i.opcode o = .ok effect := by
  obtain ⟨o, denoted⟩ := Instruction.exists_operation (Instruction.isMatched_of_effect known)
  rw [execute_eq_perform f i o denoted] at done
  have supported : o ≠ .foreign := by
    rintro rfl
    cases done
  exact ⟨o, denoted, supported, Instruction.effect?_of_operation denoted supported known, done⟩

namespace Pass

/-- The calls on interfaces with an adapter have a receiver. -/
def MappedReceivers (bindings : StaticBindings) (b : Body) : Prop :=
  ∀ entry ∈ b.code, ∀ callee ∈ mappedCallee? bindings entry.2, callee.hasReceiver = true

instance (bindings : StaticBindings) (b : Body) : Decidable (MappedReceivers bindings b) :=
  inferInstanceAs (Decidable (∀ entry ∈ b.code, ∀ callee ∈ mappedCallee? bindings entry.2,
    callee.hasReceiver = true))

/-- A body can do without its designated values: its fields of designated types are static, its
mapped calls have a receiver, and there are shapes for the places that control reaches from the
start. -/
structure Elidable (bindings : StaticBindings) (method : MethodDef)
    (shape : Nat → Option (List Mark)) (b : Body) : Prop where
  fields : StaticFields bindings b
  receivers : MappedReceivers bindings b
  shapes : Shapes bindings method b shape

instance (bindings : StaticBindings) (method : MethodDef) (table : List (Option (List Mark)))
    (b : Body) : Decidable (Elidable bindings method (Body.recorded table) b) :=
  decidable_of_iff (StaticFields bindings b ∧ MappedReceivers bindings b ∧
      Shapes bindings method b (Body.recorded table))
    ⟨fun ⟨fields, receivers, shapes⟩ => ⟨fields, receivers, shapes⟩,
      fun elidable => ⟨elidable.fields, elidable.receivers, elidable.shapes⟩⟩

/-- A body is what the rule leaves of another one. -/
structure Elided (bindings : StaticBindings) (m : Module) (method : MethodDef)
    (shape : Nat → Option (List Mark)) (b edited : Body) : Prop
    extends Elidable bindings method shape b where
  thinned : Body.Thinned (survive bindings m method b) b edited

/-- A frame of elided code stands where one of the original code does. The stack of the original has
the shape of that place once `missing` more ordinary values are on it. -/
def Shadows (bindings : StaticBindings) (m : Module) (missing : Nat) (f g : Frame) : Prop :=
  ∃ method shape marks, Elided bindings m method shape f.body g.body ∧
    method.returnsValue = f.returnsValue ∧ Mirrors bindings m method marks f g ∧
    (f.next < f.body.size → shape f.next = some (List.replicate missing .ordinary ++ marks))

/-- What an instruction of a frame asks of the machine is the same for two frames. -/
def EffectShadows (bindings : StaticBindings) (m : Module) (f : Frame) : Effect → Effect → Prop
  | .proceed h, .proceed k => h.kept = f.kept ∧ Shadows bindings m 0 h k
  | .call callee args h, .call same given k =>
    same = callee ∧ given = args ∧ h.kept = f.kept ∧ Shadows bindings m callee.outputs h k
  | .finish v, .finish w => w = v
  | _, _ => False

/-- An instruction of a frame puts a number of values on its stack and leads to a place with a given
shape. -/
def Arrives (f : Frame) (shape : Nat → Option (List Mark)) (pushes : Nat) (after : List Mark) :
    Effect → Prop
  | .proceed h => f.SameCall h ∧ (h.next < f.body.size → shape h.next = some after)
  | .call callee _ h =>
    f.SameCall h ∧ pushes = callee.outputs ∧ (h.next < f.body.size → shape h.next = some after)
  | .finish _ => True

section frames

variable {bindings : StaticBindings} {m : Module} {method : MethodDef} {f g : Frame}
  {id : InstrId} {i : Instruction} {effect : Effect} {shape : Nat → Option (List Mark)}
  {rest : List Mark} {counts : StackEffect}

/-- The machine supports no call with a receiver. -/
theorem execute_mapped {callee : MethodRef} (mapped : mappedCallee? bindings i = some callee)
    (receiver : callee.hasReceiver = true) (f : Frame) :
    f.execute i = .error (.unsupported i.opcode f.method) := by
  obtain ⟨kind, named, _⟩ := mappedCallee?_eq_some_iff.mp mapped
  obtain ⟨op, operand⟩ := i
  cases op <;> cases kind
  · simp only [Frame.execute, named, receiver, if_true]
    rfl
  · rfl

/-- An instruction that is executed leads to a place that follows. -/
theorem execute_arrives (elided : Elided bindings m method shape f.body g.body)
    (returns : method.returnsValue = f.returnsValue) (there : f.body.code[f.next]? = some (id, i))
    (known : i.stackEffect? method.returnsValue = some counts)
    (enough : counts.pops ≤ f.stack.length)
    (done : { f with next := f.next + 1 }.execute i = .ok effect) {after : List Mark}
    (flow : ∀ next, f.body.Follows f.next i next → shape next = some after) :
    Arrives f shape counts.pushes after effect := by
  have respects := Frame.execute_respects (f := { f with next := f.next + 1 }) (returns ▸ known)
    enough (elided.thinned.sound.branch (id, i) (List.mem_of_getElem? there))
  rw [done] at respects
  cases effect with
  | proceed h =>
    obtain ⟨same, _, follows⟩ := respects
    refine ⟨⟨same.method, same.body, same.returnsValue, same.kept⟩, fun inside => flow _ ?_⟩
    exact follows.imp_left fun ⟨runs, next⟩ => ⟨runs, next, inside⟩
  | call callee args h =>
    obtain ⟨same, _, pushes, runs, next⟩ := respects
    exact ⟨⟨same.method, same.body, same.returnsValue, same.kept⟩, pushes, fun inside =>
      flow _ (Or.inl ⟨runs, next, inside⟩)⟩
  | finish v => trivial

/-- The frames that two frames have become. -/
theorem shadows_of_moved {h k : Frame} {missing : Nat} {marks : List Mark}
    (elided : Elided bindings m method shape f.body g.body)
    (returns : method.returnsValue = f.returnsValue) (same : f.SameCall h) (body : k.body = g.body)
    (mirrors : Mirrors bindings m method marks h k)
    (arrived : h.next < f.body.size →
      shape h.next = some (List.replicate missing .ordinary ++ marks)) :
    Shadows bindings m missing h k := by
  refine ⟨method, shape, marks, ?_, same.returnsValue ▸ returns, mirrors, ?_⟩
  · rw [same.body, body]
    exact elided
  · rw [same.body]
    exact arrived

theorem effectShadows_of_mirrors {same : Effect}
    (elided : Elided bindings m method shape f.body g.body)
    (returns : method.returnsValue = f.returnsValue)
    (alike : EffectMirrors bindings m method counts.pushes rest { g with next := g.next + 1 }
      effect same)
    (arrives : Arrives f shape counts.pushes
      (List.replicate counts.pushes .ordinary ++ rest) effect) :
    EffectShadows bindings m f effect same := by
  cases effect with
  | proceed h =>
    cases same with
    | proceed k =>
      obtain ⟨body, moved⟩ := alike
      obtain ⟨call, arrived⟩ := arrives
      exact ⟨call.kept, shadows_of_moved elided returns call body moved arrived⟩
    | call _ _ _ | finish _ => cases alike
  | call callee args h =>
    cases same with
    | call _ _ k =>
      obtain ⟨rfl, rfl, body, moved⟩ := alike
      obtain ⟨call, pushes, arrived⟩ := arrives
      exact ⟨rfl, rfl, call.kept,
        shadows_of_moved elided returns call body moved (pushes ▸ arrived)⟩
    | proceed _ | finish _ => cases alike
  | finish v =>
    cases same with
    | finish w => exact alike
    | proceed _ | call _ _ _ => cases alike

/-- A branch that is kept leads to what is left of its target. -/
theorem position?_of_jump {condition : Option Bool} {target : InstrId}
    (elided : Elided bindings m method shape f.body g.body)
    (there : f.body.code[f.next]? = some (id, i))
    (stays : survive bindings m method f.body (id, i) = some (id, i))
    (denoted : i.operation? = some (.jump condition target)) {place : Nat}
    (found : f.body.position? target = some place) :
    g.body.position? (landing f.body.order g.body.order target) =
      some (Body.rank (survive bindings m method f.body) f.body.code place) := by
  have thinned := elided.thinned
  have member := List.mem_filterMap.mpr ⟨_, List.mem_of_getElem? there, stays⟩
  have aimed : i.target? = some target := Instruction.encoded_of_operation denoted
  exact thinned.position?_landing
    ((Body.position?_eq_some_iff thinned.sound.toWellFormed ..).mp found)
    (thinned.retained.branch id i member target aimed)

/-- Where the original executes an instruction that is gone, the other frame waits. -/
theorem execute_gone {marks : List Mark} (elided : Elided bindings m method shape f.body g.body)
    (returns : method.returnsValue = f.returnsValue)
    (mirrors : Mirrors bindings m method marks f g) (there : f.body.code[f.next]? = some (id, i))
    (shaped : shape f.next = some marks) (moves : movesDesignated bindings method f.body i = true)
    (done : { f with next := f.next + 1 }.execute i = .ok effect) :
    ∃ h, effect = .proceed h ∧ h.kept = f.kept ∧ Shadows bindings m 0 h g := by
  obtain ⟨_, _, spread, rest, here, known, rfl, _, flow⟩ := elided.shapes.flow _ _ shaped
  obtain ⟨rfl, rfl⟩ := Prod.mk.inj (Option.some.inj (there.symm.trans here))
  obtain ⟨counts, counted, rfl⟩ := shapeEffect?_of_moves moves known
  obtain ⟨o, denoted, supported, has, performed⟩ :=
    Frame.perform_of_execute (f := { f with next := f.next + 1 }) (returns ▸ counted) done
  obtain ⟨bank, slot, named, hidden⟩ := operation_of_movesDesignated denoted moves supported
  -- The place behind has the same rank, so the other frame stands right when only this one moves.
  have gone : survive bindings m method f.body (id, i) = none := by simp [survive, moves]
  have past : Mirrors bindings m method (List.replicate counts.pops .designated ++ rest)
      { f with next := f.next + 1 } g :=
    mirrors.move mirrors.stack (by rw [Body.rank_succ_of_none there gone, mirrors.next])
  obtain ⟨h, rfl, moved⟩ := perform_hidden has past named hidden performed
  have enough : counts.pops ≤ f.stack.length := by
    rw [mirrors.stack.length_eq]
    simp
  obtain ⟨same, arrived⟩ := execute_arrives elided returns there counted enough done flow
  exact ⟨h, rfl, same.kept, shadows_of_moved elided returns same rfl moved arrived⟩

/-- Any other instruction is executed by both frames. -/
theorem execute_kept {marks : List Mark} (elided : Elided bindings m method shape f.body g.body)
    (returns : method.returnsValue = f.returnsValue)
    (mirrors : Mirrors bindings m method marks f g) (there : f.body.code[f.next]? = some (id, i))
    (shaped : shape f.next = some marks) (still : movesDesignated bindings method f.body i = false)
    (unmapped : mappedCallee? bindings i = none)
    (done : { f with next := f.next + 1 }.execute i = .ok effect) :
    ∃ j same, g.fetch? = some j ∧ { g with next := g.next + 1 }.execute j = .ok same ∧
      EffectShadows bindings m f effect same := by
  obtain ⟨_, _, spread, rest, here, known, rfl, _, flow⟩ := elided.shapes.flow _ _ shaped
  obtain ⟨rfl, rfl⟩ := Prod.mk.inj (Option.some.inj (there.symm.trans here))
  obtain ⟨counts, counted, rfl⟩ := shapeEffect?_of_plain still unmapped known
  obtain ⟨o, denoted, supported, has, performed⟩ :=
    Frame.perform_of_execute (f := { f with next := f.next + 1 }) (returns ▸ counted) done
  have thinned := elided.thinned
  have stays : survive bindings m method f.body (id, i) = some (id, i) :=
    survive_of_plain still unmapped
  -- What is kept of the instruction stands at the rank of its place, the place behind at the next.
  have fetched := (Frame.fetch?_eq_some_iff thinned.wellFormed _).mpr
    ⟨id, mirrors.next ▸ thinned.code_rank there stays⟩
  have past : Mirrors bindings m method (List.replicate counts.pops .ordinary ++ rest)
      { f with next := f.next + 1 } { g with next := g.next + 1 } :=
    mirrors.move mirrors.stack (by rw [Body.rank_succ_of_some there stays, mirrors.next])
  obtain ⟨same, repeated, alike⟩ := perform_mirrors
    (landing f.body.order g.body.order) has past (hides_of_operation denoted still)
    (fun _ _ jumps _ found => position?_of_jump elided there stays (jumps ▸ denoted) found)
    performed
  have enough : counts.pops ≤ f.stack.length := by
    rw [mirrors.stack.length_eq]
    simp
  refine ⟨_, same, fetched, ?_, ?_⟩
  · rw [Frame.execute_eq_perform _ _ _ (by rw [Instruction.operation?_mapTarget, denoted]; rfl),
      Instruction.opcode_mapTarget]
    exact repeated
  · exact effectShadows_of_mirrors elided returns alike
      (execute_arrives elided returns there counted enough done flow)

/-- One instruction of the original: the frame of the elided code waits, or executes what is left of
the instruction. -/
theorem Shadows.execute (shadows : Shadows bindings m 0 f g) (fetched : f.fetch? = some i)
    (done : { f with next := f.next + 1 }.execute i = .ok effect) :
    (∃ h, effect = .proceed h ∧ h.kept = f.kept ∧ Shadows bindings m 0 h g) ∨
      ∃ j same, g.fetch? = some j ∧ { g with next := g.next + 1 }.execute j = .ok same ∧
        EffectShadows bindings m f effect same := by
  obtain ⟨method, shape, marks, elided, returns, mirrors, here⟩ := shadows
  have formed := elided.thinned.sound.toWellFormed
  obtain ⟨id, there⟩ := (Frame.fetch?_eq_some_iff formed i).mp fetched
  have inside := (List.getElem?_eq_some_iff.mp there).1
  rw [Body.length_code formed] at inside
  have shaped := here inside
  cases moves : movesDesignated bindings method f.body i with
  | true => exact Or.inl (execute_gone elided returns mirrors there shaped moves done)
  | false =>
    cases mapped : mappedCallee? bindings i with
    | none => exact Or.inr (execute_kept elided returns mirrors there shaped moves mapped done)
    | some callee =>
      -- The original would have failed.
      have receiver := elided.receivers (id, i) (List.mem_of_getElem? there) callee mapped
      rw [execute_mapped mapped receiver] at done
      cases done

end frames

/-- The callers of a frame and their counterparts; each waits for the result of the frame before it,
if that is kept. -/
def Awaits (bindings : StaticBindings) (m : Module) : (kept : Bool) → List Frame → List Frame → Prop
  | _, [], [] => True
  | kept, f :: callers, g :: others =>
    Shadows bindings m kept.toNat f g ∧ Awaits bindings m f.kept callers others
  | _, _, _ => False

/-- A machine of the elided module keeps track of one of the original. -/
structure Tracks (bindings : StaticBindings) (m : Module) (s t : Machine) : Prop where
  current : Shadows bindings m 0 s.current t.current
  callers : Awaits bindings m s.current.kept s.callers t.callers

/-- Two machines have come to the same. -/
def ProgressTracks (bindings : StaticBindings) (m : Module) :
    NativeBridge.Progress → NativeBridge.Progress → Prop
  | .running s, .running t => Tracks bindings m s t
  | .finished v, .finished w => w = v
  | _, _ => False

/-- Every body of a module has been elided in another one. -/
def Counterpart (bindings : StaticBindings) (m edited : Module) : Prop :=
  ∀ callee method b, m.resolve? callee = some method → method.body = some b →
    ∃ c shape, edited.resolve? callee = some { method with body := some c } ∧
      Elided bindings m method shape b c

section machines

variable {bindings : StaticBindings} {m edited : Module} {s t : Machine}

theorem Awaits.length_eq {kept : Bool} {callers others : List Frame}
    (awaits : Awaits bindings m kept callers others) : others.length = callers.length := by
  fun_induction Awaits bindings m kept callers others with
  | case1 => rfl
  | case2 _ _ _ _ _ ih => simp [ih awaits.2]
  | case3 => exact awaits.elim

/-- A call enters both modules at the same place. -/
theorem enter_shadows (counterpart : Counterpart bindings m edited) {callee : MethodRef}
    {args : List Value} {depth : Nat} {f : Frame}
    (entered : Machine.enter m callee args depth = .ok f) :
    ∃ g, Machine.enter edited callee args depth = .ok g ∧ Shadows bindings m 0 f g ∧
      f.kept.toNat = callee.outputs := by
  obtain ⟨deep, method, b, resolved, static, held, counts, rfl⟩ :=
    (Machine.enter_ok_iff ..).mp entered
  obtain ⟨c, shape, there, elided⟩ := counterpart callee method b resolved held
  have mirrors : Mirrors bindings m method [] (.initial callee method b args)
      (.initial callee { method with body := some c } c args) := by
    refine ⟨rfl, rfl, fun bank slot _ => ?_, .nil, by simp [Frame.initial]⟩
    cases bank with
    | arguments => rfl
    | locals => simp [Frame.slots, Frame.initial, elided.thinned.retained.locals]
  refine ⟨.initial callee { method with body := some c } c args, ?_,
    ⟨method, shape, [], elided, rfl, mirrors, fun inside => ?_⟩, ?_⟩
  · exact (Machine.enter_ok_iff ..).mpr ⟨deep, _, c, there, static, rfl, counts, rfl⟩
  · exact elided.shapes.start (Nat.ne_zero_of_lt inside)
  · exact Frame.kept_initial ..

/-- A result is handed to both callers. -/
theorem Awaits.returns {kept : Bool} {f g : Frame} {callers others : List Frame}
    (awaits : Awaits bindings m kept (f :: callers) (g :: others)) (result : Value) :
    Tracks bindings m ⟨if kept then f.push result else f, callers⟩
      ⟨if kept then g.push result else g, others⟩ := by
  obtain ⟨⟨method, shape, marks, elided, returns, mirrors, here⟩, rest⟩ := awaits
  cases kept with
  | false => exact ⟨⟨method, shape, marks, elided, returns, mirrors, here⟩, rest⟩
  | true =>
    -- The result is the ordinary value that the shape of the caller was short of.
    have pushed : Mirrors bindings m method (.ordinary :: marks) (f.push result) (g.push result) :=
      mirrors.move (.keep result mirrors.stack) mirrors.next
    exact ⟨⟨method, shape, _, elided, returns, pushed, here⟩, rest⟩

/-- Both machines do what an instruction asks of them. -/
theorem handle_tracks (counterpart : Counterpart bindings m edited) (tracks : Tracks bindings m s t)
    {effect same : Effect} (alike : EffectShadows bindings m s.current effect same)
    {progress : NativeBridge.Progress} (handled : Machine.handle m s effect = .ok progress) :
    ∃ after, Machine.handle edited t same = .ok after ∧
      ProgressTracks bindings m progress after := by
  cases effect with
  | proceed h =>
    cases same with
    | proceed k =>
      obtain ⟨kept, shadows⟩ := alike
      cases handled
      exact ⟨_, rfl, shadows, kept ▸ tracks.callers⟩
    | call _ _ _ | finish _ => cases alike
  | call callee args h =>
    cases same with
    | call _ _ k =>
      obtain ⟨rfl, rfl, kept, shadows⟩ := alike
      obtain ⟨f, entered, made⟩ := (Success.bind_ok_iff ..).mp handled
      cases made
      obtain ⟨g, enters, current, keeps⟩ := enter_shadows counterpart entered
      -- As many frames wait on both sides, so both calls are within the limit or neither is.
      have deep : (k :: t.callers).length = (h :: s.callers).length := by
        simp [tracks.callers.length_eq]
      refine ⟨.running ⟨g, k :: t.callers⟩, ?_, current, keeps ▸ shadows, kept ▸ tracks.callers⟩
      exact (Success.bind_ok_iff ..).mpr ⟨g, deep ▸ enters, rfl⟩
    | proceed _ | finish _ => cases alike
  | finish v =>
    cases same with
    | finish w =>
      obtain rfl : w = v := alike
      obtain ⟨current, callers⟩ := s
      obtain ⟨other, others⟩ := t
      obtain ⟨⟨_, _, _, _, _, mirrors, _⟩, awaits⟩ := tracks
      cases callers with
      | nil =>
        cases others with
        | nil =>
          cases handled
          exact ⟨_, rfl, rfl⟩
        | cons _ _ => cases awaits
      | cons f callers =>
        cases others with
        | nil => cases awaits
        | cons g others =>
          cases handled
          refine ⟨_, rfl, ?_⟩
          rw [mirrors.kept]
          exact Awaits.returns awaits w
    | proceed _ | call _ _ _ => cases alike

/-- One instruction of the original machine. -/
theorem step_tracks (counterpart : Counterpart bindings m edited) (tracks : Tracks bindings m s t)
    {i : Instruction} (fetched : s.current.fetch? = some i) {progress : NativeBridge.Progress}
    (stepped : Machine.step m s i = .ok progress) :
    (∃ u, progress = .running u ∧ Tracks bindings m u t) ∨
      ∃ j same, t.current.fetch? = some j ∧ Machine.step edited t j = .ok same ∧
        ProgressTracks bindings m progress same := by
  rw [Machine.step_eq_handle, Success.bind_ok_iff] at stepped
  obtain ⟨effect, done, handled⟩ := stepped
  rcases tracks.current.execute fetched done with
    ⟨h, rfl, kept, shadows⟩ | ⟨j, same, again, repeated, alike⟩
  · cases handled
    exact Or.inl ⟨_, rfl, shadows, kept ▸ tracks.callers⟩
  · obtain ⟨after, continued, reached⟩ := handle_tracks counterpart tracks alike handled
    refine Or.inr ⟨j, after, again, ?_, reached⟩
    rw [Machine.step_eq_handle, repeated, Success.ok_bind, continued]

/-- A run of the original that returns a value is matched by one that takes no more steps. -/
theorem run_tracks (counterpart : Counterpart bindings m edited) (tracks : Tracks bindings m s t)
    {limit : Nat} {v : Value} (finished : Machine.run m limit s = .ok v) {larger : Nat}
    (enough : limit ≤ larger) : Machine.run edited larger t = .ok v := by
  -- The induction is on the steps of the original. Where the other machine waits it keeps all of
  -- its steps, so its limit is any that is no smaller.
  induction limit generalizing s t larger with
  | zero =>
    obtain ⟨_, _, _, impossible, _⟩ := Machine.run_ok finished
    cases impossible
  | succ limit ih =>
    obtain ⟨_, i, progress, ⟨⟩, fetched, stepped, outcome⟩ := Machine.run_ok finished
    rcases step_tracks counterpart tracks fetched stepped with
      ⟨u, rfl, waits⟩ | ⟨j, same, again, repeated, alike⟩
    · rcases outcome with ended | ⟨_, led, rest⟩
      · cases ended
      · cases led
        exact ih waits rest (Nat.le_of_succ_le enough)
    · obtain ⟨larger, rfl⟩ := Nat.exists_eq_succ_of_ne_zero (Nat.ne_zero_of_lt enough)
      rcases outcome with rfl | ⟨u, rfl, rest⟩
      · cases same with
        | finished w =>
          obtain rfl : w = v := alike
          exact Machine.run_succ_of_finished again repeated larger
        | running _ => cases alike
      · cases same with
        | running u' =>
          rw [Machine.run_succ_of_running again repeated]
          exact ih alike rest (Nat.le_of_succ_le_succ enough)
        | finished _ => cases alike

end machines

/-- Whenever the pass with the rule for interfaces succeeds on a module that was loaded and whose
bodies may be elided, every call that returns a value returns it in the result too, within the same
number of steps. -/
theorem call_preserved {σ : Type} (document : Json.Document) (m : Module)
    (bindings : StaticBindings) (checked : Bool) (state : σ) (report : Report)
    (loaded : Module.load document = .ok m)
    (elidable : ∀ entry ∈ m.methods, ∀ b ∈ entry.2.body,
      ∃ shape, Elidable bindings entry.2 shape b)
    (succeeded : (run [interfaceCalls bindings] checked m state).result = .ok report)
    (limit : Nat) (method : MethodRef) (args : List Value) (v : Value)
    (returned : m.call limit method args = .ok v) :
    (run [interfaceCalls bindings] checked m state).edited.call limit method args = .ok v := by
  have sound := Module.sound_of_load loaded
  have counterpart : Counterpart bindings m
      (run [interfaceCalls bindings] checked m state).edited := by
    intro callee method b resolved held
    obtain ⟨type, member⟩ := Module.mem_methods_of_resolve resolved
    obtain ⟨shape, able⟩ := elidable _ member b held
    obtain ⟨edited, found, _, _, visited⟩ := resolve?_of_run succeeded resolved
    rcases visited with ⟨bodiless, _⟩ | ⟨_, c, own, rfl, visited⟩
    · -- The method that was found has a body.
      simp [held] at bodiless
    · cases held.symm.trans own
      exact ⟨c, shape, found, able,
        thinned_of_visited (sound _ member b held).1 able.fields visited⟩
  obtain ⟨f, entered, ran⟩ := (Success.bind_ok_iff ..).mp returned
  obtain ⟨g, enters, shadows, _⟩ := enter_shadows counterpart entered
  have tracks : Tracks bindings m ⟨f, []⟩ ⟨g, []⟩ := ⟨shadows, trivial⟩
  exact (Success.bind_ok_iff ..).mpr ⟨g, enters, run_tracks counterpart tracks ran (Nat.le_refl _)⟩

/-- The sample program doubles a number twice, in two nested calls, and does so after the pass. -/
theorem call_preserved_sample :
    let outcome := run [interfaceCalls Sample.bindings] true Sample.program ()
    outcome.result = .ok ⟨3, 29, 5⟩ ∧
      Sample.program.call 20 Sample.quadRef [.null, .int32 5] = .ok (.int32 20) ∧
      outcome.edited.call 20 Sample.quadRef [.null, .int32 5] = .ok (.int32 20) := by
  intro outcome
  have elidable : ∀ entry ∈ Sample.program.methods, ∀ b ∈ entry.2.body,
      Elidable Sample.bindings entry.2 (Body.recorded (shapesOf (Sample.onStack entry.2.name)))
        b := by
    decide +kernel
  have succeeded : outcome.result = .ok ⟨3, 29, 5⟩ := by decide +kernel
  have returned : Sample.program.call 20 Sample.quadRef [.null, .int32 5] = .ok (.int32 20) := by
    decide +kernel
  exact ⟨succeeded, returned, call_preserved _ _ _ _ _ _ Sample.load_document
    (fun entry member b held => ⟨_, elidable entry member b held⟩) succeeded _ _ _ _ returned⟩

end Pass

end NativeBridge
