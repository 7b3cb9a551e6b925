import NativeBridge.Proofs.Worklist
import NativeBridge.Proofs.Running

/-! Stack safety. In a module that passes the stack check, the stack of every frame of the machine
is as high as the typing of its body says, across branches and calls. So the machine never takes
from an empty stack, finds every operand it looks for, and leaves every method with an empty
stack. -/

namespace NativeBridge

/-- The faults that the stack check does not rule out. -/
def Fault.Tolerated : Fault → Prop
  | .underflow _ => False
  | .typeMismatch op _ => op ∈ arithmetic
  | _ => True

namespace Frame

/-- Two frames run the same method for the same call. -/
structure SameCall (f g : Frame) : Prop where
  method : g.method = f.method
  body : g.body = f.body
  returnsValue : g.returnsValue = f.returnsValue
  kept : g.kept = f.kept

/-- What an instruction with an effect may come to in a frame that has moved past it. -/
def Respects (f : Frame) (i : Instruction) (effect : StackEffect) : Except Fault Effect → Prop
  | .ok (.proceed g) =>
    f.SameCall g ∧ g.stack.length = f.stack.length - effect.pops + effect.pushes ∧
      ((i.opcode.isTerminator = false ∧ g.next = f.next) ∨
        ∃ target, i.target? = some target ∧ f.body.position? target = some g.next)
  | .ok (.call callee _ g) =>
    f.SameCall g ∧ g.stack.length = f.stack.length - effect.pops ∧
      effect.pushes = callee.outputs ∧ i.opcode.isTerminator = false ∧ g.next = f.next
  | .ok (.finish _) => i.opcode = .ret
  | .error fault => fault.Tolerated

variable {f : Frame} {i : Instruction} {effect : StackEffect}

/-- The next instruction stands in the live code. -/
theorem fetch?_eq_some_iff (formed : f.body.WellFormed) (i : Instruction) :
    f.fetch? = some i ↔ ∃ id, f.body.code[f.next]? = some (id, i) := by
  simp only [fetch?, Option.bind_eq_some_iff, Body.code_getElem?_iff formed]

theorem sameCall_refl (f : Frame) : f.SameCall f := ⟨rfl, rfl, rfl, rfl⟩

/-- A branch whose target is live either runs on or arrives there. -/
theorem jump_respects {g : Frame} {target : InstrId} {taken : Bool} (same : f.SameCall g)
    (stack : g.stack.length = f.stack.length - effect.pops + effect.pushes) (next : g.next = f.next)
    (aim : i.target? = some target) (live : target ∈ f.body.order)
    (stays : taken = false → i.opcode.isTerminator = false) :
    f.Respects i effect (g.jump i.opcode target taken) := by
  obtain ⟨place, found⟩ := (f.body.position?_isSome_iff target).mpr live
  unfold jump
  cases taken with
  | false => exact ⟨same, stack, Or.inl ⟨stays rfl, next⟩⟩
  | true =>
    simp only [same.body, found, if_true]
    exact ⟨⟨same.method, rfl, same.returnsValue, same.kept⟩, stack, Or.inr ⟨target, aim, found⟩⟩

/-- Executing an instruction on a stack that is high enough respects its effect. -/
theorem execute_respects (known : i.stackEffect? f.returnsValue = some effect)
    (enough : effect.pops ≤ f.stack.length)
    (live : ∀ target, i.target? = some target → target ∈ f.body.order) :
    f.Respects i effect (f.execute i) := by
  obtain ⟨o, denoted⟩ := Instruction.exists_operation (Instruction.isMatched_of_effect known)
  have encoded := Instruction.encoded_of_operation denoted
  have runs := Instruction.runs_on_of_operation denoted
  rw [execute_eq_perform f i o denoted]
  by_cases supported : o = .foreign
  · -- The machine refuses it, which is tolerated.
    subst supported
    exact trivial
  have same := Instruction.effect?_of_operation denoted supported known
  cases o with
  | nothing =>
    cases same
    exact ⟨f.sameCall_refl, rfl, Or.inl ⟨runs rfl, rfl⟩⟩
  | constant v =>
    cases same
    exact ⟨⟨rfl, rfl, rfl, rfl⟩, rfl, Or.inl ⟨runs rfl, rfl⟩⟩
  | load bank slot =>
    cases same
    simp only [perform]
    split
    · exact trivial
    · exact ⟨⟨rfl, rfl, rfl, rfl⟩, rfl, Or.inl ⟨runs rfl, rfl⟩⟩
  | store bank slot =>
    cases same
    simp only [perform]
    split
    · cases stack : f.stack with
      | nil => simp [stack] at enough
      | cons v rest =>
        cases bank <;>
          exact ⟨⟨rfl, rfl, rfl, rfl⟩, by simp [setSlots, stack], Or.inl ⟨runs rfl, rfl⟩⟩
    · exact trivial
  | discard =>
    cases same
    simp only [perform]
    cases stack : f.stack with
    | nil => simp [stack] at enough
    | cons v rest => exact ⟨⟨rfl, rfl, rfl, rfl⟩, by simp [stack], Or.inl ⟨runs rfl, rfl⟩⟩
  | duplicate =>
    cases same
    simp only [perform]
    cases stack : f.stack with
    | nil => simp [stack] at enough
    | cons v rest => exact ⟨⟨rfl, rfl, rfl, rfl⟩, by simp [stack], Or.inl ⟨runs rfl, rfl⟩⟩
  | compute =>
    cases same
    simp only [perform]
    rcases stack : f.stack with _ | ⟨b, _ | ⟨a, rest⟩⟩
    · simp [stack] at enough
    · simp [stack] at enough
    · dsimp only
      split
      · exact ⟨⟨rfl, rfl, rfl, rfl⟩, by simp [stack], Or.inl ⟨runs rfl, rfl⟩⟩
      · exact encoded
  | jump condition target =>
    cases condition with
    | none =>
      cases same
      exact jump_respects f.sameCall_refl rfl rfl encoded (live target encoded) (by simp)
    | some expected =>
      cases same
      simp only [perform]
      cases stack : f.stack with
      | nil => simp [stack] at enough
      | cons v rest =>
        exact jump_respects ⟨rfl, rfl, rfl, rfl⟩ (by simp [stack]) rfl encoded (live target encoded)
          (fun _ => runs rfl)
  | invoke callee =>
    cases same
    simp only [perform]
    cases receiver : callee.hasReceiver with
    | true => exact trivial
    | false =>
      have inputs : callee.inputs = callee.params.length := by simp [MethodRef.inputs, receiver]
      simp only [inputs] at enough
      rw [if_neg (by simp), if_neg (Nat.not_lt.mpr enough)]
      exact ⟨⟨rfl, rfl, rfl, rfl⟩, by simp [inputs], rfl, runs rfl, rfl⟩
  | leave =>
    cases same
    simp only [perform]
    split
    next returns =>
      cases stack : f.stack with
      | nil => simp [stack, returns] at enough
      | cons v rest => exact encoded
    · exact encoded
  | foreign => exact absurd rfl supported

/-- A frame stands at a typed place where the stack will be complete with `missing` more values. -/
def Stands (f : Frame) (missing : Nat) : Prop :=
  f.body.WellFormed ∧ ∃ depth, f.body.DepthTyping f.returnsValue depth ∧
    depth f.next = some (f.stack.length + missing)

/-- Where a frame stands there is an instruction, which its stack is high enough for. -/
theorem Stands.admits {missing : Nat} (stands : f.Stands missing) :
    ∃ i effect, f.fetch? = some i ∧
      f.body.Admits f.returnsValue f.next (f.stack.length + missing) i effect := by
  obtain ⟨formed, depth, typing, here⟩ := stands
  obtain ⟨id, i, effect, there, admitted, _⟩ := typing.flow _ _ here
  exact ⟨i, effect, (fetch?_eq_some_iff formed i).mpr ⟨id, there⟩, admitted⟩

/-- After an instruction a frame stands where control goes. -/
theorem Stands.moves (stands : f.Stands 0) (fetched : f.fetch? = some i) {g : Frame} {missing : Nat}
    (same : f.SameCall g) (known : i.stackEffect? f.returnsValue = some effect)
    (stack : g.stack.length + missing = f.stack.length - effect.pops + effect.pushes)
    (follows : (i.opcode.isTerminator = false ∧ g.next = f.next + 1) ∨
      ∃ target, i.target? = some target ∧ f.body.position? target = some g.next) :
    g.Stands missing := by
  obtain ⟨formed, depth, typing, here⟩ := stands
  obtain ⟨id, j, other, there, admitted, passes⟩ := typing.flow _ _ here
  have fetches := (fetch?_eq_some_iff formed j).mpr ⟨id, there⟩
  obtain rfl : j = i := Option.some.inj (fetches.symm.trans fetched)
  obtain rfl : other = effect := Option.some.inj (admitted.known.symm.trans known)
  have reached : f.body.Follows f.next j g.next := by
    rcases follows with ⟨runs, next⟩ | jumps
    · exact Or.inl ⟨runs, next, next ▸ admitted.inside runs⟩
    · exact Or.inr jumps
  -- The typing passes the depth on to every place that follows, so to the one reached.
  refine ⟨same.body ▸ formed, depth, by rw [same.body, same.returnsValue]; exact typing, ?_⟩
  rw [stack]
  exact passes _ reached

end Frame

namespace Machine

/-- The frame of a call to a method whose body has no live instruction. -/
def EntersEmpty (m : Module) (f : Frame) : Prop :=
  ∃ callee args depth, enter m callee args depth = .ok f ∧ f.body.order = []

/-- Each frame that waits will be complete once the frame before it has returned. -/
def Waiting : Frame → List Frame → Prop
  | _, [] => True
  | callee, caller :: callers => caller.Stands callee.kept.toNat ∧ Waiting caller callers

/-- The stack of every frame is as high as the typing of its body says. -/
structure Safe (m : Module) (s : Machine) : Prop where
  current : s.current.Stands 0 ∨ EntersEmpty m s.current
  callers : Waiting s.current s.callers

theorem Waiting.of_sameCall {f g : Frame} {callers : List Frame} (waiting : Waiting f callers)
    (same : f.SameCall g) : Waiting g callers := by
  cases callers with
  | nil => trivial
  | cons caller callers =>
    obtain ⟨stands, rest⟩ := waiting
    exact ⟨same.kept ▸ stands, rest⟩

/-- A call is refused for reasons of its own, never for the stack. -/
theorem enter_tolerated {m : Module} {callee : MethodRef} {args : List Value} {depth : Nat}
    {fault : Fault} (refused : enter m callee args depth = .error fault) : fault.Tolerated := by
  rcases enter_error refused with rfl | rfl | ⟨_, _, rfl | rfl | ⟨rfl, _⟩⟩ <;> trivial

end Machine

namespace Module

theorem mem_methods_of_resolve {m : Module} {callee : MethodRef} {method : MethodDef}
    (resolved : m.resolve? callee = some method) : ∃ t, (t, method) ∈ m.methods := by
  simp only [resolve?, Option.bind_eq_bind, Option.bind_eq_some_iff] at resolved
  obtain ⟨t, found, chosen⟩ := resolved
  refine ⟨t, ?_⟩
  simp only [methods, List.mem_flatMap, List.mem_map, Prod.mk.injEq]
  exact ⟨t, List.mem_of_find?_eq_some found, method, List.mem_of_find?_eq_some chosen, rfl, rfl⟩

/-- The live identities of every body are distinct and name instructions. -/
def WellFormed (m : Module) : Prop :=
  ∀ entry ∈ m.methods, ∀ b ∈ entry.2.body, b.WellFormed

instance (m : Module) : Decidable m.WellFormed :=
  inferInstanceAs (Decidable (∀ entry ∈ m.methods, ∀ b ∈ entry.2.body, b.WellFormed))

theorem checkStack_of_resolve {m : Module} (checked : m.checkStacks = .ok ()) {callee : MethodRef}
    {method : MethodDef} {b : Body} (resolved : m.resolve? callee = some method)
    (held : method.body = some b) : b.checkStack method.returnsValue = .ok () := by
  obtain ⟨t, member⟩ := mem_methods_of_resolve resolved
  have passed := (Success.forM_ok_iff _ _).mp checked _ member
  simpa [checkMethod, held] using passed

end Module

namespace Machine

variable {m : Module}

/-- A method that passes the check is entered at a typed place, unless it has no instruction. -/
theorem enter_safe (formed : m.WellFormed) (checked : m.checkStacks = .ok ()) {callee : MethodRef}
    {args : List Value} {depth : Nat} {f : Frame} (entered : enter m callee args depth = .ok f) :
    f.Stands 0 ∨ EntersEmpty m f := by
  obtain ⟨_, method, b, resolved, _, held, _, rfl⟩ := (enter_ok_iff ..).mp entered
  obtain ⟨t, member⟩ := Module.mem_methods_of_resolve resolved
  have sound := formed _ member b held
  have passed := Module.checkStack_of_resolve checked resolved held
  rcases (Body.checkStack_ok_iff sound _).mp passed with empty | ⟨depth, typing⟩
  · exact Or.inr ⟨callee, args, _, entered, List.eq_nil_of_length_eq_zero empty⟩
  · exact Or.inl ⟨sound, depth, typing, typing.start⟩

theorem EntersEmpty.fetch_none {f : Frame} (empty : EntersEmpty m f) : f.fetch? = none := by
  obtain ⟨_, _, _, _, nothing⟩ := empty
  simp [Frame.fetch?, nothing]

/-- The caller of a frame that returns is complete. -/
theorem Waiting.returns {f caller : Frame} {callers : List Frame}
    (waiting : Waiting f (caller :: callers)) (result : Value) :
    (if f.kept then caller.push result else caller).Stands 0 ∧
      Waiting (if f.kept then caller.push result else caller) callers := by
  obtain ⟨stands, rest⟩ := waiting
  cases kept : f.kept with
  | false => exact ⟨by simpa [kept] using stands, rest⟩
  | true =>
    obtain ⟨formed, depth, typing, here⟩ := stands
    refine ⟨⟨formed, depth, typing, ?_⟩, rest.of_sameCall ⟨rfl, rfl, rfl, rfl⟩⟩
    simpa [kept, Frame.push] using here

/-- One instruction keeps a machine safe; it fails only with a fault that is tolerated. -/
theorem step_safe (formed : m.WellFormed) (checked : m.checkStacks = .ok ()) {s : Machine}
    (safe : Safe m s) {i : Instruction} (fetched : s.current.fetch? = some i) :
    match step m s i with
    | .ok (.running t) => Safe m t
    | .ok (.finished _) => True
    | .error fault => fault.Tolerated := by
  have stands : s.current.Stands 0 := safe.current.resolve_right fun empty => by
    simp [empty.fetch_none] at fetched
  obtain ⟨j, effect, same, admitted⟩ := stands.admits
  obtain rfl : i = j := Option.some.inj (fetched.symm.trans same)
  have respects := Frame.execute_respects (f := { s.current with next := s.current.next + 1 })
    admitted.known admitted.enough admitted.target
  unfold step
  cases outcome : { s.current with next := s.current.next + 1 }.execute i with
  | error fault =>
    rw [outcome] at respects
    exact respects
  | ok effected =>
    rw [outcome] at respects
    cases effected with
    -- Control stays in the frame, which stands where it goes.
    | proceed g =>
      obtain ⟨kept, stack, follows⟩ := respects
      have call : s.current.SameCall g := ⟨kept.method, kept.body, kept.returnsValue, kept.kept⟩
      exact ⟨Or.inl (stands.moves fetched call admitted.known stack follows),
        safe.callers.of_sameCall call⟩
    | call callee args g =>
      obtain ⟨kept, stack, pushes, runs, next⟩ := respects
      have call : s.current.SameCall g := ⟨kept.method, kept.body, kept.returnsValue, kept.kept⟩
      have caller : g.Stands callee.outputs :=
        stands.moves fetched call admitted.known (by rw [stack, pushes]) (Or.inl ⟨runs, next⟩)
      simp only [Success.ok_bind]
      cases entered : enter m callee args (g :: s.callers).length with
      | error fault => exact enter_tolerated entered
      | ok f =>
        -- The caller misses what the callee will return, if it keeps that at all.
        have count : f.kept.toNat = callee.outputs := by
          obtain ⟨_, method, b, _, _, _, _, rfl⟩ := (enter_ok_iff ..).mp entered
          exact Frame.kept_initial ..
        exact ⟨enter_safe formed checked entered, count ▸ caller, safe.callers.of_sameCall call⟩
    | finish result =>
      cases waits : s.callers with
      | nil => trivial
      | cons caller callers =>
        have waiting := safe.callers
        rw [waits] at waiting
        exact ⟨Or.inl (waiting.returns result).1, (waiting.returns result).2⟩

/-- Every state that a call reaches is safe. -/
theorem safe_of_reaches (formed : m.WellFormed) (checked : m.checkStacks = .ok ())
    {method : MethodRef} {args : List Value} {s : Machine} (reached : m.Reaches method args s) :
    Safe m s := by
  obtain ⟨frame, entered, steps⟩ := reached
  induction steps with
  | refl => exact ⟨enter_safe formed checked entered, trivial⟩
  | tail _ last ih =>
    obtain ⟨i, fetched, stepped⟩ := last
    have kept := step_safe formed checked ih fetched
    rwa [stepped] at kept

/-- Where a frame returns, its stack holds the value to return and nothing else. -/
theorem Safe.length_at_return {s : Machine} (safe : Safe m s) {i : Instruction}
    (fetched : s.current.fetch? = some i) (returns : i.opcode = .ret) :
    s.current.stack.length = s.current.returnsValue.toNat := by
  have stands : s.current.Stands 0 := safe.current.resolve_right fun empty => by
    simp [empty.fetch_none] at fetched
  obtain ⟨j, effect, same, admitted⟩ := stands.admits
  obtain rfl : i = j := Option.some.inj (fetched.symm.trans same)
  have known := admitted.known
  have enough := admitted.enough
  have balanced := admitted.balanced returns
  have matched := Instruction.isMatched_of_effect known
  simp only [Instruction.stackEffect?, matched, returns, if_true, Option.some.injEq] at known
  subst known
  dsimp only at enough balanced
  omega

end Machine

/-- A call of checked code that fails has entered a method without instructions, or failed for a
reason that the check does not rule out. -/
theorem Module.call_error {m : Module} (formed : m.WellFormed) (checked : m.checkStacks = .ok ())
    {method : MethodRef} {args : List Value} {limit : Nat} {fault : Fault}
    (failed : m.call limit method args = .error fault) :
    fault.Tolerated ∨ ∃ s, m.Reaches method args s ∧ Machine.EntersEmpty m s.current ∧
      fault = .underflow s.current.method := by
  unfold call at failed
  cases entered : Machine.enter m method args 0 with
  | error e =>
    rw [entered] at failed
    cases failed
    exact Or.inl (Machine.enter_tolerated entered)
  | ok frame =>
    rw [entered, Success.ok_bind] at failed
    obtain ⟨s, steps, stopped⟩ := Machine.run_error failed
    have reached : m.Reaches method args s := ⟨frame, entered, steps⟩
    have safe := Machine.safe_of_reaches formed checked reached
    rcases stopped with ⟨nothing, rfl⟩ | rfl | ⟨i, fetched, stepped⟩
    · -- A typed place has an instruction, so the frame stands at none.
      refine Or.inr ⟨s, reached, safe.current.resolve_left fun stands => ?_, rfl⟩
      obtain ⟨i, _, fetched, _⟩ := stands.admits
      simp [nothing] at fetched
    · exact Or.inl trivial
    · have kept := Machine.step_safe formed checked safe fetched
      rw [stepped] at kept
      exact Or.inl kept

/-- In a module that passes the stack check, a call underflows only on entering a method without
instructions, mistakes the type of operands only in arithmetic, and every frame that returns leaves
nothing on its stack but the value it returns. -/
theorem Module.call_stack_safe (m : Module) (formed : m.WellFormed)
    (checked : m.checkStacks = .ok ()) (method : MethodRef) (args : List Value) :
    (∀ limit name, m.call limit method args = .error (.underflow name) →
      ∃ s, m.Reaches method args s ∧ Machine.EntersEmpty m s.current ∧ s.current.method = name) ∧
    (∀ limit op name, m.call limit method args = .error (.typeMismatch op name) →
      op ∈ arithmetic) ∧
    (∀ s i, m.Reaches method args s → s.current.fetch? = some i → i.opcode = .ret →
      s.current.stack.length = s.current.returnsValue.toNat) := by
  refine ⟨fun limit name failed => ?_, fun limit op name failed => ?_, fun s i reached => ?_⟩
  · rcases call_error formed checked failed with tolerated | ⟨s, reached, empty, same⟩
    · cases tolerated
    · exact ⟨s, reached, empty, (Fault.underflow.inj same).symm⟩
  · rcases call_error formed checked failed with tolerated | ⟨s, _, _, other⟩
    · exact tolerated
    · cases other
  · exact (Machine.safe_of_reaches formed checked reached).length_at_return

/-- A reference to the method below. -/
def countdownRef : MethodRef where
  declaringType := .simple "App" "Loop"
  name := "Down"
  params := [.int32]
  returnType := .int32

/-- A method that branches and calls itself. -/
def countdown : Module where
  name := "Sample"
  types :=
    [{ name := .simple "App" "Loop"
       methods :=
        [{ name := "Down", isStatic := true, params := [⟨"n", .int32⟩], returnType := .int32
           body := some (.ofInstructions false
            [⟨.ldarg0, .none⟩, ⟨.brfalse, .target ⟨7⟩⟩, ⟨.ldarg0, .none⟩, ⟨.ldcI4, .int32 1⟩,
              ⟨.sub, .none⟩, ⟨.call, .method countdownRef⟩, ⟨.ret, .none⟩,
              ⟨.ldcI4, .int32 0⟩, ⟨.ret, .none⟩]) }] }]

theorem countdown_stack_safe :
    countdown.WellFormed ∧ countdown.checkStacks = .ok () ∧
      ∀ s i, countdown.Reaches countdownRef [.int32 3] s → s.current.fetch? = some i →
        i.opcode = .ret → s.current.stack.length = s.current.returnsValue.toNat :=
  ⟨by decide, by decide, (Module.call_stack_safe countdown (by decide) (by decide)
    countdownRef [.int32 3]).2.2⟩

end NativeBridge
