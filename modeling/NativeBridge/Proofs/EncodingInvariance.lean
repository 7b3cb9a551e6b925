import NativeBridge.Proofs.Encoding
import NativeBridge.Proofs.Renumbering
import NativeBridge.Proofs.Simulation

/-! Modules that differ in the encodings of accesses to slots behave alike. The machine returns the
same, the stack check and the pass give the same verdict, and the pass leaves modules that differ in
encodings again. Only the opcodes that errors name may differ, and those have one long form. -/

namespace NativeBridge

/-- The opcode that encodes any slot of its category; an opcode that accesses no slot itself. -/
def Opcode.longForm (op : Opcode) : Opcode :=
  match op.category with
  | .loadArgument => .ldarg
  | .storeArgument => .starg
  | .loadLocal => .ldloc
  | .storeLocal => .stloc
  | _ => op

/-- A fault that names the long form. -/
def StackFault.longForm : StackFault → StackFault
  | .operandMismatch op site => .operandMismatch op.longForm site
  | .underflow op site needed depth => .underflow op.longForm site needed depth
  | fault => fault

/-- A fault in a method that names the long form. -/
def MethodFault.longForm (e : MethodFault) : MethodFault := { e with fault := e.fault.longForm }

/-- An error that names the long form. -/
def Pass.PassError.longForm : PassError → PassError
  | .operandMismatch method site op => .operandMismatch method site op.longForm
  | .stack cause => .stack cause.longForm
  | e => e

namespace Instruction

variable {i j : Instruction}

theorem stackEffect?_of_accesses (accesses : i.opcode.category.accessesSlot = true)
    (matched : i.isMatched = true) (returnsValue : Bool) :
    i.stackEffect? returnsValue =
      some (if i.opcode.category = .loadArgument ∨ i.opcode.category = .loadLocal then ⟨0, 1⟩
        else ⟨1, 0⟩) := by
  obtain ⟨op, operand⟩ := i
  simp only [stackEffect?, matched, if_true]
  cases op <;> first | rfl | cases accesses

/-- An access to a slot loads from a bank or stores to it, as its category says. -/
theorem operation_of_accesses (accesses : i.opcode.category.accessesSlot = true)
    (matched : i.isMatched = true) :
    ∃ bank slot, i.slot? = some slot ∧
      (i.opcode.category = bank.loads ∧ i.operation? = some (.load bank slot) ∨
        i.opcode.category = bank.stores ∧ i.operation? = some (.store bank slot)) := by
  obtain ⟨slot, named⟩ := Option.isSome_iff_exists.mp (slot_of_accesses accesses matched).1
  obtain ⟨op, operand⟩ := i
  have loads : ∀ bank : Bank, op.category = bank.loads →
      (⟨op, operand⟩ : Instruction).operation? = some (.load bank slot) := by
    intro bank kind
    cases bank <;> cases op <;> cases kind <;>
      simp only [operation?, matched, if_true, Opcode.category, named, Option.map_some]
  have stores : ∀ bank : Bank, op.category = bank.stores →
      (⟨op, operand⟩ : Instruction).operation? = some (.store bank slot) := by
    intro bank kind
    cases bank <;> cases op <;> cases kind <;>
      simp only [operation?, matched, if_true, Opcode.category, named, Option.map_some]
  cases kind : op.category with
  | loadArgument => exact ⟨.arguments, slot, named, Or.inl ⟨rfl, loads .arguments kind⟩⟩
  | loadLocal => exact ⟨.locals, slot, named, Or.inl ⟨rfl, loads .locals kind⟩⟩
  | storeArgument => exact ⟨.arguments, slot, named, Or.inr ⟨rfl, stores .arguments kind⟩⟩
  | storeLocal => exact ⟨.locals, slot, named, Or.inr ⟨rfl, stores .locals kind⟩⟩
  | _ =>
    simp only [kind, Category.accessesSlot] at accesses
    cases accesses

namespace Recoded

theorem longForm_eq (recoded : i.Recoded j) : i.opcode.longForm = j.opcode.longForm := by
  cases recoded with
  | same => rfl
  | access kind accesses =>
    rw [kind] at accesses
    simp only [Opcode.longForm, kind]
    cases category : j.opcode.category <;> first
      | rfl
      | rw [category] at accesses; cases accesses

theorem stackEffect?_eq (recoded : i.Recoded j) (returnsValue : Bool) :
    i.stackEffect? returnsValue = j.stackEffect? returnsValue := by
  cases recoded with
  | same => rfl
  | access kind accesses _ matched matched' =>
    rw [stackEffect?_of_accesses accesses matched,
      stackEffect?_of_accesses (kind ▸ accesses) matched', kind]

theorem isTerminator_eq (recoded : i.Recoded j) :
    i.opcode.isTerminator = j.opcode.isTerminator := by
  have none : ∀ op : Opcode, op.category.accessesSlot = true → op.isTerminator = false := by
    intro op
    cases op <;> decide
  cases recoded with
  | same => rfl
  | access kind accesses => rw [none _ accesses, none _ (kind ▸ accesses)]

theorem operation?_eq (recoded : i.Recoded j) : i.operation? = j.operation? := by
  cases recoded with
  | same => rfl
  | access kind accesses slot matched matched' =>
    obtain ⟨bank, n, named, denoted⟩ := operation_of_accesses accesses matched
    obtain ⟨bank', n', named', denoted'⟩ := operation_of_accesses (kind ▸ accesses) matched'
    obtain rfl : n = n' := by simpa [named, named'] using slot
    -- The category tells the bank, and whether it is loaded from or stored to.
    rcases denoted with ⟨category, denoted⟩ | ⟨category, denoted⟩ <;>
      rcases denoted' with ⟨category', denoted'⟩ | ⟨category', denoted'⟩ <;>
      rw [kind, category'] at category <;> rw [denoted, denoted'] <;>
      cases bank <;> cases bank' <;> first | rfl | cases category

/-- Executing an instruction does the same in each encoding, and fails in the same way. -/
theorem execute_eq (recoded : i.Recoded j) (f : Frame) : f.execute i = f.execute j := by
  cases recoded with
  | same => rfl
  | access kind accesses slot matched matched' =>
    have same := (Recoded.access kind accesses slot matched matched').operation?_eq
    obtain ⟨bank, n, -, ⟨-, denoted⟩ | ⟨-, denoted⟩⟩ := operation_of_accesses accesses matched
    · rw [f.execute_eq_perform i _ denoted, f.execute_eq_perform j _ (same ▸ denoted)]
      rfl
    · rw [f.execute_eq_perform i _ denoted, f.execute_eq_perform j _ (same ▸ denoted)]
      rfl

end Recoded

end Instruction

/-- The instruction in its long form, if it accesses a slot. -/
def Instruction.lengthen (i : Instruction) : Instruction :=
  match i.slot? with
  | some slot =>
    if i.opcode.category.accessesSlot && i.isMatched then ⟨i.opcode.longForm, .index slot⟩ else i
  | none => i

theorem Instruction.recoded_lengthen (i : Instruction) : i.Recoded i.lengthen := by
  unfold lengthen
  rcases named : i.slot? with _ | slot
  · exact .same
  dsimp only
  split_ifs with access
  · simp only [Bool.and_eq_true] at access
    have long : i.opcode.longForm.category = i.opcode.category ∧
        i.opcode.longForm.shortIndex? = none ∧ i.opcode.longForm.operandKind = .index := by
      have accesses := access.1
      revert accesses
      cases i.opcode <;> decide
    refine .access long.1.symm access.1 ?_ access.2 ?_
    · rw [named, slot?, long.2.1]
    · rw [isMatched, long.2.2]
      rfl
  · exact .same

/-- The body with all accesses to slots in their long form. -/
def Body.lengthen (b : Body) : Body := { b with arena := b.arena.map Instruction.lengthen }

/-- The module with all accesses to slots in their long form. -/
def Module.lengthen (m : Module) : Module :=
  { m with types := m.types.map fun t =>
      { t with methods := t.methods.map fun method =>
          { method with body := method.body.map Body.lengthen } } }

theorem Module.agree_lengthen (m : Module) : m.Agree Body.Recoded m.lengthen where
  name := rfl
  types := by
    refine List.forall₂_map_right_iff.mpr (List.forall₂_same.mpr fun t _ => ⟨rfl, ?_⟩)
    refine List.forall₂_map_right_iff.mpr (List.forall₂_same.mpr fun method _ => ⟨rfl, ?_⟩)
    dsimp only
    cases method.body with
    | none => exact .none
    | some b =>
      refine .some ⟨?_, rfl, rfl, rfl, rfl⟩
      exact List.forall₂_map_right_iff.mpr (List.forall₂_same.mpr fun i _ => i.recoded_lengthen)

/-! The stack check. -/

namespace Body.Recoded

variable {b c : Body} {i j : Instruction}

theorem size_eq (recoded : b.Recoded c) : b.size = c.size := by
  rw [size, size, recoded.order]

theorem arrivals_eq (recoded : b.Recoded c) (forms : i.Recoded j) (place after : Nat)
    (site : InstrId) : b.arrivals place after site i = c.arrivals place after site j := by
  simp only [arrivals, forms.target?_eq, recoded.position?_eq, forms.isTerminator_eq,
    recoded.size_eq]

theorem checkInstruction (recoded : b.Recoded c) (forms : i.Recoded j) (returnsValue : Bool)
    (place depth : Nat) (site : InstrId) :
    Agree (fun e f => e.longForm = f.longForm) Eq
      (b.checkInstruction returnsValue place depth site i)
      (c.checkInstruction returnsValue place depth site j) := by
  have isReturn : i.opcode = .ret ↔ j.opcode = .ret := forms.opcode_eq_iff .ret rfl
  unfold Body.checkInstruction
  rw [forms.stackEffect?_eq]
  cases j.stackEffect? returnsValue with
  | none => exact .error (by simp only [StackFault.longForm, forms.longForm_eq])
  | some effect =>
    simp only [isReturn, recoded.arrivals_eq forms]
    split_ifs
    · exact .error (by simp only [StackFault.longForm, forms.longForm_eq])
    · exact .error rfl
    · exact .error rfl
    · cases c.arrivals place (depth - effect.pops + effect.pushes) site j with
      | error fault => exact .error rfl
      | ok arrivals => exact .ok rfl

theorem explore (recoded : b.Recoded c) (returnsValue : Bool) (fuel : Nat) (pending : List Arrival)
    (depths : List (Option Nat)) :
    Agree (fun e f => e.longForm = f.longForm) Eq
      (b.explore returnsValue b.code fuel pending depths)
      (c.explore returnsValue c.code fuel pending depths) := by
  induction fuel generalizing pending depths with
  | zero => exact .ok rfl
  | succ fuel ih =>
    rcases pending with _ | ⟨⟨place, depth⟩, pending⟩
    · exact .ok rfl
    rw [Body.explore, Body.explore]
    rcases held_of_rel (rel_getElem? recoded.code place) with
      ⟨there, there'⟩ | ⟨⟨site, i⟩, ⟨_, j⟩, there, there', rfl, forms⟩
    · simp only [there, there']
      exact ih pending depths
    simp only [there, there']
    rcases depths[place]?.join with _ | seen
    · refine (recoded.checkInstruction forms returnsValue place depth site).bind ?_
      rintro arrivals _ rfl
      exact ih _ _
    · dsimp only
      split_ifs
      · exact ih pending depths
      · exact .error rfl

theorem entries_eq (recoded : b.Recoded c) : b.entries = c.entries := by
  simp only [entries, recoded.handlers, recoded.position?_eq]

theorem checkStack (recoded : b.Recoded c) (returnsValue : Bool) :
    Agree (fun e f => e.longForm = f.longForm) Eq (b.checkStack returnsValue)
      (c.checkStack returnsValue) := by
  rw [Body.checkStack, Body.checkStack, recoded.size_eq, recoded.entries_eq]
  split_ifs
  · exact .ok rfl
  · exact recoded.explore returnsValue _ _ _

end Body.Recoded

/-- The stack check finds the same fault, up to the encoding it names. -/
theorem Module.checkStacks_recoded {m n : Module} (recoded : m.Agree Body.Recoded n) :
    NativeBridge.Agree (fun e f => e.longForm = f.longForm) Eq m.checkStacks n.checkStacks := by
  refine NativeBridge.Agree.forM recoded.methods ?_
  rintro ⟨t, method⟩ ⟨u, method'⟩ ⟨named, agree⟩
  dsimp only at named agree
  have label : t.methodLabel method = u.methodLabel method' := by
    have same : method.name = method'.name := congrArg (·.name) agree.header
    rw [TypeDef.methodLabel, TypeDef.methodLabel, same, named]
  have returns : method.returnsValue = method'.returnsValue :=
    congrArg (·.returnsValue) agree.header
  rcases held_of_rel agree.bodies with ⟨held, held'⟩ | ⟨b, c, held, held', same⟩
  · simp only [checkMethod, held, held']
    exact .ok rfl
  · simp only [checkMethod, held, held', label, returns]
    refine (same.checkStack _).mapError fun e f faults => ?_
    simp only [MethodFault.longForm, faults]

/-! The machine. -/

/-- Frames that differ in the encodings of their bodies at most. -/
structure Frame.Recoded (f g : Frame) : Prop where
  bodies : f.body.Recoded g.body
  rest : g = f.withBody g.body

namespace Frame.Recoded

variable {f g : Frame}

theorem method_eq (recoded : f.Recoded g) : g.method = f.method := by
  rw [recoded.rest]
  rfl

theorem withBody {c : Body} (bodies : f.body.Recoded c) : f.Recoded (f.withBody c) := ⟨bodies, rfl⟩

theorem fetch? (recoded : f.Recoded g) :
    Option.Rel Instruction.Recoded f.fetch? g.fetch? := by
  have place : g.next = f.next := by
    rw [recoded.rest]
    rfl
  rw [Frame.fetch?, Frame.fetch?, place, recoded.bodies.order]
  cases g.body.order[f.next]? with
  | none => exact .none
  | some id => exact recoded.bodies.get? id

end Frame.Recoded

theorem Effect.related_recoded {f : Frame} {i : Instruction} {effect : Effect} {c : Body}
    (executed : f.execute i = .ok effect) (recoded : f.body.Recoded c) :
    effect.Related Frame.Recoded (effect.withBody c) := by
  have unchanged := Frame.withBody_of_execute executed
  cases effect with
  | proceed frame =>
    have body := Effect.body_of_proceed unchanged
    exact .proceed (.withBody (body ▸ recoded))
  | call callee args frame =>
    have body := Effect.body_of_call unchanged
    exact .call callee args (.withBody (body ▸ recoded))
  | finish result => exact .finish result

/-- One instruction does the same in each encoding, so neither machine waits for the other. -/
theorem simulation_of_recoded {m n : Module} (modules : m.Agree Body.Recoded n) :
    Simulation m n Frame.Recoded (fun _ => False) where
  method recoded := recoded.method_eq
  kept recoded := by
    rw [recoded.rest]
    rfl
  push v recoded := ⟨recoded.bodies, congrArg (·.push v) recoded.rest⟩
  enter callee args depth := by
    refine (Machine.enter_agree (fun b c same => ?_) modules callee args depth).mono ?_
    · rw [same.locals]
    · rintro f g ⟨bodies, -, rest⟩
      exact ⟨bodies, rest⟩
  ended := by
    intro f g recoded fetched
    rcases held_of_rel recoded.fetch? with ⟨_, missing⟩ | ⟨i, j, there, _⟩
    · exact missing
    · rw [there] at fetched
      cases fetched
  executed := by
    intro f g i recoded fetched
    obtain ⟨j, fetches, forms⟩ : ∃ j, g.fetch? = some j ∧ i.Recoded j := by
      rcases held_of_rel recoded.fetch? with ⟨missing, _⟩ | ⟨i', j, there, fetches, forms⟩
      · rw [missing] at fetched
        cases fetched
      · rw [there] at fetched
        cases fetched
        exact ⟨j, fetches, forms⟩
    refine Or.inr ⟨j, fetches, ?_⟩
    have unmoved : i.mapTarget id = i := Instruction.mapTarget_eq_self fun _ _ => rfl
    have advanced : { g with next := g.next + 1 } =
        Frame.withBody { f with next := f.next + 1 } g.body := by
      rw [recoded.rest]
      rfl
    -- The other frame is this one on another body, which has every target at the same place.
    have places : ∀ target, i.target? = some target →
        g.body.position? (id target) = f.body.position? target :=
      fun target _ => (recoded.bodies.position?_eq target).symm
    have moved := Frame.execute_withBody { f with next := f.next + 1 } i places
    rw [unmoved] at moved
    rw [← forms.execute_eq, advanced, moved]
    cases executed : Frame.execute { f with next := f.next + 1 } i with
    | error fault => exact .error rfl
    | ok effect => exact .ok (Effect.related_recoded executed recoded.bodies)

namespace Pass

/-- The rules agree on bodies that differ in encodings, in whatever order they stand. -/
theorem rulesAgree_recoded {bindings : StaticBindings} {factory : WorkerFactory}
    {rules : List (Rule Tables)} (order : rules.Perm (standardRules bindings factory)) :
    RulesAgree Body.Recoded (fun e f => e.longForm = f.longForm) rules rules where
  order _ _ := Body.Recoded.order
  shown site site' id sites := by
    have same : ∀ e : PassError, e.longForm = e.longForm := fun _ => rfl
    refine showTo_agree Body.recoded_congruence same sites fun visit => ?_
    exact Edit.agree_forM fun rule member =>
      standardRules_agree Body.recoded_congruence same sites (order.mem_iff.mp member) visit

/-- Modules that differ in the encodings of accesses to slots cannot be told apart. Calls return the
same, the stack check and the pass give the same verdict, up to the opcode that an error names, and
a pass that succeeds reports the same, fills the same tables and leaves modules that differ in
encodings at most. -/
theorem encoding_invariance {m n : Module} (recoded : m.Agree Body.Recoded n) :
    (∀ limit method args, m.call limit method args = n.call limit method args) ∧
      m.checkStacks.mapError MethodFault.longForm = n.checkStacks.mapError MethodFault.longForm ∧
      ∀ (bindings : StaticBindings) (factory : WorkerFactory) (rules : List (Rule Tables)),
        rules.Perm (standardRules bindings factory) → ∀ (checked : Bool) (tables : Tables),
          (run rules checked m tables).Agree Body.Recoded (fun e f => e.longForm = f.longForm)
            (run rules checked n tables) := by
  refine ⟨fun limit method args => ?_, ?_, ?_⟩
  · exact ((simulation_of_recoded recoded).call limit method args (Or.inl fun _ => id)).symm
  · rcases (Module.checkStacks_recoded recoded).elim with
      ⟨_, _, passed, passed', _⟩ | ⟨e, f, failed, failed', same⟩
    · rw [passed, passed']
    · rw [failed, failed']
      exact congrArg Except.error same
  · intro bindings factory rules order checked tables
    refine run_agree (rulesAgree_recoded order) recoded (fun m n modules => ?_) checked tables
    refine (Module.checkStacks_recoded modules).mapError fun e f same => ?_
    exact congrArg PassError.stack same

theorem encoding_invariance_sample :
    Sample.program ≠ Sample.program.lengthen ∧
      Sample.program.Agree Body.Recoded Sample.program.lengthen ∧
      (∀ limit method args,
        Sample.program.call limit method args = Sample.program.lengthen.call limit method args) ∧
      Sample.program.checkStacks.mapError MethodFault.longForm =
        Sample.program.lengthen.checkStacks.mapError MethodFault.longForm ∧
      (run (standardRules Sample.bindings Sample.factory) true Sample.program {}).Agree Body.Recoded
        (fun e f => e.longForm = f.longForm)
        (run (standardRules Sample.bindings Sample.factory) true Sample.program.lengthen {}) := by
  have recoded := Sample.program.agree_lengthen
  obtain ⟨calls, checks, passes⟩ := encoding_invariance recoded
  exact ⟨by decide +kernel, recoded, calls, checks, passes _ _ _ (List.Perm.refl _) true {}⟩

end Pass

end NativeBridge
