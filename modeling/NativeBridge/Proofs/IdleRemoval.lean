import NativeBridge.Proofs.ClosedGap
import NativeBridge.Proofs.Renumbering
import NativeBridge.Proofs.Simulation

/-! Removing an instruction that does nothing. Neither the machine nor the stack check can tell: the
machine skips a step wherever it would have executed the instruction, in every frame that runs the
body, and the check finds what is left at the depths it had. -/

namespace NativeBridge

namespace Body

/-- The instruction at a place. -/
def at? (b : Body) (place : Nat) : Option Instruction := b.order[place]?.bind b.get?

/-- A body has the instructions of another one, but for some that do nothing. A place there
corresponds to the place here to which control comes from it without doing anything. -/
structure Omits (b c : Body) (lead : InstrId → InstrId) (shift : Nat → Nat) : Prop where
  locals : c.locals = b.locals
  start : shift 0 = 0
  ended : ∀ place, b.at? place = none → c.at? (shift place) = none
  flow : ∀ place i, b.at? place = some i →
    (i.opcode = .nop ∧ shift (place + 1) = shift place) ∨
      (c.at? (shift place) = some (i.mapTarget lead) ∧ shift (place + 1) = shift place + 1 ∧
        ∀ t, i.target? = some t → c.position? (lead t) = (b.position? t).map shift)

theorem Omits.refl (b : Body) : b.Omits b id id where
  locals := rfl
  start := rfl
  ended _ missing := missing
  flow place i there := by
    have unmoved : i.mapTarget id = i := Instruction.mapTarget_eq_self fun _ _ => rfl
    rw [unmoved]
    exact Or.inr ⟨there, rfl, fun _ _ => Option.map_id'.symm⟩

/-- Taking out one instruction that does nothing. -/
theorem Removed.omits {b c : Body} {id : InstrId} {before after : List InstrId} {nop : Instruction}
    (spec : b.Removed id before after c) (formed : b.WellFormed) (held : b.get? id = some nop)
    (idle : nop.opcode = .nop) :
    b.Omits c (handOver id after.head?) (closeGap before.length) := by
  have gap := spec.order_gap
  have moved : ∀ place, place ≠ before.length → c.at? (closeGap before.length place) =
      (b.at? place).map (·.mapTarget (handOver id after.head?)) := by
    intro place other
    rw [at?, at?, spec.order_closed other]
    cases there : b.order[place]? with
    | none => rfl
    | some x => exact spec.held x (List.mem_of_getElem? there)
  refine ⟨spec.locals, rfl, fun place missing => ?_, fun place i there => ?_⟩
  · -- The instruction that goes is there, so the end of the code is not the gap.
    have other : place ≠ before.length := by
      rintro rfl
      rw [at?, gap, Option.bind_some, held] at missing
      cases missing
    rw [moved place other, missing, Option.map_none]
  · by_cases other : place = before.length
    · subst other
      rw [at?, gap, Option.bind_some, held] at there
      obtain rfl := Option.some.inj there
      exact Or.inl ⟨idle, by rw [closeGap_succ_self, closeGap_self]⟩
    · refine Or.inr ⟨by rw [moved place other, there, Option.map_some], closeGap_succ other, ?_⟩
      intro t named
      obtain ⟨x, here, held⟩ := Option.bind_eq_some_iff.mp there
      have code := (code_getElem?_iff formed ..).mpr ⟨here, held⟩
      exact spec.position?_handOver formed (Removed.isReferenced_of_target code named)

end Body

/-- A frame runs a body that omits instructions of another one, at the corresponding place. -/
def Frame.Omits (f g : Frame) : Prop :=
  ∃ lead shift, f.body.Omits g.body lead shift ∧ g = f.relocate g.body shift

/-- An effect and the same one to go on with in a body that omits instructions. -/
theorem Effect.related_relocate {f : Frame} {i : Instruction} {effect : Effect} {c : Body}
    {lead : InstrId → InstrId} {shift : Nat → Nat} (executed : f.execute i = .ok effect)
    (omits : f.body.Omits c lead shift) :
    effect.Related Frame.Omits (effect.relocate c shift) := by
  have unchanged := Frame.withBody_of_execute executed
  cases effect with
  | proceed frame =>
    have body := Effect.body_of_proceed unchanged
    exact .proceed ⟨lead, shift, body ▸ omits, rfl⟩
  | call callee args frame =>
    have body := Effect.body_of_call unchanged
    exact .call callee args ⟨lead, shift, body ▸ omits, rfl⟩
  | finish result => exact .finish result

/-- The machine waits where an instruction has been omitted. -/
theorem simulation_of_omits {m n : Module}
    (modules : m.Agree (fun b c => ∃ lead shift, b.Omits c lead shift) n) :
    Simulation m n Frame.Omits (·.opcode = .nop) where
  method := by
    rintro f g ⟨_, _, _, rest⟩
    rw [rest]
    rfl
  kept := by
    rintro f g ⟨_, _, _, rest⟩
    rw [rest]
    rfl
  push := by
    rintro f g v ⟨lead, shift, omits, rest⟩
    exact ⟨lead, shift, omits, congrArg (·.push v) rest⟩
  enter callee args depth := by
    refine (Machine.enter_agree ?_ modules callee args depth).mono ?_
    · rintro b c ⟨_, _, omits⟩
      rw [omits.locals]
    · rintro f g ⟨⟨lead, shift, omits⟩, first, rest⟩
      refine ⟨lead, shift, omits, ?_⟩
      -- Both frames begin at the start, which corresponds to the start.
      rw [Frame.relocate, first, omits.start, ← first]
      exact rest
  ended := by
    rintro f g ⟨lead, shift, omits, rest⟩ fetched
    rw [rest]
    exact omits.ended f.next fetched
  executed := by
    rintro f g i ⟨lead, shift, omits, rest⟩ fetched
    rcases omits.flow f.next i fetched with ⟨idle, same⟩ | ⟨there, next, corresponds⟩
    · -- The place behind corresponds to the same one, so the other frame need not move.
      refine Or.inl ⟨idle, { f with next := f.next + 1 }, ?_, lead, shift, omits, ?_⟩
      · rw [Frame.execute, idle]
        rfl
      · rw [Frame.relocate, same]
        exact rest
    · have advanced : { g with next := g.next + 1 } =
          Frame.relocate { f with next := f.next + 1 } g.body shift := by
        rw [Frame.relocate, next, rest]
        rfl
      refine Or.inr ⟨i.mapTarget lead, ?_, ?_⟩
      · rw [rest]
        exact there
      · rw [advanced, Frame.execute_relocate { f with next := f.next + 1 } i corresponds]
        cases executed : Frame.execute { f with next := f.next + 1 } i with
        | error fault => exact .error rfl
        | ok effect => exact .ok (Effect.related_relocate executed omits)

namespace Module

/-- The body of a method, by the places of its type and of the method in it. -/
def bodyAt? (m : Module) (type method : Nat) : Option Body := do
  let type ← m.types[type]?
  let method ← type.methods[method]?
  method.body

/-- The module with that body replaced. -/
def replaceBody (m : Module) (type method : Nat) (c : Body) : Module :=
  { m with
    types := m.types.modify type fun t =>
      { t with methods := t.methods.modify method fun d => { d with body := some c } } }

private theorem forall₂_modify {α : Type} {S : α → α → Prop} (refl : ∀ x, S x x) {change : α → α}
    {xs : List α} {place : Nat} {x : α} (there : xs[place]? = some x) (changed : S x (change x)) :
    List.Forall₂ S xs (xs.modify place change) := by
  induction xs generalizing place with
  | nil => cases there
  | cons y ys ih =>
    cases place with
    | zero =>
      obtain rfl := Option.some.inj there
      exact .cons changed (List.forall₂_same.mpr fun y _ => refl y)
    | succ place => exact .cons (refl y) (ih there)

/-- Replacing a body by a related one. -/
theorem agree_replaceBody {B : Body → Body → Prop} (refl : ∀ b, B b b) {m : Module}
    {type method : Nat} {b c : Body} (held : m.bodyAt? type method = some b) (related : B b c) :
    m.Agree B (m.replaceBody type method c) := by
  have methods : ∀ d : MethodDef, d.Agree B d := by
    intro d
    refine ⟨rfl, ?_⟩
    cases d.body with
    | none => exact .none
    | some b => exact .some (refl b)
  have types : ∀ t : TypeDef, t.Agree B t :=
    fun t => ⟨rfl, List.forall₂_same.mpr fun d _ => methods d⟩
  simp only [bodyAt?, Option.bind_eq_bind, Option.bind_eq_some_iff] at held
  obtain ⟨t, named, d, inside, held⟩ := held
  refine ⟨rfl, forall₂_modify types named ⟨rfl, forall₂_modify methods inside ⟨rfl, ?_⟩⟩⟩
  rw [held]
  exact .some related

/-- Removing an instruction that does nothing changes nothing that can be observed. Calls return the
same, wherever they lead and however often they enter the body, unless they were stopped at their
limit. A body that passes the stack check still does, and whatever is left of it is reached with the
depth with which it was reached before. -/
theorem nop_removal_unobservable (m : Module) (type method : Nat) (b c : Body) (id : InstrId)
    (nop gone : Instruction) (held : m.bodyAt? type method = some b) (formed : b.WellFormed)
    (live : id ∈ b.order) (named : b.get? id = some nop) (idle : nop.opcode = .nop)
    (removed : b.remove id = .ok (gone, c)) :
    (∀ limit callee args, ¬ CutShort (m.call limit callee args) →
      (m.replaceBody type method c).call limit callee args = m.call limit callee args) ∧
    ∀ returnsValue, b.checkStack returnsValue = .ok () →
      c.checkStack returnsValue = .ok () ∧
      ∀ x ∈ c.order, ∀ n, c.ReachedAt returnsValue x n ↔ b.ReachedAt returnsValue x n := by
  obtain ⟨before, after, split, first⟩ := List.eq_append_cons_of_mem live
  have spec := Body.removed_of_remove split first removed
  constructor
  · intro limit callee args obtained
    have omits := spec.omits formed named idle
    have modules : m.Agree (fun b c => ∃ lead shift, b.Omits c lead shift)
        (m.replaceBody type method c) :=
      agree_replaceBody (fun b => ⟨_, _, .refl b⟩) held ⟨_, _, omits⟩
    exact (simulation_of_omits modules).call limit callee args (Or.inr obtained)
  · intro returnsValue accepted
    have nonempty : b.size ≠ 0 := Nat.ne_zero_of_lt spec.gap_lt
    obtain ⟨depth, typing⟩ :=
      ((Body.checkStack_ok_iff formed returnsValue).mp accepted).resolve_left nonempty
    have closed : b.IdleRemoved id before after c returnsValue depth :=
      ⟨spec, formed, ⟨nop, named, idle⟩, typing⟩
    refine ⟨?_, fun x left n => closed.reachedAt_iff left⟩
    exact (Body.checkStack_ok_iff (spec.wellFormed formed) returnsValue).mpr
      (Or.inr ⟨_, closed.depthTyping_closed⟩)

/-- A loop that counts down. Its head does nothing and is also where a region starts. -/
def sampleLoop : Body :=
  { Body.ofInstructions false
      [⟨.nop, .none⟩, ⟨.ldarg0, .none⟩, ⟨.brfalse, .target ⟨8⟩⟩, ⟨.ldarg0, .none⟩,
        ⟨.ldcI4, .int32 1⟩, ⟨.sub, .none⟩, ⟨.stargS, .index 0⟩, ⟨.br, .target ⟨0⟩⟩,
        ⟨.ldcI4, .int32 0⟩, ⟨.ret, .none⟩] with
    handlers :=
      [{ kind := .finalizing, tryStart := ⟨0⟩, tryEnd := some ⟨8⟩, handlerStart := ⟨8⟩ }] }

/-- The module of the recursive countdown with the loop for its body. -/
def sampleCountdown : Module := countdown.replaceBody 0 0 sampleLoop

/-- Without its head the loop goes back to the next instruction, to the same end, and the stack is
as high at the subtraction as it was. -/
theorem nop_removal_unobservable_sample :
    ∃ gone c, sampleLoop.remove ⟨0⟩ = .ok (gone, c) ∧
      c.get? ⟨7⟩ = some ⟨.br, .target ⟨1⟩⟩ ∧ c.handlers.map (·.tryStart) = [⟨1⟩] ∧
      (sampleCountdown.replaceBody 0 0 c).call 40 countdownRef [.int32 3] = .ok (.int32 0) ∧
      c.checkStack true = .ok () ∧
      ∀ n, c.ReachedAt true ⟨5⟩ n ↔ sampleLoop.ReachedAt true ⟨5⟩ n := by
  let removal := (sampleLoop.remove ⟨0⟩).toOption.getD default
  have removed : sampleLoop.remove ⟨0⟩ = .ok (removal.1, removal.2) := by decide +kernel
  have returned : sampleCountdown.call 40 countdownRef [.int32 3] = .ok (.int32 0) := by
    decide +kernel
  obtain ⟨calls, checks⟩ := nop_removal_unobservable sampleCountdown 0 0 sampleLoop removal.2 ⟨0⟩
    ⟨.nop, .none⟩ removal.1 (by decide +kernel) (by decide) (by decide) rfl rfl removed
  obtain ⟨accepted, depths⟩ := checks true (by decide +kernel)
  refine ⟨removal.1, removal.2, removed, by decide +kernel, by decide +kernel, ?_, accepted,
    depths ⟨5⟩ (by decide +kernel)⟩
  rw [calls 40 countdownRef [.int32 3] (by rw [returned]; exact id), returned]

end Module

end NativeBridge
