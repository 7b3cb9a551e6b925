import NativeBridge.Proofs.LiveCode
import NativeBridge.Proofs.Success
import NativeBridge.StackDepth

/-! Depth typing. A body is typed by a depth for some of its places that holds where control enters
and is passed on by every instruction. The check of a single instruction succeeds exactly where the
instruction is fit to be reached with the depth in question. -/

namespace NativeBridge.Body

/-- Control may run from an instruction at a place to another place. -/
def Follows (b : Body) (place : Nat) (i : Instruction) (next : Nat) : Prop :=
  (i.opcode.isTerminator = false ∧ next = place + 1 ∧ next < b.size) ∨
    ∃ target, i.target? = some target ∧ b.position? target = some next

/-- An instruction is fit to be reached with a depth, and has the given effect there. -/
structure Admits (b : Body) (returnsValue : Bool) (place depth : Nat) (i : Instruction)
    (effect : StackEffect) : Prop where
  known : i.stackEffect? returnsValue = some effect
  enough : effect.pops ≤ depth
  bounded : depth - effect.pops + effect.pushes ≤ maxStackDepth
  balanced : i.opcode = .ret → depth - effect.pops + effect.pushes = 0
  target : ∀ id, i.target? = some id → id ∈ b.order
  inside : i.opcode.isTerminator = false → place + 1 < b.size

/-- A place is typed with a depth: its instruction is admitted and passes the depth on. -/
def Typed (b : Body) (returnsValue : Bool) (depth : Nat → Option Nat) (place n : Nat) : Prop :=
  ∃ id i effect, b.code[place]? = some (id, i) ∧ b.Admits returnsValue place n i effect ∧
    ∀ next, b.Follows place i next → depth next = some (n - effect.pops + effect.pushes)

/-- A depth for some places of a body that every instruction there agrees with. -/
structure DepthTyping (b : Body) (returnsValue : Bool) (depth : Nat → Option Nat) : Prop where
  start : depth 0 = some 0
  handler : ∀ h ∈ b.handlers, ∀ place, b.position? h.handlerStart = some place →
    depth place = some (entryDepth h.kind)
  flow : ∀ place n, depth place = some n → b.Typed returnsValue depth place n

/-- The places that follow an instruction, the one behind it first. -/
def successors (b : Body) (place : Nat) (i : Instruction) : List Nat :=
  (if i.opcode.isTerminator then [] else [place + 1]) ++ (i.target?.bind b.position?).toList

private theorem fallThrough_ok_iff (ends : Bool) (inside : Prop) [Decidable inside]
    (behind : Arrival) (jumps result : List Arrival) (fault : StackFault) :
    (if ends then pure jumps else if inside then pure (behind :: jumps) else throw fault :
      Except StackFault (List Arrival)) = .ok result ↔
      (ends = false → inside) ∧ result = (if ends then [] else [behind]) ++ jumps := by
  cases ends <;> by_cases within : inside <;> simp [within] <;> exact eq_comm

/-- An instruction has arrivals when its target is live and control does not run off the end. -/
theorem arrivals_ok_iff (b : Body) (place after : Nat) (site : InstrId) (i : Instruction)
    (result : List Arrival) :
    b.arrivals place after site i = .ok result ↔
      (∀ id, i.target? = some id → id ∈ b.order) ∧
      (i.opcode.isTerminator = false → place + 1 < b.size) ∧
      result = (b.successors place i).map (·, after) := by
  unfold arrivals successors
  cases aim : i.target? with
  | none =>
    simp only [Success.bind_ok_iff, Success.pure_ok_iff, exists_eq_left', fallThrough_ok_iff]
    cases i.opcode.isTerminator <;> simp
  | some target =>
    have live := b.position?_isSome_iff target
    dsimp only
    cases found : b.position? target with
    | none =>
      simp only [found, reduceCtorEq, exists_false, false_iff] at live
      simp [live]
    | some there =>
      simp only [found, Option.some.injEq, exists_eq', true_iff] at live
      simp only [Success.bind_ok_iff, Success.pure_ok_iff, exists_eq_left', fallThrough_ok_iff]
      cases i.opcode.isTerminator <;> simp [live, found]

/-- The check of one instruction succeeds exactly where the instruction is admitted. -/
theorem checkInstruction_ok_iff (b : Body) (returnsValue : Bool) (place depth : Nat)
    (site : InstrId) (i : Instruction) (result : List Arrival) :
    b.checkInstruction returnsValue place depth site i = .ok result ↔
      ∃ effect, b.Admits returnsValue place depth i effect ∧
        result = (b.successors place i).map (·, depth - effect.pops + effect.pushes) := by
  unfold checkInstruction
  cases known : i.stackEffect? returnsValue with
  | none =>
    simp only [reduceCtorEq, false_iff]
    rintro ⟨effect, admitted, _⟩
    simp [admitted.known] at known
  | some effect =>
    constructor
    · intro returned
      dsimp only at returned
      split at returned
      · cases returned
      next few =>
        split at returned
        · cases returned
        next high =>
          split at returned
          · cases returned
          next balanced =>
            obtain ⟨target, inside, equal⟩ := (arrivals_ok_iff ..).mp returned
            refine ⟨effect, ⟨known, by omega, by omega, ?_, target, inside⟩, equal⟩
            intro ret
            by_contra left
            exact balanced ⟨ret, left⟩
    · rintro ⟨other, admitted, equal⟩
      obtain rfl : other = effect := Option.some.inj (admitted.known.symm.trans known)
      have balanced : ¬ (i.opcode = .ret ∧ depth - other.pops + other.pushes ≠ 0) :=
        fun ⟨ret, left⟩ => left (admitted.balanced ret)
      dsimp only
      rw [if_neg (Nat.not_lt.mpr admitted.enough), if_neg (Nat.not_lt.mpr admitted.bounded),
        if_neg balanced, arrivals_ok_iff]
      exact ⟨admitted.target, admitted.inside, equal⟩

/-- The places that may follow, as a list. -/
theorem follows_iff (b : Body) (place : Nat) (i : Instruction) (next : Nat) :
    b.Follows place i next ↔ next ∈ b.successors place i ∧ next < b.size := by
  unfold Follows successors
  rw [List.mem_append, Option.mem_toList, Option.bind_eq_some_iff, or_and_right]
  refine or_congr ?_ ⟨fun jumps => ⟨jumps, ?_⟩, And.left⟩
  · cases i.opcode.isTerminator <;> simp
  · obtain ⟨_, _, found⟩ := jumps
    exact position?_lt found

theorem mem_successors_iff {b : Body} {returnsValue : Bool} {place depth : Nat} {i : Instruction}
    {effect : StackEffect} (admitted : b.Admits returnsValue place depth i effect) (next : Nat) :
    next ∈ b.successors place i ↔ b.Follows place i next := by
  unfold successors Follows
  rw [List.mem_append, Option.mem_toList, Option.bind_eq_some_iff]
  apply or_congr_left
  cases ends : i.opcode.isTerminator with
  | true => simp
  | false =>
    -- Only here does `Follows` ask for more: the place behind must be inside.
    have inside := admitted.inside ends
    simp
    omega

theorem follows_lt {b : Body} {place : Nat} {i : Instruction} {next : Nat}
    (follows : b.Follows place i next) : next < b.size :=
  ((b.follows_iff place i next).mp follows).2

theorem length_successors_le (b : Body) (place : Nat) (i : Instruction) :
    (b.successors place i).length ≤ 2 := by
  unfold successors
  cases i.opcode.isTerminator <;> cases i.target?.bind b.position? <;> simp

/-- What a table records for a place. -/
def recorded {α : Type} (table : List (Option α)) (place : Nat) : Option α := table[place]?.join

theorem lt_length_of_recorded {α : Type} {table : List (Option α)} {place : Nat} {a : α}
    (known : recorded table place = some a) : place < table.length := by
  by_contra outside
  simp [recorded, List.getElem?_eq_none (Nat.not_lt.mp outside)] at known

theorem recorded_set (depths : List (Option Nat)) (place n other : Nat)
    (inside : place < depths.length) :
    recorded (depths.set place (some n)) other =
      if other = place then some n else recorded depths other := by
  unfold recorded
  by_cases same : other = place
  · subst same
    simp [inside]
  · simp [Ne.symm same, same]

theorem recorded_replicate {α : Type} (count place : Nat) :
    recorded (List.replicate count (none : Option α)) place = none := by
  unfold recorded
  rw [List.getElem?_replicate]
  split <;> rfl

/-- Recording a depth for a place without one leaves one place less to expand. -/
theorem count_none_set (depths : List (Option Nat)) (place n : Nat) (inside : place < depths.length)
    (unseen : recorded depths place = none) :
    (depths.set place (some n)).count none + 1 = depths.count none := by
  have there : depths[place] = none := by
    simpa [recorded, List.getElem?_eq_getElem inside] using unseen
  have counted : 0 < depths.count none :=
    List.count_pos_iff.mpr (there ▸ List.getElem_mem inside)
  rw [List.count_set inside]
  simp [there]
  omega

theorem mem_entries_iff (b : Body) (a : Arrival) :
    a ∈ b.entries ↔ a = (0, 0) ∨ ∃ h ∈ b.handlers, ∃ place,
      b.position? h.handlerStart = some place ∧ a = (place, entryDepth h.kind) := by
  simp [entries, or_comm, eq_comm (b := a)]

end NativeBridge.Body
