import NativeBridge.Proofs.StackSafety

/-! Step limits. A run executes one instruction after another, over all of its frames, until one of
them ends it or there is none to execute. The limit has no part in this but for cutting a run short
that would execute more instructions. -/

namespace NativeBridge

/-- The result of a run that was stopped at its limit. -/
def CutShort : Except Fault Value → Prop
  | .error (.stepLimit _) => True
  | _ => False

/-- The faults that an instruction has by itself, before the machine does what it asks for. -/
def Fault.OfInstruction : Fault → Prop
  | .underflow _ | .typeMismatch _ _ | .badIndex _ _ | .unsupported _ _ => True
  | _ => False

/-- The faults with which a call is refused. -/
def Fault.OfCall : Fault → Prop
  | .unresolved _ | .noBody _ | .unsupported _ _ | .arity _ _ _ | .callDepth _ => True
  | _ => False

namespace Frame

variable {f : Frame} {i : Instruction} {fault : Fault}

theorem pop_error (failed : f.pop = .error fault) : fault.OfInstruction := by
  unfold pop at failed
  cases stack : f.stack with
  | nil =>
    rw [stack] at failed
    cases failed
    trivial
  | cons v rest =>
    rw [stack] at failed
    cases failed

theorem slot_error (failed : f.slot i = .error fault) : fault.OfInstruction := by
  unfold slot at failed
  cases named : i.slot? with
  | none =>
    rw [named] at failed
    cases failed
    trivial
  | some slot =>
    rw [named] at failed
    cases failed

theorem load_error {slots : List Value} (failed : f.load i slots = .error fault) :
    fault.OfInstruction := by
  rcases (Success.bind_error_iff ..).mp failed with unnamed | ⟨slot, _, failed⟩
  · exact slot_error unnamed
  · cases held : slots[slot]? with
    | none =>
      rw [held] at failed
      cases failed
      trivial
    | some v =>
      rw [held] at failed
      cases failed

theorem store_error {slots : List Value} (failed : f.store i slots = .error fault) :
    fault.OfInstruction := by
  rcases (Success.bind_error_iff ..).mp failed with unnamed | ⟨slot, _, failed⟩
  · exact slot_error unnamed
  · by_cases inside : slot < slots.length
    · rw [if_pos inside] at failed
      rcases (Success.bind_error_iff ..).mp failed with empty | ⟨_, _, failed⟩
      · exact pop_error empty
      · cases failed
    · rw [if_neg inside] at failed
      cases failed
      trivial

theorem jump_error {op : Opcode} {target : InstrId} {taken : Bool}
    (failed : f.jump op target taken = .error fault) : fault.OfInstruction := by
  unfold jump at failed
  cases taken with
  | false => cases failed
  | true =>
    cases found : f.body.position? target with
    | none =>
      simp only [found, if_true] at failed
      cases failed
      trivial
    | some place =>
      simp only [found, if_true] at failed
      cases failed

/-- A conditional branch fails on an empty stack, or where its target is gone. -/
theorem branch_error {op : Opcode} {target : InstrId} (taken : Value → Bool)
    (failed : (f.pop >>= fun popped => popped.2.jump op target (taken popped.1)) = .error fault) :
    fault.OfInstruction := by
  rcases (Success.bind_error_iff ..).mp failed with empty | ⟨_, _, failed⟩
  · exact pop_error empty
  · exact jump_error failed

/-- An instruction has no fault that only calls and limits have. -/
theorem execute_error (failed : f.execute i = .error fault) : fault.OfInstruction := by
  obtain ⟨op, operand⟩ := i
  -- One case for each group of opcodes that are executed alike. Operands may be of any kind, so the
  -- operation that an instruction denotes is of no use here.
  cases op
  case nop | ldnull => cases failed
  case ldfld | ldsfld | stfld | stsfld | callvirt | newobj | ldftn | ldvirtftn | castclass
      | throw =>
    cases failed
    trivial
  case ldcI4 | ldcI4S | ldcI8 | ldstr =>
    cases operand <;> cases failed <;> trivial
  case ldarg0 | ldarg1 | ldarg2 | ldarg3 | ldargS | ldarg => exact load_error failed
  case ldloc0 | ldloc1 | ldloc2 | ldloc3 | ldlocS | ldloc => exact load_error failed
  case stargS | starg | stloc0 | stloc1 | stloc2 | stloc3 | stlocS | stloc =>
    rcases (Success.bind_error_iff ..).mp failed with refused | ⟨_, _, failed⟩
    · exact store_error refused
    · cases failed
  case pop | dup =>
    rcases (Success.bind_error_iff ..).mp failed with empty | ⟨_, _, failed⟩
    · exact pop_error empty
    · cases failed
  case add | sub | mul | ceq | clt =>
    rcases (Success.bind_error_iff ..).mp failed with empty | ⟨second, _, failed⟩
    · exact pop_error empty
    rcases (Success.bind_error_iff ..).mp failed with empty | ⟨first, _, failed⟩
    · exact pop_error empty
    dsimp only at failed
    split at failed
    · cases failed
    · cases failed
      trivial
  case br =>
    cases operand
    case target id => exact jump_error failed
    all_goals
      cases failed
      trivial
  case brtrue =>
    cases operand
    case target id => exact branch_error Value.isTrue failed
    all_goals
      cases failed
      trivial
  case brfalse =>
    cases operand
    case target id => exact branch_error (fun v => !v.isTrue) failed
    all_goals
      cases failed
      trivial
  case call =>
    cases operand
    case method callee =>
      simp only [execute, Instruction.method?] at failed
      split at failed
      · cases failed
        trivial
      · split at failed
        · cases failed
          trivial
        · cases failed
    all_goals
      cases failed
      trivial
  case ret =>
    simp only [execute] at failed
    split at failed
    · rcases (Success.bind_error_iff ..).mp failed with empty | ⟨_, _, failed⟩
      · exact pop_error empty
      · cases failed
    · cases failed

end Frame

namespace Machine

variable {m : Module} {s t u : Machine} {i : Instruction} {n limit : Nat}

/-- The machine executes a number of instructions and comes from one state to another. -/
inductive Executes (m : Module) : Nat → Machine → Machine → Prop
  | none (s : Machine) : Executes m 0 s s
  | more {n : Nat} {s t u : Machine} (next : Next m s t) (rest : Executes m n t u) :
      Executes m (n + 1) s u

/-- A run ends in a state, with a result and after so many instructions more: none if there is no
instruction, else the last one. -/
inductive Ends (m : Module) (s : Machine) : Nat → Except Fault Value → Prop
  | outside (fetched : s.current.fetch? = none) :
      Ends m s 0 (.error (.underflow s.current.method))
  | returned {i : Instruction} {v : Value} (fetched : s.current.fetch? = some i)
      (stepped : step m s i = .ok (.finished v)) : Ends m s 1 (.ok v)
  | failed {i : Instruction} {fault : Fault} (fetched : s.current.fetch? = some i)
      (stepped : step m s i = .error fault) : Ends m s 1 (.error fault)

/-- No instruction knows of the limit. -/
theorem step_error {fault : Fault} (failed : step m s i = .error fault) :
    fault.OfInstruction ∨ fault.OfCall := by
  rw [step_eq_handle, Success.bind_error_iff] at failed
  rcases failed with failed | ⟨effect, _, failed⟩
  · exact Or.inl (Frame.execute_error failed)
  cases effect with
  | proceed frame => cases failed
  | call callee args frame =>
    -- The only thing that can fail here is the call.
    rcases (Success.bind_error_iff ..).mp failed with refused | ⟨_, _, failed⟩
    · rcases enter_error refused with rfl | rfl | ⟨_, _, rfl | rfl | ⟨rfl, _⟩⟩ <;>
        exact Or.inr trivial
    · cases failed
  | finish result =>
    simp only [handle] at failed
    split at failed <;> cases failed

theorem Ends.not_cutShort {r : Except Fault Value} (ends : Ends m s n r) : ¬ CutShort r := by
  intro cut
  cases ends with
  | outside | returned => exact cut
  | failed _ stepped =>
    rename_i fault _
    cases fault with
    | stepLimit => rcases step_error stepped with impossible | impossible <;> exact impossible
    | _ => exact cut

/-- A run ends in a state, or an instruction leads on from there. -/
theorem ends_or_next (m : Module) (s : Machine) : (∃ n r, Ends m s n r) ∨ ∃ t, Next m s t := by
  cases fetched : s.current.fetch? with
  | none => exact Or.inl ⟨0, _, .outside fetched⟩
  | some i =>
    cases stepped : step m s i with
    | error fault => exact Or.inl ⟨1, _, .failed fetched stepped⟩
    | ok progress =>
      cases progress with
      | finished v => exact Or.inl ⟨1, _, .returned fetched stepped⟩
      | running t => exact Or.inr ⟨t, i, fetched, stepped⟩

/-- Nothing follows where a run ends. -/
theorem Ends.not_next {r : Except Fault Value} (ends : Ends m s n r) : ¬ Next m s t := by
  rintro ⟨i, fetched, stepped⟩
  cases ends with
  | outside nothing => simp [nothing] at fetched
  | returned same stepped' | failed same stepped' =>
    obtain rfl := Option.some.inj (fetched.symm.trans same)
    simp [stepped] at stepped'

theorem Next.unique (first : Next m s t) (second : Next m s u) : t = u := by
  obtain ⟨i, fetched, stepped⟩ := first
  obtain ⟨j, fetched', stepped'⟩ := second
  obtain rfl := Option.some.inj (fetched.symm.trans fetched')
  rw [stepped] at stepped'
  cases stepped'
  rfl

/-- A run either ends after some number of instructions or executes any number of them. -/
theorem ends_or_executes (m : Module) (n : Nat) (s : Machine) :
    (∃ k t last r, Executes m k s t ∧ Ends m t last r) ∨ ∃ t, Executes m n s t := by
  induction n generalizing s with
  | zero => exact Or.inr ⟨s, .none s⟩
  | succ n ih =>
    rcases ends_or_next m s with ⟨last, r, ends⟩ | ⟨t, next⟩
    · exact Or.inl ⟨0, s, last, r, .none s, ends⟩
    · rcases ih t with ⟨k, u, last, r, executed, ends⟩ | ⟨u, executed⟩
      · exact Or.inl ⟨k + 1, u, last, r, .more next executed, ends⟩
      · exact Or.inr ⟨u, .more next executed⟩

/-- A run whose limit admits more instructions goes on from where those executed have led. -/
theorem Executes.run_add (executed : Executes m n s t) (limit : Nat) :
    run m (n + limit) s = run m limit t := by
  induction executed with
  | none => rw [Nat.zero_add]
  | more next _ ih =>
    obtain ⟨i, fetched, stepped⟩ := next
    rw [Nat.succ_add, run_succ_of_running fetched stepped, ih]

/-- A run that has an instruction to execute at its limit is cut short there. -/
theorem run_cutShort (executed : Executes m limit s t) (fetched : t.current.fetch? = some i) :
    CutShort (run m limit s) := by
  have stopped := executed.run_add 0
  rw [run_zero fetched] at stopped
  rw [Nat.add_zero] at stopped
  rw [stopped]
  trivial

/-- A run that executes more instructions than its limit admits is cut short. -/
theorem Executes.cutShort (executed : Executes m n s t) (below : limit < n) :
    CutShort (run m limit s) := by
  induction executed generalizing limit with
  | none => omega
  | more next _ ih =>
    obtain ⟨i, fetched, stepped⟩ := next
    cases limit with
    | zero => exact run_cutShort (.none _) fetched
    | succ limit =>
      rw [run_succ_of_running fetched stepped]
      exact ih (by omega)

/-- Where a run ends, the limit matters only if it is too low for the last instruction. -/
theorem Ends.run_eq {r : Except Fault Value} (ends : Ends m s n r) :
    (∀ limit, n ≤ limit → run m limit s = r) ∧ ∀ limit, limit < n → CutShort (run m limit s) := by
  cases ends with
  | outside fetched =>
    exact ⟨fun limit _ => run_of_fetch_none fetched limit, fun limit below => by omega⟩
  | returned fetched stepped =>
    constructor
    · intro limit enough
      obtain ⟨rest, rfl⟩ := Nat.exists_eq_add_of_le' enough
      exact run_succ_of_finished fetched stepped rest
    · intro limit below
      obtain rfl : limit = 0 := by omega
      exact run_cutShort (.none _) fetched
  | failed fetched stepped =>
    constructor
    · intro limit enough
      obtain ⟨rest, rfl⟩ := Nat.exists_eq_add_of_le' enough
      exact run_succ_of_error fetched stepped rest
    · intro limit below
      obtain rfl : limit = 0 := by omega
      exact run_cutShort (.none _) fetched

/-- A run that ends has the number of instructions up to its end as threshold. -/
theorem Executes.threshold {last : Nat} {r : Except Fault Value} (executed : Executes m n s t)
    (ends : Ends m t last r) :
    (∀ limit, n + last ≤ limit → run m limit s = r) ∧
      ∀ limit, limit < n + last → CutShort (run m limit s) := by
  constructor
  · intro limit enough
    obtain ⟨rest, rfl⟩ := Nat.exists_eq_add_of_le enough
    rw [Nat.add_assoc, executed.run_add]
    exact ends.run_eq.1 _ (Nat.le_add_right ..)
  · intro limit below
    -- The limit is met on the way to the end, or at the last instruction.
    by_cases short : limit < n
    · exact executed.cutShort short
    · obtain ⟨rest, rfl⟩ := Nat.exists_eq_add_of_le (Nat.le_of_not_lt short)
      rw [executed.run_add]
      exact ends.run_eq.2 rest (by omega)

/-- No run executes more instructions than lead to its end. -/
theorem Executes.le_of_ends {k last : Nat} {r : Except Fault Value} (executed : Executes m n s t)
    (ends : Ends m t last r) (other : Executes m k s u) : k ≤ n := by
  induction executed generalizing k with
  | none =>
    cases other with
    | none => exact Nat.le_refl 0
    | more next _ => exact absurd next ends.not_next
  | more next _ ih =>
    cases other with
    | none => exact Nat.zero_le _
    | more next' rest =>
      obtain rfl := next.unique next'
      exact Nat.succ_le_succ (ih ends rest)

/-- One instruction keeps the number of frames within the limit for calls. -/
theorem Next.callers_lt (next : Next m s t) (few : s.callers.length < maxCallDepth) :
    t.callers.length < maxCallDepth := by
  obtain ⟨i, _, stepped⟩ := next
  rw [step_eq_handle, Success.bind_ok_iff] at stepped
  obtain ⟨effect, _, handled⟩ := stepped
  cases effect with
  | proceed frame =>
    cases handled
    exact few
  | call callee args frame =>
    obtain ⟨f, entered, same⟩ := (Success.bind_ok_iff ..).mp handled
    cases same
    exact ((enter_ok_iff ..).mp entered).1
  | finish result =>
    cases waits : s.callers with
    | nil =>
      simp only [handle, waits] at handled
      cases handled
    | cons caller callers =>
      simp only [handle, waits] at handled
      cases handled
      rw [waits, List.length_cons] at few
      exact Nat.lt_of_succ_lt few

/-- Under a limit a run comes to its end, or executes as many instructions as the limit admits. -/
theorem run_within (m : Module) (limit : Nat) (s : Machine) :
    ∃ n t, Executes m n s t ∧
      ((∃ last, n + last ≤ limit ∧ Ends m t last (run m limit s)) ∨
        (n = limit ∧ run m limit s = .error (.stepLimit t.current.method))) := by
  induction limit generalizing s with
  | zero =>
    cases fetched : s.current.fetch? with
    | none =>
      refine ⟨0, s, .none s, Or.inl ⟨0, Nat.le_refl 0, ?_⟩⟩
      rw [run_of_fetch_none fetched]
      exact .outside fetched
    | some i => exact ⟨0, s, .none s, Or.inr ⟨rfl, run_zero fetched⟩⟩
  | succ limit ih =>
    rcases ends_or_next m s with ⟨last, r, ends⟩ | ⟨t, next⟩
    · have enough : last ≤ limit + 1 := by cases ends <;> omega
      refine ⟨0, s, .none s, Or.inl ⟨last, by omega, ?_⟩⟩
      rw [ends.run_eq.1 _ enough]
      exact ends
    · obtain ⟨i, fetched, stepped⟩ := next
      obtain ⟨n, u, executed, stopped⟩ := ih t
      rw [run_succ_of_running fetched stepped]
      refine ⟨n + 1, u, .more ⟨i, fetched, stepped⟩ executed, ?_⟩
      rcases stopped with ⟨last, within, ends⟩ | ⟨full, cut⟩
      · exact Or.inl ⟨last, by omega, ends⟩
      · exact Or.inr ⟨by omega, cut⟩

end Machine

namespace Module

variable {m : Module} {method : MethodRef} {args : List Value}

/-- A call executes a number of instructions and is then in a state. -/
def Executes (m : Module) (method : MethodRef) (args : List Value) (n : Nat) (s : Machine) : Prop :=
  ∃ frame, Machine.enter m method args 0 = .ok frame ∧ Machine.Executes m n ⟨frame, []⟩ s

/-- A call comes to an end under a limit: it is refused, or it executes so many instructions and
then ends by itself or because the limit admits no more. -/
def EndsWithin (m : Module) (method : MethodRef) (args : List Value) (limit : Nat) : Prop :=
  (∃ fault, Machine.enter m method args 0 = .error fault ∧
    m.call limit method args = .error fault) ∨
  ∃ n s, m.Executes method args n s ∧
    ((∃ last, n + last ≤ limit ∧ Machine.Ends m s last (m.call limit method args)) ∨
      (n = limit ∧ m.call limit method args = .error (.stepLimit s.current.method)))

theorem call_of_entered {frame : Frame} (entered : Machine.enter m method args 0 = .ok frame)
    (limit : Nat) : m.call limit method args = Machine.run m limit ⟨frame, []⟩ := by
  rw [call, entered]
  rfl

theorem call_of_refused {fault : Fault} (refused : Machine.enter m method args 0 = .error fault)
    (limit : Nat) : m.call limit method args = .error fault := by
  rw [call, refused]
  rfl

theorem endsWithin (m : Module) (method : MethodRef) (args : List Value) (limit : Nat) :
    m.EndsWithin method args limit := by
  cases entered : Machine.enter m method args 0 with
  | error fault => exact Or.inl ⟨fault, entered, call_of_refused entered limit⟩
  | ok frame =>
    obtain ⟨n, s, executed, stopped⟩ := Machine.run_within m limit ⟨frame, []⟩
    refine Or.inr ⟨n, s, ⟨frame, entered, executed⟩, ?_⟩
    rw [call_of_entered entered]
    exact stopped

/-- A call that goes on for ever is cut short at every limit; any other one is cut short below the
number of instructions up to its end, and from there on has its own result. -/
theorem threshold (m : Module) (method : MethodRef) (args : List Value) :
    ((∀ limit, CutShort (m.call limit method args)) ∧ ∀ n, ∃ s, m.Executes method args n s) ∨
      ∃ n r, ¬ CutShort r ∧ (∀ limit, n ≤ limit → m.call limit method args = r) ∧
        (∀ limit, limit < n → CutShort (m.call limit method args)) ∧
        ∀ k s, m.Executes method args k s → k ≤ n := by
  cases entered : Machine.enter m method args 0 with
  | error fault =>
    refine Or.inr ⟨0, .error fault, ?_, fun limit _ => call_of_refused entered limit,
      fun _ => by omega, ?_⟩
    · rcases Machine.enter_error entered with rfl | rfl | ⟨_, _, rfl | rfl | ⟨rfl, _⟩⟩ <;> exact id
    · rintro k s ⟨frame, entered', _⟩
      simp [entered] at entered'
  | ok frame =>
    by_cases ends : ∃ k t last r, Machine.Executes m k ⟨frame, []⟩ t ∧ Machine.Ends m t last r
    · obtain ⟨n, t, last, r, executed, ends⟩ := ends
      obtain ⟨above, below⟩ := executed.threshold ends
      refine Or.inr ⟨n + last, r, ends.not_cutShort, ?_, ?_, ?_⟩
      · intro limit enough
        rw [call_of_entered entered]
        exact above limit enough
      · intro limit short
        rw [call_of_entered entered]
        exact below limit short
      · rintro k s ⟨frame', entered', other⟩
        rw [entered] at entered'
        cases entered'
        exact Nat.le_trans (executed.le_of_ends ends other) (Nat.le_add_right ..)
    · -- The run has no end, so it executes any number of instructions.
      have endless : ∀ n, ∃ t, Machine.Executes m n ⟨frame, []⟩ t := fun n =>
        (Machine.ends_or_executes m n ⟨frame, []⟩).resolve_left ends
      refine Or.inl ⟨fun limit => ?_, fun n => ?_⟩
      · obtain ⟨t, executed⟩ := endless (limit + 1)
        rw [call_of_entered entered]
        exact executed.cutShort (Nat.lt_succ_self limit)
      · obtain ⟨t, executed⟩ := endless n
        exact ⟨t, frame, entered, executed⟩

/-- A result that is not cut short is that of every higher limit. -/
theorem call_of_le {limit more : Nat} (higher : limit ≤ more)
    (obtained : ¬ CutShort (m.call limit method args)) :
    m.call more method args = m.call limit method args := by
  rcases m.threshold method args with ⟨cut, _⟩ | ⟨n, r, _, above, below, _⟩
  · exact absurd (cut limit) obtained
  · have enough : n ≤ limit := by
      by_contra short
      exact obtained (below limit (Nat.lt_of_not_le short))
    rw [above limit enough, above more (Nat.le_trans enough higher)]

theorem Executes.callers_lt {n : Nat} {s : Machine} (executed : m.Executes method args n s) :
    s.callers.length < maxCallDepth := by
  obtain ⟨frame, _, steps⟩ := executed
  have first : (Machine.mk frame []).callers.length < maxCallDepth := Nat.succ_pos _
  generalize Machine.mk frame [] = start at steps first
  induction steps with
  | none => exact first
  | more next _ ih => exact ih (next.callers_lt first)

/-- The limit of a call only cuts it short, and does so at a threshold. Either the call executes any
number of instructions and is cut short at every limit, or it has a result of its own, which it
gives at every limit from the number of its instructions on, and it is cut short at every lower one.
So a call always ends, a result that was obtained stays the same when the limit is raised, and
however deep calls nest there are never more frames than calls may have. -/
theorem call_limit_threshold (m : Module) (method : MethodRef) (args : List Value) :
    (((∀ limit, CutShort (m.call limit method args)) ∧ ∀ n, ∃ s, m.Executes method args n s) ∨
      ∃ n r, ¬ CutShort r ∧ (∀ limit, n ≤ limit → m.call limit method args = r) ∧
        (∀ limit, limit < n → CutShort (m.call limit method args)) ∧
        ∀ k s, m.Executes method args k s → k ≤ n) ∧
    (∀ limit, m.EndsWithin method args limit) ∧
    (∀ limit more, limit ≤ more → ¬ CutShort (m.call limit method args) →
      m.call more method args = m.call limit method args) ∧
    ∀ n s, m.Executes method args n s → s.callers.length < maxCallDepth := by
  refine ⟨m.threshold method args, m.endsWithin method args, ?_, ?_⟩
  · exact fun limit more => call_of_le
  · exact fun n s => Executes.callers_lt

end Module

/-- Counting down from one takes eleven instructions, the last of them in the outer frame. -/
example : countdown.call 10 countdownRef [.int32 1] = .error (.stepLimit "App.Loop::Down") ∧
    countdown.call 11 countdownRef [.int32 1] = .ok (.int32 0) := by
  decide +kernel

end NativeBridge
