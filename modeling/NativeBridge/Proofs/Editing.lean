import NativeBridge.Pass.Traversal
import NativeBridge.Proofs.Survivors

/-! What it takes for a change of a workspace to succeed, and what is then shown of an
instruction. -/

namespace NativeBridge.Pass

variable {σ τ α β : Type}

/-- What a change makes of a workspace. -/
def Edit.outcome (change : Edit σ α) (w : Workspace σ) : Except PassError α × Workspace σ :=
  change.run.run w

/-- A change succeeds on a workspace with a value and leaves another workspace. -/
def Edit.Yields (change : Edit σ α) (w : Workspace σ) (value : α) (after : Workspace σ) : Prop :=
  change.outcome w = (.ok value, after)

namespace Edit

theorem outcome_bind (change : Edit σ α) (f : α → Edit σ β) (w : Workspace σ) :
    (change >>= f).outcome w = match change.outcome w with
      | (.ok a, between) => (f a).outcome between
      | (.error e, between) => (.error e, between) := by
  change StateT.run (ExceptT.run change >>= ExceptT.bindCont f) w = _
  rw [StateT.run_bind]
  change _ = match StateT.run (ExceptT.run change) w with
      | (.ok a, between) => (f a).outcome between
      | (.error e, between) => (.error e, between)
  rcases StateT.run (ExceptT.run change) w with ⟨result, between⟩
  cases result <;> rfl

variable {w after : Workspace σ} {site : Site} {id : InstrId}

@[simp] theorem pure_yields_iff (a value : α) :
    (pure a : Edit σ α).Yields w value after ↔ a = value ∧ w = after := by
  change (Except.ok a, w) = _ ↔ _
  simp

@[simp] theorem throw_yields_iff (e : PassError) (value : α) :
    (throw e : Edit σ α).Yields w value after ↔ False := by
  change (Except.error e, w) = _ ↔ _
  simp

/-- A sequence succeeds exactly when both of its parts do, one after the other. -/
@[simp] theorem bind_yields_iff (change : Edit σ α) (f : α → Edit σ β) (value : β) :
    (change >>= f).Yields w value after ↔
      ∃ a between, change.Yields w a between ∧ (f a).Yields between value after := by
  unfold Yields
  rw [outcome_bind]
  rcases change.outcome w with ⟨result, between⟩
  cases result <;> simp

@[simp] theorem get_yields_iff (value : Workspace σ) :
    (get : Edit σ (Workspace σ)).Yields w value after ↔ w = value ∧ w = after := by
  change (Except.ok w, w) = _ ↔ _
  simp

@[simp] theorem modify_yields_iff (f : Workspace σ → Workspace σ) (value : PUnit) :
    (modify f : Edit σ PUnit).Yields w value after ↔ f w = after := by
  change (Except.ok PUnit.unit, f w) = _ ↔ _
  simp

@[simp] theorem body_yields_iff (b : Body) :
    (body : Edit σ Body).Yields w b after ↔ w.body = b ∧ w = after := by
  simp only [body, bind_yields_iff, get_yields_iff, pure_yields_iff]
  aesop

@[simp] theorem record_yields_iff (event : LogEvent) (value : Unit) :
    (record event : Edit σ Unit).Yields w value after ↔
      { w with log := w.log ++ [event] } = after :=
  modify_yields_iff _ _

theorem apply_yields_iff (change : Body → Except EditError (α × Body)) (value : α) :
    (apply site change : Edit σ α).Yields w value after ↔
      ∃ b, change w.body = .ok (value, b) ∧ { w with body := b } = after := by
  simp only [apply, bind_yields_iff, body_yields_iff, and_assoc, exists_and_left, exists_eq_left']
  cases changed : change w.body with
  | error cause => simp
  | ok edited =>
    obtain ⟨result, b⟩ := edited
    simp only [setBody, bind_yields_iff, modify_yields_iff, pure_yields_iff, Except.ok.injEq,
      Prod.mk.injEq]
    aesop

theorem remove_yields_iff (value : Unit) :
    (remove site id : Edit σ Unit).Yields w value after ↔
      ∃ i b, w.body.remove id = .ok (i, b) ∧ { w with body := b } = after := by
  simp only [remove, bind_yields_iff, apply_yields_iff, pure_yields_iff]
  aesop

theorem replace_yields_iff (i : Instruction) (value : Unit) :
    (replace site id i : Edit σ Unit).Yields w value after ↔
      ∃ old b, w.body.replace id i = .ok (old, b) ∧ { w with body := b } = after := by
  simp only [replace, bind_yields_iff, apply_yields_iff, pure_yields_iff]
  aesop

@[simp] theorem forM_nil_yields_iff (f : α → Edit σ Unit) (value : Unit) :
    (([] : List α).forM f).Yields w value after ↔ w = after := by
  simp [List.forM_nil]

@[simp] theorem forM_cons_yields_iff (f : α → Edit σ Unit) (x : α) (xs : List α) (value : Unit) :
    ((x :: xs).forM f).Yields w value after ↔
      ∃ between, (f x).Yields w () between ∧ (xs.forM f).Yields between value after := by
  change (f x >>= fun _ => xs.forM f).Yields w value after ↔ _
  rw [bind_yields_iff]
  exact ⟨fun ⟨_, rest⟩ => rest, fun rest => ⟨(), rest⟩⟩

end Edit

/-- A rule on a part of a larger state works on that part. -/
theorem Rule.zoom_yields_iff (part : τ → σ) (update : σ → τ → τ) (rule : Rule σ) {site : Site}
    {id : InstrId} {visit : Visit} {w after : Workspace τ} (value : Unit) :
    ((rule.zoom part update).react site id visit).Yields w value after ↔
      ∃ inner, (rule.react site id visit).Yields ⟨w.body, part w.state, w.log⟩ value inner ∧
        ⟨inner.body, update inner.state w.state, inner.log⟩ = after := by
  have ran : ((rule.zoom part update).react site id visit).outcome w =
      let inner := (rule.react site id visit).outcome ⟨w.body, part w.state, w.log⟩
      (inner.1, ⟨inner.2.body, update inner.2.state w.state, inner.2.log⟩) := rfl
  unfold Edit.Yields
  rw [ran]
  rcases (rule.react site id visit).outcome ⟨w.body, part w.state, w.log⟩ with ⟨result, inner⟩
  simp

/-- The declaration of the parameter in an argument slot; the receiver has none. -/
def parameter? (method : MethodDef) (hasReceiver : Bool) (slot : Nat) : Option Parameter :=
  if hasReceiver then
    match slot with
    | 0 => none
    | place + 1 => method.params[place]?
  else method.params[slot]?

/-- A visit shows an instruction as the declarations of a method describe it; nothing is shown of
the receiver. -/
def Describes (method : MethodDef) (b : Body) (i : Instruction) : Option Visit → Prop
  | none =>
    (i.opcode.category = .loadArgument ∨ i.opcode.category = .storeArgument) ∧
      b.hasReceiver = true ∧ i.slot? = some 0
  | some (.loadArgument slot param) =>
    i.opcode.category = .loadArgument ∧ i.slot? = some slot ∧
      parameter? method b.hasReceiver slot = some param
  | some (.storeArgument slot param) =>
    i.opcode.category = .storeArgument ∧ i.slot? = some slot ∧
      parameter? method b.hasReceiver slot = some param
  | some (.loadLocal slot declared) =>
    i.opcode.category = .loadLocal ∧ i.slot? = some slot ∧ b.local? slot = some declared
  | some (.storeLocal slot declared) =>
    i.opcode.category = .storeLocal ∧ i.slot? = some slot ∧ b.local? slot = some declared
  | some (.loadField field) => i.opcode.category = .loadField ∧ i.field? = some field
  | some (.storeField field) => i.opcode.category = .storeField ∧ i.field? = some field
  | some (.call method) => i.opcode.category = .call ∧ i.method? = some method
  | some (.newObject ctor) => i.opcode.category = .newObject ∧ i.method? = some ctor
  | some (.other _) => i.opcode.category = .other

theorem parameterAt_ok_iff (site : Site) (b : Body) (id : InstrId) (slot : Nat)
    (result : Option Parameter) :
    parameterAt site b id slot = .ok result ↔
      (b.hasReceiver = true ∧ slot = 0 ∧ result = none) ∨
        ∃ param, parameter? site.method b.hasReceiver slot = some param ∧ result = some param := by
  unfold parameterAt parameter?
  dsimp only
  cases b.hasReceiver with
  | true =>
    cases slot with
    | zero => simp [eq_comm]
    | succ place => cases found : site.method.params[place]? <;> simp [found, eq_comm]
  | false => cases site.method.params[slot]? <;> simp [eq_comm]

/-- What is shown of an instruction describes it. -/
theorem describes_of_lookUp {site : Site} {b : Body} {id : InstrId} {i : Instruction}
    {visit : Option Visit} (shown : lookUp site b id i = .ok visit) :
    i.isMatched = true ∧ Describes site.method b i visit := by
  unfold lookUp at shown
  cases matched : i.isMatched with
  | false => simp [matched] at shown
  | true =>
    refine ⟨rfl, ?_⟩
    simp only [matched, Bool.not_true, Bool.false_eq_true, if_false] at shown
    cases kind : i.opcode.category with
    | loadArgument | storeArgument =>
      cases named : i.slot? with
      | none => simp [kind, named] at shown
      | some slot =>
        simp only [kind, named, Success.ok_bind, Success.bind_ok_iff, Success.pure_ok_iff,
          parameterAt_ok_iff] at shown
        -- The receiver is looked up without a declaration and not shown.
        obtain ⟨_, ⟨receiver, rfl, rfl⟩ | ⟨param, found, rfl⟩, rfl⟩ := shown
        · exact ⟨by simp [kind], receiver, named⟩
        · exact ⟨kind, named, found⟩
    | loadLocal | storeLocal =>
      cases named : i.slot? with
      | none => simp [kind, named] at shown
      | some slot =>
        cases found : b.local? slot with
        | none => simp [kind, named, found] at shown
        | some declared =>
          simp only [kind, named, found, Success.ok_bind, Success.pure_ok_iff] at shown
          subst shown
          exact ⟨kind, named, found⟩
    | loadField | storeField =>
      cases named : i.field? with
      | none => simp [kind, named] at shown
      | some field =>
        simp only [kind, named, Success.ok_bind, Success.pure_ok_iff] at shown
        subst shown
        exact ⟨kind, named⟩
    | call | newObject =>
      cases named : i.method? with
      | none => simp [kind, named] at shown
      | some method =>
        simp only [kind, named, Success.ok_bind, Success.pure_ok_iff] at shown
        subst shown
        exact ⟨kind, named⟩
    | other =>
      simp only [kind, Success.pure_ok_iff] at shown
      subst shown
      exact kind

/-- Showing an instruction looks it up and lets every rule react to what is shown. -/
theorem showTo_yields_iff {rules : List (Rule σ)} {site : Site} {id : InstrId} {i : Instruction}
    {w after : Workspace σ} (held : w.body.get? id = some i) :
    (showTo rules site id).Yields w () after ↔
      (lookUp site w.body id i = .ok none ∧ w = after) ∨
        ∃ visit, lookUp site w.body id i = .ok (some visit) ∧
          (rules.forM fun rule => rule.react site id visit).Yields w () after := by
  simp only [showTo, Edit.bind_yields_iff, Edit.body_yields_iff, and_assoc, exists_and_left,
    exists_eq_left', held]
  cases shown : lookUp site w.body id i with
  | error e => simp
  | ok visit => cases visit <;> simp

/-- Retargeting branches does not change what is shown. -/
theorem Describes.of_lists {b origin : Body} {kept : List (InstrId × Instruction)}
    (listed : b.Lists origin kept) {method : MethodDef} {i : Instruction}
    {move : InstrId → InstrId} {visit : Option Visit}
    (described : Describes method b (i.mapTarget move) visit) :
    Describes method origin i visit := by
  cases visit with
  | none => simpa [Describes, listed.receiver] using described
  | some visit =>
    cases visit <;>
      simpa [Describes, listed.receiver, Body.local?, listed.locals] using described

section visiting

variable {rules : List (Rule σ)} {site : Site} {origin : Body} {w after : Workspace σ}

/-- What the rules are shown of an instruction that is still live. -/
theorem showTo_lists {kept : List (InstrId × Instruction)} {id : InstrId} {i : Instruction}
    (listed : w.body.Lists origin kept) (member : (id, i) ∈ kept)
    (shown : (showTo rules site id).Yields w () after) :
    i.isMatched = true ∧ ((Describes site.method origin i none ∧ w = after) ∨
      ∃ visit, Describes site.method origin i (some visit) ∧
        (rules.forM fun rule => rule.react site id visit).Yields w () after) := by
  obtain ⟨move, held⟩ := listed.held id i member
  rw [showTo_yields_iff held] at shown
  rcases shown with ⟨shown, same⟩ | ⟨visit, shown, reacted⟩
  · obtain ⟨matched, described⟩ := describes_of_lookUp shown
    exact ⟨by simpa using matched, Or.inl ⟨described.of_lists listed, same⟩⟩
  · obtain ⟨matched, described⟩ := describes_of_lookUp shown
    exact ⟨by simpa using matched, Or.inr ⟨visit, described.of_lists listed, reacted⟩⟩

/-- A visit that turns each instruction into a step of a scan turns the body into what the scan
gives, and has shown every instruction while it was live. The output of the scan has its last
instruction first. -/
theorem visitBody_tracks {R : Workspace σ → List (InstrId × Instruction) → Prop}
    (step : List (InstrId × Instruction) × σ → InstrId × Instruction →
      List (InstrId × Instruction) × σ)
    (each : ∀ output id i rest (w after : Workspace σ),
      R w (output.reverse ++ (id, i) :: rest) →
      (showTo rules site id).Yields w () after →
      R after ((step (output, w.state) (id, i)).1.reverse ++ rest) ∧
        after.state = (step (output, w.state) (id, i)).2)
    {output entries : List (InstrId × Instruction)}
    (tracked : R w (output.reverse ++ entries))
    (visited : (visitBody rules site (entries.map (·.1))).Yields w () after) :
    R after (entries.foldl step (output, w.state)).1.reverse ∧
      after.state = (entries.foldl step (output, w.state)).2 ∧
      ∀ entry ∈ entries, ∃ kept, ∃ before between : Workspace σ, entry ∈ kept ∧
        R before kept ∧ (showTo rules site entry.1).Yields before () between := by
  -- The invariant: the body holds the output so far and the entries still to come.
  induction entries generalizing output w with
  | nil =>
    simp only [visitBody, List.map_nil, Edit.forM_nil_yields_iff] at visited
    subst visited
    exact ⟨by simpa using tracked, rfl, by simp⟩
  | cons entry entries ih =>
    simp only [visitBody, List.map_cons, Edit.forM_cons_yields_iff] at visited
    obtain ⟨between, shown, visited⟩ := visited
    obtain ⟨kept, state⟩ := each output entry.1 entry.2 entries w between tracked shown
    obtain ⟨final, last, others⟩ := ih kept visited
    rw [state] at final last
    refine ⟨final, last, List.forall_mem_cons.mpr ⟨?_, others⟩⟩
    exact ⟨_, w, between, by simp, tracked, shown⟩

end visiting

end NativeBridge.Pass
