import NativeBridge.Proofs.ReferenceScan
import NativeBridge.Proofs.SideBySide

/-! Encodings of an access to a slot. The category, the slot and a matching operand say all that
matters of it: whatever looks at an instruction sees the same in each encoding, and edits carry
bodies that differ in encodings to bodies that do. -/

namespace NativeBridge

/-- Whether instructions of a category read or write a slot. -/
def Category.accessesSlot : Category → Bool
  | .loadArgument | .storeArgument | .loadLocal | .storeLocal => true
  | _ => false

/-- The slot is in the opcode or it is the operand. -/
theorem Opcode.operandKind_of_accesses (op : Opcode) :
    op.category.accessesSlot = true →
      op.operandKind = .none ∧ op.shortIndex?.isSome = true ∨ op.operandKind = .index := by
  cases op <;> decide

namespace Instruction

/-- An instruction and itself, or two encodings of an access to the same slot, with operands of the
kinds that they expect. -/
inductive Recoded (i : Instruction) : Instruction → Prop
  | same : Recoded i i
  | access {j : Instruction} (kind : i.opcode.category = j.opcode.category)
      (accesses : i.opcode.category.accessesSlot = true) (slot : i.slot? = j.slot?)
      (matched : i.isMatched = true) (matched' : j.isMatched = true) : Recoded i j

/-- An access to a slot names the slot and nothing else. -/
theorem slot_of_accesses {i : Instruction} (accesses : i.opcode.category.accessesSlot = true)
    (matched : i.isMatched = true) :
    i.slot?.isSome = true ∧ i.target? = none ∧ i.method? = none ∧ i.field? = none := by
  obtain ⟨op, operand⟩ := i
  have kind : op.operandKind = operand.kind := by simpa [isMatched] using matched
  have plain : operand = .none ∧ op.shortIndex?.isSome = true ∨ ∃ slot, operand = .index slot := by
    rcases Opcode.operandKind_of_accesses op accesses with ⟨none, short⟩ | index
    · cases operand <;> simp_all [Operand.kind]
    · cases operand <;> simp_all [Operand.kind]
  rcases plain with ⟨rfl, short⟩ | ⟨slot, rfl⟩
  · refine ⟨?_, rfl, rfl, rfl⟩
    obtain ⟨slot, short⟩ := Option.isSome_iff_exists.mp short
    simp [slot?, short]
  · refine ⟨?_, rfl, rfl, rfl⟩
    cases short : op.shortIndex? <;> simp [slot?, short]

namespace Recoded

variable {i j : Instruction}

theorem category_eq (recoded : i.Recoded j) : i.opcode.category = j.opcode.category := by
  cases recoded with
  | same => rfl
  | access kind => exact kind

theorem slot?_eq (recoded : i.Recoded j) : i.slot? = j.slot? := by
  cases recoded with
  | same => rfl
  | access _ _ slot => exact slot

theorem target?_eq (recoded : i.Recoded j) : i.target? = j.target? := by
  cases recoded with
  | same => rfl
  | access kind accesses _ matched matched' =>
    rw [(slot_of_accesses accesses matched).2.1, (slot_of_accesses (kind ▸ accesses) matched').2.1]

theorem method?_eq (recoded : i.Recoded j) : i.method? = j.method? := by
  cases recoded with
  | same => rfl
  | access kind accesses _ matched matched' =>
    rw [(slot_of_accesses accesses matched).2.2.1,
      (slot_of_accesses (kind ▸ accesses) matched').2.2.1]

/-- An opcode that accesses no slot has no other encoding. -/
theorem eq_of_category (recoded : i.Recoded j) (other : j.opcode.category.accessesSlot = false) :
    i = j := by
  cases recoded with
  | same => rfl
  | access kind accesses =>
    rw [kind, other] at accesses
    cases accesses

theorem opcode_eq_iff (recoded : i.Recoded j) (op : Opcode)
    (other : op.category.accessesSlot = false) : i.opcode = op ↔ j.opcode = op := by
  constructor
  · intro this
    have same := recoded.category_eq
    rw [this] at same
    rw [← recoded.eq_of_category (same ▸ other), this]
  · intro this
    rw [recoded.eq_of_category (this ▸ other), this]

theorem isPlainLoad_eq (recoded : i.Recoded j) :
    i.opcode.isPlainLoad = j.opcode.isPlainLoad := by
  have null := recoded.opcode_eq_iff .ldnull rfl
  have field := recoded.opcode_eq_iff .ldsfld rfl
  rw [Bool.eq_iff_iff]
  simp only [Opcode.isPlainLoad, Bool.or_eq_true, beq_iff_eq, recoded.category_eq, null, field]

theorem mapTarget (recoded : i.Recoded j) (move : InstrId → InstrId) :
    (i.mapTarget move).Recoded (j.mapTarget move) := by
  cases recoded with
  | same => exact .same
  | access kind accesses slot matched matched' =>
    exact .access kind accesses (by simpa using slot) (by simpa using matched)
      (by simpa using matched')

end Recoded

end Instruction

namespace Body

/-- Bodies that differ in the encodings of accesses to slots at most. -/
structure Recoded (b c : Body) : Prop where
  arena : List.Forall₂ Instruction.Recoded b.arena c.arena
  order : b.order = c.order
  locals : b.locals = c.locals
  handlers : b.handlers = c.handlers
  receiver : b.hasReceiver = c.hasReceiver

namespace Recoded

variable {b c : Body}

theorem refl (b : Body) : b.Recoded b where
  arena := List.forall₂_same.mpr fun _ _ => .same
  order := rfl
  locals := rfl
  handlers := rfl
  receiver := rfl

theorem get? (recoded : b.Recoded c) (id : InstrId) :
    Option.Rel Instruction.Recoded (b.get? id) (c.get? id) :=
  rel_getElem? recoded.arena id.index

/-- The same identities are live, with recoded instructions. -/
theorem code (recoded : b.Recoded c) :
    List.Forall₂ (fun p q => p.1 = q.1 ∧ p.2.Recoded q.2) b.code c.code := by
  rw [Body.code, Body.code, ← recoded.order]
  induction b.order with
  | nil => exact .nil
  | cons id ids ih =>
    rcases held_of_rel (recoded.get? id) with ⟨held, held'⟩ | ⟨i, j, held, held', related⟩
    · simpa [held, held'] using ih
    · simpa [held, held'] using ⟨related, ih⟩

theorem position?_eq (recoded : b.Recoded c) (id : InstrId) : b.position? id = c.position? id := by
  rw [position?, position?, recoded.order]

theorem isReferenced_eq (recoded : b.Recoded c) (id : InstrId) :
    b.isReferenced id = c.isReferenced id := by
  have targets : ∀ {xs ys : List (InstrId × Instruction)},
      List.Forall₂ (fun p q => p.1 = q.1 ∧ p.2.Recoded q.2) xs ys →
      xs.any (fun entry => entry.2.target? == some id) =
        ys.any fun entry => entry.2.target? == some id := by
    intro xs ys related
    induction related with
    | nil => rfl
    | cons head _ ih => rw [List.any_cons, List.any_cons, head.2.target?_eq, ih]
  rw [isReferenced, isReferenced, targets recoded.code, recoded.handlers]

theorem place_eq (recoded : b.Recoded c) (id : InstrId) : b.place id = c.place id := by
  rcases held_of_rel (recoded.get? id) with ⟨held, held'⟩ | ⟨i, j, held, held', -⟩
  · simp only [place, held, held']
  · simp only [place, held, held', recoded.position?_eq]

theorem retarget (recoded : b.Recoded c) (source dest : InstrId) :
    (b.retarget source dest).Recoded (c.retarget source dest) where
  arena := by
    simp only [Body.retarget, List.forall₂_map_left_iff, List.forall₂_map_right_iff]
    exact recoded.arena.imp fun _ _ related => related.mapTarget _
  order := recoded.order
  locals := recoded.locals
  handlers := by simp only [Body.retarget, recoded.handlers]
  receiver := recoded.receiver

theorem release (recoded : b.Recoded c) (id : InstrId) (successor : Option InstrId) :
    Agree Eq Recoded (b.release id successor) (c.release id successor) := by
  unfold Body.release
  rw [recoded.isReferenced_eq]
  cases c.isReferenced id with
  | false => exact .ok recoded
  | true =>
    cases successor with
    | none => exact .error rfl
    | some successor => exact .ok (recoded.retarget id successor)

theorem remove (recoded : b.Recoded c) (id : InstrId) :
    Agree Eq (fun p q => p.2.Recoded q.2) (b.remove id) (c.remove id) := by
  unfold Body.remove
  rw [recoded.place_eq, recoded.order]
  cases c.place id with
  | error cause => exact .error rfl
  | ok place =>
    refine (recoded.release id c.order[place + 1]?).bind fun b' c' released => ?_
    rcases held_of_rel (released.get? id) with ⟨held, held'⟩ | ⟨i, j, held, held', -⟩
    · simp only [held, held']
      exact .error rfl
    · simp only [held, held']
      exact .ok ⟨released.arena, by simp only [released.order], released.locals,
        by simp only [released.handlers], released.receiver⟩

theorem replace (recoded : b.Recoded c) (id : InstrId) (i : Instruction) :
    Agree Eq (fun p q => p.2.Recoded q.2) (b.replace id i) (c.replace id i) := by
  have arena : ∀ (n : Nat) {is js : List Instruction}, List.Forall₂ Instruction.Recoded is js →
      List.Forall₂ Instruction.Recoded (is.set n i) (js.set n i) := by
    intro n is js related
    induction related generalizing n with
    | nil => exact .nil
    | cons head tail ih =>
      cases n with
      | zero => exact .cons .same tail
      | succ n => exact .cons head (ih n)
  unfold Body.replace
  rw [recoded.place_eq]
  cases c.place id with
  | error cause => exact .error rfl
  | ok place =>
    rcases held_of_rel (recoded.get? id) with ⟨held, held'⟩ | ⟨old, old', held, held', -⟩
    · simp only [held, held']
      exact .error rfl
    · simp only [held, held']
      exact .ok ⟨arena id.index recoded.arena, recoded.order, recoded.locals, recoded.handlers,
        recoded.receiver⟩

end Recoded

/-- A relation between bodies that the rules cannot tell apart and that edits keep. -/
structure Congruence (B : Body → Body → Prop) : Prop where
  order : ∀ {b c}, B b c → b.order = c.order
  locals : ∀ {b c}, B b c → b.locals = c.locals
  receiver : ∀ {b c}, B b c → b.hasReceiver = c.hasReceiver
  get? : ∀ {b c}, B b c → ∀ id, Option.Rel Instruction.Recoded (b.get? id) (c.get? id)
  remove : ∀ {b c}, B b c → ∀ id, Agree Eq (fun p q => B p.2 q.2) (b.remove id) (c.remove id)
  replace : ∀ {b c}, B b c → ∀ id i,
    Agree Eq (fun p q => B p.2 q.2) (b.replace id i) (c.replace id i)

theorem recoded_congruence : Congruence Recoded where
  order := Recoded.order
  locals := Recoded.locals
  receiver := Recoded.receiver
  get? := Recoded.get?
  remove := Recoded.remove
  replace := Recoded.replace

theorem eq_congruence : Congruence Eq where
  order := congrArg order
  locals := congrArg locals
  receiver := congrArg hasReceiver
  get? := by
    rintro b _ rfl id
    exact (Recoded.refl b).get? id
  remove := by
    rintro b _ rfl id
    cases b.remove id with
    | error cause => exact .error rfl
    | ok removed => exact .ok rfl
  replace := by
    rintro b _ rfl id i
    cases b.replace id i with
    | error cause => exact .error rfl
    | ok replaced => exact .ok rfl

namespace Congruence

variable {B : Body → Body → Prop} {b c : Body}

theorem isLive_eq (congruence : Congruence B) (related : B b c) (id : InstrId) :
    b.isLive id = c.isLive id := by
  rw [isLive, isLive, congruence.order related]

theorem previous?_eq (congruence : Congruence B) (related : B b c) (id : InstrId) :
    b.previous? id = c.previous? id := by
  simp only [previous?, position?, congruence.order related]

theorem precedingIn (congruence : Congruence B) (related : B b c) (id : InstrId) :
    Option.Rel (fun p q => p.1 = q.1 ∧ p.2.Recoded q.2) (Pass.precedingIn b id)
      (Pass.precedingIn c id) := by
  simp only [Pass.precedingIn, congruence.previous?_eq related]
  cases c.previous? id with
  | none => exact .none
  | some before =>
    rcases held_of_rel (congruence.get? related before) with
      ⟨held, held'⟩ | ⟨i, j, held, held', recoded⟩
    · simp only [Option.bind_eq_bind, Option.bind_some, held, held']
      exact .none
    · simp only [Option.bind_eq_bind, Option.bind_some, held, held']
      exact .some ⟨rfl, recoded⟩

theorem isReceiverLoad_eq (congruence : Congruence B) (related : B b c) {i j : Instruction}
    (recoded : i.Recoded j) : Pass.isReceiverLoad b i = Pass.isReceiverLoad c j := by
  rw [Pass.isReceiverLoad, Pass.isReceiverLoad, congruence.receiver related, recoded.category_eq,
    recoded.slot?_eq]

/-- A delegate is made by the same instructions in both bodies. -/
theorem delegateIdiom?_eq (congruence : Congruence B) (related : B b c) (id : InstrId) :
    Pass.delegateIdiom? b id = Pass.delegateIdiom? c id := by
  unfold Pass.delegateIdiom? guard
  rcases held_of_rel (congruence.precedingIn related id) with
    ⟨held, held'⟩ | ⟨⟨address, load⟩, ⟨_, load'⟩, held, held', rfl, loads⟩
  · rw [held, held']
    rfl
  have isAddress : load.opcode = .ldftn ↔ load'.opcode = .ldftn := loads.opcode_eq_iff .ldftn rfl
  have target : load.method? = load'.method? := loads.method?_eq
  rcases held_of_rel (congruence.precedingIn related address) with
    ⟨held₂, held₂'⟩ | ⟨⟨receiver, plain⟩, ⟨_, plain'⟩, held₂, held₂', rfl, plains⟩
  · simp only [held, held', held₂, held₂', Option.bind_eq_bind, Option.bind_some, isAddress, target]
  · have isPlain : plain.opcode.isPlainLoad = plain'.opcode.isPlainLoad := plains.isPlainLoad_eq
    simp only [held, held', held₂, held₂', Option.bind_eq_bind, Option.bind_some, isAddress, target,
      isPlain]

end Congruence

end Body

namespace Pass

variable {σ : Type} {B : Body → Body → Prop} {E : PassError → PassError → Prop}
  {site site' : Site} {id : InstrId}

theorem parameterAt_eq {b c : Body} (congruence : Body.Congruence B) (related : B b c)
    (sites : site.Agree B site') (id : InstrId) (slot : Nat) :
    parameterAt site b id slot = parameterAt site' c id slot := by
  simp only [parameterAt, congruence.receiver related, sites.method, sites.label_eq]

/-- The same is looked up for each encoding. -/
theorem lookUp_eq {b c : Body} (congruence : Body.Congruence B) (related : B b c)
    (sites : site.Agree B site') {i j : Instruction} (recoded : i.Recoded j) :
    lookUp site b id i = lookUp site' c id j := by
  have params := parameterAt_eq congruence related sites id
  cases recoded with
  | same =>
    simp only [lookUp, params, Body.local?, congruence.locals related, sites.label_eq]
  | access kind accesses slot matched matched' =>
    obtain ⟨n, named⟩ :=
      Option.isSome_iff_exists.mp (Instruction.slot_of_accesses accesses matched).1
    have named' : j.slot? = some n := slot ▸ named
    rw [kind] at accesses
    simp only [lookUp, matched, matched', named, named', kind, params, Body.local?,
      congruence.locals related, sites.label_eq]
    -- Of the categories that are left, none accesses a slot.
    cases category : j.opcode.category <;> first
      | rfl
      | rw [category] at accesses; exact absurd accesses (by decide)

section rules

variable (congruence : Body.Congruence B) (same : ∀ e, E e e) (sites : site.Agree B site')

include congruence same sites

theorem remove_agree (id : InstrId) :
    Edit.Agree B E Eq (Edit.remove site id : Edit σ Unit) (Edit.remove site' id) := by
  refine Edit.agree_bind (V := fun _ _ => True) (Edit.agree_apply sites.label_eq same ?_)
    fun _ _ _ => Edit.agree_pure rfl
  exact fun b c related => (congruence.remove related id).mono fun _ _ after => ⟨trivial, after⟩

theorem replace_agree (id : InstrId) (i : Instruction) :
    Edit.Agree B E Eq (Edit.replace site id i : Edit σ Unit) (Edit.replace site' id i) := by
  refine Edit.agree_bind (V := fun _ _ => True) (Edit.agree_apply sites.label_eq same ?_)
    fun _ _ _ => Edit.agree_pure rfl
  exact fun b c related => (congruence.replace related id i).mono fun _ _ after => ⟨trivial, after⟩

theorem elideValue_agree (bindings : StaticBindings) (type : TypeName) :
    Edit.Agree B E Eq (elideValue bindings site id type : Edit σ Unit)
      (elideValue bindings site' id type) := by
  refine Edit.agree_bind Edit.agree_body fun b c related => ?_
  rw [congruence.isLive_eq related]
  split
  · exact Edit.agree_seq (Edit.agree_record _ _) (remove_agree congruence same sites id)
  · exact Edit.agree_pure rfl

theorem elideObject_agree (field : FieldRef) :
    Edit.Agree B E Eq (elideObject site id field : Edit σ Unit) (elideObject site' id field) := by
  refine Edit.agree_bind Edit.agree_body fun b c related => ?_
  rcases held_of_rel (congruence.precedingIn related id) with
    ⟨held, held'⟩ | ⟨⟨before, i⟩, ⟨_, j⟩, held, held', rfl, recoded⟩
  · simp only [held, held', Option.filter_none]
    exact Edit.agree_record _ _
  · simp only [held, held', Option.filter_some, congruence.isReceiverLoad_eq related recoded]
    cases isReceiverLoad c j with
    | false => exact Edit.agree_record _ _
    | true => exact remove_agree congruence same sites before

theorem elideField_agree (bindings : StaticBindings) (field : FieldRef) :
    Edit.Agree B E Eq (elideField bindings site id field : Edit σ Unit)
      (elideField bindings site' id field) := by
  have ending : Edit.Agree B E Eq
      (do Edit.record ⟨.debug, "eliding field " ++ field.text, Edit.whereabouts site id⟩
          Edit.remove site id : Edit σ Unit)
      (do Edit.record ⟨.debug, "eliding field " ++ field.text, Edit.whereabouts site' id⟩
          Edit.remove site' id) :=
    Edit.agree_seq (Edit.agree_record _ _) (remove_agree congruence same sites id)
  refine Edit.agree_bind Edit.agree_body fun b c related => ?_
  rw [congruence.isLive_eq related]
  split
  · cases field.isStatic with
    | true => exact ending
    | false => exact Edit.agree_seq (elideObject_agree congruence same sites field) ending
  · exact Edit.agree_pure rfl

theorem retargetCall_agree (bindings : StaticBindings) (method : MethodRef) :
    Edit.Agree B E Eq (retargetCall bindings site id method : Edit σ Unit)
      (retargetCall bindings site' id method) := by
  unfold retargetCall
  cases bindings.adapter? method.declaringType with
  | none => exact Edit.agree_pure rfl
  | some adapter =>
    refine Edit.agree_bind Edit.agree_body fun b c related => ?_
    rw [congruence.isLive_eq related, adapterTarget_congr sites.enclosing.bare_eq]
    split
    · cases adapterTarget site'.enclosing adapter method with
      | error e => exact Edit.agree_throw (same e)
      | ok target =>
        exact Edit.agree_seq (Edit.agree_record _ _) (replace_agree congruence same sites id _)
    · exact Edit.agree_pure rfl

theorem interfaceCalls_agree (bindings : StaticBindings) (visit : Visit) :
    Edit.Agree B E Eq ((interfaceCalls bindings : Rule σ).react site id visit)
      ((interfaceCalls bindings : Rule σ).react site' id visit) := by
  cases visit with
  | loadArgument => exact elideValue_agree congruence same sites bindings _
  | storeArgument => exact elideValue_agree congruence same sites bindings _
  | loadLocal => exact elideValue_agree congruence same sites bindings _
  | storeLocal => exact elideValue_agree congruence same sites bindings _
  | loadField => exact elideField_agree congruence same sites bindings _
  | storeField => exact elideField_agree congruence same sites bindings _
  | call => exact retargetCall_agree congruence same sites bindings _
  | newObject => exact Edit.agree_pure rfl
  | other => exact Edit.agree_pure rfl

theorem callbackHandles_agree (add : σ → String → MethodRef → Nat × σ) (visit : Visit) :
    Edit.Agree B E Eq ((callbackHandles add).react site id visit)
      ((callbackHandles add).react site' id visit) := by
  cases visit with
  | newObject ctor =>
    refine Edit.agree_bind Edit.agree_body fun b c related => ?_
    rw [congruence.isLive_eq related, congruence.delegateIdiom?_eq related,
      nativeSignature_congr sites.enclosing.bare_eq]
    split
    · cases (site'.enclosing.findType? ctor.declaringType).bind (·.nativeSignature) with
      | none => exact Edit.agree_pure rfl
      | some signature =>
        cases delegateIdiom? c id with
        | none => exact Edit.agree_pure rfl
        | some idiom =>
          refine Edit.agree_bind Edit.agree_get fun w u workspaces => ?_
          rw [workspaces.state]
          refine Edit.agree_seq (Edit.agree_setState _) ?_
          -- The handle is too large in both modules or in neither.
          split
          · rw [sites.label_eq]
            exact Edit.agree_bind (V := fun _ _ => False) (Edit.agree_throw (same _))
              fun _ _ none => none.elim
          · exact Edit.agree_seq (Edit.agree_record _ _)
              (Edit.agree_seq (replace_agree congruence same sites _ _)
                (Edit.agree_seq (remove_agree congruence same sites _)
                  (remove_agree congruence same sites _)))
    · exact Edit.agree_pure rfl
  | _ => exact Edit.agree_pure rfl

omit congruence in
theorem workerTypes_agree (factory : WorkerFactory) (visit : Visit) :
    Edit.Agree B E Eq ((workerTypes factory).react site id visit)
      ((workerTypes factory).react site' id visit) := by
  cases visit with
  | call callee =>
    simp only [workerTypes]
    split
    · split
      · refine Edit.agree_bind Edit.agree_get fun w u workspaces => ?_
        rw [workspaces.state]
        split
        · exact Edit.agree_seq (Edit.agree_setState _) (Edit.agree_record _ _)
        · exact Edit.agree_pure rfl
      · rw [sites.label_eq]
        exact Edit.agree_throw (same _)
    · exact Edit.agree_pure rfl
  | _ => exact Edit.agree_pure rfl

/-- Each rule does the same in bodies that it cannot tell apart. -/
theorem standardRules_agree {bindings : StaticBindings} {factory : WorkerFactory}
    {rule : Rule Tables} (member : rule ∈ standardRules bindings factory) (visit : Visit) :
    Edit.Agree B E Eq (rule.react site id visit) (rule.react site' id visit) := by
  simp only [standardRules, List.mem_cons, List.not_mem_nil, or_false] at member
  rcases member with rfl | rfl | rfl
  · exact interfaceCalls_agree congruence same sites bindings visit
  · exact Rule.zoom_agree _ _ (callbackHandles_agree congruence same sites _ visit)
  · exact Rule.zoom_agree _ _ (workerTypes_agree same sites factory visit)

/-- Rules that agree at what is looked up agree at every instruction. -/
theorem showTo_agree {rules rules' : List (Rule σ)}
    (reactions : ∀ visit, Edit.Agree B E Eq (rules.forM fun rule => rule.react site id visit)
      (rules'.forM fun rule => rule.react site' id visit)) :
    Edit.Agree B E Eq (showTo rules site id) (showTo rules' site' id) := by
  refine Edit.agree_bind Edit.agree_body fun b c related => ?_
  rcases held_of_rel (congruence.get? related id) with ⟨held, held'⟩ | ⟨i, j, held, held', recoded⟩
  · simp only [held, held']
    exact Edit.agree_pure rfl
  · simp only [held, held', lookUp_eq congruence related sites recoded]
    rcases lookUp site' c id j with e | _ | visit
    · exact Edit.agree_throw (same e)
    · exact Edit.agree_pure rfl
    · exact reactions visit

end rules

end Pass

end NativeBridge
