import NativeBridge.Proofs.ReferenceScan

/-! The rules that edit code do not disturb each other. What all of them leave of a body is a
contraction of what the rule for interfaces by itself leaves: wherever three instructions in a row
make a delegate for native code there, they become the load of a handle. -/

namespace NativeBridge

/-- Whether an opcode loads or stores a slot or a field. -/
def Opcode.isAccess (op : Opcode) : Bool :=
  match op.category with
  | .call | .newObject | .other => false
  | _ => true

theorem Opcode.ne_of_isPlainLoad {op other : Opcode} (simple : op.isPlainLoad = true)
    (otherwise : other.isPlainLoad = false) : op ≠ other := by
  rintro rfl
  rw [otherwise] at simple
  cases simple

namespace Pass

/-- The native signature of the type that an instruction constructs. -/
def nativeSignature? (m : Module) (i : Instruction) : Option String :=
  if i.opcode = .newobj then
    i.method?.bind fun ctor => (m.findType? ctor.declaringType).bind (·.nativeSignature)
  else none

/-- Three instructions that became the load of a handle, and what the handle stands for. -/
structure Fold where
  plain : InstrId × Instruction
  address : InstrId × Instruction
  construct : InstrId × Instruction
  entry : CallbackEntry
deriving DecidableEq, Repr

/-- The instruction that a fold leaves. -/
def Fold.load (f : Fold) : InstrId × Instruction :=
  (f.plain.1, ⟨.ldcI4, .int32 (Int32.ofNat f.entry.handle)⟩)

/-- The instructions of a fold made a delegate of the method and the signature of its entry. -/
structure Fold.Made (m : Module) (f : Fold) : Prop where
  simple : f.plain.2.opcode.isPlainLoad = true
  loads : f.address.2.opcode = .ldftn
  target : f.address.2.method? = some f.entry.method
  signed : nativeSignature? m f.construct.2 = some f.entry.signature

/-- An output ends with what a construction needs to make a delegate for native code. Its last
instruction comes first. -/
def Prepares (m : Module) (output : List (InstrId × Instruction))
    (construct : InstrId × Instruction) : Prop :=
  ∃ address plain below, output = address :: plain :: below ∧
    plain.2.opcode.isPlainLoad = true ∧ address.2.opcode = .ldftn ∧
    address.2.method?.isSome = true ∧ (nativeSignature? m construct.2).isSome = true

/-- The constructions in code that are not live any more. -/
def droppedConstructions (code : List (InstrId × Instruction)) (live : List InstrId) :
    List (InstrId × Instruction) :=
  code.filter fun entry => entry.2.opcode = .newobj ∧ entry.1 ∉ live

/-- Code with every delegate in it contracted, and the folds that did it. All lists have their last
element first. -/
inductive Contracts (m : Module) :
    List (InstrId × Instruction) → List (InstrId × Instruction) → List Fold → Prop
  | nil : Contracts m [] [] []
  | keep {entry : InstrId × Instruction} {code output : List (InstrId × Instruction)}
      {folds : List Fold} (rest : Contracts m code output folds)
      (single : ¬ Prepares m code entry) : Contracts m (entry :: code) (entry :: output) folds
  | fold {f : Fold} {code output : List (InstrId × Instruction)} {folds : List Fold}
      (rest : Contracts m code output folds) (made : f.Made m) :
      Contracts m (f.construct :: f.address :: f.plain :: code) (f.load :: output) (f :: folds)

section contraction

variable {m : Module} {f : Fold} {entry : InstrId × Instruction}
  {code output : List (InstrId × Instruction)} {folds : List Fold}

theorem opcode_of_nativeSignature? {i : Instruction}
    (signed : (nativeSignature? m i).isSome = true) : i.opcode = .newobj := by
  unfold nativeSignature? at signed
  split at signed
  next constructs => exact constructs
  next => cases signed

theorem not_prepares (other : entry.2.opcode ≠ .newobj) : ¬ Prepares m code entry := by
  rintro ⟨_, _, _, _, _, _, _, signed⟩
  exact other (opcode_of_nativeSignature? signed)

theorem Fold.Made.constructs (made : f.Made m) : f.construct.2.opcode = .newobj :=
  opcode_of_nativeSignature? (by rw [made.signed]; rfl)

theorem droppedConstructions_of_ne {live : List InstrId} (other : entry.2.opcode ≠ .newobj) :
    droppedConstructions (entry :: code) live = droppedConstructions code live :=
  List.filter_cons_of_neg (by simp [other])

theorem droppedConstructions_cons {id : InstrId} {live : List InstrId}
    (fresh : id ∉ code.map (·.1)) :
    droppedConstructions code (id :: live) = droppedConstructions code live := by
  refine List.filter_congr fun other member => ?_
  have apart : other.1 ≠ id := by
    rintro rfl
    exact fresh (List.mem_map_of_mem member)
  simp [apart]

theorem scanStep_of_ne {bindings : StaticBindings} {factory : WorkerFactory} {method : MethodDef}
    {b : Body} {s : List (InstrId × Instruction) × Tables} (other : entry.2.opcode ≠ .newobj) :
    (scanStep bindings factory m method b s entry).1 = elide bindings m method b s.1 entry ∧
      (scanStep bindings factory m method b s entry).2.callbacks = s.2.callbacks := by
  unfold scanStep
  split
  next kind _ => exact absurd (opcode_of_newObject kind) other
  next => exact ⟨rfl, rfl⟩
  next => exact ⟨rfl, rfl⟩

namespace Contracts

/-- Only constructions are contracted with what is before them. -/
theorem of_code_cons (contracts : Contracts m (entry :: code) output folds)
    (other : entry.2.opcode ≠ .newobj) :
    ∃ below, output = entry :: below ∧ Contracts m code below folds := by
  cases contracts with
  | keep rest single => exact ⟨_, rfl, rest⟩
  | fold rest made => exact absurd made.constructs other

/-- Only the load of a handle comes from a contraction. -/
theorem of_output_cons (contracts : Contracts m code (entry :: output) folds)
    (other : entry.2.opcode ≠ .ldcI4) :
    ∃ below, code = entry :: below ∧ Contracts m below output folds := by
  cases contracts with
  | keep rest single => exact ⟨_, rfl, rest⟩
  | fold rest made => exact absurd rfl other

/-- The load of the receiver is on top of both lists or of none. -/
theorem dropReceiver (b : Body) (contracts : Contracts m code output folds) :
    Contracts m (dropReceiver b code) (dropReceiver b output) folds := by
  cases contracts with
  | nil => exact .nil
  | @keep entry _ _ _ rest single =>
    simp only [Pass.dropReceiver]
    split
    · exact rest
    · exact .keep rest single
  | @fold f _ _ _ rest made =>
    -- On top are a construction and the load of a handle, neither of which loads an argument.
    have construct : isReceiverLoad b f.construct.2 = false := by
      simp [isReceiverLoad, made.constructs, Opcode.category]
    have load : isReceiverLoad b f.load.2 = false := by
      simp [isReceiverLoad, Fold.load, Opcode.category]
    simp only [Pass.dropReceiver, construct, load, Bool.false_eq_true, if_false]
    exact .fold rest made

theorem elide {bindings : StaticBindings} {method : MethodDef} {b : Body}
    (contracts : Contracts m code output folds) (other : entry.2.opcode ≠ .newobj) :
    Contracts m (elide bindings m method b code entry) (elide bindings m method b output entry)
      folds := by
  have kept : Contracts m (entry :: code) (entry :: output) folds :=
    .keep contracts (not_prepares other)
  unfold Pass.elide
  cases kind : entry.2.opcode.category with
  | loadArgument | storeArgument | loadLocal | storeLocal =>
    dsimp only
    split
    · exact contracts
    · exact kept
  | loadField | storeField =>
    dsimp only
    split
    · exact kept
    · split
      · split
        · exact contracts
        · exact contracts.dropReceiver b
      · exact kept
  | call =>
    -- A call that is led elsewhere is still no construction.
    refine .keep contracts (not_prepares ?_)
    dsimp only [redirect]
    split
    · exact Opcode.noConfusion
    · exact other
  | newObject | other => exact kept

/-- What both lists end with prepares a delegate in both or in none. -/
theorem foldDelegate {i : Instruction} {ctor : MethodRef}
    (contracts : Contracts m code output folds) (id : InstrId) (t : CallbackTable)
    (constructs : i.opcode = .newobj) (named : i.method? = some ctor) :
    let folded := foldDelegate CallbackTable.add m ctor t output (id, i)
    (Contracts m ((id, i) :: code) folded.1 folds ∧ folded.2 = t) ∨
      ∃ f, Contracts m ((id, i) :: code) folded.1 (f :: folds) ∧
        folded.2.entries = t.entries ++ [f.entry] := by
  have signed : nativeSignature? m i =
      (m.findType? ctor.declaringType).bind (·.nativeSignature) := by
    rw [nativeSignature?, if_pos constructs, named]
    rfl
  unfold Pass.foldDelegate
  split
  next signature address load receiver plain below native =>
    unfold delegateTarget?
    by_cases shaped : load.opcode = .ldftn ∧ plain.opcode.isPlainLoad = true
    · rw [if_pos shaped]
      cases target : load.method? with
      | none =>
        refine Or.inl ⟨.keep contracts ?_, rfl⟩
        -- Both instructions are on top of the code as well, where they make no delegate either.
        obtain ⟨_, rfl, _⟩ := contracts.of_output_cons (by simp [shaped.1])
        rintro ⟨_, _, _, ⟨⟩, _, _, targets, _⟩
        simp [target] at targets
      | some method =>
        obtain ⟨_, rfl, first⟩ := contracts.of_output_cons (by simp [shaped.1])
        obtain ⟨_, rfl, second⟩ := first.of_output_cons (Opcode.ne_of_isPlainLoad shaped.2 rfl)
        have made : Fold.Made m ⟨(receiver, plain), (address, load), (id, i),
            ⟨(t.add signature method).1, signature, method⟩⟩ :=
          ⟨shaped.2, shaped.1, target, signed.trans native⟩
        exact Or.inr ⟨_, .fold second made, rfl⟩
    · rw [if_neg shaped]
      refine Or.inl ⟨.keep contracts ?_, rfl⟩
      rintro ⟨_, _, _, rfl, simple, loads, _, _⟩
      -- What is on top of the code is on top of the output.
      obtain ⟨_, same, rest⟩ := contracts.of_code_cons (by simp [loads])
      obtain ⟨rfl, rfl⟩ := List.cons.inj same
      obtain ⟨_, same, _⟩ := rest.of_code_cons (Opcode.ne_of_isPlainLoad simple rfl)
      obtain ⟨rfl, rfl⟩ := List.cons.inj same
      exact shaped ⟨loads, simple⟩
  next short =>
    -- The output is too short, or the type has no native signature.
    refine Or.inl ⟨.keep contracts ?_, rfl⟩
    rintro ⟨address, plain, below, rfl, simple, loads, _, native⟩
    obtain ⟨_, rfl, rest⟩ := contracts.of_code_cons (by simp [loads])
    obtain ⟨_, rfl, _⟩ := rest.of_code_cons (Opcode.ne_of_isPlainLoad simple rfl)
    rw [signed] at native
    obtain ⟨signature, native⟩ := Option.isSome_iff_exists.mp native
    exact short _ _ _ _ _ _ native rfl

/-- A step of the scan extends the contraction, and the table by what was folded. -/
theorem scanStep {bindings : StaticBindings} {factory : WorkerFactory} {method : MethodDef}
    {b : Body} (contracts : Contracts m code output folds) (entry : InstrId × Instruction)
    {tables : Tables} {base : List CallbackEntry}
    (filled : tables.callbacks.entries = base ++ folds.reverse.map (·.entry)) :
    let scanned := scanStep bindings factory m method b (output, tables) entry
    ∃ more, Contracts m (Pass.elide bindings m method b code entry) scanned.1 more ∧
      scanned.2.callbacks.entries = base ++ more.reverse.map (·.entry) := by
  obtain ⟨id, i⟩ := entry
  by_cases constructs : i.opcode = .newobj
  · have kind : i.opcode.category = .newObject := by rw [constructs]; rfl
    have pushed : Pass.elide bindings m method b code (id, i) = (id, i) :: code := by
      simp only [Pass.elide, kind]
    rw [pushed]
    cases named : i.method? with
    | none =>
      refine ⟨folds, ?_, ?_⟩
      · simp only [Pass.scanStep, Pass.elide, kind, named]
        refine .keep contracts ?_
        rintro ⟨_, _, _, _, _, _, _, signed⟩
        simp [nativeSignature?, named] at signed
      · simpa only [Pass.scanStep, kind, named] using filled
    | some ctor =>
      simp only [Pass.scanStep, kind, named]
      rcases contracts.foldDelegate id tables.callbacks constructs named with
        ⟨kept, same⟩ | ⟨f, folded, added⟩
      · exact ⟨folds, kept, by rw [same]; exact filled⟩
      · exact ⟨f :: folds, folded, by simp [added, filled]⟩
  · have other : (id, i).2.opcode ≠ .newobj := constructs
    refine ⟨folds, ?_, ?_⟩
    · rw [(scanStep_of_ne other).1]
      exact contracts.elide other
    · rw [(scanStep_of_ne other).2]
      exact filled

/-- The scans of the same instructions, one with all rules and one with the rule for interfaces
alone, end in a contraction. -/
theorem scan (contracts : Contracts m code output folds) (bindings : StaticBindings)
    (factory : WorkerFactory) (method : MethodDef) (b : Body)
    (entries : List (InstrId × Instruction)) {tables : Tables} {base : List CallbackEntry}
    (filled : tables.callbacks.entries = base ++ folds.reverse.map (·.entry)) :
    let scanned := entries.foldl (Pass.scanStep bindings factory m method b) (output, tables)
    ∃ more, Contracts m (entries.foldl (Pass.elide bindings m method b) code) scanned.1 more ∧
      scanned.2.callbacks.entries = base ++ more.reverse.map (·.entry) := by
  -- The invariant is the contraction itself, with the table as far as it is filled.
  induction entries generalizing code output folds tables with
  | nil => exact ⟨folds, contracts, filled⟩
  | cons entry entries ih =>
    obtain ⟨_, extended, added⟩ := contracts.scanStep entry filled
    exact ih extended added

/-- A contraction takes instructions out and brings none in. -/
theorem map_fst_sublist (contracts : Contracts m code output folds) :
    (output.map (·.1)).Sublist (code.map (·.1)) := by
  induction contracts with
  | nil => exact .slnil
  | keep _ _ ih => exact ih.cons_cons _
  | fold _ _ ih => exact ((ih.cons_cons _).cons _).cons _

/-- The constructions that are gone are those of the folds. -/
theorem droppedConstructions_eq (contracts : Contracts m code output folds)
    (distinct : (code.map (·.1)).Nodup) :
    droppedConstructions code (output.map (·.1)) = folds.map (·.construct) := by
  induction contracts with
  | nil => rfl
  | @keep entry code output folds rest single ih =>
    obtain ⟨fresh, distinct⟩ := List.nodup_cons.mp distinct
    rw [← ih distinct, List.map_cons, ← droppedConstructions_cons fresh]
    exact List.filter_cons_of_neg (by simp)
  | @fold f code output folds rest made ih =>
    simp only [List.map_cons, List.nodup_cons, List.mem_cons, not_or] at distinct
    obtain ⟨⟨_, construct, fresh⟩, _, plain, distinct⟩ := distinct
    have gone : f.construct.1 ∉ f.plain.1 :: output.map (·.1) := by
      rw [List.mem_cons, not_or]
      exact ⟨construct, fun member => fresh (rest.map_fst_sublist.subset member)⟩
    have loads : f.plain.2.opcode ≠ .newobj := Opcode.ne_of_isPlainLoad made.simple rfl
    rw [List.map_cons, List.map_cons, ← ih distinct, ← droppedConstructions_cons plain]
    -- Of the three instructions only the last is a construction.
    calc droppedConstructions (f.construct :: f.address :: f.plain :: code)
          (f.plain.1 :: output.map (·.1))
        = f.construct :: droppedConstructions (f.address :: f.plain :: code)
            (f.plain.1 :: output.map (·.1)) :=
          List.filter_cons_of_pos (by simpa [made.constructs] using gone)
      _ = f.construct :: droppedConstructions (f.plain :: code) (f.plain.1 :: output.map (·.1)) :=
          congrArg _ (droppedConstructions_of_ne (by simp [made.loads]))
      _ = f.construct :: droppedConstructions code (f.plain.1 :: output.map (·.1)) :=
          congrArg _ (droppedConstructions_of_ne loads)

/-- What tells the loads of handles from the code finds just the loads in the output. -/
theorem filter_loads (contracts : Contracts m code output folds)
    {p : InstrId × Instruction → Bool} (old : ∀ entry ∈ code, entry ∈ output → p entry = false)
    (new : ∀ f ∈ folds, p f.load = true) : output.filter p = folds.map (·.load) := by
  induction contracts with
  | nil => rfl
  | keep _ _ ih =>
    have kept := old _ List.mem_cons_self List.mem_cons_self
    rw [List.filter_cons_of_neg (by simp [kept])]
    exact ih (fun entry member live =>
      old entry (List.mem_cons_of_mem _ member) (List.mem_cons_of_mem _ live)) new
  | fold _ _ ih =>
    rw [List.filter_cons_of_pos (new _ List.mem_cons_self), List.map_cons,
      ih (fun entry member live => old entry (by simp [member]) (List.mem_cons_of_mem _ live))
        fun f member => new f (List.mem_cons_of_mem _ member)]

/-- What stands where a fold was: the load of its handle, and nothing of the other two. -/
theorem of_mem (contracts : Contracts m code output folds) (distinct : (code.map (·.1)).Nodup)
    (member : f ∈ folds) :
    f.Made m ∧ f.load ∈ output ∧ f.construct.1 ∉ output.map (·.1) ∧
      f.address.1 ∉ output.map (·.1) ∧
      ∃ rear front, code = rear ++ f.construct :: f.address :: f.plain :: front := by
  induction contracts with
  | nil => cases member
  | @keep entry code output folds rest single ih =>
    obtain ⟨fresh, distinct⟩ := List.nodup_cons.mp distinct
    obtain ⟨made, load, construct, address, rear, front, rfl⟩ := ih distinct member
    simp only [List.map_append, List.map_cons, List.mem_append, List.mem_cons, not_or] at fresh
    obtain ⟨_, notConstruct, notAddress, _⟩ := fresh
    refine ⟨made, List.mem_cons_of_mem _ load, ?_, ?_, entry :: rear, front, rfl⟩
    · simpa [Ne.symm notConstruct] using construct
    · simpa [Ne.symm notAddress] using address
  | @fold g code output folds rest made ih =>
    simp only [List.map_cons, List.nodup_cons, List.mem_cons, not_or] at distinct
    obtain ⟨⟨_, constructPlain, construct⟩, ⟨addressPlain, address⟩, plain, distinct⟩ := distinct
    have inside := rest.map_fst_sublist.subset
    rcases List.mem_cons.mp member with rfl | member
    · -- The identities of the other two are not those of the load or of anything before.
      refine ⟨made, List.mem_cons_self, ?_, ?_, [], code, rfl⟩
      · rw [List.map_cons, List.mem_cons, not_or]
        exact ⟨constructPlain, fun member => construct (inside member)⟩
      · rw [List.map_cons, List.mem_cons, not_or]
        exact ⟨addressPlain, fun member => address (inside member)⟩
    · obtain ⟨earlier, load, first, second, rear, front, rfl⟩ := ih distinct member
      simp only [List.map_append, List.map_cons, List.mem_append, List.mem_cons, not_or] at plain
      obtain ⟨_, notConstruct, notAddress, _⟩ := plain
      refine ⟨earlier, List.mem_cons_of_mem _ load, ?_, ?_,
        g.construct :: g.address :: g.plain :: rear, front, rfl⟩
      · rw [List.map_cons, List.mem_cons, not_or]
        exact ⟨Ne.symm notConstruct, first⟩
      · rw [List.map_cons, List.mem_cons, not_or]
        exact ⟨Ne.symm notAddress, second⟩

/-- Wherever the code prepares a delegate, it was folded. -/
theorem exists_fold (contracts : Contracts m code output folds)
    {rear front : List (InstrId × Instruction)} {construct address plain : InstrId × Instruction}
    (split : code = rear ++ construct :: address :: plain :: front)
    (prepared : Prepares m (address :: plain :: front) construct) :
    ∃ f ∈ folds, f.construct = construct ∧ f.address = address ∧ f.plain = plain := by
  induction contracts generalizing rear with
  | nil => simp at split
  | keep rest single ih =>
    cases rear with
    | nil =>
      obtain ⟨rfl, rfl⟩ := List.cons.inj split
      exact absurd prepared single
    | cons _ rear => exact ih (List.cons.inj split).2
  | @fold f _ _ _ rest made ih =>
    have constructs : construct.2.opcode = .newobj := by
      obtain ⟨_, _, _, _, _, _, _, signed⟩ := prepared
      exact opcode_of_nativeSignature? signed
    -- Neither of the other two instructions of a fold is a construction.
    rcases rear with _ | ⟨_, _ | ⟨_, _ | ⟨_, rear⟩⟩⟩ <;>
      simp only [List.nil_append, List.cons_append, List.cons.injEq] at split
    · obtain ⟨rfl, rfl, rfl, _⟩ := split
      exact ⟨f, List.mem_cons_self, rfl, rfl, rfl⟩
    · obtain ⟨_, rfl, _⟩ := split
      simp [made.loads] at constructs
    · obtain ⟨_, _, rfl, _⟩ := split
      exact absurd constructs (Opcode.ne_of_isPlainLoad made.simple rfl)
    · obtain ⟨g, member, same⟩ := ih split.2.2.2
      exact ⟨g, List.mem_cons_of_mem _ member, same⟩

end Contracts

/-- An instruction and what stays of it: itself, or a call in the place of a call. -/
def Alike (entry kept : InstrId × Instruction) : Prop :=
  kept = entry ∨
    kept.1 = entry.1 ∧ entry.2.opcode.category = .call ∧ kept.2.opcode.category = .call

/-- Code out of which some loads and stores were taken. Both lists have their last element first. -/
inductive Sifts : List (InstrId × Instruction) → List (InstrId × Instruction) → Prop
  | nil : Sifts [] []
  | keep {entry kept : InstrId × Instruction} {code output : List (InstrId × Instruction)}
      (rest : Sifts code output) (alike : Alike entry kept) : Sifts (entry :: code) (kept :: output)
  | drop {entry : InstrId × Instruction} {code output : List (InstrId × Instruction)}
      (rest : Sifts code output) (access : entry.2.opcode.isAccess = true) :
      Sifts (entry :: code) output

theorem Alike.fst_eq {kept : InstrId × Instruction} (alike : Alike entry kept) :
    kept.1 = entry.1 := by
  rcases alike with rfl | ⟨same, _⟩
  · rfl
  · exact same

theorem Alike.eq_of_ne_call {kept : InstrId × Instruction} (alike : Alike entry kept)
    (other : kept.2.opcode.category ≠ .call) : kept = entry :=
  alike.resolve_right fun calls => other calls.2.2

theorem Alike.constructs_iff {kept : InstrId × Instruction} (alike : Alike entry kept) :
    kept.2.opcode = .newobj ↔ entry.2.opcode = .newobj := by
  rcases alike with rfl | ⟨_, before, after⟩
  · rfl
  · constructor
    · intro constructs
      rw [constructs] at after
      cases after
    · intro constructs
      rw [constructs] at before
      cases before

namespace Sifts

/-- A load that is on top of what was kept can still be taken out. -/
theorem dropTop {top : InstrId × Instruction} (sifts : Sifts code (top :: output))
    (access : top.2.opcode.isAccess = true) : Sifts code output := by
  -- By induction down to where the top was kept; what was dropped above it stays dropped.
  generalize stacked : top :: output = kept at sifts
  induction sifts with
  | nil => cases stacked
  | @keep entry _ _ _ rest alike ih =>
    obtain ⟨rfl, rfl⟩ := List.cons.inj stacked
    obtain rfl := alike.eq_of_ne_call (by
      intro calls
      simp [Opcode.isAccess, calls] at access)
    exact .drop rest access
  | drop rest access ih => exact .drop (ih stacked) access

/-- Taking out the load of a receiver takes out one more load. -/
theorem dropReceiver (b : Body) (sifts : Sifts code output) :
    Sifts code (dropReceiver b output) := by
  cases output with
  | nil => exact sifts
  | cons top output =>
    simp only [Pass.dropReceiver]
    split
    next receiver =>
      refine sifts.dropTop ?_
      have kind : top.2.opcode.category = .loadArgument := by
        simp only [isReceiverLoad, Bool.and_eq_true, beq_iff_eq] at receiver
        exact receiver.1.2
      simp [Opcode.isAccess, kind]
    next => exact sifts

/-- The rule for interfaces takes out loads and stores and redirects calls. -/
theorem elide {bindings : StaticBindings} {method : MethodDef} {b : Body}
    (sifts : Sifts code output) :
    Sifts (entry :: code) (elide bindings m method b output entry) := by
  have kept : Sifts (entry :: code) (entry :: output) := .keep sifts (Or.inl rfl)
  unfold Pass.elide
  cases kind : entry.2.opcode.category with
  | loadArgument | storeArgument | loadLocal | storeLocal =>
    dsimp only
    split
    · exact .drop sifts (by simp [Opcode.isAccess, kind])
    · exact kept
  | loadField | storeField =>
    have access : entry.2.opcode.isAccess = true := by simp [Opcode.isAccess, kind]
    dsimp only
    split
    · exact kept
    · split
      · split
        · exact .drop sifts access
        · exact .drop (sifts.dropReceiver b) access
      · exact kept
  | call =>
    refine .keep sifts (Or.inr ⟨rfl, kind, ?_⟩)
    dsimp only [redirect]
    split
    · rfl
    · exact kind
  | newObject | other => exact kept

theorem scan (sifts : Sifts code output) (bindings : StaticBindings) (m : Module)
    (method : MethodDef) (b : Body) (entries : List (InstrId × Instruction)) :
    Sifts (entries.reverse ++ code) (entries.foldl (Pass.elide bindings m method b) output) := by
  induction entries generalizing code output with
  | nil => exact sifts
  | cons entry entries ih =>
    rw [List.reverse_cons, List.append_assoc]
    exact ih (sifts.elide)

theorem map_fst_sublist (sifts : Sifts code output) :
    (output.map (·.1)).Sublist (code.map (·.1)) := by
  induction sifts with
  | nil => exact .slnil
  | keep _ alike ih =>
    rw [List.map_cons, List.map_cons, alike.fst_eq]
    exact ih.cons_cons _
  | drop _ _ ih => exact ih.cons _

theorem mem_of_ne_call (sifts : Sifts code output) (member : entry ∈ output)
    (other : entry.2.opcode.category ≠ .call) : entry ∈ code := by
  induction sifts with
  | nil => cases member
  | keep _ alike ih =>
    rcases List.mem_cons.mp member with rfl | member
    · rw [alike.eq_of_ne_call other]
      exact List.mem_cons_self
    · exact List.mem_cons_of_mem _ (ih member)
  | drop _ _ ih => exact List.mem_cons_of_mem _ (ih member)

/-- All constructions stay. -/
theorem droppedConstructions_eq (sifts : Sifts code output) (live : List InstrId) :
    droppedConstructions code live = droppedConstructions output live := by
  induction sifts with
  | nil => rfl
  | @keep entry kept code output rest alike ih =>
    by_cases constructs : entry.2.opcode = .newobj
    · obtain rfl := alike.eq_of_ne_call (by
        rw [alike.constructs_iff.mpr constructs]
        rintro ⟨⟩)
      unfold droppedConstructions at ih ⊢
      rw [List.filter_cons, List.filter_cons, ih]
    · rw [droppedConstructions_of_ne constructs,
        droppedConstructions_of_ne (mt alike.constructs_iff.mp constructs), ih]
  | @drop entry code output rest access ih =>
    rw [← ih]
    apply droppedConstructions_of_ne
    intro constructs
    rw [constructs] at access
    cases access

/-- What was kept splits the code where it stood. -/
theorem split (above : List (InstrId × Instruction)) {kept : InstrId × Instruction}
    (sifts : Sifts code (above ++ kept :: output)) :
    ∃ rear entry front, code = rear ++ entry :: front ∧ Sifts rear above ∧ Alike entry kept ∧
      Sifts front output := by
  generalize stacked : above ++ kept :: output = whole at sifts
  induction sifts generalizing above with
  | nil => simp at stacked
  | @keep entry top code rest sifts alike ih =>
    cases above with
    | nil =>
      obtain ⟨rfl, rfl⟩ := List.cons.inj stacked
      exact ⟨[], entry, code, rfl, .nil, alike, sifts⟩
    | cons _ above =>
      rw [List.cons_append, List.cons.injEq] at stacked
      obtain ⟨rfl, stacked⟩ := stacked
      obtain ⟨rear, other, front, rfl, first, here, second⟩ := ih above stacked
      exact ⟨entry :: rear, other, front, rfl, .keep first alike, here, second⟩
  | @drop entry code output sifts access ih =>
    obtain ⟨rear, other, front, rfl, first, alike, second⟩ := ih above stacked
    exact ⟨entry :: rear, other, front, rfl, .drop first access, alike, second⟩

end Sifts

/-- What became of a body: the rule for interfaces took instructions out, and of what that leaves
the delegates were contracted. -/
structure Contracted (m : Module) (b c : Body) (code output : List (InstrId × Instruction))
    (folds : List Fold) : Prop where
  formed : b.WellFormed
  matched : ∀ entry ∈ b.code, entry.2.isMatched = true
  sifts : Sifts b.code.reverse code
  contracts : Contracts m code output folds
  lists : c.Lists b output.reverse

/-- The three rules sift a body and contract it, and fill the table with what the folds made. -/
theorem contracted_of_visited {bindings : StaticBindings} {factory : WorkerFactory}
    {method : MethodDef} {b c : Body} {tables after : Tables} (formed : b.WellFormed)
    (visited : Visited (standardRules bindings factory) m method tables b c after) :
    ∃ output folds, Contracted m b c (elideAll bindings m method b).reverse output folds ∧
      after.callbacks.entries = tables.callbacks.entries ++ folds.reverse.map (·.entry) ∧
      (tables.callbacks.Dense → after.callbacks.Dense) := by
  obtain ⟨lists, rfl, dense, matched⟩ :=
    scan_tracks formed (Body.lists_tracks b) formed.lists_code visited
  have begun : tables.callbacks.entries =
      tables.callbacks.entries ++ (List.reverse []).map Fold.entry := by simp
  obtain ⟨folds, contracts, filled⟩ :=
    (Contracts.nil (m := m)).scan bindings factory method b b.code begun
  refine ⟨_, folds, ⟨formed, matched, ?_, ?_, lists⟩, filled, dense⟩
  · simpa [elideAll] using Sifts.nil.scan bindings m method b b.code
  · simpa [elideAll] using contracts

namespace Contracted

variable {b c : Body}

theorem mem_order_iff (contracted : Contracted m b c code output folds) (id : InstrId) :
    id ∈ c.order ↔ id ∈ output.map (·.1) := by
  rw [contracted.lists.order, List.map_reverse, List.mem_reverse]

theorem distinct (contracted : Contracted m b c code output folds) : (code.map (·.1)).Nodup := by
  refine List.Nodup.sublist contracted.sifts.map_fst_sublist ?_
  rw [List.map_reverse, List.nodup_reverse, Body.map_fst_code contracted.formed]
  exact contracted.formed.distinct

/-- The constructions that are gone are those of the folds, in the same order. -/
theorem droppedConstructions_eq (contracted : Contracted m b c code output folds) :
    droppedConstructions b.code c.order = folds.reverse.map (·.construct) := by
  have same : droppedConstructions b.code c.order =
      droppedConstructions b.code (output.map (·.1)) :=
    List.filter_congr fun entry _ => by simp only [contracted.mem_order_iff]
  rw [List.map_reverse, ← contracted.contracts.droppedConstructions_eq contracted.distinct,
    ← contracted.sifts.droppedConstructions_eq, same]
  simp only [droppedConstructions, List.filter_reverse, List.reverse_reverse]

/-- The load that a fold left holds its handle. -/
theorem get?_load (contracted : Contracted m b c code output folds) (member : f ∈ folds) :
    f.plain.1 ∈ c.order ∧ c.get? f.plain.1 = some f.load.2 := by
  obtain ⟨_, stands, _⟩ := contracted.contracts.of_mem contracted.distinct member
  have live : f.load.1 ∈ output.map (·.1) := List.mem_map_of_mem stands
  obtain ⟨move, held⟩ := contracted.lists.held f.load.1 f.load.2 (List.mem_reverse.mpr stands)
  exact ⟨(contracted.mem_order_iff _).mpr live, held⟩

end Contracted

end contraction

end Pass

end NativeBridge
