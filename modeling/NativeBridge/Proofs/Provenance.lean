import NativeBridge.Proofs.Decoding
import NativeBridge.Proofs.Storing

/-! What the parts of a decoded module were read from. Each field of a record has been accepted by
its decoder or holds its default, so that every type name was read from a text and every number fits
the word it was read as. -/

namespace NativeBridge

namespace Json

open Success

variable {α β : Type}

/-- Reading a field leaves a part of the record as it was. -/
def Field.Keeps (field : Field α) (get : α → β) : Prop :=
  ∀ levels source before after, field.read levels source before = .ok after →
    get after = get before

/-- A field that must be present decides on a part of a record. -/
structure Governs (record : Record α) (field : Field α) (get : α → β) (Q : β → Prop) : Prop where
  member : field ∈ record.fields
  mandatory : field.mandatory = true
  sets : ∀ levels source before after, field.read levels source before = .ok after →
    Q (get after)
  keeps : ∀ other ∈ record.fields, other = field ∨ other.Keeps get

namespace Governs

variable {record : Record α} {field : Field α} {get : α → β} {Q : β → Prop}

theorem step (governs : Governs record field get Q) {other : Field α}
    (member : other ∈ record.fields) {levels : Nat} {source : Source} {before after : α}
    (read : other.read levels source before = .ok after) (held : other ≠ field → Q (get before)) :
    Q (get after) := by
  rcases governs.keeps other member with rfl | keeps
  · exact governs.sets _ _ _ _ read
  · by_cases same : other = field
    · exact governs.sets _ _ _ _ (same ▸ read)
    · rw [keeps _ _ _ _ read]
      exact held same

/-- Reading the fields in order, the part is settled once the field is behind. -/
theorem ofItems (governs : Governs record field get Q) {levels index : Nat}
    {fields : List (Field α)} {items : List Source} {before after : α}
    (part : ∀ other ∈ fields, other ∈ record.fields)
    (settled : field ∈ fields ∨ Q (get before))
    (read : record.ofItems levels index fields items before = .ok after) : Q (get after) := by
  induction fields generalizing index items before with
  | nil =>
    cases items with
    | nil =>
      cases read
      simpa using settled
    | cons item items => cases read
  | cons first fields ih =>
    obtain ⟨here, rest⟩ := List.forall_mem_cons.mp part
    cases items with
    | nil =>
      unfold Record.ofItems at read
      split at read
      · cases read
      next free =>
        -- The field in question cannot be left out.
        refine ih rest (settled.imp_left fun member => ?_) read
        rcases List.mem_cons.mp member with rfl | later
        · exact absurd governs.mandatory free
        · exact later
    | cons item items =>
      obtain ⟨between, first', read⟩ := (bind_ok_iff ..).mp read
      by_cases same : first = field
      · exact ih rest (Or.inr (governs.step here first' fun other => absurd same other)) read
      · refine ih rest ?_ read
        rcases settled with member | held
        · rcases List.mem_cons.mp member with equal | later
          · exact absurd equal.symm same
          · exact Or.inl later
        · exact Or.inr (governs.step here first' fun _ => held)

/-- Reading members by name, the part is settled once the field has been seen. -/
theorem ofMembers (governs : Governs record field get Q)
    (distinct : (record.fields.map (·.name)).Nodup) {levels : Nat} {seen : List String}
    {members : List (Option String × Source)} {before after : α}
    (settled : field.name ∉ seen ∨ Q (get before))
    (read : record.ofMembers levels seen members before = .ok after) : Q (get after) := by
  induction members generalizing seen before with
  | nil =>
    unfold Record.ofMembers at read
    split at read
    · cases read
    next complete =>
      cases read
      refine settled.resolve_left fun unseen => ?_
      have present := List.find?_eq_none.mp complete field governs.member
      simp [unseen, governs.mandatory] at present
  | cons member members ih =>
    obtain ⟨name, source⟩ := member
    cases name with
    | none => cases read
    | some name =>
      unfold Record.ofMembers at read
      split at read
      · split at read
        · exact ih settled read
        · cases read
      next other found =>
        split at read
        · cases read
        · obtain ⟨between, first, read⟩ := (bind_ok_iff ..).mp read
          have among := List.mem_of_find?_eq_some found
          have named : other.name = name := by simpa using List.find?_some found
          by_cases same : other = field
          · exact ih (Or.inr (governs.step among first fun differs => absurd same differs)) read
          · refine ih ?_ read
            rcases settled with unseen | held
            · refine Or.inl fun already => ?_
              rcases List.mem_cons.mp already with equal | earlier
              -- Two fields of one name are the same field.
              · exact same (List.inj_on_of_nodup_map distinct among governs.member
                  (named.trans equal.symm))
              · exact unseen earlier
            · exact Or.inr (governs.step among first fun _ => held)

/-- What a field governs has its property in every decoded record. -/
theorem ensures (governs : Governs record field get Q)
    (distinct : (record.fields.map (·.name)).Nodup) :
    record.decoder.Ensures fun value => Q (get value) := by
  intro levels source value decoded
  cases source with
  | array items =>
    obtain ⟨levels, decoded⟩ := Decoder.deeper_ok decoded
    exact governs.ofItems (fun _ member => member) (Or.inl governs.member) decoded
  | object members =>
    obtain ⟨levels, decoded⟩ := Decoder.deeper_ok decoded
    exact governs.ofMembers distinct (Or.inl List.not_mem_nil) decoded
  | _ => exact absurd decoded (mismatch_ne_ok _ _ _)

end Governs

section fields

variable {record : Record α} (get : α → β) {Q : β → Prop} {name : String} {decoder : Decoder β}
  {set : β → α → α}

theorem Record.required_ensures (each : decoder.Ensures Q)
    (member : .required name decoder set ∈ record.fields)
    (hits : ∀ value r, get (set value r) = value)
    (keeps : record.fields.Forall fun other => other = .required name decoder set ∨ other.Keeps get)
    (distinct : (record.fields.map (·.name)).Nodup) :
    record.decoder.Ensures fun r => Q (get r) := by
  refine Governs.ensures ⟨member, rfl, fun levels source before after read => ?_,
    List.forall_iff_forall_mem.mp keeps⟩ distinct
  obtain ⟨value, accepted, rfl⟩ := (map_ok_iff ..).mp read
  rw [hits]
  exact each levels source value accepted

/-! Every field but one leaves a part of a record as it was. -/

theorem Field.apart_required {γ : Type} {field : Field α} {other : Decoder γ} {put : γ → α → α}
    (same : ∀ value r, get (put value r) = get r) :
    Field.required name other put = field ∨ (Field.required name other put).Keeps get := by
  refine .inr fun levels source before after read => ?_
  obtain ⟨value, -, rfl⟩ := (map_ok_iff ..).mp read
  exact same value before

theorem Field.apart_optional {γ : Type} {field : Field α} {other : Decoder γ} {put : γ → α → α}
    (same : ∀ value r, get (put value r) = get r) :
    Field.optional name other put = field ∨ (Field.optional name other put).Keeps get := by
  refine .inr fun levels source before after read => ?_
  obtain ⟨value, -, rfl⟩ := (map_ok_iff ..).mp read
  exact same value before

end fields

section variants

variable {P : α → Prop} {Q : β → Prop}

/-- Whatever a variant accepts has a property. -/
def Variant.Ensures (variant : Variant α) (P : α → Prop) : Prop :=
  ∀ levels source value, variant.read levels source = .ok value → P value

theorem Variant.unit_ensures (name : String) {value : α} (holds : P value) :
    (Variant.unit name value).Ensures P := by
  intro levels source found read
  cases source with
  | none =>
    cases read
    exact holds
  | some source =>
    cases source with
    | null =>
      cases read
      exact holds
    | _ => exact absurd read (mismatch_ne_ok _ _ _)

theorem Variant.carrying_ensures (name : String) {decoder : Decoder β} {make : β → α}
    (each : decoder.Ensures Q) (made : ∀ value, Q value → P (make value)) :
    (Variant.carrying name decoder make).Ensures P := by
  intro levels source found read
  cases source with
  | none => cases read
  | some source =>
    obtain ⟨value, accepted, rfl⟩ := (map_ok_iff ..).mp read
    exact made value (each levels source value accepted)

theorem Decoder.sum_ensures {variants : List (Variant α)}
    (each : variants.Forall fun variant => variant.Ensures P) :
    (Decoder.sum variants).Ensures P := by
  have each := List.forall_iff_forall_mem.mp each
  intro levels source value decoded
  unfold Decoder.sum at decoded
  dsimp only at decoded
  split at decoded
  · obtain ⟨variant, picked, read⟩ := (bind_ok_iff ..).mp decoded
    split at picked
    next found =>
      cases picked
      exact each _ (List.mem_of_find?_eq_some found) _ _ _ read
    · cases picked
  · obtain ⟨levels, decoded⟩ := deeper_ok decoded
    split at decoded
    · obtain ⟨variant, picked, decoded⟩ := (bind_ok_iff ..).mp decoded
      obtain ⟨read, accepted, ended⟩ := (bind_ok_iff ..).mp decoded
      split at picked
      next found =>
        cases picked
        split at ended
        · cases ended
          exact each _ (List.mem_of_find?_eq_some found) _ _ _ accepted
        · cases ended
      · cases picked
    · cases decoded
  · cases decoded

end variants

section integers

theorem Decoder.integer_ensures (least greatest : Int) (expected : String) :
    (Decoder.integer least greatest expected).Ensures fun n => least ≤ n ∧ n ≤ greatest := by
  intro levels source n decoded
  unfold Decoder.integer at decoded
  split at decoded
  · split at decoded
    · split at decoded
      next inside =>
        cases decoded
        exact inside
      · cases decoded
    · exact absurd decoded (mismatch_ne_ok _ _ _)
  · exact absurd decoded (mismatch_ne_ok _ _ _)

theorem Decoder.natural_ensures (bound : Nat) (expected : String) :
    Decoder.Ensures (fun levels source =>
      (Decoder.integer 0 (bound - 1) expected levels source).map Int.toNat) (· < bound) := by
  intro levels source n decoded
  obtain ⟨value, read, rfl⟩ := (map_ok_iff ..).mp decoded
  obtain ⟨least, greatest⟩ := integer_ensures _ _ _ _ _ _ read
  omega

theorem Decoder.nat16_ensures : nat16.Ensures (· < UInt16.size) :=
  natural_ensures UInt16.size "u16"

theorem Decoder.nat32_ensures : nat32.Ensures (· < UInt32.size) :=
  natural_ensures UInt32.size "u32"

end integers

end Json

open Json (Decoder Field Record)
open Success

namespace TypeName

theorem decoder_ensures : decoder.Ensures (Parsed false) := by
  intro levels source t decoded
  obtain ⟨text, -, accepted⟩ := (bind_ok_iff ..).mp decoded
  rw [mapError_ok_iff, mapError_ok_iff] at accepted
  exact parsed_of_parse accepted

theorem parsed_void : Parsed false void := by
  have read : parse "System.Void" = .ok void := rfl
  exact parsed_of_parse read

theorem list_ensures : (Decoder.list decoder).Ensures fun ts => ∀ t ∈ ts, t.Parsed false :=
  decoder_ensures.list

end TypeName

theorem Parameter.decoder_ensures : record.decoder.Ensures fun p => p.type.Parsed false :=
  Record.required_ensures Parameter.type TypeName.decoder_ensures (.tail _ (.head _))
    (fun _ _ => rfl) ⟨Field.apart_required _ fun _ _ => rfl, .inl rfl⟩ (by decide)

theorem Local.decoder_ensures : record.decoder.Ensures fun l => l.type.Parsed false :=
  Record.required_ensures Local.type TypeName.decoder_ensures (.tail _ (.head _))
    (fun _ _ => rfl) ⟨Field.apart_optional _ fun _ _ => rfl, .inl rfl⟩ (by decide)

theorem FieldDef.decoder_ensures : record.decoder.Ensures fun f => f.type.Parsed false :=
  Record.required_ensures FieldDef.type TypeName.decoder_ensures (.tail _ (.head _))
    (fun _ _ => rfl)
    ⟨Field.apart_required _ fun _ _ => rfl, .inl rfl,
      Field.apart_optional _ fun _ _ => rfl⟩ (by decide)

theorem FieldRef.decoder_ensures :
    record.decoder.Ensures fun f => ∀ t ∈ f.mentioned, t.Parsed false := by
  have declaring : record.decoder.Ensures fun f => f.declaringType.Parsed false :=
    Record.required_ensures FieldRef.declaringType TypeName.decoder_ensures (.head _)
      (fun _ _ => rfl)
      ⟨.inl rfl, Field.apart_required _ fun _ _ => rfl,
        Field.apart_required _ fun _ _ => rfl,
        Field.apart_optional _ fun _ _ => rfl⟩ (by decide)
  have type : record.decoder.Ensures fun f => f.type.Parsed false :=
    Record.required_ensures FieldRef.type TypeName.decoder_ensures (.tail _ (.tail _ (.head _)))
      (fun _ _ => rfl)
      ⟨Field.apart_required _ fun _ _ => rfl, Field.apart_required _ fun _ _ => rfl,
        .inl rfl, Field.apart_optional _ fun _ _ => rfl⟩ (by decide)
  intro levels source f decoded
  simp only [mentioned, List.forall_mem_cons]
  exact ⟨declaring _ _ _ decoded, type _ _ _ decoded, List.forall_mem_nil _⟩

theorem MethodRef.decoder_ensures :
    record.decoder.Ensures fun m => ∀ t ∈ m.mentioned, t.Parsed false := by
  have declaring : record.decoder.Ensures fun m => m.declaringType.Parsed false :=
    Record.required_ensures MethodRef.declaringType TypeName.decoder_ensures (.head _)
      (fun _ _ => rfl)
      ⟨.inl rfl, Field.apart_required _ fun _ _ => rfl, Field.apart_optional _ fun _ _ => rfl,
        Field.apart_optional _ fun _ _ => rfl, Field.apart_optional _ fun _ _ => rfl,
        Field.apart_optional _ fun _ _ => rfl⟩ (by decide)
  have others : record.decoder.Ensures fun m => (∀ t ∈ m.params, t.Parsed false) ∧
      m.returnType.Parsed false ∧ ∀ t ∈ m.genericArgs, t.Parsed false := by
    refine Record.decoder_ensures ⟨nofun, TypeName.parsed_void, nofun⟩
      (List.forall_iff_forall_mem.mp ⟨?_, ?_, ?_, ?_, ?_, ?_⟩)
    · exact Field.required_preserves _ (Decoder.ensures_true _) fun _ _ _ held => held
    · exact Field.required_preserves _ (Decoder.ensures_true _) fun _ _ _ held => held
    · exact Field.optional_preserves _ (Decoder.ensures_true _) fun _ _ _ held => held
    · exact Field.optional_preserves _ TypeName.list_ensures fun _ _ new held => ⟨new, held.2⟩
    · exact Field.optional_preserves _ TypeName.decoder_ensures
        fun _ _ new held => ⟨held.1, new, held.2.2⟩
    · exact Field.optional_preserves _ TypeName.list_ensures
        fun _ _ new held => ⟨held.1, held.2.1, new⟩
  intro levels source m decoded
  obtain ⟨params, returned, args⟩ := others _ _ _ decoded
  simp only [mentioned, List.forall_mem_cons, List.forall_mem_append]
  exact ⟨declaring _ _ _ decoded, returned, params, args⟩

theorem InstrId.decoder_ensures : decoder.Ensures fun id => id.index < UInt32.size := by
  intro levels source id decoded
  obtain ⟨n, read, rfl⟩ := (map_ok_iff ..).mp decoded
  exact Decoder.nat32_ensures levels source n read

theorem Operand.decoder_ensures : decoder.Ensures (Operand.Storable (TypeName.Parsed false)) := by
  refine Decoder.sum_ensures ⟨?_, ?_, ?_, ?_, ?_, ?_, ?_, ?_, ?_⟩
  · exact Json.Variant.unit_ensures _ ⟨nofun, nofun, nofun⟩
  · refine Json.Variant.carrying_ensures _ Decoder.nat16_ensures fun slot fits => ⟨nofun, ?_, nofun⟩
    rintro _ ⟨⟩
    exact fits
  · exact Json.Variant.carrying_ensures _ (Decoder.ensures_true _) fun _ _ => ⟨nofun, nofun, nofun⟩
  · exact Json.Variant.carrying_ensures _ (Decoder.ensures_true _) fun _ _ => ⟨nofun, nofun, nofun⟩
  · exact Json.Variant.carrying_ensures _ (Decoder.ensures_true _) fun _ _ => ⟨nofun, nofun, nofun⟩
  · refine Json.Variant.carrying_ensures _ TypeName.decoder_ensures
      fun t parsed => ⟨?_, nofun, nofun⟩
    exact List.forall_mem_singleton.mpr parsed
  · exact Json.Variant.carrying_ensures _ MethodRef.decoder_ensures
      fun _ types => ⟨types, nofun, nofun⟩
  · exact Json.Variant.carrying_ensures _ FieldRef.decoder_ensures
      fun _ types => ⟨types, nofun, nofun⟩
  · refine Json.Variant.carrying_ensures _ InstrId.decoder_ensures fun id fits => ⟨nofun, nofun, ?_⟩
    rintro _ ⟨⟩
    exact fits

theorem Instruction.decoder_ensures :
    record.decoder.Ensures fun i => i.operand.Storable (TypeName.Parsed false) := by
  refine Record.decoder_ensures ⟨nofun, nofun, nofun⟩ (List.forall_iff_forall_mem.mp ⟨?_, ?_⟩)
  · exact Field.required_preserves _ (Decoder.ensures_true _) fun _ _ _ held => held
  · exact Field.optional_preserves _ Operand.decoder_ensures fun _ _ new _ => new

theorem Handler.storable_iff (P : TypeName → Prop) (h : Handler) :
    h.Storable P ↔ (∀ t ∈ h.catchType, P t) ∧ h.tryStart.index < UInt32.size ∧
      h.handlerStart.index < UInt32.size ∧ (∀ id ∈ h.tryEnd, id.index < UInt32.size) ∧
      ∀ id ∈ h.handlerEnd, id.index < UInt32.size := by
  have places : (∀ id ∈ h.starts ++ h.ends, id.index < UInt32.size) ↔
      h.tryStart.index < UInt32.size ∧ h.handlerStart.index < UInt32.size ∧
      (∀ id ∈ h.tryEnd, id.index < UInt32.size) ∧ ∀ id ∈ h.handlerEnd, id.index < UInt32.size := by
    simp [starts, ends, or_imp, forall_and]
  rw [← places]
  exact ⟨fun storable => ⟨storable.types, storable.places⟩, fun parts => ⟨parts.1, parts.2⟩⟩

theorem Handler.decoder_ensures :
    record.decoder.Ensures (Handler.Storable (TypeName.Parsed false)) := by
  have parts : record.decoder.Ensures fun h => (∀ t ∈ h.catchType, t.Parsed false) ∧
      h.tryStart.index < UInt32.size ∧ h.handlerStart.index < UInt32.size ∧
      (∀ id ∈ h.tryEnd, id.index < UInt32.size) ∧ ∀ id ∈ h.handlerEnd, id.index < UInt32.size := by
    refine Record.decoder_ensures ⟨nofun, by decide, by decide, nofun, nofun⟩
      (List.forall_iff_forall_mem.mp ⟨?_, ?_, ?_, ?_, ?_, ?_⟩)
    · exact Field.required_preserves _ (Decoder.ensures_true _) fun _ _ _ held => held
    · exact Field.required_preserves _ InstrId.decoder_ensures
        fun _ _ new held => ⟨held.1, new, held.2.2⟩
    · exact Field.optional_preserves _ InstrId.decoder_ensures.option
        fun _ _ new held => ⟨held.1, held.2.1, held.2.2.1, new, held.2.2.2.2⟩
    · exact Field.required_preserves _ InstrId.decoder_ensures
        fun _ _ new held => ⟨held.1, held.2.1, new, held.2.2.2⟩
    · exact Field.optional_preserves _ InstrId.decoder_ensures.option
        fun _ _ new held => ⟨held.1, held.2.1, held.2.2.1, held.2.2.2.1, new⟩
    · exact Field.optional_preserves _ TypeName.decoder_ensures.option
        fun _ _ new held => ⟨new, held.2⟩
  exact fun levels source h decoded => (storable_iff _ h).mpr (parts levels source h decoded)

theorem StoredBody.decoder_ensures :
    record.decoder.Ensures (StoredBody.Storable (TypeName.Parsed false)) := by
  refine Record.decoder_ensures ⟨nofun, nofun, nofun⟩ (List.forall_iff_forall_mem.mp ⟨?_, ?_, ?_⟩)
  · exact Field.optional_preserves _ Local.decoder_ensures.list
      fun _ _ new held => ⟨new, held.instructions, held.handlers⟩
  · exact Field.required_preserves _ Instruction.decoder_ensures.list
      fun _ _ new held => ⟨held.locals, new, held.handlers⟩
  · exact Field.optional_preserves _ Handler.decoder_ensures.list
      fun _ _ new held => ⟨held.locals, held.instructions, new⟩

/-- A body that was loaded names its instructions by their places. -/
theorem StoredBody.storedPlace_of_toBody {stored : StoredBody} {b : Body}
    (described : stored.toBody = .ok b) {id : InstrId} (live : id ∈ b.order) :
    b.storedPlace id = id := by
  have formed := (sound_of_toBody described).toWellFormed
  have order : b.order = (List.range b.arena.length).map InstrId.mk := by
    rw [((stored.toBody_ok_iff b).mp described).2]
    rfl
  exact Body.storedPlace_eq_self formed order live

/-- The ends of regions that are left open are some of those that were stored. -/
theorem StoredBody.ends_openEnds {size : Nat} {h : Handler} {id : InstrId}
    (named : id ∈ (openEnds size h).ends) : id ∈ h.ends := by
  simp only [Handler.ends, openEnds, liveEnd, List.mem_append, Option.mem_toList,
    Option.filter_eq_some_iff] at named ⊢
  exact named.imp And.left And.left

/-- A body described by storable parts is made of them. -/
theorem StoredBody.fits_of_toBody {P : TypeName → Prop} {stored : StoredBody} {b : Body}
    (storable : stored.Storable P) (described : stored.toBody = .ok b) :
    (∀ t ∈ b.mentioned, P t) ∧ b.Fits := by
  have sound := sound_of_toBody described
  have whole := ((stored.toBody_ok_iff b).mp described).2
  have code : ∀ entry ∈ b.code, entry.2.operand.Storable P := by
    intro entry member
    obtain ⟨-, held⟩ := (b.mem_code_iff entry.1 entry.2).mp member
    rw [Body.get?, whole] at held
    exact storable.instructions entry.2 (List.mem_of_getElem? held)
  have handlers : ∀ h ∈ b.handlers, h.Storable P := by
    intro h member
    rw [whole] at member
    obtain ⟨original, among, rfl⟩ := List.mem_map.mp member
    obtain ⟨types, places⟩ := storable.handlers original among
    refine ⟨types, fun id named => places id ?_⟩
    rcases List.mem_append.mp named with starts | ends
    · exact List.mem_append_left _ starts
    · exact List.mem_append_right _ (ends_openEnds ends)
  constructor
  · have locals : b.locals = stored.locals := by rw [whole]
    simp only [Body.mentioned, List.forall_mem_append, List.forall_mem_map, List.mem_flatMap,
      Option.mem_toList, forall_exists_index, and_imp, locals]
    exact ⟨⟨storable.locals, fun t entry member => (code entry member).types t⟩,
      fun t h member => (handlers h member).types t⟩
  -- Live instructions are named by their places already, so a place fits as its name does.
  · refine ⟨fun entry member => (code entry member).slot, fun entry member t named => ?_,
      fun h member t named => ?_⟩
    · rw [storedPlace_of_toBody described (sound.branch entry member t named)]
      refine (code entry member).target t ?_
      unfold Instruction.target? at named
      split at named
      next target => rw [target, ← Option.some.inj named]
      · cases named
    · have live : t ∈ b.order := (List.mem_append.mp named).elim (sound.start h member t)
        (sound.finish h member t)
      rw [storedPlace_of_toBody described live]
      exact (handlers h member).places t named

theorem Body.decoder_ensures :
    decoder.Ensures fun b => (∀ t ∈ b.mentioned, t.Parsed false) ∧ b.Fits := by
  intro levels source b decoded
  obtain ⟨stored, read, described⟩ := (bind_ok_iff ..).mp decoded
  rw [mapError_ok_iff] at described
  exact StoredBody.fits_of_toBody (StoredBody.decoder_ensures _ _ _ read) described

theorem MethodDef.decoder_ensures :
    record.decoder.Ensures fun m => (∀ t ∈ m.mentioned, t.Parsed false) ∧ ∀ b ∈ m.body, b.Fits := by
  have parts : record.decoder.Ensures fun m => (∀ p ∈ m.params, p.type.Parsed false) ∧
      m.returnType.Parsed false ∧
      ∀ b ∈ m.body, (∀ t ∈ b.mentioned, t.Parsed false) ∧ b.Fits := by
    refine Record.decoder_ensures ⟨nofun, TypeName.parsed_void, nofun⟩
      (List.forall_iff_forall_mem.mp ⟨?_, ?_, ?_, ?_, ?_⟩)
    · exact Field.required_preserves _ (Decoder.ensures_true _) fun _ _ _ held => held
    · exact Field.optional_preserves _ (Decoder.ensures_true _) fun _ _ _ held => held
    · exact Field.optional_preserves _ Parameter.decoder_ensures.list
        fun _ _ new held => ⟨new, held.2⟩
    · exact Field.optional_preserves _ TypeName.decoder_ensures
        fun _ _ new held => ⟨held.1, new, held.2.2⟩
    · exact Field.optional_preserves _ Body.decoder_ensures.option
        fun _ _ new held => ⟨held.1, held.2.1, new⟩
  intro levels source m decoded
  obtain ⟨params, returned, bodies⟩ := parts _ _ _ decoded
  refine ⟨?_, fun b held => (bodies b held).2⟩
  simp only [mentioned, List.forall_mem_cons, List.forall_mem_append, List.forall_mem_map,
    List.mem_flatMap, Option.mem_toList, forall_exists_index, and_imp]
  exact ⟨returned, params, fun t b held => (bodies b held).1 t⟩

theorem TypeDef.decoder_ensures :
    record.decoder.Ensures fun t => (∀ type ∈ t.mentioned, type.Parsed false) ∧
      ∀ m ∈ t.methods, ∀ b ∈ m.body, b.Fits := by
  have named : record.decoder.Ensures fun t => t.name.Parsed false :=
    Record.required_ensures TypeDef.name TypeName.decoder_ensures (.head _) (fun _ _ => rfl)
      ⟨.inl rfl, Field.apart_optional _ fun _ _ => rfl, Field.apart_optional _ fun _ _ => rfl,
        Field.apart_optional _ fun _ _ => rfl, Field.apart_optional _ fun _ _ => rfl⟩ (by decide)
  have parts : record.decoder.Ensures fun t => (∀ f ∈ t.fields, f.type.Parsed false) ∧
      ∀ m ∈ t.methods, (∀ type ∈ m.mentioned, type.Parsed false) ∧ ∀ b ∈ m.body, b.Fits := by
    refine Record.decoder_ensures ⟨nofun, nofun⟩
      (List.forall_iff_forall_mem.mp ⟨?_, ?_, ?_, ?_, ?_⟩)
    · exact Field.required_preserves _ (Decoder.ensures_true _) fun _ _ _ held => held
    · exact Field.optional_preserves _ (Decoder.ensures_true _) fun _ _ _ held => held
    · exact Field.optional_preserves _ (Decoder.ensures_true _) fun _ _ _ held => held
    · exact Field.optional_preserves _ FieldDef.decoder_ensures.list
        fun _ _ new held => ⟨new, held.2⟩
    · exact Field.optional_preserves _ MethodDef.decoder_ensures.list
        fun _ _ new held => ⟨held.1, new⟩
  intro levels source t decoded
  obtain ⟨fields, methods⟩ := parts _ _ _ decoded
  refine ⟨?_, fun m member => (methods m member).2⟩
  simp only [mentioned, List.forall_mem_cons, List.forall_mem_append, List.forall_mem_map,
    List.mem_flatMap, forall_exists_index, and_imp]
  exact ⟨named _ _ _ decoded, fields, fun type m member => (methods m member).1 type⟩

theorem Module.decoder_ensures :
    record.decoder.Ensures fun m => (∀ t ∈ m.mentioned, t.Parsed false) ∧
      ∀ t ∈ m.types, ∀ method ∈ t.methods, ∀ b ∈ method.body, b.Fits := by
  have types : record.decoder.Ensures fun m => ∀ t ∈ m.types,
      (∀ type ∈ t.mentioned, type.Parsed false) ∧
        ∀ method ∈ t.methods, ∀ b ∈ method.body, b.Fits := by
    refine Record.decoder_ensures nofun (List.forall_iff_forall_mem.mp ⟨?_, ?_⟩)
    · exact Field.required_preserves _ (Decoder.ensures_true _) fun _ _ _ held => held
    · exact Field.optional_preserves _ TypeDef.decoder_ensures.list fun _ _ new _ => new
  intro levels source m decoded
  have each := types _ _ _ decoded
  refine ⟨fun type member => ?_, fun t defined => (each t defined).2⟩
  obtain ⟨t, defined, member⟩ := List.mem_flatMap.mp member
  exact (each t defined).1 type member

theorem MethodDef.mentioned_link (m : MethodDef) : m.link.mentioned = m.mentioned := by
  obtain ⟨name, isStatic, params, returnType, body⟩ := m
  cases body <;> rfl

theorem Module.mentioned_link (m : Module) : m.link.mentioned = m.mentioned := by
  have types : ∀ t : TypeDef,
      TypeDef.mentioned { t with methods := t.methods.map MethodDef.link } = t.mentioned := by
    intro t
    simp only [TypeDef.mentioned, List.flatMap_map, MethodDef.mentioned_link]
  simp only [mentioned, link, List.flatMap_map, types]

/-- The receiver flag has no part in how a body is written. -/
theorem Body.Fits.withReceiver {b : Body} (fits : b.Fits) (hasReceiver : Bool) :
    { b with hasReceiver := hasReceiver }.Fits := ⟨fits.slot, fits.branch, fits.bound⟩

/-- Every type name of a loaded module was read, and the numbers in its bodies fit. -/
theorem Module.parsed_of_load {document : Json.Document} {m : Module}
    (loaded : Module.load document = .ok m) :
    (∀ t ∈ m.mentioned, t.Parsed false) ∧ (∀ entry ∈ m.methods, ∀ b ∈ entry.2.body, b.Fits) ∧
      m.validate = .ok () := by
  simp only [Module.load, Decoder.run, bind_ok_iff, mapError_ok_iff, pure_ok_iff] at loaded
  obtain ⟨stored, ⟨_, decoded, ended⟩, _, valid, rfl⟩ := loaded
  split at ended
  · cases ended
    obtain ⟨types, bodies⟩ := Module.decoder_ensures _ _ _ decoded
    -- Linking changes nothing but receiver flags.
    refine ⟨fun t => stored.mentioned_link ▸ types t, fun entry member b held => ?_, ?_⟩
    · simp only [Module.methods, Module.link, List.mem_flatMap, List.mem_map] at member
      obtain ⟨_, ⟨t, defined, rfl⟩, _, linked, rfl⟩ := member
      obtain ⟨method, among, rfl⟩ := List.mem_map.mp linked
      obtain ⟨original, has, rfl⟩ := Option.map_eq_some_iff.mp held
      exact (bodies t defined method among original has).withReceiver _
    · rw [← valid, Module.validate, Module.validate, Module.link, Module.firstDuplicate_map]
      exact fun _ => rfl
  · cases ended

end NativeBridge
