import NativeBridge.Json.Decoder
import NativeBridge.Proofs.JsonText
import NativeBridge.Proofs.Success

/-! Decoders applied to what was written. A record is written with its members in the order of its
fields, without those that hold their default, and reads back field by field. -/

namespace NativeBridge.Json

open Success

variable {α β γ : Type}

/-- A decoder reads a document as a value wherever arrays and objects may still nest `depth`
deep. -/
def Decoder.Reads (decoder : Decoder α) (depth : Nat) (document : Json) (value : α) : Prop :=
  ∀ levels, depth ≤ levels → decoder levels document.source = .ok value

namespace Decoder

variable {decoder : Decoder α} {depth : Nat} {document : Json} {value : α}

theorem Reads.mono {deeper : Nat} (reads : decoder.Reads depth document value)
    (le : depth ≤ deeper) : decoder.Reads deeper document value :=
  fun levels enough => reads levels (Nat.le_trans le enough)

theorem reads_string (text : String) : string.Reads 0 (.string text) text := fun _ _ => rfl

theorem reads_bool (value : Bool) : bool.Reads 0 (.bool value) value := fun _ _ => rfl

theorem reads_integer {least greatest n : Int} (expected : String) (above : least ≤ n)
    (below : n ≤ greatest) (word : -(Nat.pow 2 63 : Int) ≤ n ∧ n < Nat.pow 2 64) :
    (integer least greatest expected).Reads 0 (.int n) n := by
  intro levels _
  simp only [source, integer, value_numeralOf word.1 word.2]
  rw [if_pos ⟨above, below⟩]

theorem reads_natural {n bound : Nat} (expected : String) (fits : n < bound)
    (word : bound ≤ Nat.pow 2 64) :
    Reads (fun levels source => (integer 0 (bound - 1) expected levels source).map Int.toNat) 0
      (.int n) n := by
  intro levels enough
  have read : (integer 0 (bound - 1) expected).Reads 0 (.int n) n :=
    reads_integer expected (by omega) (by omega) (by omega)
  exact congrArg (Except.map Int.toNat) (read levels enough)

theorem reads_nat16 {n : Nat} (fits : n < UInt16.size) : nat16.Reads 0 (.int n) n :=
  reads_natural "u16" fits (by decide)

theorem reads_nat32 {n : Nat} (fits : n < UInt32.size) : nat32.Reads 0 (.int n) n :=
  reads_natural "u32" fits (by decide)

theorem reads_int32 (n : Int32) : int32.Reads 0 (.int n.toInt) n := by
  intro levels enough
  have least := n.le_toInt
  have greatest := n.toInt_lt
  have read : (integer (-(Nat.pow 2 31 : Int)) (Nat.pow 2 31 - 1) "i32").Reads 0 (.int n.toInt)
      n.toInt :=
    reads_integer "i32" least (by change n.toInt ≤ 2 ^ 31 - 1; omega)
      (by change -(2 ^ 63 : Int) ≤ n.toInt ∧ n.toInt < 2 ^ 64; omega)
  rw [int32, read levels enough]
  exact congrArg Except.ok (Int32.ofInt_toInt n)

theorem reads_int64 (n : Int64) : int64.Reads 0 (.int n.toInt) n := by
  intro levels enough
  have least := n.le_toInt
  have greatest := n.toInt_lt
  have read : (integer (-(Nat.pow 2 63 : Int)) (Nat.pow 2 63 - 1) "i64").Reads 0 (.int n.toInt)
      n.toInt :=
    reads_integer "i64" least (by change n.toInt ≤ 2 ^ 63 - 1; omega)
      (by change -(2 ^ 63 : Int) ≤ n.toInt ∧ n.toInt < 2 ^ 64; omega)
  rw [int64, read levels enough]
  exact congrArg Except.ok (Int64.ofInt_toInt n)

theorem reads_parsed {parse : String → Except String α} {text : String}
    (parses : parse text = .ok value) : (parsed parse).Reads 0 (.string text) value := by
  intro levels _
  rw [parsed, reads_string text levels (Nat.zero_le _), ok_bind, parses]
  rfl

theorem reads_null : (option decoder).Reads 0 .null none := fun _ _ => rfl

theorem Reads.option (reads : decoder.Reads depth document value)
    (present : document.source ≠ .null) : (option decoder).Reads depth document (some value) := by
  intro levels enough
  unfold Decoder.option
  split
  next null => exact absurd null present
  next => exact congrArg (Except.map some) (reads _ enough)

theorem deeper_of_le {levels : Nat} {inner : Nat → Except DecodeError α} (deep : depth + 1 ≤ levels)
    (reads : ∀ levels, depth ≤ levels → inner levels = .ok value) :
    deeper levels inner = .ok value := by
  cases levels with
  | zero => omega
  | succ levels => exact reads levels (by omega)

theorem itemSources_eq (items : List Json) : itemSources items = items.map source := by
  induction items with
  | nil => rfl
  | cons item items ih => rw [itemSources, ih, List.map_cons]

/-- A list reads item by item. -/
theorem reads_list {write : β → Json} {make : β → α} {items : List β}
    (each : ∀ item ∈ items, decoder.Reads depth (write item) (make item)) :
    (list decoder).Reads (depth + 1) (.array (items.map write)) (items.map make) := by
  intro levels enough
  refine deeper_of_le enough fun levels enough => ?_
  rw [itemSources_eq, mapM_ok_iff, List.map_map]
  induction items with
  | nil => exact .nil
  | cons item items ih =>
    exact .cons (each item List.mem_cons_self levels enough)
      (ih fun item member => each item (List.mem_cons_of_mem _ member))

/-- The name of a variant reads as that variant. -/
theorem reads_unit {variants : List (Variant α)} {name : String}
    (known : variants.find? (·.name == name) = some (.unit name value)) :
    (sum variants).Reads 0 (.string name) value := by
  intro levels _
  simp only [source, sum, known]
  rfl

/-- An object with the name of a variant reads as that variant. -/
theorem Reads.carrying {variants : List (Variant β)} {name : String} {make : α → β}
    (reads : decoder.Reads depth document value)
    (known : variants.find? (·.name == name) = some (.carrying name decoder make)) :
    (sum variants).Reads (depth + 1) (.object [(name, document)]) (make value) := by
  intro levels enough
  refine deeper_of_le enough fun levels enough => ?_
  simp only [memberSources, known, ok_bind, Variant.carrying, reads levels enough]
  rfl

/-- A document that is read as a whole. -/
theorem run_of_reads (reads : decoder.Reads depth document value) (shallow : depth ≤ nestingLimit) :
    decoder.run (read document.pretty) = .ok value := by
  rw [run, read_pretty, reads _ shallow]
  rfl

end Decoder

/-- The members of an object fill the fields of a record in order; fields that need not be present
may be passed over. -/
inductive Fills (levels : Nat) : List (Field α) → List (String × Json) → α → α → Prop
  | nil (value : α) : Fills levels [] [] value value
  | given {field : Field α} {fields : List (Field α)} {document : Json}
      {members : List (String × Json)} {before between after : α} :
      field.read levels document.source before = .ok between →
      Fills levels fields members between after →
      Fills levels (field :: fields) ((field.name, document) :: members) before after
  | omitted {field : Field α} {fields : List (Field α)} {members : List (String × Json)}
      {before after : α} :
      field.mandatory = false → Fills levels fields members before after →
      Fills levels (field :: fields) members before after

namespace Fills

variable {levels depth : Nat} {fields : List (Field α)} {members : List (String × Json)}
  {decoder : Decoder β} {set : β → α → α} {name : String} {document : Json}
  {before after : α} {value : β}

theorem required (reads : decoder.Reads depth document value) (enough : depth ≤ levels)
    (rest : Fills levels fields members (set value before) after) :
    Fills levels (.required name decoder set :: fields) ((name, document) :: members)
      before after := by
  have read : (Field.required name decoder set).read levels document.source before =
      .ok (set value before) := congrArg (Except.map _) (reads levels enough)
  exact .given read rest

theorem optional (reads : decoder.Reads depth document value) (enough : depth ≤ levels)
    (rest : Fills levels fields members (set value before) after) :
    Fills levels (.optional name decoder set :: fields) ((name, document) :: members)
      before after := by
  have read : (Field.optional name decoder set).read levels document.source before =
      .ok (set value before) := congrArg (Except.map _) (reads levels enough)
  exact .given read rest

/-- A flag that is left out when it is not set. -/
theorem flag {shown : Bool} {set : Bool → α → α} (same : set false before = before)
    (rest : Fills levels fields members (set shown before) after) :
    Fills levels (.optional name .bool set :: fields)
      ((if shown then [(name, .bool true)] else []) ++ members) before after := by
  cases shown with
  | true => exact optional (Decoder.reads_bool true) (Nat.zero_le _) rest
  | false =>
    rw [same] at rest
    exact .omitted rfl rest

/-- A list that is left out when it is empty. -/
theorem items {items : List γ} {decoder : Decoder β} {write : γ → Json} {make : γ → β}
    {set : List β → α → α} (each : ∀ item ∈ items, decoder.Reads depth (write item) (make item))
    (enough : depth + 1 ≤ levels) (same : set [] before = before)
    (rest : Fills levels fields members (set (items.map make) before) after) :
    Fills levels (.optional name (.list decoder) set :: fields)
      ((if items.isEmpty then [] else [(name, .array (items.map write))]) ++ members)
      before after := by
  cases items with
  | nil =>
    rw [List.map_nil, same] at rest
    exact .omitted rfl rest
  | cons item items => exact optional (Decoder.reads_list each) enough rest

/-- A value that is left out when there is none. -/
theorem held {shown : List (String × Json)} (held : Option γ) {decoder : Decoder β}
    {write : γ → Json} {make : γ → β} {set : Option β → α → α}
    (written : shown = (held.map fun x => (name, write x)).toList)
    (each : ∀ x ∈ held, decoder.Reads depth (write x) (make x) ∧ (write x).source ≠ .null)
    (enough : depth ≤ levels) (same : set none before = before)
    (rest : Fills levels fields members (set (held.map make) before) after) :
    Fills levels (.optional name (.option decoder) set :: fields) (shown ++ members)
      before after := by
  subst written
  cases held with
  | none =>
    rw [Option.map_none, same] at rest
    exact .omitted rfl rest
  | some x => exact optional ((each x rfl).1.option (each x rfl).2) enough rest

theorem ended (fills : Fills levels fields (members ++ []) before after) :
    Fills levels fields members before after := by
  rwa [List.append_nil] at fills

end Fills

section records

variable {record : Record α} {levels : Nat}

theorem find_field {fields : List (Field α)} (distinct : (fields.map (·.name)).Nodup)
    {field : Field α} (member : field ∈ fields) :
    fields.find? (·.name == field.name) = some field := by
  induction fields with
  | nil => cases member
  | cons first fields ih =>
    rw [List.map_cons, List.nodup_cons] at distinct
    rcases List.mem_cons.mp member with rfl | member
    · simp
    · have other : first.name ≠ field.name := fun same =>
        distinct.1 (same ▸ List.mem_map_of_mem member)
      rw [List.find?_cons_of_neg (by simpa using other)]
      exact ih distinct.2 member

/-- Members that fill the fields still to come are read one by one. The fields before them have been
seen as far as they must be present. -/
theorem ofMembers_of_fills (distinct : (record.fields.map (·.name)).Nodup)
    {fields : List (Field α)} {members : List (String × Json)} {before after : α}
    (fills : Fills levels fields members before after) :
    ∀ (front : List (Field α)) (seen : List String), record.fields = front ++ fields →
      (∀ name ∈ seen, name ∈ front.map (·.name)) →
      (∀ field ∈ front, field.mandatory = true → field.name ∈ seen) →
      record.ofMembers levels seen (memberSources members) before = .ok after := by
  induction fills with
  | nil value =>
    intro front seen whole _ present
    rw [List.append_nil] at whole
    have complete : record.fields.find?
        (fun field => field.mandatory && !seen.contains field.name) = none := by
      rw [List.find?_eq_none, whole]
      intro field member
      simpa using present field member
    simp only [memberSources, Record.ofMembers, complete]
  | @given field fields document members before between after read _ ih =>
    intro front seen whole known present
    have member : field ∈ record.fields := by simp [whole]
    have found := find_field distinct member
    -- A field still to come has another name than every field before it.
    have fresh : field.name ∉ seen := by
      intro already
      rw [whole, List.map_append, List.map_cons, List.nodup_append] at distinct
      exact distinct.2.2 _ (known _ already) _ List.mem_cons_self rfl
    rw [memberSources, Record.ofMembers, found]
    simp only [List.contains_eq_mem, fresh, decide_false, Bool.false_eq_true, if_false, read,
      ok_bind]
    apply ih (front ++ [field])
    · rw [whole, List.append_assoc, List.singleton_append]
    · intro name seen
      rcases List.mem_cons.mp seen with rfl | seen
      · simp
      · exact List.mem_map.mpr (by simpa using Or.inl (List.mem_map.mp (known name seen)))
    · intro other among mandatory
      rcases List.mem_append.mp among with earlier | last
      · exact List.mem_cons_of_mem _ (present other earlier mandatory)
      · rw [List.mem_singleton.mp last]
        exact List.mem_cons_self
  | @omitted field fields members before after free _ ih =>
    intro front seen whole known present
    apply ih (front ++ [field])
    · rw [whole, List.append_assoc, List.singleton_append]
    · intro name seen
      rw [List.map_append]
      exact List.mem_append_left _ (known name seen)
    · intro other among mandatory
      rcases List.mem_append.mp among with earlier | last
      · exact present other earlier mandatory
      · rw [List.mem_singleton.mp last, free] at mandatory
        cases mandatory

/-- A record reads from the object that fills its fields. -/
theorem Record.decoder_reads {depth : Nat} {members : List (String × Json)} {value : α}
    (distinct : (record.fields.map (·.name)).Nodup)
    (fills : ∀ levels, depth ≤ levels → Fills levels record.fields members record.blank value) :
    record.decoder.Reads (depth + 1) (.object members) value := by
  intro levels enough
  refine Decoder.deeper_of_le enough fun levels enough => ?_
  exact ofMembers_of_fills distinct (fills levels enough) [] [] rfl nofun nofun

end records

end NativeBridge.Json
