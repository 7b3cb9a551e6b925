import NativeBridge.Proofs.Removals
import NativeBridge.Proofs.Renumbering

/-! Bodies and their stored form. A stored body that is in range describes a body, which is stored
as it was described. A body that has been edited is stored without what is no longer live; whether
its stored form describes a body again depends on its branches and on the starts of its regions. -/

namespace NativeBridge

theorem Handler.starts_mapIds (move : InstrId → InstrId) (h : Handler) :
    (h.mapIds move).starts = h.starts.map move := rfl

theorem Handler.ends_mapIds (move : InstrId → InstrId) (h : Handler) :
    (h.mapIds move).ends = h.ends.map move := by
  simp [ends, mapIds, Option.toList_map]

theorem Handler.mapIds_eq_self {move : InstrId → InstrId} {h : Handler}
    (starts : ∀ t ∈ h.starts, move t = t) (ends : ∀ t ∈ h.ends, move t = t) :
    h.mapIds move = h := by
  simp only [Handler.starts, List.forall_mem_cons] at starts
  simp only [Handler.ends, List.forall_mem_append, Option.mem_toList] at ends
  have kept : ∀ e : Option InstrId, (∀ t, e = some t → move t = t) → e.map move = e := by
    rintro (_ | t) fixed
    · rfl
    · rw [Option.map_some, fixed t rfl]
  rw [mapIds, starts.1, starts.2.1, kept _ ends.1, kept _ ends.2]

/-- A handler without the ends that name a given place. -/
def Handler.withoutEnd (place : Nat) (h : Handler) : Handler :=
  { h with
    tryEnd := h.tryEnd.filter (·.index ≠ place)
    handlerEnd := h.handlerEnd.filter (·.index ≠ place) }

/-- A stored body whose regions leave out their end instead of naming the place behind the last
instruction. -/
def StoredBody.withoutFinalEnds (b : StoredBody) : StoredBody :=
  { b with handlers := b.handlers.map (·.withoutEnd b.instructions.length) }

namespace Body

/-- The place of a live instruction, as the identity that it has in the stored form. -/
def place? (b : Body) (id : InstrId) : Option InstrId := (b.position? id).map InstrId.mk

/-- A body that holds the live instructions of another and nothing else. They are named by their
places, and so are they in branches and handlers. -/
structure Compacts (c b : Body) : Prop where
  order : c.order = (List.range b.size).map InstrId.mk
  locals : c.locals = b.locals
  receiver : c.hasReceiver = false
  code : List.Forall₂ (fun entry i => entry.2.LedTo b.place? i) b.code c.arena
  handlers : List.Forall₂ (fun h g => h.LedTo b.place? g) b.handlers c.handlers

section places

variable {b : Body} {id : InstrId}

theorem place?_of_live (live : id ∈ b.order) : b.place? id = some (b.storedPlace id) := by
  obtain ⟨place, found⟩ := (b.position?_isSome_iff id).mpr live
  rw [place?, found, storedPlace_of_position found, Option.map_some]

theorem position?_of_not_live (gone : id ∉ b.order) : b.position? id = none := by
  rwa [← b.position?_isSome_iff id, ← Option.isSome_iff_exists,
    Option.not_isSome_iff_eq_none] at gone

theorem storedPlace_of_not_live (gone : id ∉ b.order) : b.storedPlace id = ⟨b.size⟩ := by
  rw [storedPlace, position?_of_not_live gone, Option.getD_none]

theorem storedPlace_lt_iff : (b.storedPlace id).index < b.size ↔ id ∈ b.order := by
  refine ⟨fun inside => ?_, storedPlace_lt⟩
  by_contra gone
  rw [storedPlace_of_not_live gone] at inside
  exact Nat.lt_irrefl _ inside

theorem storedPlace_le : (b.storedPlace id).index ≤ b.size := by
  by_cases live : id ∈ b.order
  · exact Nat.le_of_lt (storedPlace_lt live)
  · rw [storedPlace_of_not_live live]

/-- An end that is no longer live comes back as no end. -/
theorem liveEnd_stored (finish : Option InstrId) :
    StoredBody.liveEnd b.size (finish.map b.storedPlace) = finish.bind b.place? := by
  cases finish with
  | none => rfl
  | some t =>
    rw [Option.map_some, Option.bind_some, StoredBody.liveEnd]
    by_cases live : t ∈ b.order
    · simp [place?_of_live live, storedPlace_lt live]
    · -- It is stored as the place behind the last instruction, which is taken for the end.
      simp [storedPlace_of_not_live live, place?, position?_of_not_live live]

end places

/-- The stored form is in range when branches and starts are live. Its ends always are. -/
theorem inRange_toStored_iff {b : Body} (formed : b.WellFormed) :
    b.toStored.InRange ↔
      (∀ entry ∈ b.code, ∀ t, entry.2.target? = some t → t ∈ b.order) ∧
        ∀ h ∈ b.handlers, ∀ t ∈ h.starts, t ∈ b.order := by
  have length := length_stored formed
  constructor
  · intro inside
    refine ⟨fun entry member t named => ?_, fun h member t named => ?_⟩
    · rw [← storedPlace_lt_iff, ← length]
      refine inside.branch _ (List.mem_map_of_mem member) _ ?_
      rw [Instruction.target?_mapTarget, named, Option.map_some]
    · rw [← storedPlace_lt_iff, ← length]
      refine inside.start _ (List.mem_map_of_mem member) _ ?_
      exact List.mem_map_of_mem named
  · rintro ⟨branches, starts⟩
    refine ⟨fun i member t named => ?_, fun h member t named => ?_, fun h member t named => ?_⟩
    · obtain ⟨entry, there, rfl⟩ := List.mem_map.mp member
      rw [Instruction.target?_mapTarget, Option.map_eq_some_iff] at named
      obtain ⟨t, named, rfl⟩ := named
      exact length ▸ storedPlace_lt (branches entry there t named)
    · obtain ⟨h, there, rfl⟩ := List.mem_map.mp member
      rw [Handler.starts_mapIds, List.mem_map] at named
      obtain ⟨t, named, rfl⟩ := named
      exact length ▸ storedPlace_lt (starts h there t named)
    · -- An end that is not live is stored as the length, which an end may be.
      obtain ⟨h, there, rfl⟩ := List.mem_map.mp member
      rw [Handler.ends_mapIds, List.mem_map] at named
      obtain ⟨t, named, rfl⟩ := named
      exact length ▸ storedPlace_le

/-- What a body comes back as from its stored form, and when. -/
theorem toBody_toStored_ok_iff {b : Body} (formed : b.WellFormed) (c : Body) :
    b.toStored.toBody = .ok c ↔
      ((∀ entry ∈ b.code, ∀ t, entry.2.target? = some t → t ∈ b.order) ∧
        ∀ h ∈ b.handlers, ∀ t ∈ h.starts, t ∈ b.order) ∧
      c = { b.renumber with
        handlers := b.toStored.handlers.map (StoredBody.openEnds b.size)
        hasReceiver := false } := by
  rw [StoredBody.toBody_ok_iff, inRange_toStored_iff formed, length_stored formed]
  rfl

theorem compacts_of_toBody {b c : Body} (formed : b.WellFormed)
    (described : b.toStored.toBody = .ok c) : c.Compacts b := by
  obtain ⟨⟨branches, starts⟩, rfl⟩ := (toBody_toStored_ok_iff formed c).mp described
  refine ⟨order_renumber formed, rfl, rfl, ?_, ?_⟩
  · change List.Forall₂ _ _ (b.code.map fun entry => entry.2.mapTarget b.storedPlace)
    rw [List.forall₂_map_right_iff, List.forall₂_same]
    intro entry member
    exact Instruction.ledTo_mapTarget fun t named => place?_of_live (branches entry member t named)
  · dsimp only [toStored]
    rw [List.map_map, List.forall₂_map_right_iff, List.forall₂_same]
    intro h member
    have starts := starts h member
    exact ⟨rfl, rfl, place?_of_live (starts _ (by simp [Handler.starts])), liveEnd_stored _,
      place?_of_live (starts _ (by simp [Handler.starts])), liveEnd_stored _⟩

section numbered

variable {b : Body}

/-- A body whose identities are the places of its arena has the arena as its code. -/
theorem map_snd_code (formed : b.WellFormed)
    (order : b.order = (List.range b.arena.length).map InstrId.mk) :
    b.code.map (·.2) = b.arena := by
  rw [code_eq_map formed, order, List.map_map, List.map_map]
  refine List.ext_getElem (by simp) fun place _ inside => ?_
  simp [get?, inside]

theorem storedPlace_eq_self (formed : b.WellFormed)
    (order : b.order = (List.range b.arena.length).map InstrId.mk) {id : InstrId}
    (live : id ∈ b.order) : b.storedPlace id = id := by
  have found : b.position? id = some id.index := by
    rw [position?_eq_some_iff formed, order, List.getElem?_map,
      List.getElem?_range (formed.present id live)]
    rfl
  exact storedPlace_of_position found

/-- Such a body is stored as it is. -/
theorem toStored_of_numbered (sound : b.Sound)
    (order : b.order = (List.range b.arena.length).map InstrId.mk) :
    b.toStored = ⟨b.locals, b.arena, b.handlers⟩ := by
  have fixed : ∀ t ∈ b.order, b.storedPlace t = t :=
    fun t live => storedPlace_eq_self sound.toWellFormed order live
  have instructions : b.toStored.instructions = b.arena := by
    rw [← map_snd_code sound.toWellFormed order]
    refine List.map_congr_left fun entry member => ?_
    exact Instruction.mapTarget_eq_self fun t named => fixed t (sound.branch entry member t named)
  have handlers : b.toStored.handlers = b.handlers := by
    refine (List.map_congr_left fun h member => ?_).trans (List.map_id _)
    exact Handler.mapIds_eq_self (fun t named => fixed t (sound.start h member t named))
      fun t named => fixed t (sound.finish h member t named)
  calc b.toStored
      = ⟨b.locals, b.toStored.instructions, b.toStored.handlers⟩ := rfl
    _ = ⟨b.locals, b.arena, b.handlers⟩ := by rw [instructions, handlers]

end numbered

end Body

namespace StoredBody

/-- An end in range is below the count, and kept, or equal to it, and left out. -/
theorem liveEnd_eq_filter {size : Nat} {finish : Option InstrId}
    (bounded : ∀ t ∈ finish, t.index ≤ size) :
    liveEnd size finish = finish.filter (·.index ≠ size) := by
  cases finish with
  | none => rfl
  | some t =>
    have bounded := bounded t rfl
    simp [liveEnd, Option.filter_some, Nat.lt_iff_le_and_ne, bounded]

theorem toStored_of_toBody {stored : StoredBody} {b : Body} (described : stored.toBody = .ok b) :
    b.toStored = stored.withoutFinalEnds := by
  have sound := sound_of_toBody described
  obtain ⟨inside, rfl⟩ := (stored.toBody_ok_iff b).mp described
  rw [Body.toStored_of_numbered sound rfl]
  refine congrArg (StoredBody.mk stored.locals stored.instructions) ?_
  refine List.map_congr_left fun h member => ?_
  have ends := inside.finish h member
  simp only [Handler.ends, List.forall_mem_append, Option.mem_toList] at ends
  rw [openEnds, liveEnd_eq_filter ends.1, liveEnd_eq_filter ends.2, Handler.withoutEnd]

/-- Storing and describing undo each other. A stored body describes a body exactly if it is in
range, and that body is stored as it was described, up to ends that name the place behind the last
instruction. The stored form of a body, however it has been edited, describes a body exactly if no
branch and no start of a region has lost its instruction, and that body is the compact one. -/
theorem stored_form_round_trips :
    (∀ stored : StoredBody, ((∃ b, stored.toBody = .ok b) ↔ stored.InRange) ∧
      ∀ b, stored.toBody = .ok b → b.toStored = stored.withoutFinalEnds) ∧
    ∀ b : Body, b.WellFormed →
      ((∃ c, b.toStored.toBody = .ok c) ↔
        (∀ entry ∈ b.code, ∀ t, entry.2.target? = some t → t ∈ b.order) ∧
          ∀ h ∈ b.handlers, ∀ t ∈ h.starts, t ∈ b.order) ∧
      ∀ c, b.toStored.toBody = .ok c → c.Compacts b := by
  refine ⟨fun stored => ⟨?_, fun b => toStored_of_toBody⟩,
    fun b formed => ⟨?_, fun c => Body.compacts_of_toBody formed⟩⟩
  · simp only [toBody_ok_iff, exists_and_left, exists_eq, and_true]
  · simp only [Body.toBody_toStored_ok_iff formed, exists_and_left, exists_eq, and_true]

/-- A body of four instructions of which the first two have changed places and the third is gone,
with a branch to the first and a region that ended at the one that is gone. -/
def sampleEdited : Body where
  arena := [⟨.nop, .none⟩, ⟨.br, .target ⟨0⟩⟩, ⟨.pop, .none⟩, ⟨.ret, .none⟩]
  order := [⟨1⟩, ⟨0⟩, ⟨3⟩]
  handlers :=
    [{ kind := .finalizing, tryStart := ⟨1⟩, tryEnd := some ⟨0⟩, handlerStart := ⟨0⟩,
       handlerEnd := some ⟨2⟩ }]

/-- Its stored form has the place behind the last instruction as that end. The body that comes back
has no end there, and is stored without one. -/
theorem stored_form_round_trips_sample :
    ∃ c, sampleEdited.toStored.toBody = .ok c ∧ c.Compacts sampleEdited ∧
      sampleEdited.toStored.handlers.map (·.handlerEnd) = [some ⟨3⟩] ∧
      c.handlers.map (·.handlerEnd) = [none] ∧ c.arena[0]? = some ⟨.br, .target ⟨1⟩⟩ ∧
      c.toStored = sampleEdited.toStored.withoutFinalEnds := by
  let c := sampleEdited.toStored.toBody.toOption.getD default
  have described : sampleEdited.toStored.toBody = .ok c := by decide +kernel
  obtain ⟨describing, storing⟩ := stored_form_round_trips
  exact ⟨c, described, (storing sampleEdited (by decide)).2 c described, by decide +kernel,
    by decide +kernel, by decide +kernel, (describing _).2 c described⟩

end StoredBody

end NativeBridge
