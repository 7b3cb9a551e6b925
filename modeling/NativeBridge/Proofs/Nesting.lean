import NativeBridge.Xml.Event
import Mathlib.Data.List.Basic

/-! The elements of a document. Its events are those of elements that nest: what stands between a
start tag and the end tag that matches it is inside of the element. Elements that are open at the
end hold all that is left. There is one way only to see events as elements, and whatever is read
from a text without a fault can be seen so. -/

namespace NativeBridge.Xml

/-- Elements side by side: the first with those inside of it, and those behind it. -/
inductive Forest where
  | empty
  | element (tag : Tag) (inside behind : Forest)

/-- The tags of all elements, in the order of the document. -/
def Forest.tags : Forest → List Tag
  | .empty => []
  | .element tag inside behind => tag :: (inside.tags ++ behind.tags)

/-- Events begin with elements side by side, behind which an end tag follows or nothing. -/
inductive Spells : List Event → Forest → List Event → Prop where
  | ended : Spells [] .empty []
  | stopped (name : List Char) (rest : List Event) :
      Spells (.closing name :: rest) .empty (.closing name :: rest)
  | single {tag : Tag} {events rest : List Event} {behind : Forest} :
      Spells events behind rest → Spells (.single tag :: events) (.element tag .empty behind) rest
  | closed {tag : Tag} {events later rest : List Event} {inside behind : Forest} :
      Spells events inside (.closing tag.name :: later) → Spells later behind rest →
      Spells (.opening tag :: events) (.element tag inside behind) rest
  | unclosed {tag : Tag} {events : List Event} {inside : Forest} :
      Spells events inside [] → Spells (.opening tag :: events) (.element tag inside .empty) []

/-- Events are those of a whole document with some elements. -/
def Document (events : List Event) (elements : Forest) : Prop := Spells events elements []

variable {events rest : List Event} {elements : Forest}

theorem Spells.unique {others : Forest} {rest' : List Event} (spelled : Spells events elements rest)
    (again : Spells events others rest') : elements = others ∧ rest = rest' := by
  induction spelled generalizing others rest' with
  | ended => cases again; exact ⟨rfl, rfl⟩
  | stopped => cases again; exact ⟨rfl, rfl⟩
  | single _ ih =>
    cases again with
    | single behind =>
      obtain ⟨rfl, rfl⟩ := ih behind
      exact ⟨rfl, rfl⟩
  | closed _ _ ihInside ihBehind =>
    cases again with
    | closed inside behind =>
      obtain ⟨rfl, same⟩ := ihInside inside
      cases same
      obtain ⟨rfl, rfl⟩ := ihBehind behind
      exact ⟨rfl, rfl⟩
    | unclosed inside => cases (ihInside inside).2
  | unclosed _ ih =>
    cases again with
    | closed inside _ => cases (ih inside).2
    | unclosed inside =>
      obtain ⟨rfl, -⟩ := ih inside
      exact ⟨rfl, rfl⟩

theorem Document.unique {others : Forest} (document : Document events elements)
    (again : Document events others) : elements = others :=
  (Spells.unique document again).1

/-- The tag with which an event starts an element. -/
def Event.tag? : Event → Option Tag
  | .opening tag => some tag
  | .single tag => some tag
  | .closing _ => none
  | .broken => none

/-- The tags that start elements, in the order of the events. -/
def startTags (events : List Event) : List Tag := events.filterMap Event.tag?

@[simp] theorem startTags_nil : startTags [] = [] := rfl

@[simp] theorem startTags_opening (tag : Tag) (events : List Event) :
    startTags (.opening tag :: events) = tag :: startTags events := rfl

@[simp] theorem startTags_single (tag : Tag) (events : List Event) :
    startTags (.single tag :: events) = tag :: startTags events := rfl

@[simp] theorem startTags_closing (name : List Char) (events : List Event) :
    startTags (.closing name :: events) = startTags events := rfl

theorem startTags_cons {event : Event} {tag : Tag} (starts : event.tag? = some tag)
    (events : List Event) : startTags (event :: events) = tag :: startTags events :=
  List.filterMap_cons_some starts

/-- Elements nest in the order in which they start. -/
theorem Spells.startTags_eq (spelled : Spells events elements rest) :
    startTags events = elements.tags ++ startTags rest := by
  induction spelled with
  | ended => rfl
  | stopped => rfl
  | single _ ih => simp [Forest.tags, ih]
  | closed _ _ ihInside ihBehind => simp [Forest.tags, ihInside, ihBehind]
  | unclosed _ ih => simp [Forest.tags, ih]

theorem Document.startTags_eq (document : Document events elements) :
    startTags events = elements.tags := by
  simpa using Spells.startTags_eq document

theorem Spells.broken_of_mem (spelled : Spells events elements rest) (fault : .broken ∈ events) :
    .broken ∈ rest := by
  induction spelled with
  | ended => exact fault
  | stopped => exact fault
  | single _ ih => exact ih (by simpa using fault)
  | closed _ _ ihInside ihBehind =>
    have later := ihInside (by simpa using fault)
    exact ihBehind (by simpa using later)
  | unclosed _ ih => exact ih (by simpa using fault)

theorem Document.sound (document : Document events elements) : .broken ∉ events :=
  fun fault => List.not_mem_nil (Spells.broken_of_mem document fault)

/-- Events that stand inside of open elements, whose names are given from the innermost on: elements
side by side up to the end tag of the innermost one, and so on outwards. -/
inductive Layers : List (List Char) → List Event → Prop where
  | last {opened : List (List Char)} {events : List Event} {elements : Forest} :
      Document events elements → Layers opened events
  | more {name : List Char} {opened : List (List Char)} {events later : List Event}
      {elements : Forest} :
      Spells events elements (.closing name :: later) → Layers opened later →
      Layers (name :: opened) events

variable {opened : List (List Char)}

theorem Layers.closing (name : List Char) (layers : Layers opened events) :
    Layers (name :: opened) (.closing name :: events) :=
  .more (.stopped name events) layers

theorem Layers.single (tag : Tag) (layers : Layers opened events) :
    Layers opened (.single tag :: events) := by
  cases layers with
  | last document => exact .last (Spells.single document)
  | more spelled later => exact .more (.single spelled) later

/-- The innermost layer becomes the inside of the element that a tag opens. -/
theorem Layers.opening {tag : Tag} (layers : Layers (tag.name :: opened) events) :
    Layers opened (.opening tag :: events) := by
  cases layers with
  | last document => exact .last (Spells.unclosed document)
  | more inside later =>
    cases later with
    | last document => exact .last (Spells.closed inside document)
    | more behind later => exact .more (.closed inside behind) later

/-- Reading goes on inside of the elements that are open. -/
theorem layers_eventsWithin (fuel : Nat) (opened : List (List Char)) (text : List Char)
    (sound : .broken ∉ eventsWithin fuel opened text) :
    Layers opened (eventsWithin fuel opened text) := by
  fun_induction eventsWithin fuel opened text with
  | case1 | case2 => exact .last .ended
  | case3 | case5 | case8 | case9 | case10 => exact absurd List.mem_cons_self sound
  | case4 | case6 =>
    -- Comments and instructions leave no event.
    rename_i ih
    exact ih sound
  | case7 =>
    rename_i ih
    exact (ih (List.not_mem_of_not_mem_cons sound)).closing _
  | case11 =>
    rename_i ih
    exact (ih (List.not_mem_of_not_mem_cons sound)).single _
  | case12 =>
    rename_i ih
    exact (ih (List.not_mem_of_not_mem_cons sound)).opening

/-- What is read from a text without a fault is a document. -/
theorem exists_document {text : String} (sound : .broken ∉ Xml.events text) :
    ∃ elements, Document (Xml.events text) elements := by
  cases layers_eventsWithin _ [] _ sound with
  | last document => exact ⟨_, document⟩

end NativeBridge.Xml
