import NativeBridge.Glue.StaticMap
import NativeBridge.Proofs.Nesting
import NativeBridge.Proofs.Success

/-! The names in a static map. They are those of the nodes inside of the first element, which must
be the root, and behind them those of the nodes in all further elements of the document. -/

namespace NativeBridge

namespace Glue

open Xml (Event Tag Forest Document startTags)

/-- A tag has an attribute `Name` whose value spells a name. -/
def Named (tag : Tag) (name : String) : Prop :=
  ∃ value spelled, tag.search "Name" = .found value ∧ Xml.unescape value = some spelled ∧
    name = String.ofList spelled

theorem nodeName_ok_iff (index : Nat) (tag : Tag) (name : String) :
    nodeName index tag = .ok name ↔ Named tag name := by
  unfold nodeName Named
  rcases searched : tag.search "Name" with value | _ | _
  · rcases spelled : Xml.unescape value with _ | chars
    · simp [spelled]
    · simp [spelled, eq_comm]
  · simp
  · simp

/-- The tags of nodes. -/
def nodesAmong (tags : List Tag) : List Tag := tags.filter (·.name = "Node".toList)

section nodes

variable {tag : Tag} {tags : List Tag}

theorem nodesAmong_cons_node (node : tag.name = "Node".toList) :
    nodesAmong (tag :: tags) = tag :: nodesAmong tags :=
  List.filter_cons_of_pos (decide_eq_true node)

theorem nodesAmong_cons_other (other : tag.name ≠ "Node".toList) :
    nodesAmong (tag :: tags) = nodesAmong tags :=
  List.filter_cons_of_neg (by rw [decide_eq_true_eq]; exact other)

theorem nodesAmong_append (front rear : List Tag) :
    nodesAmong (front ++ rear) = nodesAmong front ++ nodesAmong rear :=
  List.filter_append ..

end nodes

section events

variable {event : Event} {events : List Event} {tag : Tag}

theorem nodeNames_node (starts : event.tag? = some tag) (node : tag.name = "Node".toList)
    (index : Nat) : nodeNames index (event :: events) = do
      let name ← nodeName index tag
      let rest ← nodeNames (index + 1) events
      return name :: rest := by
  cases event <;> cases starts <;> exact if_pos node

theorem nodeNames_other (starts : event.tag? = some tag) (other : tag.name ≠ "Node".toList)
    (index : Nat) : nodeNames index (event :: events) = nodeNames index events := by
  cases event <;> cases starts <;> exact if_neg other

theorem namesOf_start (starts : event.tag? = some tag) : namesOf (event :: events) =
    if tag.name = "ObjectNodes".toList then nodeNames 0 events
    else .error (.malformedMap (.wrongRoot (String.ofList tag.name))) := by
  cases event <;> cases starts <;> rfl

theorem broken_mem_cons_start (starts : event.tag? = some tag) :
    .broken ∈ event :: events ↔ .broken ∈ events := by
  cases event <;> cases starts <;> simp

end events

/-- Behind the root, a document is read to its end, and every node has a name. -/
theorem nodeNames_ok_iff (index : Nat) (events : List Event) (names : List String) :
    nodeNames index events = .ok names ↔
      .broken ∉ events ∧ List.Forall₂ Named (nodesAmong (startTags events)) names := by
  induction events generalizing index names with
  | nil => cases names <;> simp [nodeNames, nodesAmong]
  | cons event events ih =>
    rcases starts : event.tag? with _ | tag
    · cases event with
      | opening | single => cases starts
      | closing name => simp [nodeNames, ih]
      | broken => simp [nodeNames]
    rw [broken_mem_cons_start starts, Xml.startTags_cons starts]
    by_cases node : tag.name = "Node".toList
    · rw [nodeNames_node starts node, nodesAmong_cons_node node]
      simp only [Success.bind_ok_iff, Success.pure_ok_iff, nodeName_ok_iff, ih,
        List.forall₂_cons_left_iff]
      constructor
      · rintro ⟨name, named, rest, ⟨sound, others⟩, rfl⟩
        exact ⟨sound, name, rest, named, others, rfl⟩
      · rintro ⟨sound, name, rest, named, others, rfl⟩
        exact ⟨name, named, rest, ⟨sound, others⟩, rfl⟩
    · rw [nodeNames_other starts node, nodesAmong_cons_other node, ih]

/-- The first element is the root, and all others count. -/
theorem namesOf_ok_iff (events : List Event) (names : List String) :
    namesOf events = .ok names ↔ .broken ∉ events ∧
      ∃ root others, startTags events = root :: others ∧ root.name = "ObjectNodes".toList ∧
        List.Forall₂ Named (nodesAmong others) names := by
  induction events with
  | nil => simp [namesOf]
  | cons event events ih =>
    rcases starts : event.tag? with _ | tag
    · cases event with
      | opening | single => cases starts
      | closing name => simp [namesOf, ih]
      | broken => simp [namesOf]
    rw [namesOf_start starts, broken_mem_cons_start starts, Xml.startTags_cons starts]
    constructor
    · intro read
      split at read
      next root =>
        obtain ⟨sound, named⟩ := (nodeNames_ok_iff _ _ _).mp read
        exact ⟨sound, tag, _, rfl, root, named⟩
      next => cases read
    · rintro ⟨sound, root, others, same, rootNamed, named⟩
      cases same
      rw [if_pos rootNamed]
      exact (nodeNames_ok_iff _ _ _).mpr ⟨sound, named⟩

/-- Names are those of the first of two lists of tags alone exactly if the second is empty. -/
theorem forall₂_named_left_iff {front rear : List Tag} {names : List String}
    (named : List.Forall₂ Named (front ++ rear) names) :
    List.Forall₂ Named front names ↔ rear = [] := by
  constructor
  · intro alone
    have total := named.length_eq
    rw [List.length_append, alone.length_eq] at total
    exact List.eq_nil_of_length_eq_zero (by omega)
  · rintro rfl
    simpa using named

/-- A static map is read if the first element of the document is the root and every other node has
a name. The names are those of the nodes inside of the root and behind them those of the nodes in
further elements. So they are those inside of the root exactly if there is no node elsewhere. -/
theorem names_of_static_map (text : String) (names : List String) :
    parseStaticMap text = .ok names ↔
      ∃ root inside behind, Document (Xml.events text) (.element root inside behind) ∧
        root.name = "ObjectNodes".toList ∧
        List.Forall₂ Named (nodesAmong inside.tags ++ nodesAmong behind.tags) names ∧
        (List.Forall₂ Named (nodesAmong inside.tags) names ↔ nodesAmong behind.tags = []) := by
  rw [parseStaticMap, namesOf_ok_iff]
  constructor
  · rintro ⟨sound, root, others, started, rootNamed, named⟩
    obtain ⟨elements, document⟩ := Xml.exists_document sound
    rw [document.startTags_eq] at started
    cases elements with
    | empty => cases started
    | element tag inside behind =>
      obtain ⟨rfl, rfl⟩ := List.cons.inj started
      rw [nodesAmong_append] at named
      exact ⟨tag, inside, behind, document, rootNamed, named, forall₂_named_left_iff named⟩
  · rintro ⟨root, inside, behind, document, rootNamed, named, -⟩
    rw [← nodesAmong_append] at named
    exact ⟨document.sound, root, _, document.startTags_eq, rootNamed, named⟩

/-- A node behind the root counts, although nothing is inside of it. -/
theorem node_behind_root_counts :
    parseStaticMap "<ObjectNodes/><Node Name=\"a\"/>" = .ok ["a"] ∧
      ∀ root inside behind,
        Document (Xml.events "<ObjectNodes/><Node Name=\"a\"/>") (.element root inside behind) →
        ¬ List.Forall₂ Named (nodesAmong inside.tags) ["a"] := by
  refine ⟨by decide +kernel, fun root inside behind document named => ?_⟩
  have parts : Document (Xml.events "<ObjectNodes/><Node Name=\"a\"/>")
      (.element ⟨"ObjectNodes".toList, []⟩ .empty
        (.element ⟨"Node".toList, " Name=\"a\"".toList⟩ .empty .empty)) := by
    have read : Xml.events "<ObjectNodes/><Node Name=\"a\"/>" =
        [.single ⟨"ObjectNodes".toList, []⟩, .single ⟨"Node".toList, " Name=\"a\"".toList⟩] := by
      decide +kernel
    rw [read]
    exact .single (.single .ended)
  cases document.unique parts
  cases named

end Glue

end NativeBridge
