import NativeBridge.Proofs.TypeText

/-! Reading the text of a type that was read. The same type comes back unless a part of it has no
namespace and a name that begins with a blank. Such a name was read behind a dot, which its text
does not show, and without the dot the blank is trimmed away. -/

namespace NativeBridge.TypeName

open Success

/-- A type of the global namespace whose name begins with a blank. -/
def BeginsBlank (t : TypeName) : Prop :=
  t.space = "" ∧ ∃ c, t.name.toList.head? = some c ∧ Text.isBlank c = true

theorem not_beginsBlank_iff (t : TypeName) :
    ¬ t.BeginsBlank ↔ (t.space.toList = [] → t.name.toList.head?.any Text.isBlank = false) := by
  rw [BeginsBlank, ← String.toList_eq_nil_iff, not_and]
  refine imp_congr_right fun _ => ?_
  cases t.name.toList.head? <;> simp

theorem not_beginsBlank_of_plain {t u : TypeName} (plain : Plain t) (part : u.PartOf t) :
    ¬ u.BeginsBlank := by
  induction part with
  | self t => exact (not_beginsBlank_iff t).mpr (plain_iff.mp plain).1
  | argument member _ ih => exact ih ((allPlain_iff _).mp (plain_iff.mp plain).2 _ member)

mutual

theorem plain_of_parts : ∀ t : TypeName, (∀ u, PartOf u t → ¬ u.BeginsBlank) → Plain t
  | ⟨space, name, args⟩, fronts => by
    rw [Plain]
    refine ⟨(not_beginsBlank_iff _).mp (fronts _ (.self _)), allPlain_of_parts args ?_⟩
    exact fun a member u inner => fronts u (.argument member inner)

theorem allPlain_of_parts :
    ∀ ts : List TypeName, (∀ a ∈ ts, ∀ u, PartOf u a → ¬ u.BeginsBlank) → AllPlain ts
  | [], _ => by
    rw [AllPlain]
    trivial
  | t :: ts, fronts => by
    rw [AllPlain]
    obtain ⟨first, others⟩ := List.forall_mem_cons.mp fronts
    exact ⟨plain_of_parts t first, allPlain_of_parts ts others⟩

end

section reread

variable {inner : Bool} {fuel : Nat} {t : TypeName}

/-- A text that is read has a head in front of its first opening bracket. -/
theorem exists_ofHead {chars : List Char} (read : parseWithin (fuel + 1) chars = .ok t) :
    ∃ args, ofHead ((Text.trim chars).takeWhile (· != '<')) args = .ok t := by
  rcases parseWithin_cases read with ⟨-, -, made⟩ | ⟨-, -, args, -, -, -, made⟩
  · exact ⟨[], made⟩
  · exact ⟨args, made⟩

/-- A type that comes back from its text does not itself begin with a blank. -/
theorem front_of_reread (parsed : Parsed inner t)
    (read : parseWithin (fuel + 1) (spell t) = .ok t) :
    t.space.toList = [] → t.name.toList.head?.any Text.isBlank = false := by
  intro global
  obtain ⟨args, made⟩ := exists_ofHead read
  obtain ⟨divided, -, -⟩ := ofHead_ok made
  obtain ⟨undotted, whole | ⟨-, dotted⟩⟩ := splitHead_spec divided
  · -- The name is all of the head, and a trimmed text begins with no blank.
    rw [global, headOf, if_pos rfl] at whole
    rw [← whole, List.head?_takeWhile]
    cases begins : (Text.trim (spell t)).head? with
    | none => rfl
    | some c =>
      have dark := (Text.tight_trim (spell t)).first c begins
      rw [Option.any_filter, Option.any_some, dark, Bool.and_false]
  · -- A dot in front would have to come from the text, whose head is the name alone.
    have shown : '.' ∈ (spell t).takeWhile (· != '<') := by
      refine Text.mem_takeWhile_of_trim (fun c blank => ?_) (dotted ▸ List.mem_cons_self)
      rw [bne_iff_ne]
      rintro rfl
      exact absurd blank (by decide)
    obtain ⟨space, name, args⟩ := t
    rw [spell_eq, (span_headOf (parsed_iff.mp parsed).1 args).1, global, headOf,
      if_pos rfl] at shown
    exact absurd shown undotted

/-- The arguments of a type that comes back from its text come back from theirs. -/
theorem args_of_reread (parsed : Parsed inner t)
    (front : t.space.toList = [] → t.name.toList.head?.any Text.isBlank = false)
    (read : parseWithin (fuel + 1) (spell t) = .ok t) :
    ∀ a ∈ t.args, parseWithin fuel (spell a) = .ok a := by
  have trimmed := Text.trim_of_tight (tight_spell parsed front)
  obtain ⟨space, name, args⟩ := t
  obtain ⟨head, arguments⟩ := parsed_iff.mp parsed
  cases args with
  | nil => simp
  | cons first rest =>
    obtain ⟨before, -⟩ := span_headOf head (first :: rest)
    rcases parseWithin_cases read with ⟨-, -, made⟩ |
      ⟨inside, parts, args, bracketed, divided, each, made⟩
    · cases (ofHead_ok made).2.2
    obtain rfl : first :: rest = args := (ofHead_ok made).2.2
    -- What stands between the brackets of the text are the texts of the arguments.
    rw [trimmed, spell_eq, before, List.append_cancel_left_eq, spellArgs_cons, List.cons.injEq,
      List.append_cancel_right_eq] at bracketed
    obtain ⟨-, rfl⟩ := bracketed
    rw [AllParsed] at arguments
    rw [splitArguments_spell arguments.1 arguments.2, Option.some.injEq] at divided
    subst divided
    rw [mapM_ok_iff, List.forall₂_cons, List.forall₂_map_left_iff, List.forall₂_same] at each
    refine List.forall_mem_cons.mpr ⟨each.1, fun a member => ?_⟩
    rw [← parseWithin_blank]
    exact each.2 a member

theorem plain_of_reread (parsed : Parsed inner t) (read : parseWithin fuel (spell t) = .ok t) :
    Plain t := by
  induction fuel generalizing inner t with
  | zero => cases read
  | succ fuel ih =>
    have front := front_of_reread parsed read
    refine plain_iff.mpr ⟨front, (allPlain_iff _).mpr fun a member => ?_⟩
    exact ih ((allParsed_iff _).mp (parsed_iff.mp parsed).2 a member)
      (args_of_reread parsed front read a member)

end reread

/-- A type that was read comes back from its own text exactly if neither the type nor an argument at
any depth is of the global namespace with a name that begins with a blank. -/
theorem parse_text_iff (source : String) (t : TypeName) (read : parse source = .ok t) :
    parse t.text = .ok t ↔ ∀ u : TypeName, u.PartOf t → ¬ u.BeginsBlank := by
  have parsed := parsed_of_parse read
  constructor
  · intro again u part
    rw [parse, text, String.toList_ofList] at again
    exact not_beginsBlank_of_plain (plain_of_reread parsed again) part
  · exact fun fronts => parse_text parsed (plain_of_parts t fronts)

/-- Commas and brackets may be stray in the outermost name, and a dot in front may go; but a blank
behind such a dot goes with it. -/
theorem parse_text_iff_sample :
    let stray : TypeName := ⟨"", "A>,b", [⟨"", "C", []⟩, ⟨"D ", " E ", [⟨"", "F", []⟩]⟩]⟩
    let blank : TypeName := ⟨"", " C", []⟩
    let lost : TypeName := ⟨"", "A", [⟨"", "B", []⟩, blank]⟩
    (parse " A>,b<.C, D . E <F>> " = .ok stray ∧ parse stray.text = .ok stray ∧
        ∀ u : TypeName, u.PartOf stray → ¬ u.BeginsBlank) ∧
      parse "A<B, . C>" = .ok lost ∧ blank.PartOf lost ∧ blank.BeginsBlank ∧
        parse lost.text ≠ .ok lost := by
  intro stray blank lost
  have read : parse " A>,b<.C, D . E <F>> " = .ok stray := by decide +kernel
  have again : parse stray.text = .ok stray := by decide +kernel
  have other : parse "A<B, . C>" = .ok lost := by decide +kernel
  have part : blank.PartOf lost :=
    .argument (List.mem_cons_of_mem _ List.mem_cons_self) (.self blank)
  have begins : blank.BeginsBlank := ⟨rfl, ' ', by decide +kernel, by decide⟩
  refine ⟨⟨read, again, (parse_text_iff _ _ read).mp again⟩, other, part, begins, ?_⟩
  exact fun back => (parse_text_iff _ _ other).mp back blank part begins

end NativeBridge.TypeName
