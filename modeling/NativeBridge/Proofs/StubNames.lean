import NativeBridge.Proofs.UnitText
import Mathlib.Data.List.Forall2
import Mathlib.Data.List.Nodup

/-! The names by which C calls the symbols that create static storage. The symbols are those of the
map with the right beginning, each one once. The names are identifiers and differ from each other:
a name made up for a symbol that is none holds the position of the symbol, which can be read back
from it, and begins otherwise than any symbol. -/

namespace NativeBridge

namespace Glue

section symbols

variable {α : Type} [DecidableEq α]

/-- What is left of a list keeps its order. -/
theorem idxOf_lt_of_filter {p : α → Bool} {a b : α} (keepsA : p a = true) (keepsB : p b = true)
    {items : List α} (before : (items.filter p).idxOf a < (items.filter p).idxOf b) :
    items.idxOf a < items.idxOf b := by
  induction items with
  | nil => exact before
  | cons item items ih =>
    by_cases kept : p item = true
    · rw [List.filter_cons_of_pos kept] at before
      simp only [List.idxOf_cons, cond_eq_ite, beq_iff_eq] at before ⊢
      split at before <;> split at before <;> simp_all
    · rw [List.filter_cons_of_neg kept] at before
      have otherA : item ≠ a := by rintro rfl; exact kept keepsA
      have otherB : item ≠ b := by rintro rfl; exact kept keepsB
      rw [List.idxOf_cons_ne _ otherA, List.idxOf_cons_ne _ otherB]
      exact Nat.succ_lt_succ (ih before)

/-- Of items that are equal the first is kept. -/
theorem pairwise_eraseDups (items : List α) :
    items.eraseDups.Pairwise fun a b => items.idxOf a < items.idxOf b := by
  -- What is left behind an item is filtered first, so the induction is on the length.
  induction length : items.length using Nat.strongRecOn generalizing items with
  | ind n ih =>
    cases items with
    | nil => exact .nil
    | cons item items =>
      have other : ∀ a ∈ (items.filter fun b => !b == item).eraseDups, item ≠ a := by
        intro a member
        simp at member
        exact Ne.symm member.2
      have shorter : (items.filter fun b => !b == item).length < n := by
        have bound := List.length_filter_le (fun b => !b == item) items
        rw [List.length_cons] at length
        omega
      rw [List.eraseDups_cons, List.pairwise_cons]
      constructor
      · intro a member
        rw [List.idxOf_cons_self, List.idxOf_cons_ne _ (other a member)]
        exact Nat.succ_pos _
      · refine (ih _ shorter _ rfl).imp_of_mem fun {a b} memberA memberB before => ?_
        rw [List.idxOf_cons_ne _ (other a memberA), List.idxOf_cons_ne _ (other b memberB)]
        refine Nat.succ_lt_succ (idxOf_lt_of_filter ?_ ?_ before)
        · simpa using Ne.symm (other a memberA)
        · simpa using Ne.symm (other b memberB)

end symbols

theorem mem_staticBases_iff (names : List String) (symbol : String) :
    symbol ∈ staticBases names ↔ symbol ∈ names ∧
      (mutableBase.toList <+: symbol.toList ∨ immutableBase.toList <+: symbol.toList) := by
  simp [staticBases, isStaticBase]

theorem isStaticBase_of_mem {names : List String} {symbol : String}
    (member : symbol ∈ staticBases names) : isStaticBase symbol = true :=
  (List.mem_filter.mp (List.mem_eraseDups.mp member)).2

theorem pairwise_staticBases (names : List String) :
    (staticBases names).Pairwise fun s t => names.idxOf s < names.idxOf t :=
  (pairwise_eraseDups (names.filter isStaticBase)).imp_of_mem fun first second before =>
    idxOf_lt_of_filter (isStaticBase_of_mem first) (isStaticBase_of_mem second) before

section identifiers

/-- The characters with which an identifier may begin. -/
def nondigits : List Char := "_abcdefghijklmnopqrstuvwxyzABCDEFGHIJKLMNOPQRSTUVWXYZ".toList

/-- The further characters that it may hold. -/
def digits : List Char := "0123456789".toList

/-- The identifiers of C. -/
inductive Identifier : List Char → Prop where
  | first {c : Char} : c ∈ nondigits → Identifier [c]
  | nondigit {name : List Char} {c : Char} :
      Identifier name → c ∈ nondigits → Identifier (name ++ [c])
  | digit {name : List Char} {c : Char} :
      Identifier name → c ∈ digits → Identifier (name ++ [c])

theorem toNat_lt_of_isNamePart {c : Char} (part : isNamePart c = true) : c.toNat < 128 := by
  have below : ∀ last : Char, c.val ≤ last.val → last.toNat < 128 → c.toNat < 128 :=
    fun last reached => Nat.lt_of_le_of_lt (UInt32.le_iff_toNat_le.mp reached)
  change (c.isUpper || c.isLower || c.isDigit || c == '_') = true at part
  rw [Bool.or_eq_true, Bool.or_eq_true, Bool.or_eq_true, beq_iff_eq] at part
  rcases part with ((upper | lower) | digit) | rfl
  · exact below 'Z' (of_decide_eq_true upper).2 (by decide)
  · exact below 'z' (of_decide_eq_true (Bool.and_eq_true_iff.mp lower).2) (by decide)
  · exact below '9' (of_decide_eq_true (Bool.and_eq_true_iff.mp digit).2) (by decide)
  · decide

/-- Characters that may be part of a name are compared with a list one by one. -/
theorem iff_mem_of_ascii (p : Char → Bool) (chars : List Char)
    (part : ∀ c, p c = true → isNamePart c = true)
    (each : ((List.range 128).all fun n =>
      !p (Char.ofNat n) || (chars.map Char.toNat).contains n) = true)
    (all : chars.all p = true) (c : Char) : p c = true ↔ c ∈ chars := by
  constructor
  · intro holds
    have below := List.mem_range.mpr (toNat_lt_of_isNamePart (part c holds))
    have found := List.all_eq_true.mp each c.toNat below
    rw [Char.ofNat_toNat, holds, Bool.not_true, Bool.false_or, List.contains_iff_mem,
      List.mem_map] at found
    obtain ⟨d, member, same⟩ := found
    rwa [← Char.toNat_inj.mp same]
  · exact fun member => List.all_eq_true.mp all c member

theorem nondigit_iff (c : Char) : (c.isAlpha || c == '_') = true ↔ c ∈ nondigits := by
  refine iff_mem_of_ascii (fun c => c.isAlpha || c == '_') nondigits ?_ (by decide +kernel)
    (by decide +kernel) c
  intro c first
  rw [Bool.or_eq_true] at first
  rcases first with letter | underscore
  · simp [isNamePart, Char.isAlphanum, letter]
  · simp [isNamePart, underscore]

theorem isNamePart_iff (c : Char) : isNamePart c = true ↔ c ∈ nondigits ∨ c ∈ digits := by
  rw [← List.mem_append]
  exact iff_mem_of_ascii isNamePart (nondigits ++ digits) (fun _ part => part) (by decide +kernel)
    (by decide +kernel) c

theorem Identifier.append {name : List Char} (identifier : Identifier name) {rest : List Char}
    (parts : ∀ c ∈ rest, isNamePart c = true) : Identifier (name ++ rest) := by
  induction rest generalizing name with
  | nil => simpa using identifier
  | cons c rest ih =>
    rw [List.forall_mem_cons] at parts
    have next : Identifier (name ++ [c]) :=
      ((isNamePart_iff c).mp parts.1).elim identifier.nondigit identifier.digit
    simpa using ih next parts.2

theorem Identifier.exists_eq_cons {name : List Char} (identifier : Identifier name) :
    ∃ c rest, name = c :: rest ∧ c ∈ nondigits ∧ ∀ d ∈ rest, isNamePart d = true := by
  have longer : ∀ {name : List Char} {d : Char}, isNamePart d = true →
      (∃ c rest, name = c :: rest ∧ c ∈ nondigits ∧ ∀ d ∈ rest, isNamePart d = true) →
      ∃ c rest, name ++ [d] = c :: rest ∧ c ∈ nondigits ∧ ∀ d ∈ rest, isNamePart d = true := by
    rintro _ d part ⟨c, rest, rfl, first, parts⟩
    exact ⟨c, rest ++ [d], rfl, first, List.forall_mem_append.mpr ⟨parts, by simpa using part⟩⟩
  induction identifier with
  | first member => exact ⟨_, [], rfl, member, List.forall_mem_nil _⟩
  | nondigit _ member ih => exact longer ((isNamePart_iff _).mpr (Or.inl member)) ih
  | digit _ member ih => exact longer ((isNamePart_iff _).mpr (Or.inr member)) ih

theorem Identifier.isNamePart {name : List Char} (identifier : Identifier name) {c : Char}
    (member : c ∈ name) : Glue.isNamePart c = true := by
  obtain ⟨first, rest, rfl, begins, parts⟩ := identifier.exists_eq_cons
  rcases List.mem_cons.mp member with rfl | later
  · exact (isNamePart_iff c).mpr (Or.inl begins)
  · exact parts c later

theorem Identifier.lacks {name : String} (identifier : Identifier name.toList) {c : Char}
    (other : Glue.isNamePart c = false) : Text.Lacks name c :=
  fun member => absurd (identifier.isNamePart member) (by simp [other])

/-- The test for identifiers is right. -/
theorem isIdentifier_iff (name : String) : isIdentifier name = true ↔ Identifier name.toList := by
  rw [isIdentifier]
  constructor
  · intro passed
    rcases spelled : name.toList with _ | ⟨c, rest⟩
    · rw [spelled] at passed
      cases passed
    · rw [spelled] at passed
      obtain ⟨first, parts⟩ := Bool.and_eq_true_iff.mp passed
      have one : Identifier [c] := .first ((nondigit_iff c).mp first)
      exact one.append (List.all_eq_true.mp parts)
  · intro identifier
    obtain ⟨c, rest, spelled, first, parts⟩ := identifier.exists_eq_cons
    rw [spelled]
    exact Bool.and_eq_true_iff.mpr ⟨(nondigit_iff c).mpr first, List.all_eq_true.mpr parts⟩

end identifiers

section callees

/-- The name made up for the symbol at a position. -/
def aliasOf (index : Nat) (symbol : String) : String :=
  "ilbridge_alias_" ++ toString index ++ "_" ++ sanitize symbol

theorem callee_of_identifier {symbol : String} (identifier : Identifier symbol.toList)
    (index : Nat) : (Stub.ofSymbol index symbol).callee = symbol := by
  rw [Stub.ofSymbol, if_pos ((isIdentifier_iff symbol).mpr identifier)]

theorem callee_of_not_identifier {symbol : String} (other : ¬ Identifier symbol.toList)
    (index : Nat) : (Stub.ofSymbol index symbol).callee = aliasOf index symbol := by
  rw [Stub.ofSymbol, if_neg (mt (isIdentifier_iff symbol).mp other)]
  rfl

theorem toList_aliasOf (index : Nat) (symbol : String) :
    (aliasOf index symbol).toList = "ilbridge_alias_".toList ++
      (Nat.toDigits 10 index ++ '_' :: (sanitize symbol).toList) := by
  have underscore : "_".toList = ['_'] := rfl
  change ("ilbridge_alias_" ++ toString index ++ "_" ++ sanitize symbol).toList = _
  simp only [String.toList_append, Text.toList_toString_nat, underscore, List.append_assoc,
    List.singleton_append]

theorem isNamePart_of_mem_sanitize {symbol : String} {c : Char}
    (member : c ∈ (sanitize symbol).toList) : isNamePart c = true := by
  rw [sanitize, String.toList_ofList, List.mem_map] at member
  obtain ⟨d, -, rfl⟩ := member
  split
  next part => exact part
  next => rfl

theorem identifier_aliasOf (index : Nat) (symbol : String) :
    Identifier (aliasOf index symbol).toList := by
  have fixed : Identifier "ilbridge_alias_".toList := by
    rw [← isIdentifier_iff]
    decide +kernel
  rw [toList_aliasOf]
  refine fixed.append (List.forall_mem_append.mpr ⟨fun c digit => ?_, ?_⟩)
  · have isDigit := Nat.isDigit_of_mem_toDigits (by decide) (by decide) digit
    simp [isNamePart, Char.isAlphanum, isDigit]
  · exact List.forall_mem_cons.mpr ⟨by decide, fun c => isNamePart_of_mem_sanitize⟩

/-- The position can be read back, whatever stands behind it. -/
theorem index_of_aliasOf_eq {i j : Nat} {s t : String} (same : aliasOf i s = aliasOf j t) :
    i = j := by
  have read : ∀ (n : Nat) (rest : List Char),
      (Nat.toDigits 10 n ++ '_' :: rest).takeWhile Char.isDigit = Nat.toDigits 10 n := by
    intro n rest
    have all : ∀ c ∈ Nat.toDigits 10 n, c.isDigit = true := fun c =>
      Nat.isDigit_of_mem_toDigits (by decide) (by decide)
    -- The underscore is no digit and ends the number.
    rw [List.takeWhile_append_of_pos all]
    simp
  have spelled := congrArg String.toList same
  rw [toList_aliasOf, toList_aliasOf] at spelled
  have numbers := congrArg (List.takeWhile Char.isDigit) (List.append_cancel_left spelled)
  rw [read, read] at numbers
  simpa using congrArg (fun digits => Nat.ofDigitChars 10 digits 0) numbers

/-- C calls every symbol by an identifier. -/
theorem identifier_callee (index : Nat) (symbol : String) :
    Identifier (Stub.ofSymbol index symbol).callee.toList := by
  by_cases identifier : Identifier symbol.toList
  · rwa [callee_of_identifier identifier]
  · rw [callee_of_not_identifier identifier]
    exact identifier_aliasOf index symbol

theorem callee_eq_symbol_iff (index : Nat) (symbol : String) :
    (Stub.ofSymbol index symbol).callee = symbol ↔ Identifier symbol.toList := by
  constructor
  · intro same
    have identifier := identifier_callee index symbol
    rwa [same] at identifier
  · exact fun identifier => callee_of_identifier identifier index

/-- No symbol begins like a name that is made up. -/
theorem aliasOf_ne_symbol (index : Nat) (other : String) {symbol : String}
    (base : isStaticBase symbol = true) : aliasOf index other ≠ symbol := by
  rintro rfl
  have begins := List.prefix_append "ilbridge_alias_".toList
    (Nat.toDigits 10 index ++ '_' :: (sanitize other).toList)
  rw [← toList_aliasOf] at begins
  rw [isStaticBase, Bool.or_eq_true, List.isPrefixOf_iff_prefix, List.isPrefixOf_iff_prefix] at base
  rcases base with base | base <;>
    rcases List.prefix_or_prefix_of_prefix begins base with early | late
  · exact absurd early (by decide +kernel)
  · exact absurd late (by decide +kernel)
  · exact absurd early (by decide +kernel)
  · exact absurd late (by decide +kernel)

/-- Names agree at two positions only if these hold the same symbol or are the same. -/
theorem eq_of_callee_eq {i j : Nat} {s t : String} (baseS : isStaticBase s = true)
    (baseT : isStaticBase t = true)
    (same : (Stub.ofSymbol i s).callee = (Stub.ofSymbol j t).callee) : s = t ∨ i = j := by
  by_cases identifierS : Identifier s.toList <;> by_cases identifierT : Identifier t.toList
  · rw [callee_of_identifier identifierS, callee_of_identifier identifierT] at same
    exact Or.inl same
  · rw [callee_of_identifier identifierS, callee_of_not_identifier identifierT] at same
    exact absurd same.symm (aliasOf_ne_symbol j t baseS)
  · rw [callee_of_not_identifier identifierS, callee_of_identifier identifierT] at same
    exact absurd same (aliasOf_ne_symbol i s baseT)
  · rw [callee_of_not_identifier identifierS, callee_of_not_identifier identifierT] at same
    exact Or.inr (index_of_aliasOf_eq same)

/-- The names by which C calls symbols, in order. -/
def calleesOf (symbols : List String) : List String := (stubsOf symbols).map (·.callee)

theorem length_calleesOf (symbols : List String) : (calleesOf symbols).length = symbols.length := by
  simp [calleesOf, stubsOf]

theorem getElem_calleesOf (symbols : List String) (i : Nat)
    (inside : i < (calleesOf symbols).length) (inside' : i < symbols.length) :
    (calleesOf symbols)[i] = (Stub.ofSymbol i symbols[i]).callee := by
  simp [calleesOf, stubsOf]

theorem forall₂_calleesOf {R : String → String → Prop}
    (each : ∀ i s, R s (Stub.ofSymbol i s).callee) (symbols : List String) :
    List.Forall₂ R symbols (calleesOf symbols) := by
  rw [List.forall₂_iff_get]
  refine ⟨(length_calleesOf symbols).symm, fun i inside' inside => ?_⟩
  rw [List.get_eq_getElem, List.get_eq_getElem, getElem_calleesOf symbols i inside inside']
  exact each i _

theorem nodup_calleesOf {symbols : List String} (distinct : symbols.Nodup)
    (bases : ∀ symbol ∈ symbols, isStaticBase symbol = true) : (calleesOf symbols).Nodup := by
  rw [List.Nodup, List.pairwise_iff_getElem]
  intro i j below below' before same
  have count := length_calleesOf symbols
  rw [getElem_calleesOf symbols i below (by omega), getElem_calleesOf symbols j below' (by omega)]
    at same
  rcases eq_of_callee_eq (bases _ (List.getElem_mem _)) (bases _ (List.getElem_mem _)) same with
    sameSymbol | sameIndex
  · exact absurd (distinct.getElem_inj_iff.mp sameSymbol) (Nat.ne_of_lt before)
  · exact absurd sameIndex (Nat.ne_of_lt before)

theorem identifier_of_mem_calleesOf {symbols : List String} {callee : String}
    (member : callee ∈ calleesOf symbols) : Identifier callee.toList := by
  rw [calleesOf, stubsOf, List.mem_map] at member
  obtain ⟨stub, member, rfl⟩ := member
  obtain ⟨i, _, rfl⟩ := List.mem_mapIdx.mp member
  exact identifier_callee i _

end callees

section initializer

open Text (linesWithin Unbroken)

theorem unbroken_call {callee : String} (identifier : Identifier callee.toList) :
    Unbroken ("    " ++ callee ++ "();") :=
  Text.Lacks.enclosed (by decide +kernel) (identifier.lacks rfl) (by decide +kernel)

/-- What stands in front of the declarations of stubs. -/
def initializerHeading (symbols : List String) : List String :=
  ["/* ilbridge: static storage initialization */", ""] ++
    if (stubsOf symbols).any Stub.isAlias then aliasLines else []

theorem textOf_initializerLines (symbols : List String) (settings : Settings) :
    textOf (initializerLines symbols settings) =
      textOf (initializerHeading symbols) ++
        textOf (paragraph ((stubsOf symbols).flatMap Stub.declaration)) ++
        ("void " ++ settings.initializer ++ "(void)\n\x7b\n" ++
          textOf ((calleesOf symbols).map fun callee => "    " ++ callee ++ "();") ++
          "\x7d\n\n") := by
  have opening : textOf ["void " ++ settings.initializer ++ "(void)", "\x7b"] =
      "void " ++ settings.initializer ++ "(void)\n\x7b\n" := by
    have rest : "(void)" ++ ("\n" ++ ("\x7b" ++ ("\n" ++ textOf []))) = "(void)\n\x7b\n" := by
      decide +kernel
    simp only [textOf_cons, String.append_assoc, rest]
  have closing : textOf ["\x7d", ""] = "\x7d\n\n" := by decide +kernel
  rw [initializerLines, initializerHeading, calleesOf, List.map_map]
  simp only [textOf_append, opening, closing]
  simp only [String.append_assoc]
  rfl

/-- Of the names of a map, the symbols of static storage are those with the right beginning, each
one once, in the order in which they are first seen. C calls them by identifiers, all different, and
by the symbol itself exactly if it is an identifier. The text of the initializer is the heading, the
declarations and a function whose body is a call of each, in order and in a line of its own, and
nothing else. -/
theorem stubs_called_once (names : List String) (settings : Settings) :
    let symbols := staticBases names
    let callees := (stubsOf symbols).map (·.callee)
    (∀ symbol, symbol ∈ symbols ↔ symbol ∈ names ∧
      (mutableBase.toList <+: symbol.toList ∨ immutableBase.toList <+: symbol.toList)) ∧
    symbols.Nodup ∧ symbols.Pairwise (fun s t => names.idxOf s < names.idxOf t) ∧
    callees.Nodup ∧ (∀ callee ∈ callees, Identifier callee.toList) ∧
    List.Forall₂ (fun symbol callee => callee = symbol ↔ Identifier symbol.toList) symbols callees ∧
    let calls := callees.map fun callee => "    " ++ callee ++ "();"
    textOf (initializerLines symbols settings) =
        textOf (initializerHeading symbols) ++
          textOf (paragraph ((stubsOf symbols).flatMap Stub.declaration)) ++
          ("void " ++ settings.initializer ++ "(void)\n\x7b\n" ++ textOf calls ++ "\x7d\n\n") ∧
      linesWithin (textOf calls) = calls ++ [""] := by
  intro symbols callees
  have ordered := pairwise_staticBases names
  have distinct : symbols.Nodup :=
    ordered.imp fun before same => absurd (congrArg names.idxOf same) (Nat.ne_of_lt before)
  refine ⟨mem_staticBases_iff names, distinct, ordered, nodup_calleesOf distinct ?_,
    fun callee => identifier_of_mem_calleesOf, forall₂_calleesOf callee_eq_symbol_iff symbols,
    textOf_initializerLines symbols settings, ?_⟩
  · exact fun symbol => isStaticBase_of_mem
  · rw [linesWithin_textOf, flatMap_linesWithin]
    exact List.forall_mem_map.mpr fun callee member =>
      unbroken_call (identifier_of_mem_calleesOf member)

end initializer

end Glue

end NativeBridge
