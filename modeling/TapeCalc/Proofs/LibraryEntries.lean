import Mathlib.Data.List.Induction
import Mathlib.Logic.Function.Basic
import TapeCalc.Calculator
import TapeCalc.Proofs.Builtin
import TapeCalc.Proofs.Unmatched

/-!
# Entries of a library

An operator's program is the last that was put in its place, or else the one in its own file, or
else the built-in one. Loading fails at the first operator whose file cannot be read or is no
program, and nothing that stands in the file of another operator bears on an entry. The same holds
of two tables that are filled row by row and then read and overwritten by the place of the operator.
-/
namespace TapeCalc

open Brackets

/-- What the five reads give: the text of a file, or why there is none. -/
abbrev Reader := String → Except ReadError String

theorem joinPath_right_inj {folder file other : String}
    (h : joinPath folder file = joinPath folder other) : file = other := by
  unfold joinPath at h
  split at h
  next => exact (String.append_right_inj folder).mp h
  next => exact (String.append_right_inj (folder ++ "/")).mp h

namespace Operator

theorem path_injective (folder : String) : Function.Injective fun op => path op folder := by
  intro op other h
  have hname : op.fileName = other.fileName := joinPath_right_inj h
  revert hname
  cases op <;> cases other <;> decide

/-- Whatever the files of the operators are to give, there are files that give it. -/
theorem exists_reader (folder : String) (outcomes : Operator → Except ReadError String) :
    ∃ read : Reader, ∀ op, read (op.path folder) = outcomes op :=
  ⟨Function.extend (fun op => path op folder) outcomes fun _ => .error .notFound,
    fun op => (path_injective folder).extend_apply outcomes _ op⟩

variable (read : Reader) (folder : String) (op : Operator)

/-- The file is not there, or it can be read and its brackets are balanced. -/
structure Loadable : Prop where
  notFound : ∀ cause, read (op.path folder) = .error cause → cause = .notFound
  balanced : ∀ source, read (op.path folder) = .ok source →
    Balanced Instruction.loopStart.byte Instruction.loopEnd.byte source.toUTF8.data.toList

/-- How the file of an operator keeps the library from being loaded. -/
inductive Spoils : LibraryError → Prop
  | unreadable {cause : ReadError} (h : read (op.path folder) = .error cause)
    (hc : cause ≠ .notFound) : Spoils (.unreadable (op.path folder) cause)
  | malformed {source : String} {cause : ProgramError} (h : read (op.path folder) = .ok source)
    (hp : Program.parse source = .error cause) : Spoils (.malformed (op.path folder) cause)

/-- The entry of an operator, after replacements of which the last is the latest. -/
inductive Supplies (replacements : List (Operator × Program)) : Entry → Prop
  | replaced {program : Program} (h : replacements.reverse.lookup op = some program) :
    Supplies replacements ⟨program, .custom⟩
  | file {source : String} {program : Program} (h : replacements.reverse.lookup op = none)
    (hr : read (op.path folder) = .ok source) (hp : Program.parse source = .ok program) :
    Supplies replacements ⟨program, .file (op.path folder)⟩
  | builtin {program : Program} (h : replacements.reverse.lookup op = none)
    (hr : read (op.path folder) = .error .notFound) (hp : Program.parse op.source = .ok program) :
    Supplies replacements ⟨program, .builtin⟩

end Operator

namespace Entry

variable {read : Reader} {folder : String} {op : Operator}

theorem load_eq_error_iff {e : LibraryError} :
    load read folder op = .error e ↔ op.Spoils read folder e := by
  constructor
  · intro h
    unfold load at h
    split at h
    next => cases h
    next cause hne hr =>
      cases h
      exact .unreadable hr hne
    next source hr =>
      split at h
      next cause hp =>
        cases h
        exact .malformed hr hp
      next => cases h
  · rintro (⟨hr, hc⟩ | ⟨hr, hp⟩)
    · unfold load
      rw [hr]
      split
      next heq => exact absurd (Except.error.inj heq) hc
      next heq => rw [Except.error.inj heq]
      next heq => cases heq
    · simp only [load, hr, hp]

theorem load_eq_ok_iff {entry : Entry} :
    load read folder op = .ok entry ↔ op.Supplies read folder [] entry := by
  constructor
  · intro h
    unfold load at h
    split at h
    next hr =>
      cases h
      refine .builtin rfl hr ?_
      rw [op.program_eq]
      exact op.parse_source
    next => cases h
    next source hr =>
      split at h
      next => cases h
      next program hp =>
        cases h
        exact .file rfl hr hp
  · rintro (⟨⟨⟩⟩ | ⟨-, hr, hp⟩ | ⟨-, hr, hp⟩)
    · simp only [load, hr, hp]
    · rw [op.parse_source] at hp
      cases hp
      simp only [load, hr, builtin, op.program_eq]

theorem exists_load_eq_ok_iff :
    (∃ entry, load read folder op = .ok entry) ↔ op.Loadable read folder := by
  constructor
  · rintro ⟨entry, h⟩
    rcases load_eq_ok_iff.mp h with ⟨⟨⟩⟩ | ⟨-, hr, hp⟩ | ⟨-, hr, -⟩
    · refine ⟨fun cause hc => ?_, fun source hs => ?_⟩
      · cases hr.symm.trans hc
      · cases hr.symm.trans hs
        exact (Program.exists_ofBytes_eq_ok_iff _).mp ⟨_, hp⟩
    · refine ⟨fun cause hc => ?_, fun source hs => ?_⟩
      · cases hr.symm.trans hc
        rfl
      · cases hr.symm.trans hs
  · intro h
    cases hl : load read folder op with
    | ok entry => exact ⟨entry, rfl⟩
    | error e =>
      rcases load_eq_error_iff.mp hl with ⟨hr, hc⟩ | ⟨hr, hp⟩
      · exact absurd (h.notFound _ hr) hc
      · obtain ⟨program, hok⟩ := (Program.exists_ofBytes_eq_ok_iff _).mpr (h.balanced _ hr)
        cases hp.symm.trans hok

end Entry

namespace Library

variable {read : Reader} {folder : String}

theorem exists_of_bind_eq_ok {α β ε : Type} {x : Except ε α} {f : α → Except ε β} {b : β}
    (h : x >>= f = .ok b) : ∃ a, x = .ok a ∧ f a = .ok b := by
  cases x with
  | error e => cases h
  | ok a => exact ⟨a, rfl, h⟩

theorem load_eq_ok_iff {library : Library} :
    load read folder = .ok library ↔
      ∀ op : Operator, op.Supplies read folder [] (library.get op) := by
  simp only [← Entry.load_eq_ok_iff]
  constructor
  · intro h
    obtain ⟨add, hadd, h⟩ := exists_of_bind_eq_ok h
    obtain ⟨sub, hsub, h⟩ := exists_of_bind_eq_ok h
    obtain ⟨mul, hmul, h⟩ := exists_of_bind_eq_ok h
    obtain ⟨div, hdiv, h⟩ := exists_of_bind_eq_ok h
    obtain ⟨pow, hpow, h⟩ := exists_of_bind_eq_ok h
    cases h
    intro op
    cases op with
    | add => exact hadd
    | sub => exact hsub
    | mul => exact hmul
    | div => exact hdiv
    | pow => exact hpow
  · intro h
    unfold load
    rw [h .add, h .sub, h .mul, h .div, h .pow]
    rfl

/-- Puts programs in the place of others, one after another. -/
def replaceAll (library : Library) (replacements : List (Operator × Program)) : Library :=
  replacements.foldl (fun library replacement => library.replace replacement.1 replacement.2)
    library

theorem get_replaceAll (library : Library) (replacements : List (Operator × Program))
    (op : Operator) : (library.replaceAll replacements).get op =
      ((replacements.reverse.lookup op).map (⟨·, .custom⟩)).getD (library.get op) := by
  induction replacements using List.reverseRecOn with
  | nil => rfl
  | append_singleton earlier last ih =>
    rw [replaceAll, List.foldl_append, List.foldl_cons, List.foldl_nil, replace, get_set,
      List.reverse_concat, List.lookup_cons]
    by_cases h : op = last.1
    · rw [if_pos h, beq_iff_eq.mpr h]
      rfl
    · rw [if_neg h, beq_eq_false_iff_ne.mpr h]
      exact ih

theorem supplies_replaceAll {library : Library} (h : load read folder = .ok library)
    (replacements : List (Operator × Program)) (op : Operator) :
    op.Supplies read folder replacements ((library.replaceAll replacements).get op) := by
  rw [get_replaceAll]
  cases hlast : replacements.reverse.lookup op with
  | some program => exact .replaced hlast
  | none =>
    rw [Option.map_none, Option.getD_none]
    generalize hentry : library.get op = entry
    rcases hentry ▸ load_eq_ok_iff.mp h op with ⟨⟨⟩⟩ | ⟨-, hr, hp⟩ | ⟨-, hr, hp⟩
    · exact .file hlast hr hp
    · exact .builtin hlast hr hp

/-- A library as two tables, with the row of an operator at its place among all of them. -/
structure Tables where
  programs : Array Program := #[]
  origins : Array Origin := #[]
  deriving DecidableEq, Repr

namespace Tables

def push (tables : Tables) (entry : Entry) : Tables :=
  ⟨tables.programs.push entry.program, tables.origins.push entry.origin⟩

/-- Adds a row for each operator, up to the first that fails. -/
def loadRows (read : Reader) (folder : String) :
    List Operator → Tables → Except LibraryError Tables
  | [], tables => .ok tables
  | op :: ops, tables =>
    match Entry.load read folder op with
    | .error e => .error e
    | .ok entry => loadRows read folder ops (tables.push entry)

def load (read : Reader) (folder : String) : Except LibraryError Tables :=
  loadRows read folder Operator.all {}

def get? (tables : Tables) (op : Operator) : Option Entry :=
  match tables.programs[op.index]?, tables.origins[op.index]? with
  | some program, some origin => some ⟨program, origin⟩
  | _, _ => none

/-- Overwrites a row, if it is there. -/
def replace? (tables : Tables) (replacement : Operator × Program) : Option Tables :=
  if h : replacement.1.index < tables.programs.size ∧
      replacement.1.index < tables.origins.size then
    some ⟨tables.programs.set replacement.1.index replacement.2 h.1,
      tables.origins.set replacement.1.index .custom h.2⟩
  else none

end Tables

def tables (library : Library) : Tables :=
  ⟨(Operator.all.map fun op => (library.get op).program).toArray,
    (Operator.all.map fun op => (library.get op).origin).toArray⟩

theorem get?_tables (library : Library) (op : Operator) :
    library.tables.get? op = some (library.get op) := by
  cases op <;> rfl

theorem replace?_tables (library : Library) (replacement : Operator × Program) :
    library.tables.replace? replacement =
      some (library.replace replacement.1 replacement.2).tables := by
  obtain ⟨op, program⟩ := replacement
  cases op <;> rfl

theorem foldlM_replace?_tables (library : Library) (replacements : List (Operator × Program)) :
    replacements.foldlM Tables.replace? library.tables =
      some (library.replaceAll replacements).tables := by
  induction replacements generalizing library with
  | nil => rfl
  | cons replacement replacements ih =>
    rw [List.foldlM_cons, replace?_tables]
    exact ih (library.replace replacement.1 replacement.2)

theorem loadRows_eq_error_iff {e : LibraryError} (ops : List Operator) (tables : Tables) :
    Tables.loadRows read folder ops tables = .error e ↔
      ∃ before op after, ops = before ++ op :: after ∧
        (∀ earlier ∈ before, Operator.Loadable read folder earlier) ∧
        Operator.Spoils read folder op e := by
  induction ops generalizing tables with
  | nil => simp [Tables.loadRows]
  | cons op ops ih =>
    rw [Tables.loadRows]
    cases hload : Entry.load read folder op with
    | error cause =>
      have hspoils := Entry.load_eq_error_iff.mp hload
      constructor
      · rintro ⟨⟩
        exact ⟨[], op, ops, rfl, nofun, hspoils⟩
      · rintro ⟨before, failed, after, hops, hbefore, hfailed⟩
        rcases List.cons_eq_append_iff.mp hops with ⟨rfl, hops⟩ | ⟨rest, rfl, -⟩
        · cases hops
          cases hload.symm.trans (Entry.load_eq_error_iff.mpr hfailed)
          rfl
        · obtain ⟨entry, hok⟩ := Entry.exists_load_eq_ok_iff.mpr (hbefore op List.mem_cons_self)
          cases hload.symm.trans hok
    | ok entry =>
      have hloadable := Entry.exists_load_eq_ok_iff.mp ⟨entry, hload⟩
      simp only [ih]
      constructor
      · rintro ⟨before, failed, after, rfl, hbefore, hfailed⟩
        exact ⟨op :: before, failed, after, rfl, List.forall_mem_cons.mpr ⟨hloadable, hbefore⟩,
          hfailed⟩
      · rintro ⟨before, failed, after, hops, hbefore, hfailed⟩
        rcases List.cons_eq_append_iff.mp hops with ⟨rfl, hops⟩ | ⟨rest, rfl, rfl⟩
        · cases hops
          cases hload.symm.trans (Entry.load_eq_error_iff.mpr hfailed)
        · exact ⟨rest, failed, after, rfl, (List.forall_mem_cons.mp hbefore).2, hfailed⟩

theorem load_tables (read : Reader) (folder : String) :
    Tables.load read folder = (load read folder).map tables := by
  unfold Tables.load load
  simp only [Operator.all, Tables.loadRows]
  cases Entry.load read folder .add with
  | error e => rfl
  | ok add =>
    cases Entry.load read folder .sub with
    | error e => rfl
    | ok sub =>
      cases Entry.load read folder .mul with
      | error e => rfl
      | ok mul =>
        cases Entry.load read folder .div with
        | error e => rfl
        | ok div => cases Entry.load read folder .pow <;> rfl

theorem load_eq_error_iff {e : LibraryError} :
    load read folder = .error e ↔
      ∃ before op after, Operator.all = before ++ op :: after ∧
        (∀ earlier ∈ before, Operator.Loadable read folder earlier) ∧
        Operator.Spoils read folder op e := by
  rw [← loadRows_eq_error_iff Operator.all {}, ← Tables.load, load_tables]
  cases load read folder <;> simp [Except.map]

theorem exists_load_eq_ok_iff :
    (∃ library, load read folder = .ok library) ↔
      ∀ op : Operator, op.Loadable read folder := by
  constructor
  · rintro ⟨library, h⟩ op
    exact Entry.exists_load_eq_ok_iff.mp ⟨_, Entry.load_eq_ok_iff.mpr (load_eq_ok_iff.mp h op)⟩
  · intro h
    cases hload : load read folder with
    | ok library => exact ⟨library, rfl⟩
    | error e =>
      obtain ⟨-, op, -, -, -, hspoils⟩ := load_eq_error_iff.mp hload
      obtain ⟨entry, hok⟩ := Entry.exists_load_eq_ok_iff.mpr (h op)
      cases hok.symm.trans (Entry.load_eq_error_iff.mpr hspoils)

/-- The entry of an operator is settled by its own file and by the last program put in its place. -/
theorem get_replaceAll_congr {read other : Reader} {library otherLibrary : Library} {op : Operator}
    {replacements otherReplacements : List (Operator × Program)}
    (h : load read folder = .ok library) (g : load other folder = .ok otherLibrary)
    (hfile : other (op.path folder) = read (op.path folder))
    (hlast : otherReplacements.reverse.lookup op = replacements.reverse.lookup op) :
    (otherLibrary.replaceAll otherReplacements).get op =
      (library.replaceAll replacements).get op := by
  have hentry : otherLibrary.get op = library.get op := by
    have hother := Entry.load_eq_ok_iff.mpr (load_eq_ok_iff.mp g op)
    have hown := Entry.load_eq_ok_iff.mpr (load_eq_ok_iff.mp h op)
    unfold Entry.load at hother hown
    rw [hfile, hown] at hother
    exact (Except.ok.inj hother).symm
  rw [get_replaceAll, get_replaceAll, hlast, hentry]

/-- How the operators are kept apart when a library is read from a folder and programs are put in
the place of others. -/
structure KeepsApart (read : Reader) (folder : String) : Prop where
  loads_iff : (∃ library, load read folder = .ok library) ↔
    ∀ op : Operator, op.Loadable read folder
  fails_iff : ∀ e, load read folder = .error e ↔
    ∃ before op after, Operator.all = before ++ op :: after ∧
      (∀ earlier ∈ before, Operator.Loadable read folder earlier) ∧
      Operator.Spoils read folder op e
  entries : ∀ library, load read folder = .ok library →
    ∀ (replacements : List (Operator × Program)) (op : Operator),
      op.Supplies read folder replacements ((library.replaceAll replacements).get op)
  evaluations : ∀ library, load read folder = .ok library →
    ∀ other otherLibrary, load other folder = .ok otherLibrary →
    ∀ op : Operator, other (op.path folder) = read (op.path folder) →
    ∀ replacements otherReplacements : List (Operator × Program),
      otherReplacements.reverse.lookup op = replacements.reverse.lookup op →
    ∀ config fuel a b,
      (Calculator.withLibrary config (otherLibrary.replaceAll otherReplacements)).evaluate fuel
          .eightBit op a b =
        (Calculator.withLibrary config (library.replaceAll replacements)).evaluate fuel
          .eightBit op a b
  tables : Tables.load read folder = (load read folder).map tables
  tables_entries : ∀ library, load read folder = .ok library →
    ∀ replacements : List (Operator × Program), ∃ rows,
      replacements.foldlM Tables.replace? library.tables = some rows ∧
      ∀ op, rows.get? op = some ((library.replaceAll replacements).get op)

theorem keepsApart (read : Reader) (folder : String) : KeepsApart read folder where
  loads_iff := exists_load_eq_ok_iff
  fails_iff _ := load_eq_error_iff
  entries _ h := supplies_replaceAll h
  evaluations library h other otherLibrary g op hfile replacements otherReplacements hlast config
      fuel a b := by
    have hget := get_replaceAll_congr h g hfile hlast
    simp only [Calculator.evaluate, Calculator.evaluateEightBit, Calculator.withLibrary, hget]
  tables := load_tables read folder
  tables_entries library _ replacements :=
    ⟨_, library.foldlM_replace?_tables replacements, fun op => get?_tables _ op⟩

/-- Whatever the files of the five operators give, a library is loaded from them if and only if each
of them can be, and else the first that cannot be decides. The entry of an operator, and what it
comes to on the tape, is settled by its own file and by the last program put in its place. -/
theorem load_keepsApart (folder : String) :
    (∀ outcomes : Operator → Except ReadError String,
      ∃ read : Reader, ∀ op : Operator, read (op.path folder) = outcomes op) ∧
    ∀ read : Reader, KeepsApart read folder :=
  ⟨Operator.exists_reader folder, fun read => keepsApart read folder⟩

/-- A file that is no program decides, though none of those before it is there. -/
example : load (fun path => if path = "bf/power.bf" then .ok "+]" else .error .notFound) "bf" =
    .error (.malformed "bf/power.bf" (.unmatchedEnd 1)) := by decide +kernel

end Library

end TapeCalc
